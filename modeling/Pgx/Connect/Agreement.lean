import Pgx.Connect.ScramServer

/-!
# The SCRAM client and the server agree

A client that starts and a server that holds the keys of the same password: the
server accepts the last message of the client, and the client accepts the
server's answer to it and nothing else. What can go wrong between them is the
channel binding flag.
-/
namespace Pgx.Connect

open Pgx.Go Pgx.Wire Pgx.Conn Pgx.Effect ScramClient RfcServer

/-- A connection on which a conversation can begin. -/
structure Quiet (env : Env) (c : PgConn) : Prop where
  isOpen : c.status ≠ .closed
  nothingPeeked : c.peekedMsg = none
  nothingBuffered : c.wbuf = []
  writes : ∀ wire msgs, env.write wire msgs = none

/-- The connection after it has sent `req` and read `resp`, with `rest` left to read. -/
def answered (c : PgConn) (req : FrontendMessage) (resp : BackendMessage) (rest : List Incoming) :
    PgConn :=
  { c with inbox := rest, wire := c.wire ++ [.sent req, .received resp] }

section

variable {env : Env} {c : PgConn} (h : Quiet env c)

include h

theorem Quiet.answered (req : FrontendMessage)
    (resp : BackendMessage) (rest : List Incoming) : Quiet env (Connect.answered c req resp rest) :=
  { isOpen := h.isOpen
    nothingPeeked := h.nothingPeeked
    nothingBuffered := h.nothingBuffered
    writes := h.writes }

theorem Quiet.withInbox (inbox : List Incoming) :
    Quiet env { c with inbox } :=
  { isOpen := h.isOpen
    nothingPeeked := h.nothingPeeked
    nothingBuffered := h.nothingBuffered
    writes := h.writes }

/-- A request and the reading of its answer, when the answer is there. -/
theorem ask_answered (req : FrontendMessage)
    {resp : BackendMessage} {rest : List Incoming} (hinbox : c.inbox = .message resp :: rest)
    (hnote : noteMessage env resp = pure ()) {α β : Type} (f : BackendMessage → Op α) (g : α → Op β) :
    (do
      send req
      writeBuffer env
      let a ← receiveMessage env >>= f
      g a : Op β) c = (f resp >>= g) (answered c req resp rest) := by
  obtain ⟨peer, inbox, wire, wbuf, pid, secretKey, statuses, txStatus, status,
      peeked, rr, mrr, pl⟩ := c
  obtain ⟨hopen, hpeek, hbuf, hwrites⟩ := h
  subst hpeek hbuf hinbox
  simp [send, writeBuffer, receiveMessage, peekMessage, get_bind, set_bind, modify_bind, hwrites,
    hopen, hnote, answered]

end

section Conversation

variable {p : Platform} {cfg : ScramConfig} {ms : List Bytes} {c : PgConn} {sc sc' : ScramClient}
  {m : Bytes} {Q : Unit → PgConn → Prop} {E : Error → PgConn → Prop}

/-- The connection when the last message is about to be sent. -/
def firstAnswered (sc : ScramClient) (c : PgConn) (m : Bytes) (rest : List Incoming) :
    PgConn :=
  answered c (.saslInitialResponse sc.authMechanism sc.clientFirstMessage.1)
    (.authenticationSASLContinue m) rest

section

variable (h : Quiet p.env c) (hstart : startScram p cfg c.wire ms = .ok sc)

include h hstart

/-- A conversation whose first answer is there, up to that answer. -/
theorem wp_scramAuth_first
    {rest : List Incoming} :
    wp (scramAuth p cfg ms) Q E
        { c with inbox := .message (.authenticationSASLContinue m) :: rest } ↔
      match sc.clientFirstMessage.2.recvServerFirstMessage m with
      | .error err => E err (firstAnswered sc c m rest)
      | .ok sc' => wp (do
          send (.saslResponse (sc'.clientFinalMessage p.crypto).1)
          writeBuffer p.env
          let serverFinal ← rxSASLFinal p.env
          ofExcept ((sc'.clientFinalMessage p.crypto).2.recvServerFinalMessage p.crypto serverFinal))
          Q E (firstAnswered sc c m rest) := by
  have hq := h.withInbox (.message (.authenticationSASLContinue m) :: rest)
  unfold scramAuth
  simp only [wp_bind, wp_get, wp_ofExcept, hstart]
  unfold converse rxSASLContinue wp
  rw [ask_answered hq _ rfl rfl]
  cases hrecv : sc.clientFirstMessage.2.recvServerFirstMessage m with
  | error err =>
    simp only [pure_bind, hrecv]
    rfl
  | ok sc' =>
    simp only [pure_bind, hrecv]
    rfl

/-- A server whose first message does not extend the client's nonce is not accepted. -/
theorem scramAuth_nonce
    {rest : List Incoming} {d : PgConn}
    (hrun : scramAuth p cfg ms
      { c with inbox := .message (.authenticationSASLContinue m) :: rest } = .ok () d) :
    ∃ suffix tail, suffix ≠ [] ∧ comma ∉ suffix ∧
    m = ascii "r=" ++ (sc.clientNonce ++ suffix) ++ comma :: tail := by
  cases hrecv : sc.clientFirstMessage.2.recvServerFirstMessage m with
  | ok sc' =>
    -- sending the first message leaves the client's nonce as it was
    obtain ⟨suffix, tail, hne, hcomma, hm⟩ := recvServerFirstMessage_nonce hrecv
    exact ⟨suffix, tail, hne, hcomma, hm⟩
  | error err =>
    have hwp : wp (scramAuth p cfg ms) never (fun _ _ => True)
        { c with inbox := .message (.authenticationSASLContinue m) :: rest } := by
      rw [wp_scramAuth_first h hstart, hrecv]
      trivial
    exact (wp_of_ok hwp hrun).elim

/-- A conversation whose answers are both there: it succeeds when the last one is the
server's signature, and what went over the wire does not depend on that. -/
theorem scramAuth_answers
    (hrecv : sc.clientFirstMessage.2.recvServerFirstMessage m = .ok sc') (v : Bytes)
    (rest : List Incoming) {wire : List Event}
    (hwire : wire = c.wire ++ [.sent (.saslInitialResponse sc.authMechanism sc.clientFirstMessage.1),
        .received (.authenticationSASLContinue m),
        .sent (.saslResponse (sc'.clientFinalMessage p.crypto).1),
        .received (.authenticationSASLFinal v)])
    {final : Bytes}
    (hfinal : final = ascii "v=" ++ computeServerSignature p.crypto
      (sc'.clientFinalMessage p.crypto).2.saltedPassword
      (sc'.clientFinalMessage p.crypto).2.authMessage) :
    wp (scramAuth p cfg ms) (fun _ d => v = final ∧ d.wire = wire)
      (fun _ d => v ≠ final ∧ d.wire = wire)
      { c with inbox := .message (.authenticationSASLContinue m) ::
          .message (.authenticationSASLFinal v) :: rest } := by
  rw [wp_scramAuth_first h hstart, hrecv]
  dsimp only
  have hq : Quiet p.env (firstAnswered sc c m (.message (.authenticationSASLFinal v) :: rest)) :=
    h.answered _ _ _
  have hw : (answered (firstAnswered sc c m (.message (.authenticationSASLFinal v) :: rest))
      (.saslResponse (sc'.clientFinalMessage p.crypto).1) (.authenticationSASLFinal v) rest).wire =
      wire := by
    rw [hwire]
    simp [firstAnswered, answered]
  unfold rxSASLFinal wp
  rw [ask_answered hq _ rfl rfl]
  have hiff := recvServerFinalMessage_eq p.crypto (sc'.clientFinalMessage p.crypto).2 v
  rw [← hfinal] at hiff
  cases hres : (sc'.clientFinalMessage p.crypto).2.recvServerFinalMessage p.crypto v with
  | ok u =>
    simp only [pure_bind, hres]
    exact ⟨hiff.mp hres, hw⟩
  | error err =>
    simp only [pure_bind, hres]
    refine ⟨fun hv => ?_, hw⟩
    have hok := hiff.mpr hv
    rw [hres] at hok
    cases hok

end

end Conversation

/-! ## The two sides -/

/-- The server is at the other end of the client's own TLS connection. -/
def SameChannel (k : Crypto) (cfg : ScramConfig) (srv : RfcServer) : Prop :=
  ∀ certs hash, cfg.tls = some certs → getTLSCertificateHash k certs = .ok hash →
    ∀ data, srv.binding = some data → data = hash

/-- The client uses TLS and has channel binding on, yet cannot compute the certificate
hash, and says so to a server that supports channel binding. -/
def Mistaken (k : Crypto) (cfg : ScramConfig) (srv : RfcServer) : Prop :=
  cfg.channelBinding ≠ "disable" ∧ srv.binding.isSome ∧
    ∃ certs err, cfg.tls = some certs ∧ getTLSCertificateHash k certs = .error err

section Agreement

variable {p : Platform} {cfg : ScramConfig} {srv : RfcServer} {wire : List Event} {sc : ScramClient}
  {salt : Bytes} {iterations : Nat}

theorem plus_mem_mechanisms : scramSHA256PlusName ∈ srv.mechanisms ↔ srv.binding.isSome := by
  unfold mechanisms
  have hne : scramSHA256PlusName ≠ scramSHA256Name := by decide
  cases hb : srv.binding.isSome <;> simp [hne]

/-- A client that has started has a nonce without a comma, and the password of its user. -/
theorem startScram_fresh {ms : List Bytes} (h : startScram p cfg wire ms = .ok sc) :
    comma ∉ sc.clientNonce ∧ sc.password = p.prepare cfg.password := by
  obtain ⟨-, ⟨buf, -, hset⟩, -⟩ := startScram_ok h
  have hfree : comma ∉ (freshClient p cfg ms buf).clientNonce := fun hm =>
    (Base64.mem_encode hm).2.2 rfl
  cases hset with
  | off _ => exact ⟨hfree, rfl⟩
  | noHash _ _ _ _ => exact ⟨hfree, rfl⟩
  | hash _ _ _ => exact ⟨hfree, rfl⟩

/-- The flag that the client sends fits the server, but for a mistaken client. -/
theorem negotiate_session (h : startScram p cfg wire srv.mechanisms = .ok sc) :
    srv.negotiate sc.authMechanism sc.session = true ↔ ¬ Mistaken p.crypto cfg srv := by
  obtain ⟨-, ⟨buf, -, hset⟩, -⟩ := startScram_ok h
  have hne : scramSHA256Name ≠ scramSHA256PlusName := by decide
  have hyn : ascii "y" ≠ ascii "n" := by decide
  have hpn : ascii "p=tls-server-end-point" ≠ ascii "n" := by decide
  have hpy : ascii "p=tls-server-end-point" ≠ ascii "y" := by decide
  cases hset with
  | off hoff =>
    have hm : ¬ Mistaken p.crypto cfg srv := by
      rintro ⟨hdis, -, certs, err, htls, -⟩
      rcases hoff with hnone | hd
      · rw [hnone] at htls
        cases htls
      · exact hdis hd
    simp [negotiate, session, cbindFlag, freshClient, hne, hm]
  | noHash htls hdis hreq hhash =>
    have hm : Mistaken p.crypto cfg srv ↔ srv.binding.isSome = true :=
      ⟨fun hm => hm.2.1, fun hb => ⟨hdis, hb, _, _, htls, hhash⟩⟩
    rw [hm]
    simp [negotiate, session, cbindFlag, freshClient, hne, hyn]
  | hash htls hdis hhash =>
    have hm : ¬ Mistaken p.crypto cfg srv := by
      rintro ⟨-, -, certs, err, htls', hhash'⟩
      rw [htls] at htls'
      obtain rfl := Option.some.inj htls'
      rw [hhash] at hhash'
      cases hhash'
    by_cases hb : srv.binding.isSome = true
    · have hmem : scramSHA256PlusName ∈ srv.mechanisms := plus_mem_mechanisms.mpr hb
      simp [negotiate, session, cbindFlag, freshClient, hmem, hpn, hpy, hb, hm]
    · have hmem : scramSHA256PlusName ∉ srv.mechanisms := fun h => hb (plus_mem_mechanisms.mp h)
      have hnone : srv.binding = none := by simpa using hb
      simp [negotiate, session, cbindFlag, freshClient, hmem, hne, hyn, hnone, hm]

/-- The client and the server have the same channel binding input. -/
theorem cbindInput_session (hchannel : SameChannel p.crypto cfg srv)
    (h : startScram p cfg wire srv.mechanisms = .ok sc) :
    sc.clientFirstMessage.2.channelBindInput = srv.cbindInput sc.session := by
  obtain ⟨-, ⟨buf, -, hset⟩, -⟩ := startScram_ok h
  have hne : scramSHA256Name ≠ scramSHA256PlusName := by decide
  have hpn : ascii "p=tls-server-end-point" ≠ ascii "n" := by decide
  have hpy : ascii "p=tls-server-end-point" ≠ ascii "y" := by decide
  cases hset with
  | off _ | noHash _ _ _ _ =>
    simp [channelBindInput, RfcServer.cbindInput, session, cbindFlag, clientFirstMessage,
      freshClient, hne]
  | hash htls _ hhash =>
    cases hb : srv.binding with
    | none =>
      have hmem : scramSHA256PlusName ∉ srv.mechanisms := fun h => by
        simpa [hb] using plus_mem_mechanisms.mp h
      simp [channelBindInput, RfcServer.cbindInput, session, cbindFlag, clientFirstMessage,
        freshClient, hne, hmem]
    | some data =>
      have hmem : scramSHA256PlusName ∈ srv.mechanisms := plus_mem_mechanisms.mpr (by simp [hb])
      obtain rfl := hchannel _ _ htls hhash data hb
      simp [channelBindInput, RfcServer.cbindInput, session,
        cbindFlag, clientFirstMessage, freshClient, hmem, hpn, hpy, hb]

/-- The client after the first message of the server. -/
def ScramClient.told (sc : ScramClient) (srv : RfcServer) : ScramClient :=
  { sc.clientFirstMessage.2 with
    serverFirstMessage := srv.serverFirst sc.session
    clientAndServerNonce := srv.fullNonce sc.session
    salt := srv.user.salt
    iterations := srv.user.iterations }

theorem recvServerFirstMessage_serverFirst (hfree : comma ∉ sc.clientNonce)
    (hnonce : srv.nonce ≠ []) (hcomma : comma ∉ srv.nonce)
    (hpos : 1 ≤ srv.user.iterations) (hmax : srv.user.iterations ≤ 10000000) :
    sc.clientFirstMessage.2.recvServerFirstMessage (srv.serverFirst sc.session) = .ok
      (sc.told srv) := by
  have hfull : comma ∉ srv.fullNonce sc.session := by
    unfold fullNonce
    rw [List.mem_append]
    rintro (hm | hm)
    · exact hfree hm
    · exact hcomma hm
  have hsalt : comma ∉ Base64.encode true srv.user.salt := fun hm => (Base64.mem_encode hm).2.2 rfl
  have hp : sc.clientNonce.isPrefixOf (srv.fullNonce sc.session) = true :=
    List.isPrefixOf_iff_prefix.mpr (List.prefix_append _ _)
  have hlen : ¬ (srv.fullNonce sc.session).length ≤ sc.clientNonce.length := by
    have := List.length_pos_of_ne_nil hnonce
    simp only [fullNonce, session, List.length_append]
    omega
  unfold recvServerFirstMessage
  rw [serverFirst, splitServerFirst_append hfull hsalt]
  simp only [Base64.decodeString_encode, parseIterations_formatUint hpos hmax]
  have hcn : sc.clientFirstMessage.2.clientNonce = sc.clientNonce := rfl
  rw [hcn]
  simp only [hp, Bool.not_true, Bool.false_eq_true, if_false, if_neg hlen]
  rfl

/-- The parts of the client's last message, as the server reads them. -/
def ScramClient.finalParts (k : Crypto) (sc : ScramClient) (srv : RfcServer) : ClientFinal where
  cbindInput := (sc.told srv).channelBindInput
  nonce := srv.fullNonce sc.session
  proof := (sc.told srv).clientProof k
  withoutProof := (sc.told srv).clientFinalMessageWithoutProof

/-- The server undoes the exclusive or with its own signature and finds the client key. -/
theorem verifyProof_masked {k : Crypto} (clientKey : Digest 32) (msg : Bytes)
    (h : srv.user.storedKey = (k.sha256 clientKey.1).1) :
    srv.verifyProof k msg (xorBytes clientKey.1 (k.hmac (k.sha256 clientKey.1).1 msg).1) = true := by
  have hlen : clientKey.1.length = (k.hmac (k.sha256 clientKey.1).1 msg).1.length := by
    rw [clientKey.2, (k.hmac (k.sha256 clientKey.1).1 msg).2]
  unfold verifyProof
  simp only [h, decide_eq_true_eq]
  rw [xorBytes_xorBytes hlen]
  refine ⟨?_, rfl⟩
  rw [xorBytes, List.length_zipWith, ← hlen, clientKey.2]
  rfl

theorem verifyProof_clientProof (hpw : sc.password = p.prepare cfg.password)
    (huser : srv.user = credentials p.crypto (p.prepare cfg.password) salt iterations) :
    srv.verifyProof p.crypto (srv.authMessage sc.session (sc.finalParts p.crypto srv))
      ((sc.told srv).clientProof p.crypto) = true := by
  have hsalted : (p.crypto.pbkdf2 (sc.told srv).password (sc.told srv).salt
      (sc.told srv).iterations.toNat) = p.crypto.pbkdf2 (p.prepare cfg.password) salt iterations := by
    show p.crypto.pbkdf2 sc.password srv.user.salt srv.user.iterations = _
    rw [hpw, huser]
    rfl
  unfold clientProof
  rw [hsalted]
  apply verifyProof_masked
  rw [huser]
  rfl

/-- The server accepts the client's last message and answers with its signature. -/
theorem receiveFinal_clientFinalMessage (hchannel : SameChannel p.crypto cfg srv)
    (hcomma : comma ∉ srv.nonce)
    (huser : srv.user = credentials p.crypto (p.prepare cfg.password) salt iterations)
    (h : startScram p cfg wire srv.mechanisms = .ok sc) :
    parseFinal ((sc.told srv).clientFinalMessage p.crypto).1 = some (sc.finalParts p.crypto srv) ∧
    srv.receiveFinal p.crypto sc.session ((sc.told srv).clientFinalMessage p.crypto).1 =
      some (srv.serverFinal p.crypto (srv.authMessage sc.session (sc.finalParts p.crypto srv))) := by
  obtain ⟨hfree, hpw⟩ := startScram_fresh h
  have hfull : comma ∉ (sc.told srv).clientAndServerNonce := by
    show comma ∉ sc.clientNonce ++ srv.nonce
    rw [List.mem_append]
    rintro (hm | hm)
    · exact hfree hm
    · exact hcomma hm
  have hparse : parseFinal ((sc.told srv).clientFinalMessage p.crypto).1 = some
      (sc.finalParts p.crypto srv) :=
    parseFinal_clientFinalMessage p.crypto (sc.told srv) hfull
  refine ⟨hparse, ?_⟩
  have hcbind : (sc.finalParts p.crypto srv).cbindInput = srv.cbindInput sc.session := by
    have hinput := cbindInput_session hchannel h
    exact hinput
  have hverify := verifyProof_clientProof hpw huser
  unfold receiveFinal
  rw [hparse]
  simp only [Option.bind_eq_bind, Option.bind_some]
  rw [if_pos ⟨hcbind, rfl, hverify⟩]

theorem serverFinal_eq (hpw : sc.password = p.prepare cfg.password)
    (huser : srv.user = credentials p.crypto (p.prepare cfg.password) salt iterations) :
    srv.serverFinal p.crypto (srv.authMessage sc.session (sc.finalParts p.crypto srv)) =
      ascii "v=" ++ computeServerSignature p.crypto
        ((sc.told srv).clientFinalMessage p.crypto).2.saltedPassword
        ((sc.told srv).clientFinalMessage p.crypto).2.authMessage := by
  have hkey : srv.user.serverKey = (p.crypto.hmac (p.crypto.pbkdf2 (sc.told srv).password
      (sc.told srv).salt (sc.told srv).iterations.toNat).1 (ascii "Server Key")).1 := by
    show _ = (p.crypto.hmac (p.crypto.pbkdf2 sc.password srv.user.salt srv.user.iterations).1 _).1
    rw [hpw, huser]
    rfl
  unfold RfcServer.serverFinal
  rw [hkey]
  rfl

end Agreement

/-- A client that starts, and a server that holds the keys of its password. The server
takes the client's first message apart and accepts its last one, and refuses the whole
only to a mistaken client. The client accepts one last message, which is the server's;
the messages on the wire are the same whatever it is sent. Of first messages it accepts
only those whose nonce goes on where its own ends. -/
theorem scramAuth_agreement (p : Platform) (cfg : ScramConfig) (srv : RfcServer) (c : PgConn)
    (salt : Bytes) (iterations : Nat) (sc : ScramClient)
    (huser : srv.user = credentials p.crypto (p.prepare cfg.password) salt iterations)
    (hnonce : srv.nonce ≠ []) (hcomma : comma ∉ srv.nonce)
    (hpos : 1 ≤ iterations) (hmax : iterations ≤ 10000000)
    (hchannel : SameChannel p.crypto cfg srv) (hquiet : Quiet p.env c)
    (hstart : startScram p cfg c.wire srv.mechanisms = .ok sc) :
    ∃ (s : Session) (clientFinal : Bytes) (m : ClientFinal),
      parseFirst sc.clientFirstMessage.1 = some s ∧ s.clientNonce = sc.clientNonce ∧
      parseFinal clientFinal = some m ∧
      srv.receiveFinal p.crypto s clientFinal =
        some (srv.serverFinal p.crypto (srv.authMessage s m)) ∧
      (srv.accepts p.crypto sc.authMechanism sc.clientFirstMessage.1 clientFinal = true ↔
        ¬ Mistaken p.crypto cfg srv) ∧
      (∀ v rest wire,
        wire = c.wire ++
          [.sent (.saslInitialResponse sc.authMechanism sc.clientFirstMessage.1),
            .received (.authenticationSASLContinue (srv.serverFirst s)),
            .sent (.saslResponse clientFinal), .received (.authenticationSASLFinal v)] →
        wp (scramAuth p cfg srv.mechanisms)
          (fun _ d => v = srv.serverFinal p.crypto (srv.authMessage s m) ∧ d.wire = wire)
          (fun _ d => v ≠ srv.serverFinal p.crypto (srv.authMessage s m) ∧ d.wire = wire)
          { c with inbox := .message (.authenticationSASLContinue (srv.serverFirst s)) ::
              .message (.authenticationSASLFinal v) :: rest }) ∧
      (∀ first rest d,
        scramAuth p cfg srv.mechanisms
          { c with inbox := .message (.authenticationSASLContinue first) :: rest } = .ok () d →
        ∃ suffix tail, suffix ≠ [] ∧ comma ∉ suffix ∧
          first = ascii "r=" ++ (sc.clientNonce ++ suffix) ++ comma :: tail) := by
  obtain ⟨hfree, hpw⟩ := startScram_fresh hstart
  have hfirst := ScramClient.parseFirst_clientFirstMessage hfree
  obtain ⟨hparse, hfinal⟩ := receiveFinal_clientFinalMessage hchannel hcomma huser hstart
  have hrecv : sc.clientFirstMessage.2.recvServerFirstMessage (srv.serverFirst sc.session) =
      .ok (sc.told srv) := by
    apply recvServerFirstMessage_serverFirst hfree hnonce hcomma
    · rw [huser]
      exact hpos
    · rw [huser]
      exact hmax
  refine ⟨sc.session, ((sc.told srv).clientFinalMessage p.crypto).1, sc.finalParts p.crypto srv,
    hfirst, rfl, hparse, hfinal, ?_, ?_, ?_⟩
  · unfold RfcServer.accepts
    rw [hfirst]
    simp only [hfinal, Option.isSome_some, and_true, Bool.decide_eq_true]
    exact negotiate_session hstart
  · intro v rest wire hwire
    exact scramAuth_answers hquiet hstart hrecv v rest hwire (serverFinal_eq hpw huser)
  · intro first rest d hrun
    exact scramAuth_nonce hquiet hstart hrun

def scramSettings (channelBinding : String) (tls : Option (List Certificate)) : ScramConfig where
  password := ascii "secret"
  channelBinding
  tls

/-- A server that knows the password, with the given channel binding data. -/
def certifiedServer (binding : Option Bytes) : RfcServer where
  user := credentials sha256Crypto (ascii "secret")
    [0, 1, 2, 3, 4, 5, 6, 7, 8, 9, 10, 11, 12, 13, 14, 15] 1
  nonce := ascii "3rfcNHYJY1ZVvWVs7j"
  binding

def certificateHash : Bytes := Sha256.sum256 serverCertificate.raw

/-- A server with a certificate, bound to the channel -/
theorem scramAuth_agreement_certified :
    ∃ sc s clientFinal reply d,
      startScram scramPlatform.toPlatform (scramSettings "require" (some [serverCertificate])) []
        (certifiedServer (some certificateHash)).mechanisms = .ok sc ∧
      parseFirst sc.clientFirstMessage.1 = some s ∧
      (certifiedServer (some certificateHash)).accepts sha256Crypto sc.authMechanism
        sc.clientFirstMessage.1 clientFinal = true ∧
      (certifiedServer (some certificateHash)).receiveFinal sha256Crypto s clientFinal = some reply ∧
      scramAuth scramPlatform.toPlatform (scramSettings "require" (some [serverCertificate]))
        (certifiedServer (some certificateHash)).mechanisms
        (dialed [.message (.authenticationSASLContinue
            ((certifiedServer (some certificateHash)).serverFirst s)),
          .message (.authenticationSASLFinal reply)]) = .ok () d := by
  have hsame : SameChannel sha256Crypto (scramSettings "require" (some [serverCertificate]))
      (certifiedServer (some certificateHash)) := by
    intro certs hash htls hhash data hdata
    obtain rfl := Option.some.inj htls
    obtain rfl := Option.some.inj hdata
    exact Except.ok.inj hhash
  have hquiet : Quiet scramPlatform.env (dialed []) :=
    { isOpen := by decide
      nothingPeeked := rfl
      nothingBuffered := rfl
      writes := fun _ _ => rfl }
  have hright : ¬ Mistaken sha256Crypto (scramSettings "require" (some [serverCertificate]))
      (certifiedServer (some certificateHash)) := by
    rintro ⟨-, -, certs, err, htls, hhash⟩
    obtain rfl := Option.some.inj htls
    cases hhash
  obtain ⟨s, clientFinal, m, hfirst, -, -, hfinal, haccepts, hrun, -⟩ :=
    scramAuth_agreement scramPlatform.toPlatform (scramSettings "require" (some [serverCertificate]))
      (certifiedServer (some certificateHash)) (dialed []) _ 1 _ rfl (by decide)
        (by decide) (by decide)
      (by decide) hsame hquiet rfl
  have hrun := hrun ((certifiedServer (some certificateHash)).serverFinal sha256Crypto
    ((certifiedServer (some certificateHash)).authMessage s m)) [] _ rfl
  cases hres : scramAuth scramPlatform.toPlatform
      (scramSettings "require" (some [serverCertificate]))
      (certifiedServer (some certificateHash)).mechanisms
      (dialed [.message (.authenticationSASLContinue
          ((certifiedServer (some certificateHash)).serverFirst s)),
        .message (.authenticationSASLFinal ((certifiedServer (some certificateHash)).serverFinal
          sha256Crypto ((certifiedServer (some certificateHash)).authMessage s m)))]) with
  | error e d => exact absurd rfl (wp_of_error hrun hres).1
  | ok u d => exact ⟨_, s, clientFinal, _, d, rfl, hfirst, haccepts.mpr hright, hfinal, hres⟩

def ed25519Certificate : Certificate where
  signatureAlgorithm := .pureEd25519
  raw := ascii "certificate"

/-- A client that cannot hash the certificate is refused by a server with channel binding;
one that requires channel binding refuses a server without it. -/
theorem scramAuth_refused :
    (∃ sc, startScram scramPlatform.toPlatform
          (scramSettings "prefer" (some [ed25519Certificate])) []
          (certifiedServer (some certificateHash)).mechanisms = .ok sc ∧
        ∀ clientFinal, (certifiedServer (some certificateHash)).accepts sha256Crypto sc.authMechanism
          sc.clientFirstMessage.1 clientFinal = false) ∧
      ∀ c, ∃ err, scramAuth scramPlatform.toPlatform (scramSettings "require" none)
        (certifiedServer none).mechanisms c = .error err c := by
  constructor
  · cases hstart : startScram scramPlatform.toPlatform
        (scramSettings "prefer" (some [ed25519Certificate])) []
        (certifiedServer (some certificateHash)).mechanisms with
    | error err => cases hstart
    | ok sc =>
      have hmistaken : Mistaken sha256Crypto (scramSettings "prefer" (some [ed25519Certificate]))
          (certifiedServer (some certificateHash)) :=
        ⟨by decide, rfl, _, _, rfl, rfl⟩
      refine ⟨sc, rfl, fun clientFinal => ?_⟩
      have hno : (certifiedServer (some certificateHash)).negotiate sc.authMechanism sc.session =
          false := by
        rw [← Bool.not_eq_true, negotiate_session hstart]
        exact fun hn => hn hmistaken
      unfold RfcServer.accepts
      rw [ScramClient.parseFirst_clientFirstMessage (startScram_fresh hstart).1]
      simp [hno]
  · intro c
    exact ⟨_, rfl⟩

end Pgx.Connect
