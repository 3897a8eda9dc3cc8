import Pgx.Conn.State
import Pgx.Go.Base64

/-!
# SCRAM-SHA-256 and SCRAM-SHA-256-PLUS, the client

Hash functions are parameters; their output lengths are part of their types.
Base 64 and the number formats are the library's own.
-/
namespace Pgx.Connect

open Pgx.Go Pgx.Wire Pgx.Conn Pgx.Effect

abbrev Digest (n : Nat) := { b : Bytes // b.length = n }

structure Crypto where
  sha256 : Bytes → Digest 32
  sha384 : Bytes → Digest 48
  sha512 : Bytes → Digest 64
  md5 : Bytes → Digest 16
  /-- HMAC with SHA-256, of a key and a message. -/
  hmac : Bytes → Bytes → Digest 32
  /-- The 32-byte PBKDF2 key with SHA-256, of a password, a salt and an iteration count. -/
  pbkdf2 : Bytes → Bytes → Nat → Digest 32

def clientNonceLen : Nat := 18

def scramSHA256Name : Bytes := ascii "SCRAM-SHA-256"

def scramSHA256PlusName : Bytes := ascii "SCRAM-SHA-256-PLUS"

/-- A byte string as an operand of an error text. -/
def operand (b : Bytes) : String := String.ofList (b.map fun c => Char.ofNat c.toNat)

inductive SignatureAlgorithm where
  | unknownSignatureAlgorithm
  | md2WithRSA
  | md5WithRSA
  | sha1WithRSA
  | sha256WithRSA
  | sha384WithRSA
  | sha512WithRSA
  | dsaWithSHA1
  | dsaWithSHA256
  | ecdsaWithSHA1
  | ecdsaWithSHA256
  | ecdsaWithSHA384
  | ecdsaWithSHA512
  | sha256WithRSAPSS
  | sha384WithRSAPSS
  | sha512WithRSAPSS
  | pureEd25519
  deriving DecidableEq, Repr

structure Certificate where
  signatureAlgorithm : SignatureAlgorithm
  raw : Bytes
  deriving DecidableEq

/-- The server certificate hash of the tls-server-end-point channel binding. -/
def getTLSCertificateHash (k : Crypto) (peerCertificates : List Certificate) : Except Error Bytes :=
  match peerCertificates with
  | [] => .error (.new "no peer certificates for channel binding")
  | cert :: _ =>
    match cert.signatureAlgorithm with
    | .md5WithRSA | .sha1WithRSA | .ecdsaWithSHA1 => .ok (k.sha256 cert.raw).1
    | .sha256WithRSA | .sha256WithRSAPSS | .ecdsaWithSHA256 => .ok (k.sha256 cert.raw).1
    | .sha384WithRSA | .sha384WithRSAPSS | .ecdsaWithSHA384 => .ok (k.sha384 cert.raw).1
    | .sha512WithRSA | .sha512WithRSAPSS | .ecdsaWithSHA512 => .ok (k.sha512 cert.raw).1
    | algorithm => .error (.errorf
        "tls-server-end-point channel binding is undefined for certificate signature algorithm %v"
        [toString (repr algorithm)])

/-! ## The client -/

structure ScramClient where
  serverAuthMechanisms : List Bytes
  password : Bytes
  clientNonce : Bytes
  authMechanism : Bytes := scramSHA256Name
  hasTLS : Bool := false
  channelBindingData : Option Bytes := none
  clientFirstMessageBare : Bytes := []
  clientGS2Header : Bytes := []
  serverFirstMessage : Bytes := []
  clientAndServerNonce : Bytes := []
  salt : Bytes := []
  iterations : Int := 0
  saltedPassword : Bytes := []
  authMessage : Bytes := []

/-- What is called outside the driver during a connection attempt. -/
structure Platform where
  env : Env
  crypto : Crypto
  /-- The random bytes read at this point of the conversation. -/
  rand : List Event → Except Error (Digest clientNonceLen)
  /-- The password profile of the precis package, `none` for a password that it rejects. -/
  opaqueString : Bytes → Option Bytes

/-- PostgreSQL allows passwords invalid according to SCRAM / SASLprep. -/
def Platform.prepare (p : Platform) (password : Bytes) : Bytes :=
  (p.opaqueString password).getD password

def newScramClient (p : Platform) (wire : List Event) (serverAuthMechanisms : List Bytes)
    (password : Bytes) : Except Error ScramClient :=
  if scramSHA256Name ∉ serverAuthMechanisms then
    .error (.new "server does not support SCRAM-SHA-256")
  else match p.rand wire with
    | .error err => .error err
    | .ok buf => .ok
        { serverAuthMechanisms
          password := p.prepare password
          clientNonce := Base64.encode false buf.1 }

namespace ScramClient

def gs2Header (sc : ScramClient) : Bytes :=
  if sc.authMechanism = scramSHA256PlusName then ascii "p=tls-server-end-point,,"
  else if sc.hasTLS then ascii "y,,"
  else ascii "n,,"

/-- The message, and the client that remembers its parts. -/
def clientFirstMessage (sc : ScramClient) : Bytes × ScramClient :=
  let bare := ascii "n=,r=" ++ sc.clientNonce
  (sc.gs2Header ++ bare, { sc with clientFirstMessageBare := bare, clientGS2Header := sc.gs2Header })

def maxScramIterations : Int := 10000000

def invalidFirst (missing : String) : Error :=
  .new ("invalid SCRAM server-first-message received from server: did not include " ++ missing)

/-- The attributes of the server-first-message: nonce, salt and iteration count as texts. -/
def splitServerFirst (buf : Bytes) : Except Error (Bytes × Bytes × Bytes) :=
  if !(ascii "r=").isPrefixOf buf then .error (invalidFirst "r=")
  else
    let buf := buf.drop 2
    match indexByte comma buf with
    | none => .error (invalidFirst "s=")
    | some idx =>
      let nonce := buf.take idx
      let buf := buf.drop (idx + 1)
      if !(ascii "s=").isPrefixOf buf then .error (invalidFirst "s=")
      else
        let buf := buf.drop 2
        match indexByte comma buf with
        | none => .error (invalidFirst "i=")
        | some idx =>
          let saltStr := buf.take idx
          let buf := buf.drop (idx + 1)
          if !(ascii "i=").isPrefixOf buf then .error (invalidFirst "i=")
          else .ok (nonce, saltStr, buf.drop 2)

/-- The iteration count; zero and less are refused without a cause. -/
def parseIterations (s : Bytes) : Except Error Int :=
  let invalid := Error.wrap "invalid SCRAM iteration count received from server: %w"
  match atoi s with
  | .error .errSyntax =>
    .error (invalid (some (.errorf "strconv.Atoi: parsing %q: invalid syntax" [operand s])))
  | .error .errRange =>
    .error (invalid (some (.errorf "strconv.Atoi: parsing %q: value out of range" [operand s])))
  | .ok n =>
    if n ≤ 0 then .error (invalid none)
    else if n > maxScramIterations then
      .error (.errorf "SCRAM iteration count from server too high: %d (max %d)"
        [toString n, toString maxScramIterations])
    else .ok n

def recvServerFirstMessage (sc : ScramClient) (serverFirstMessage : Bytes) :
    Except Error ScramClient :=
  match splitServerFirst serverFirstMessage with
  | .error err => .error err
  | .ok (nonce, saltStr, iterationsStr) =>
    match Base64.decodeString saltStr with
    | none => .error (.wrapf "invalid SCRAM salt received from server: %w"
        (.new "illegal base64 data"))
    | some salt =>
      match parseIterations iterationsStr with
      | .error err => .error err
      | .ok iterations =>
        if !sc.clientNonce.isPrefixOf nonce then
          .error (.new "invalid SCRAM nonce: did not start with client nonce")
        else if nonce.length ≤ sc.clientNonce.length then
          .error (.new "invalid SCRAM nonce: did not include server nonce")
        else .ok { sc with serverFirstMessage, clientAndServerNonce := nonce, salt, iterations }

end ScramClient

def xorBytes (a b : Bytes) : Bytes := List.zipWith (· ^^^ ·) a b

/-- Both operands of the exclusive or have the length of a digest. -/
def computeClientProof (k : Crypto) (saltedPassword authMessage : Bytes) : Bytes :=
  let clientKey := k.hmac saltedPassword (ascii "Client Key")
  let storedKey := k.sha256 clientKey.1
  let clientSignature := k.hmac storedKey.1 authMessage
  Base64.encode true (xorBytes clientKey.1 clientSignature.1)

def computeServerSignature (k : Crypto) (saltedPassword authMessage : Bytes) : Bytes :=
  let serverKey := k.hmac saltedPassword (ascii "Server Key")
  Base64.encode true (k.hmac serverKey.1 authMessage).1

namespace ScramClient

def channelBindInput (sc : ScramClient) : Bytes :=
  if sc.authMechanism = scramSHA256PlusName then sc.clientGS2Header ++ sc.channelBindingData.getD []
  else sc.clientGS2Header

def clientFinalMessageWithoutProof (sc : ScramClient) : Bytes :=
  ascii "c=" ++ Base64.encode true sc.channelBindInput ++ ascii ",r=" ++ sc.clientAndServerNonce

/-- The message, and the client that remembers what the server signs. -/
def clientFinalMessage (k : Crypto) (sc : ScramClient) : Bytes × ScramClient :=
  let saltedPassword := (k.pbkdf2 sc.password sc.salt sc.iterations.toNat).1
  let authMessage := sc.clientFirstMessageBare ++ [comma] ++ sc.serverFirstMessage ++ [comma] ++
    sc.clientFinalMessageWithoutProof
  (sc.clientFinalMessageWithoutProof ++ ascii ",p=" ++
    computeClientProof k saltedPassword authMessage,
    { sc with saltedPassword, authMessage })

def recvServerFinalMessage (k : Crypto) (sc : ScramClient) (serverFinalMessage : Bytes) :
    Except Error Unit :=
  if !(ascii "v=").isPrefixOf serverFinalMessage then
    .error (.new "invalid SCRAM server-final-message received from server")
  else if serverFinalMessage.drop 2 ≠ computeServerSignature k sc.saltedPassword sc.authMessage then
    .error (.new "invalid SCRAM ServerSignature received from server")
  else .ok ()

end ScramClient

def rxSASLContinue (env : Env) : Op Bytes := do
  let msg ← receiveMessage env
  match msg with
  | .authenticationSASLContinue data => pure data
  | .errorResponse err => throw (.pgError err)
  | _ => throw (.errorf
      "expected AuthenticationSASLContinue message but received unexpected message %T" [msg.typeName])

def rxSASLFinal (env : Env) : Op Bytes := do
  let msg ← receiveMessage env
  match msg with
  | .authenticationSASLFinal data => pure data
  | .errorResponse err => throw (.pgError err)
  | _ => throw (.errorf
      "expected AuthenticationSASLFinal message but received unexpected message %T" [msg.typeName])

/-- The settings of SCRAM: `tls` holds the peer certificates when the connection is a TLS one. -/
structure ScramConfig where
  password : Bytes
  channelBinding : String
  tls : Option (List Certificate)

/-- Extract the server certificate hash and upgrade to SCRAM-SHA-256-PLUS if possible. -/
def bindChannel (k : Crypto) (cfg : ScramConfig) (sc : ScramClient) : Except Error ScramClient :=
  match cfg.tls with
  | none => .ok sc
  | some certs =>
    if cfg.channelBinding = "disable" then .ok sc
    else
      match getTLSCertificateHash k certs with
      | .error err =>
        if cfg.channelBinding = "require" then .error (.wrapf
          "channel binding required but failed to get server certificate hash: %w" err)
        else .ok { sc with hasTLS := true }
      | .ok certHash => .ok
          { sc with
            authMechanism :=
              if scramSHA256PlusName ∈ sc.serverAuthMechanisms then scramSHA256PlusName
              else sc.authMechanism
            channelBindingData := some certHash
            hasTLS := true }

def startScram (p : Platform) (cfg : ScramConfig) (wire : List Event)
    (serverAuthMechanisms : List Bytes) : Except Error ScramClient :=
  match newScramClient p wire serverAuthMechanisms cfg.password with
  | .error err => .error err
  | .ok sc =>
    if cfg.channelBinding = "require" ∧ scramSHA256PlusName ∉ sc.serverAuthMechanisms then
      .error (.new "channel binding required but server does not support SCRAM-SHA-256-PLUS")
    else match bindChannel p.crypto cfg sc with
      | .error err => .error err
      | .ok sc =>
        if cfg.channelBinding = "require" ∧ sc.channelBindingData = none then
          .error (.new "channel binding required but channel binding data is not available")
        else .ok sc

/-- The conversation, once the mechanism is chosen. -/
def converse (p : Platform) (sc : ScramClient) : Op Unit := do
  send (.saslInitialResponse sc.authMechanism sc.clientFirstMessage.1)
  writeBuffer p.env
  let serverFirst ← rxSASLContinue p.env
  let sc ← ofExcept (sc.clientFirstMessage.2.recvServerFirstMessage serverFirst)
  send (.saslResponse (sc.clientFinalMessage p.crypto).1)
  writeBuffer p.env
  let serverFinal ← rxSASLFinal p.env
  ofExcept ((sc.clientFinalMessage p.crypto).2.recvServerFinalMessage p.crypto serverFinal)

def scramAuth (p : Platform) (cfg : ScramConfig) (serverAuthMechanisms : List Bytes) : Op Unit := do
  let c ← get
  let sc ← ofExcept (startScram p cfg c.wire serverAuthMechanisms)
  converse p sc

/-- The client before the channel binding is settled. -/
def freshClient (p : Platform) (cfg : ScramConfig) (ms : List Bytes) (buf : Digest clientNonceLen) :
    ScramClient where
  serverAuthMechanisms := ms
  password := p.prepare cfg.password
  clientNonce := Base64.encode false buf.1

/-- The ways in which the channel binding is settled. -/
inductive Settled (k : Crypto) (cfg : ScramConfig) (sc : ScramClient) : ScramClient → Prop where
  | off (h : cfg.tls = none ∨ cfg.channelBinding = "disable") : Settled k cfg sc sc
  | noHash {certs : List Certificate} {err : Error} (htls : cfg.tls = some certs)
      (hdis : cfg.channelBinding ≠ "disable") (hreq : cfg.channelBinding ≠ "require")
      (hhash : getTLSCertificateHash k certs = .error err) :
      Settled k cfg sc { sc with hasTLS := true }
  | hash {certs : List Certificate} {certHash : Bytes} (htls : cfg.tls = some certs)
      (hdis : cfg.channelBinding ≠ "disable")
      (hhash : getTLSCertificateHash k certs = .ok certHash) :
      Settled k cfg sc
        { sc with
          authMechanism :=
            if scramSHA256PlusName ∈ sc.serverAuthMechanisms then scramSHA256PlusName
            else sc.authMechanism
          channelBindingData := some certHash
          hasTLS := true }

theorem bindChannel_settled {k : Crypto} {cfg : ScramConfig} {sc sc' : ScramClient}
    (h : bindChannel k cfg sc = .ok sc') : Settled k cfg sc sc' := by
  unfold bindChannel at h
  cases htls : cfg.tls with
  | none =>
    rw [htls] at h
    obtain rfl := Except.ok.inj h
    exact .off (.inl htls)
  | some certs =>
    rw [htls] at h
    dsimp only at h
    by_cases hdis : cfg.channelBinding = "disable"
    · rw [if_pos hdis] at h
      obtain rfl := Except.ok.inj h
      exact .off (.inr hdis)
    · rw [if_neg hdis] at h
      cases hhash : getTLSCertificateHash k certs with
      | ok certHash =>
        rw [hhash] at h
        obtain rfl := Except.ok.inj h
        exact .hash htls hdis hhash
      | error err =>
        rw [hhash] at h
        dsimp only at h
        by_cases hreq : cfg.channelBinding = "require"
        · rw [if_pos hreq] at h
          cases h
        · rw [if_neg hreq] at h
          obtain rfl := Except.ok.inj h
          exact .noHash htls hdis hreq hhash

/-- A client that starts was offered SCRAM, and has what the setting requires. -/
theorem startScram_ok {p : Platform} {cfg : ScramConfig} {wire : List Event} {ms : List Bytes}
    {sc : ScramClient} (h : startScram p cfg wire ms = .ok sc) : scramSHA256Name ∈ ms ∧
    (∃ buf, p.rand wire = .ok buf ∧ Settled p.crypto cfg (freshClient p cfg ms buf) sc) ∧
    (cfg.channelBinding = "require" → scramSHA256PlusName ∈ ms ∧ sc.channelBindingData ≠ none) := by
  unfold startScram newScramClient at h
  by_cases hname : scramSHA256Name ∈ ms
  · rw [if_neg (not_not_intro hname)] at h
    cases hrand : p.rand wire with
    | error err =>
      rw [hrand] at h
      cases h
    | ok buf =>
      rw [hrand] at h
      dsimp only at h
      by_cases hplus : cfg.channelBinding = "require" ∧ scramSHA256PlusName ∉ ms
      · rw [if_pos hplus] at h
        cases h
      · rw [if_neg hplus] at h
        cases hb : bindChannel p.crypto cfg (freshClient p cfg ms buf) with
        | error err =>
          unfold freshClient at hb
          rw [hb] at h
          cases h
        | ok sc' =>
          have hs := bindChannel_settled hb
          unfold freshClient at hb
          rw [hb] at h
          dsimp only at h
          by_cases hdata : cfg.channelBinding = "require" ∧ sc'.channelBindingData = none
          · rw [if_pos hdata] at h
            cases h
          · rw [if_neg hdata] at h
            obtain rfl := Except.ok.inj h
            refine ⟨hname, ⟨buf, rfl, hs⟩, fun hreq => ⟨?_, fun hn => hdata ⟨hreq, hn⟩⟩⟩
            by_contra hno
            exact hplus ⟨hreq, hno⟩
  · rw [if_pos hname] at h
    cases h

end Pgx.Connect
