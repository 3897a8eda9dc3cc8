import Pgx.Connect.Policy
import Pgx.Go.Sha256

/-!
# `channel_binding=require` against an arbitrary server

The setting is looked at inside SCRAM only. Where SCRAM runs it is enforced; a
server that asks for something else, or for nothing, does not meet it.
-/
namespace Pgx.Connect

open Pgx.Go Pgx.Wire Pgx.Conn Pgx.Effect List

variable {m : AuthMethod} {msg : BackendMessage} {es fs w : List Event} {ra : RequireAuth}

/-- With channel binding required, a client that starts binds to the certificate it was shown. -/
theorem startScram_require {p : Platform} {cfg : ScramConfig} {wire : List Event} {ms : List Bytes}
    {sc : ScramClient} (hcb : cfg.channelBinding = "require")
    (h : startScram p cfg wire ms = .ok sc) :
    ∃ certs hash, cfg.tls = some certs ∧ getTLSCertificateHash p.crypto certs = .ok hash ∧
      sc.authMechanism = scramSHA256PlusName ∧ sc.channelBindingData = some hash := by
  obtain ⟨-, ⟨buf, -, hs⟩, hreq⟩ := startScram_ok h
  obtain ⟨hplus, hdata⟩ := hreq hcb
  cases hs with
  | off h => exact absurd rfl hdata
  | noHash htls hdis hnot hhash => exact absurd hcb hnot
  | @hash certs certHash htls hdis hhash => exact ⟨certs, certHash, htls, hhash, if_pos hplus, rfl⟩

section Property

variable (p : ConnectPlatform) (cfg : Config) (tls : Option (List Certificate))

/-- A SCRAM-SHA-256-PLUS exchange that is bound to the server certificate and whose
server signature was verified. -/
def PlusVerified (es : List Event) : Prop :=
  ∃ ms wire sc certs hash pre mid post,
    es = pre ++ (.received (.authenticationSASL ms) :: mid) ++ post ∧
    startScram p.toPlatform (cfg.scramConfig tls) wire ms = .ok sc ∧
    tls = some certs ∧ getTLSCertificateHash p.crypto certs = .ok hash ∧
    sc.authMechanism = scramSHA256PlusName ∧ sc.channelBindingData = some hash ∧
    ScramRun p.crypto sc mid

def ended {α : Type} (r : EStateM.Result Error PgConn α) : PgConn :=
  match r with
  | .ok _ c => c
  | .error _ c => c

/-- A usable connection was made by such an exchange, and no attempt gives the password away. -/
def Bound (r : EStateM.Result Error PgConn Unit) : Prop :=
  (∀ c, r = .ok () c → ∃ es, EndsReady c.wire es ∧ PlusVerified p cfg tls es) ∧
    Silent (ended r).wire

/-- Before it is ready the server offers SASL mechanisms, and not to a client with an OAuth token.
-/
def ScramOffered (msgs : List Incoming) : Prop :=
  ∃ ms, .message (.authenticationSASL ms) ∈ beforeReady msgs ∧ cfg.usesOAuth ms = false

/-- Before it is ready the server asks for the password in a way that the policy permits. -/
def PasswordAsked (msgs : List Incoming) : Prop :=
  ∃ ra msg, parseRequireAuth cfg.requireAuth = .ok ra ∧ Incoming.message msg ∈ beforeReady msgs ∧
    ra.asksPassword msg = true

end Property

section Facts

variable {p : ConnectPlatform} {cfg : Config} {tls : Option (List Certificate)}

theorem PlusVerified.append (h : PlusVerified p cfg tls es) (fs : List Event) :
    PlusVerified p cfg tls (es ++ fs) := by
  obtain ⟨ms, wire, sc, certs, hash, pre, mid, post, rfl, h⟩ := h
  exact ⟨ms, wire, sc, certs, hash, pre, mid, post ++ fs, by simp, h⟩

/-- The mechanism is named in the first message of the client. -/
theorem PlusVerified.sent (h : PlusVerified p cfg tls es) :
    ∃ data, .sent (.saslInitialResponse scramSHA256PlusName data) ∈ es := by
  obtain ⟨ms, wire, sc, certs, hash, pre, mid, post, rfl, -, -, -, hplus, -, hrun⟩ := h
  obtain ⟨serverFirst, sc', serverFinal, -, -, rfl⟩ := hrun
  exact ⟨sc.clientFirstMessage.1, by simp [hplus]⟩

theorem gssRun_sent {cli : GSS} {tokens : List Bytes} {data : Bytes} (h : GssRun cli tokens data es) :
    ∀ msg, .sent msg ∈ es → ∃ data', msg = .gssResponse data' := by
  induction h with
  | last h =>
    intro msg hmsg
    simp only [mem_cons, Event.sent.injEq, reduceCtorEq, not_mem_nil, or_false] at hmsg
    exact ⟨_, hmsg⟩
  | more h hes ih =>
    intro msg hmsg
    simp only [mem_cons, Event.sent.injEq, reduceCtorEq, false_or] at hmsg
    rcases hmsg with rfl | hmsg
    · exact ⟨_, rfl⟩
    · exact ih msg hmsg

/-- An offer of SCRAM is answered by an exchange that is bound to the channel. -/
theorem Exchange.plus_of_offer {ms : List Bytes} (hcb : cfg.channelBinding = "require")
    (h : Exchange p cfg tls w m es)
    (hmem : .authenticationSASL ms ∈ received es) (hms : cfg.usesOAuth ms = false) :
    PlusVerified p cfg tls es := by
  cases h with
  | password => simp [received] at hmem
  | md5 salt => simp [received] at hmem
  | @scram ms' sc es hms' hsc hes =>
    obtain ⟨certs, hash, htls, hhash, hplus, hdata⟩ := startScram_require hcb hsc
    exact ⟨ms', _, sc, certs, hash, [], es, [], by simp, hsc, htls, hhash, hplus, hdata, hes⟩
  | @oauth ms' _ _ hms' =>
    simp only [received, mem_cons, reduceCtorEq, not_mem_nil, or_false] at hmem
    obtain rfl := BackendMessage.authenticationSASL.inj hmem
    rw [hms'] at hms
    cases hms
  | gss hcli hdata hes =>
    simp only [received, mem_cons, reduceCtorEq, false_or] at hmem
    obtain ⟨token, htok⟩ := gssRun_received hes _ hmem
    cases htok

/-- SCRAM-SHA-256-PLUS is only ever started by an offer of SCRAM. -/
theorem Exchange.offer_of_plus {data : Bytes} (h : Exchange p cfg tls w m es)
    (hmem : Event.sent (.saslInitialResponse scramSHA256PlusName data) ∈ es) :
    ∃ ms, .authenticationSASL ms ∈ received es ∧ cfg.usesOAuth ms = false := by
  cases h with
  | password => simp at hmem
  | md5 salt => simp at hmem
  | @scram ms sc es hms hsc hes => exact ⟨ms, by simp [received], hms⟩
  | oauth =>
    have hne : scramSHA256PlusName ≠ ascii "OAUTHBEARER" := by decide
    simp [hne] at hmem
  | gss hcli hdata hes =>
    simp only [mem_cons, reduceCtorEq, false_or] at hmem
    obtain ⟨data', hd⟩ := gssRun_sent hes _ hmem
    cases hd

theorem Exchange.silent_iff (hm : ra.allows m = true) (h : Exchange p cfg tls w m es) :
    ¬ Silent es ↔ ∃ msg ∈ received es, ra.asksPassword msg = true := by
  cases h with
  | password => simp [Silent, received, RequireAuth.asksPassword, hm]
  | md5 salt => simp [Silent, received, RequireAuth.asksPassword, hm]
  | scram hms hsc hes =>
    obtain ⟨serverFirst, sc', serverFinal, -, -, rfl⟩ := hes
    simp [Silent, received, RequireAuth.asksPassword]
  | oauth => simp [Silent, received, RequireAuth.asksPassword]
  | gss hcli hdata hes =>
    constructor
    · intro hns
      exfalso
      apply hns
      intro password hmem
      simp only [mem_cons, reduceCtorEq, false_or] at hmem
      obtain ⟨data, hd⟩ := gssRun_sent hes _ hmem
      cases hd
    · rintro ⟨msg, hmsg, hask⟩
      simp only [received, mem_cons] at hmsg
      rcases hmsg with rfl | hmsg
      · cases hask
      · obtain ⟨token, rfl⟩ := gssRun_received hes msg hmsg
        cases hask

end Facts

/-! ## The loop -/

theorem asksPassword_not_ready (h : ra.asksPassword msg = true) : msg.isReadyForQuery = false := by
  cases msg with
  | readyForQuery txStatus => cases h
  | _ => rfl

/-- A permitted request for the password is read before the server is ready. -/
def AskedFirst (ra : RequireAuth) (ms : List BackendMessage) : Prop :=
  ∃ s msg t, ms = s ++ msg :: t ∧ (∀ m ∈ s, m.isReadyForQuery = false) ∧ ra.asksPassword msg = true

theorem AskedFirst.passwordAsked {cfg : Config} {ms : List BackendMessage}
    {msgs : List Incoming} (hra : parseRequireAuth cfg.requireAuth = .ok ra) (h : AskedFirst ra ms)
    (hp : ms.map Incoming.message <+: msgs) : PasswordAsked cfg msgs := by
  obtain ⟨s, msg, t, rfl, hs, hask⟩ := h
  obtain ⟨rest, rfl⟩ := hp
  refine ⟨ra, msg, hra, ?_, hask⟩
  have hall : ∀ i ∈ (s ++ [msg]).map Incoming.message, (!i.isReady) = true := by
    intro i hi
    obtain ⟨m, hm, rfl⟩ := mem_map.mp hi
    rcases mem_append.mp hm with hm | hm
    · simp [Incoming.isReady, hs m hm]
    · obtain rfl := mem_singleton.mp hm
      simp [Incoming.isReady, asksPassword_not_ready hask]
  have hsplit : (s ++ msg :: t).map Incoming.message ++ rest =
      (s ++ [msg]).map Incoming.message ++ (t.map Incoming.message ++ rest) := by simp
  unfold beforeReady
  rw [hsplit, takeWhile_append_of_pos hall]
  apply mem_append_left
  simp

namespace Attempt

variable {a : Attempt}

/-- What holds at the start of every round, for the events so far. -/
structure BindingInv (a : Attempt) (es : List Event) : Prop where
  first : ∀ msg ∈ received es, msg.isReadyForQuery = false
  plus : ∀ ms, .authenticationSASL ms ∈ received es → a.config.usesOAuth ms = false →
    PlusVerified a.platform a.config a.tls es
  offer : ∀ data, .sent (.saslInitialResponse scramSHA256PlusName data) ∈ es →
    ∃ ms, .authenticationSASL ms ∈ received es ∧ a.config.usesOAuth ms = false
  silent : ¬ Silent es ↔ ∃ msg ∈ received es, a.requireAuthPolicy.asksPassword msg = true

theorem silent_append_iff : ¬ Silent (es ++ fs) ↔ ¬ Silent es ∨ ¬ Silent fs := by
  constructor
  · intro h
    by_cases hes : Silent es
    · exact .inr fun hfs => h (hes.append hfs)
    · exact .inl hes
  · rintro (h | h) hs
    · exact h fun password hm => hs password (mem_append_left _ hm)
    · exact h fun password hm => hs password (mem_append_right _ hm)

/-- Events that neither offer SCRAM nor ask for the password. -/
theorem BindingInv.quiet (h : BindingInv a es)
    (hready : msg.isReadyForQuery = false) (hsasl : ∀ ms, msg ≠ .authenticationSASL ms)
    (hask : a.requireAuthPolicy.asksPassword msg = false) : BindingInv a (es ++ [.received msg]) := by
  have hrec : received (es ++ [.received msg]) = received es ++ [msg] := received_append _ _
  refine ⟨?_, ?_, ?_, ?_⟩
  · intro m hm
    rw [hrec, mem_append] at hm
    rcases hm with hm | hm
    · exact h.first m hm
    · obtain rfl := mem_singleton.mp hm
      exact hready
  · intro ms hm hno
    rw [hrec, mem_append] at hm
    rcases hm with hm | hm
    · exact (h.plus ms hm hno).append _
    · exact absurd (mem_singleton.mp hm).symm (hsasl ms)
  · intro data hm
    rcases mem_append.mp hm with hm | hm
    · obtain ⟨ms, hms, hno⟩ := h.offer data hm
      exact ⟨ms, by rw [hrec]; exact mem_append_left _ hms, hno⟩
    · simp at hm
  · rw [silent_append_iff, hrec, h.silent]
    constructor
    · rintro (⟨m, hm, hm'⟩ | hs)
      · exact ⟨m, mem_append_left _ hm, hm'⟩
      · exact absurd silent_received hs
    · rintro ⟨m, hm, hm'⟩
      rcases mem_append.mp hm with hm | hm
      · exact .inl ⟨m, hm, hm'⟩
      · obtain rfl := mem_singleton.mp hm
        rw [hask] at hm'
        cases hm'

theorem BindingInv.exchange (hcb : a.config.channelBinding = "require") (h : BindingInv a es)
    (hm : a.requireAuthPolicy.allows m = true)
    (hex : Exchange a.platform a.config a.tls w m fs) : BindingInv a (es ++ fs) := by
  refine ⟨?_, ?_, ?_, ?_⟩
  · intro msg hmsg
    rw [received_append, mem_append] at hmsg
    exact hmsg.elim (h.first msg) (hex.not_ready msg)
  · intro ms hms hno
    rw [received_append, mem_append] at hms
    rcases hms with hms | hms
    · exact (h.plus ms hms hno).append _
    · obtain ⟨ms', wire, sc, certs, hash, pre, mid, post, rfl, hrest⟩ := hex.plus_of_offer hcb hms hno
      exact ⟨ms', wire, sc, certs, hash, es ++ pre, mid, post, by simp, hrest⟩
  · intro data hmem
    rw [received_append]
    rcases mem_append.mp hmem with hmem | hmem
    · obtain ⟨ms, hms, hno⟩ := h.offer data hmem
      exact ⟨ms, mem_append_left _ hms, hno⟩
    · obtain ⟨ms, hms, hno⟩ := hex.offer_of_plus hmem
      exact ⟨ms, mem_append_right _ hms, hno⟩
  · rw [silent_append_iff, received_append, h.silent, hex.silent_iff hm]
    simp only [mem_append, or_and_right, exists_or]

theorem BindingInv.step (hcb : a.config.channelBinding = "require") {b : Bool} {r : Bool ⊕ Unit}
    (h : BindingInv a es) (hh : a.Handled w b msg r fs) :
    match r with
    | .inl _ => BindingInv a (es ++ .received msg :: fs)
    | .inr _ => EndsReady (es ++ .received msg :: fs) es := by
  cases hh with
  | quiet hq =>
    obtain ⟨hready, -, hsasl, hask⟩ := quiet_facts hq
    exact h.quiet hready hsasl (hask _)
  | accepted hb => exact h.quiet rfl nofun rfl
  | exchange hm hex => exact h.exchange hcb hm hex
  | ready txStatus => exact ⟨⟨txStatus, rfl⟩, h.first⟩

theorem BindingInv.askedFirst (h : BindingInv a es) (hs : ¬ Silent es)
    (rest : List BackendMessage) : AskedFirst a.requireAuthPolicy (received es ++ rest) := by
  obtain ⟨msg, hmsg, hask⟩ := h.silent.mp hs
  obtain ⟨s, t, hst⟩ := append_of_mem hmsg
  refine ⟨s, msg, t ++ rest, by rw [hst]; simp, fun m hm => h.first m ?_, hask⟩
  rw [hst]
  exact mem_append_left _ hm

theorem loop_binding (hcb : a.config.channelBinding = "require") :
    Talks w (a.loop.run false) (fun _ es => ∃ fs, EndsReady es fs ∧ BindingInv a fs)
      (fun es => ¬ Silent es → AskedFirst a.requireAuthPolicy (received es)) := by
  apply Talks.loop (J := fun _ es => BindingInv a es)
  · intro b es hes
    apply (a.round_talks b).mono
    · rintro r _ ⟨msg, fs, rfl, hh⟩
      have hstep := hes.step hcb hh
      cases r with
      | inl b' => exact hstep
      | inr _ => exact ⟨es, hstep, hes⟩
    · intro fs hfs hs
      rw [received_append]
      -- either the password is out already, or this round sends it
      by_cases hold : Silent es
      · obtain ⟨msg, gs, rfl, hask⟩ :=
          hfs ((silent_append_iff.mp hs).resolve_left (not_not_intro hold))
        exact ⟨received es, msg, received gs, rfl, hes.first, hask⟩
      · exact hes.askedFirst hold _
  · refine ⟨by simp [received], by simp [received], by simp, ?_⟩
    simp [received, silent_nil]

end Attempt

section Attempts

variable {p : ConnectPlatform} {cfg : Config} {tls : Option (List Certificate)} {ignore : Bool}
  {msgs : List Incoming}

/-- The events that an attempt adds to the wire, whichever way it ends. -/
theorem connectOne_binding (hcb : cfg.channelBinding = "require") :
    Talks w (connectOne p cfg tls ignore)
      (fun _ es => ∃ v ps fs, es = .sent (.startupMessage v ps) :: fs ∧ ∃ gs ra version,
        EndsReady fs gs ∧ parseRequireAuth cfg.requireAuth = .ok ra ∧
          Attempt.BindingInv ⟨p, cfg, tls, ignore, ra, version⟩ gs)
      (fun es => es = [] ∨ ∃ v ps fs, es = .sent (.startupMessage v ps) :: fs ∧
        (¬ Silent fs → ∃ ra, parseRequireAuth cfg.requireAuth = .ok ra ∧
          AskedFirst ra (received fs))) := by
  apply connectOne_talks (R := fun _ fs => ∃ gs ra version, EndsReady fs gs ∧
    parseRequireAuth cfg.requireAuth = .ok ra ∧
      Attempt.BindingInv ⟨p, cfg, tls, ignore, ra, version⟩ gs) (fun h => absurd silent_nil h)
  intro ra v w hra
  apply (Attempt.loop_binding (a := ⟨p, cfg, tls, ignore, ra, v⟩) hcb).mono
  · rintro - es ⟨fs, hends, hinv⟩
    exact ⟨fs, ra, v, hends, hra, hinv⟩
  · intro es h hs
    exact ⟨ra, hra, h hs⟩

theorem silent_startup {v : UInt32} {ps : List (Bytes × Bytes)} :
    Silent (.sent (.startupMessage v ps) :: es) ↔ Silent es := by
  simp [Silent]

theorem silent_ready (h : EndsReady es fs) : Silent es ↔ Silent fs := by
  obtain ⟨tx, rfl⟩ := h.split
  simp [Silent]

/-- A usable connection: what was read, and the invariant over it. -/
theorem connectOne_binding_ok (hcb : cfg.channelBinding = "require") {c : PgConn}
    (hrun : connectOne p cfg tls ignore (dialed msgs) = .ok () c) :
    ∃ v ps es gs ra version, c.wire = .sent (.startupMessage v ps) :: es ∧ EndsReady es gs ∧
      beforeReady msgs = (received gs).map .message ∧ parseRequireAuth cfg.requireAuth = .ok ra ∧
      Attempt.BindingInv ⟨p, cfg, tls, ignore, ra, version⟩ gs := by
  obtain ⟨_, hran, v, ps, es, rfl, gs, ra, version, hends, hra, hinv⟩ :=
    wp_of_ok (connectOne_binding hcb (dialed msgs) rfl rfl) hrun
  refine ⟨v, ps, es, gs, ra, version, hran.wire, hends, ?_, hra, hinv⟩
  have hmsgs : msgs = (received es).map .message ++ c.pending := hran.pending
  rw [hmsgs]
  exact hends.beforeReady _

/-- What the setting promises holds whenever the server offers SCRAM and does not
ask for the password before it is ready. -/
theorem bound_of_scramOffered (hcb : cfg.channelBinding = "require")
    (hoffer : ScramOffered cfg msgs) (hask : ¬ PasswordAsked cfg msgs) :
    Bound p cfg tls (connectOne p cfg tls ignore (dialed msgs)) := by
  cases hrun : connectOne p cfg tls ignore (dialed msgs) with
  | ok u c =>
    obtain ⟨v, ps, es, gs, ra, version, hwire, hends, hbefore, hra, hinv⟩ :=
      connectOne_binding_ok hcb hrun
    have hsilent : Silent gs := by
      by_contra hs
      have hasked := hinv.askedFirst hs []
      rw [append_nil] at hasked
      apply hask
      apply hasked.passwordAsked hra
      rw [← hbefore]
      exact takeWhile_prefix _
    constructor
    · intro c' hc'
      obtain ⟨-, rfl⟩ := EStateM.Result.ok.inj hc'
      obtain ⟨ms, hms, hno⟩ := hoffer
      rw [hbefore] at hms
      obtain ⟨msg, hmem, heq⟩ := mem_map.mp hms
      obtain rfl := Incoming.message.inj heq
      obtain ⟨ms', wire, sc, certs, hash, pre, mid, post, rfl, hrest⟩ := hinv.plus ms hmem hno
      refine ⟨_, by rw [hwire]; exact hends.cons, ?_⟩
      exact ⟨ms', wire, sc, certs, hash, .sent (.startupMessage v ps) :: pre, mid, post, rfl, hrest⟩
    · show Silent c.wire
      rw [hwire, silent_startup, silent_ready hends]
      exact hsilent
  | error e c =>
    refine ⟨fun c' hc' => absurd hc' (by simp), ?_⟩
    show Silent c.wire
    obtain ⟨es, hbroke, hes⟩ := wp_of_error (connectOne_binding hcb (dialed msgs) rfl rfl) hrun
    have hwire : c.wire = es := hbroke.wire
    rw [hwire]
    rcases hes with rfl | ⟨v, ps, fs, rfl, hfs⟩
    · exact silent_nil
    · rw [silent_startup]
      by_contra hs
      obtain ⟨ra, hra, hasked⟩ := hfs hs
      exact hask (hasked.passwordAsked hra hbroke.pending)

theorem scramOffered_of_bound (hcb : cfg.channelBinding = "require") {c : PgConn}
    (hrun : connectOne p cfg tls ignore (dialed msgs) = .ok () c)
    (hb : Bound p cfg tls (connectOne p cfg tls ignore (dialed msgs))) :
    ScramOffered cfg msgs ∧ ¬ PasswordAsked cfg msgs := by
  obtain ⟨v, ps, es, gs, ra, version, hwire, hends, hbefore, hra, hinv⟩ :=
    connectOne_binding_ok hcb hrun
  rw [hrun] at hb
  obtain ⟨hplus, hsilent⟩ := hb
  have hsilent : Silent gs := by
    have h : Silent c.wire := hsilent
    rwa [hwire, silent_startup, silent_ready hends] at h
  constructor
  · obtain ⟨fs, hfs, hver⟩ := hplus c rfl
    obtain ⟨data, hdata⟩ := hver.sent
    have hmem : Event.sent (.saslInitialResponse scramSHA256PlusName data) ∈ c.wire := by
      obtain ⟨tx, hsplit⟩ := hfs.split
      rw [hsplit]
      exact mem_append_left _ hdata
    obtain ⟨tx, rfl⟩ := hends.split
    rw [hwire] at hmem
    obtain ⟨ms, hms, hno⟩ := hinv.offer data (by simpa using hmem)
    refine ⟨ms, ?_, hno⟩
    rw [hbefore]
    exact mem_map_of_mem hms
  · rintro ⟨ra', msg, hra', hmsg, hask⟩
    obtain rfl : ra = ra' := Except.ok.inj (hra.symm.trans hra')
    rw [hbefore] at hmsg
    obtain ⟨msg', hmem, heq⟩ := mem_map.mp hmsg
    obtain rfl := Incoming.message.inj heq
    exact hinv.silent.mpr ⟨_, hmem, hask⟩ hsilent

end Attempts

/-- With channel binding required, a server that offers SCRAM and does not ask for
the password before it is ready gets what the setting promises, in every run. A
usable connection has what it promises only from such a server. -/
theorem connectOne_channelBinding (p : ConnectPlatform) (cfg : Config)
    (tls : Option (List Certificate)) (ignore : Bool) (msgs : List Incoming)
    (hcb : cfg.channelBinding = "require") :
    (ScramOffered cfg msgs ∧ ¬ PasswordAsked cfg msgs →
      Bound p cfg tls (connectOne p cfg tls ignore (dialed msgs))) ∧
    (∀ c, connectOne p cfg tls ignore (dialed msgs) = .ok () c →
      (Bound p cfg tls (connectOne p cfg tls ignore (dialed msgs)) ↔
        ScramOffered cfg msgs ∧ ¬ PasswordAsked cfg msgs)) := by
  refine ⟨fun h => bound_of_scramOffered hcb h.1 h.2, fun c hrun => ⟨?_, ?_⟩⟩
  · exact scramOffered_of_bound hcb hrun
  · exact fun h => bound_of_scramOffered hcb h.1 h.2

/-- SHA-256 and what is built on it; the other hashes are not asked for below. -/
def sha256Crypto : Crypto where
  sha256 msg := ⟨Sha256.sum256 msg, Sha256.sum256_length msg⟩
  sha384 _ := zeroDigest 48
  sha512 _ := zeroDigest 64
  md5 _ := zeroDigest 16
  hmac key msg := ⟨Sha256.hmac key msg, Sha256.hmac_length key msg⟩
  pbkdf2 password salt iterations :=
    ⟨Sha256.pbkdf2 password salt iterations, Sha256.pbkdf2_length password salt iterations⟩

def scramPlatform : ConnectPlatform :=
  { plainPlatform with
    crypto := sha256Crypto
    rand := fun _ => .ok ⟨[1, 2, 3, 4, 5, 6, 7, 8, 9, 10, 11, 12, 13, 14, 15, 16, 17, 18], rfl⟩ }

def serverCertificate : Certificate where
  signatureAlgorithm := .sha256WithRSA
  raw := ascii "certificate"

def scramServer : List Incoming :=
  [.message (.authenticationSASL [scramSHA256PlusName, scramSHA256Name]),
    .message (.authenticationSASLContinue (ascii
      "r=AQIDBAUGBwgJCgsMDQ4PEBES3rfcNHYJY1ZVvWVs7j,s=AAECAwQFBgcICQoLDA0ODw==,i=1")),
    .message (.authenticationSASLFinal (ascii "v=YK6K720JGjjiMNcTLAK89EsEVxhJFaKTyyGXuIzxioo=")),
    .message .authenticationOk,
    .message (.readyForQuery 73)]

/-- The connection is made, and bound by the exchange. -/
theorem connectOne_channelBinding_scram :
    (∃ c, connectOne scramPlatform (plainConfig "" "require") (some [serverCertificate]) false
        (dialed scramServer) = .ok () c) ∧
      Bound scramPlatform (plainConfig "" "require") (some [serverCertificate])
        (connectOne scramPlatform (plainConfig "" "require") (some [serverCertificate]) false
          (dialed scramServer)) := by
  have hbefore : beforeReady scramServer = scramServer.take 4 := by
    simp [beforeReady, scramServer, Incoming.isReady, BackendMessage.isReadyForQuery]
  constructor
  · exact usable_eq_some (by decide +kernel)
  · apply (connectOne_channelBinding scramPlatform (plainConfig "" "require")
      (some [serverCertificate])
      false scramServer rfl).1
    constructor
    · refine ⟨[scramSHA256PlusName, scramSHA256Name], ?_, by decide⟩
      rw [hbefore]
      simp [scramServer]
    · rintro ⟨ra, msg, -, hmsg, hask⟩
      rw [hbefore] at hmsg
      simp only [scramServer, take_succ_cons, take_zero, mem_cons,
        Incoming.message.injEq, not_mem_nil, or_false] at hmsg
      rcases hmsg with rfl | rfl | rfl | rfl <;> cases hask

/-- A server that asks for the password is given it, and the connection is usable. -/
theorem connectOne_password_despite_channelBinding :
    (∃ c, connectOne plainPlatform (plainConfig "" "require") (some [serverCertificate]) false
        (dialed passwordServer) = .ok () c) ∧
      ¬ Bound plainPlatform (plainConfig "" "require") (some [serverCertificate])
        (connectOne plainPlatform (plainConfig "" "require") (some [serverCertificate]) false
          (dialed passwordServer)) := by
  obtain ⟨c, hrun⟩ := usable_eq_some (r := connectOne plainPlatform (plainConfig "" "require")
    (some [serverCertificate]) false (dialed passwordServer)) (by decide +kernel)
  refine ⟨⟨c, hrun⟩, fun hb => ?_⟩
  obtain ⟨⟨ms, hms, -⟩, -⟩ := scramOffered_of_bound rfl hrun hb
  simp [beforeReady, passwordServer, Incoming.isReady, BackendMessage.isReadyForQuery] at hms

end Pgx.Connect
