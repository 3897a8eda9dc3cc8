import Pgx.Connect.Exchange

/-!
# `require_auth` against an arbitrary server

The policy is checked when the server asks for a method and when it confirms the
authentication. Nothing is checked when it declares itself ready, so a server
that never confirms is not noticed.
-/
namespace Pgx.Connect

open Pgx.Go Pgx.Wire Pgx.Conn Pgx.Effect List

variable {es fs : List Event}

/-- What the server sends before it first declares itself ready. -/
def beforeReady (msgs : List Incoming) : List Incoming := msgs.takeWhile fun i => !i.isReady

/-- The server confirms the authentication before it declares itself ready. -/
def OkBeforeReady (msgs : List Incoming) : Prop :=
  Incoming.message .authenticationOk ∈ beforeReady msgs

/-- The events of the loop end where the server is ready for the first time. -/
structure EndsReady (es fs : List Event) : Prop where
  split : ∃ txStatus, es = fs ++ [.received (.readyForQuery txStatus)]
  first : ∀ msg ∈ received fs, msg.isReadyForQuery = false

theorem EndsReady.beforeReady (h : EndsReady es fs) (rest : List Incoming) :
    beforeReady ((received es).map .message ++ rest) = (received fs).map .message := by
  obtain ⟨tx, rfl⟩ := h.split
  have hall : ∀ i ∈ (received fs).map Incoming.message, (!i.isReady) = true := by
    intro i hi
    obtain ⟨msg, hmsg, rfl⟩ := mem_map.mp hi
    simp [Incoming.isReady, h.first msg hmsg]
  unfold Connect.beforeReady
  rw [received_append, map_append, append_assoc, takeWhile_append_of_pos hall]
  simp [received, Incoming.isReady, BackendMessage.isReadyForQuery]

section Property

variable (p : ConnectPlatform) (cfg : Config) (tls : Option (List Certificate)) (ra : RequireAuth)
  (w : List Event)

/-- An exchange that the policy allows was completed, behind the events `w`. -/
def Finished (es : List Event) : Prop :=
  ∃ m pre mid post, es = pre ++ mid ++ post ∧ Exchange p cfg tls (w ++ pre) m mid ∧ ra.allows m = true

/-- It was completed, and confirmed by the server then or later. -/
def Secured (es : List Event) : Prop :=
  ∃ m pre mid post, es = pre ++ mid ++ post ∧ Exchange p cfg tls (w ++ pre) m mid ∧
  ra.allows m = true ∧
    Event.received .authenticationOk ∈ mid ++ post

/-- Both happened before the server declared itself ready. -/
def Authenticated (wire : List Event) : Prop :=
  ∃ es, EndsReady wire es ∧ Secured p cfg tls ra [] es

end Property

section Facts

variable {p : ConnectPlatform} {cfg : Config} {tls : Option (List Certificate)} {ra : RequireAuth}
  {w : List Event}

theorem Finished.append (h : Finished p cfg tls ra w es) (fs : List Event) :
    Finished p cfg tls ra w (es ++ fs) := by
  obtain ⟨m, pre, mid, post, rfl, hex, hm⟩ := h
  exact ⟨m, pre, mid, post ++ fs, by simp, hex, hm⟩

theorem Secured.append (h : Secured p cfg tls ra w es) (fs : List Event) :
    Secured p cfg tls ra w (es ++ fs) := by
  obtain ⟨m, pre, mid, post, rfl, hex, hm, hok⟩ := h
  refine ⟨m, pre, mid, post ++ fs, by simp, hex, hm, ?_⟩
  rw [← append_assoc]
  exact mem_append_left _ hok

theorem Finished.confirmed (h : Finished p cfg tls ra w es) :
    Secured p cfg tls ra w (es ++ [.received .authenticationOk]) := by
  obtain ⟨m, pre, mid, post, rfl, hex, hm⟩ := h
  refine ⟨m, pre, mid, post ++ [.received .authenticationOk], by simp, hex, hm, ?_⟩
  simp

theorem Secured.ok_mem (h : Secured p cfg tls ra w es) : .authenticationOk ∈ received es := by
  obtain ⟨m, pre, mid, post, rfl, -, -, hok⟩ := h
  rw [mem_received, append_assoc]
  exact mem_append_right _ hok

theorem gssRun_received {cli : GSS} {tokens : List Bytes} {data : Bytes}
    (h : GssRun cli tokens data es) :
    ∀ msg ∈ received es, ∃ token, msg = .authenticationGSSContinue token := by
  induction h with
  | last h => simp [received]
  | more h hes ih =>
    intro msg hmsg
    simp only [received, mem_cons] at hmsg
    rcases hmsg with rfl | hmsg
    · exact ⟨_, rfl⟩
    · exact ih msg hmsg

theorem Exchange.not_ready {m : AuthMethod} (h : Exchange p cfg tls w m es) :
    ∀ msg ∈ received es, msg.isReadyForQuery = false := by
  cases h with
  | password => simp [received, BackendMessage.isReadyForQuery]
  | md5 salt => simp [received, BackendMessage.isReadyForQuery]
  | scram hms hsc hes =>
    obtain ⟨serverFirst, sc', serverFinal, -, -, rfl⟩ := hes
    simp [received, BackendMessage.isReadyForQuery]
  | oauth => simp [received, BackendMessage.isReadyForQuery]
  | gss hcli hdata hes =>
    intro msg hmsg
    simp only [received, mem_cons] at hmsg
    rcases hmsg with rfl | hmsg
    · rfl
    · obtain ⟨token, rfl⟩ := gssRun_received hes msg hmsg
      rfl

end Facts

namespace Attempt

variable {a : Attempt} {w : List Event}

/-- What holds at the start of every round, for the events so far. -/
structure PolicyInv (a : Attempt) (w : List Event) (b : Bool) (es : List Event) : Prop where
  first : ∀ msg ∈ received es, msg.isReadyForQuery = false
  finished : b = true → Finished a.platform a.config a.tls a.requireAuthPolicy w es
  secured : .authenticationOk ∈ received es →
    Secured a.platform a.config a.tls a.requireAuthPolicy w es

theorem PolicyInv.step (hreq : a.requireAuthPolicy.authRequired = true) {b : Bool}
    {msg : BackendMessage} {r : Bool ⊕ Unit} (h : PolicyInv a w b es)
    (hh : a.Handled (w ++ es) b msg r fs) : match r with
    | .inl b' => PolicyInv a w b' (es ++ .received msg :: fs) | .inr _ =>
      EndsReady (es ++ .received msg :: fs) es := by
  cases hh with
  | quiet hq =>
    obtain ⟨hready, hnotok, -⟩ := quiet_facts hq
    refine ⟨?_, fun hb => (h.finished hb).append _, ?_⟩
    · intro m hm
      rw [received_append, mem_append] at hm
      rcases hm with hm | hm
      · exact h.first m hm
      · obtain rfl := mem_singleton.mp hm
        exact hready
    · intro hok
      rw [received_append, mem_append] at hok
      rcases hok with hok | hok
      · exact (h.secured hok).append _
      · exact absurd (mem_singleton.mp hok).symm hnotok
  | accepted hb =>
    have hfin := h.finished (hb hreq)
    refine ⟨?_, fun hb => hfin.append _, fun _ => hfin.confirmed⟩
    intro m hm
    rw [received_append, mem_append] at hm
    rcases hm with hm | hm
    · exact h.first m hm
    · obtain rfl := mem_singleton.mp hm
      rfl
  | @exchange m msg fs hm hex =>
    refine ⟨?_, fun _ => ?_, ?_⟩
    · intro m' hm'
      rw [received_append, mem_append] at hm'
      exact hm'.elim (h.first m') (hex.not_ready m')
    · exact ⟨m, es, .received msg :: fs, [], by simp, hex, hm⟩
    · intro hok
      rw [received_append, mem_append] at hok
      rcases hok with hok | hok
      · exact (h.secured hok).append _
      · exact ⟨m, es, .received msg :: fs,
          [], by simp, hex, hm, mem_append_left _ (mem_received.mp hok)⟩
  | ready txStatus => exact ⟨⟨txStatus, rfl⟩, h.first⟩

theorem loop_policy (hreq : a.requireAuthPolicy.authRequired = true) : Talks w (a.loop.run false)
      (fun _ es => ∃ fs, EndsReady es fs ∧
        (.authenticationOk ∈ received fs →
          Secured a.platform a.config a.tls a.requireAuthPolicy w fs))
      (fun _ => True) := by
  apply Talks.loop (J := PolicyInv a w)
  · intro b es hes
    apply (a.round_talks b).mono
    · rintro r _ ⟨msg, fs, rfl, hh⟩
      have hstep := hes.step hreq hh
      cases r with
      | inl b' => exact hstep
      | inr _ => exact ⟨es, hstep, hes.secured⟩
    · exact fun _ _ => trivial
  · exact ⟨by simp [received], nofun, by simp [received]⟩

end Attempt

section Attempts

variable {p : ConnectPlatform} {cfg : Config} {tls : Option (List Certificate)} {ignore : Bool}
  {ra : RequireAuth} {msgs : List Incoming} {c : PgConn}

theorem EndsReady.cons {msg : FrontendMessage} (h : EndsReady es fs) :
    EndsReady (.sent msg :: es) (.sent msg :: fs) := by
  obtain ⟨tx, rfl⟩ := h.split
  exact ⟨⟨tx, rfl⟩, h.first⟩

/-- What a usable connection has read, and what its policy gives. -/
theorem connectOne_ok (hra : parseRequireAuth cfg.requireAuth = .ok ra)
    (hreq : ra.authRequired = true) (hrun : connectOne p cfg tls ignore (dialed msgs) = .ok () c) :
    msgs = (received c.wire).map .message ++ c.pending ∧
      ∃ fs, EndsReady c.wire fs ∧ (.authenticationOk ∈ received fs → Secured p cfg tls ra [] fs) := by
  have hloop : ∀ ra' v w, parseRequireAuth cfg.requireAuth = .ok ra' →
      Talks w ((⟨p, cfg, tls, ignore, ra', v⟩ : Attempt).loop.run false)
        (fun _ es => ∃ fs, EndsReady es fs ∧
          (.authenticationOk ∈ received fs → Secured p cfg tls ra w fs)) (fun _ => True) := by
    intro ra' v w hra'
    obtain rfl : ra = ra' := Except.ok.inj (hra.symm.trans hra')
    exact Attempt.loop_policy (a := ⟨p, cfg, tls, ignore, ra, v⟩) hreq
  have htalks := connectOne_talks (w := []) (F := fun _ => True) trivial hloop
  obtain ⟨_, hran, v, ps, es, rfl, fs, hends, hsec⟩ := wp_of_ok (htalks (dialed msgs) rfl rfl) hrun
  have hwire : c.wire = .sent (.startupMessage v ps) :: es := hran.wire
  have hmsgs : msgs = (received c.wire).map .message ++ c.pending := by
    rw [hwire]
    exact hran.pending
  refine ⟨hmsgs, .sent (.startupMessage v ps) :: fs, ?_, fun hok => ?_⟩
  · rw [hwire]
    exact hends.cons
  · obtain ⟨m, pre, mid, post, rfl, hex, hm, hok⟩ := hsec hok
    exact ⟨m, .sent (.startupMessage v ps) :: pre, mid, post, rfl, hex, hm, hok⟩

/-- A usable connection was authenticated by an allowed method exactly when the
server confirmed the authentication before it declared itself ready. -/
theorem connectOne_authenticated_iff (p : ConnectPlatform) (cfg : Config)
    (tls : Option (List Certificate)) (ignore : Bool) (ra : RequireAuth) (msgs : List Incoming)
    (c : PgConn) (hra : parseRequireAuth cfg.requireAuth = .ok ra) (hreq : ra.authRequired = true)
    (hrun : connectOne p cfg tls ignore (dialed msgs) = .ok () c) :
    Authenticated p cfg tls ra c.wire ↔ OkBeforeReady msgs := by
  obtain ⟨hmsgs, fs, hends, hsec⟩ := connectOne_ok hra hreq hrun
  have hbefore := hends.beforeReady c.pending
  rw [← hmsgs] at hbefore
  constructor
  · rintro ⟨es, hes, hs⟩
    have hes := hes.beforeReady c.pending
    rw [← hmsgs] at hes
    unfold OkBeforeReady
    rw [hes]
    exact mem_map_of_mem hs.ok_mem
  · intro hok
    unfold OkBeforeReady at hok
    rw [hbefore] at hok
    obtain ⟨msg, hmsg, heq⟩ := mem_map.mp hok
    obtain rfl := Incoming.message.inj heq
    exact ⟨fs, hends, hsec hmsg⟩

end Attempts

theorem length_zeros (n : Nat) : (replicate n (0 : UInt8)).length = n := length_replicate

def zeroDigest (n : Nat) : Digest n := ⟨replicate n 0, length_zeros n⟩

/-- A platform on which every write succeeds and no hash is ever asked for. -/
def plainPlatform : ConnectPlatform where
  env := { onPgError := none, write := fun _ _ => none }
  crypto :=
    { sha256 := fun _ => zeroDigest 32
      sha384 := fun _ => zeroDigest 48
      sha512 := fun _ => zeroDigest 64
      md5 := fun _ => zeroDigest 16
      hmac := fun _ _ => zeroDigest 32
      pbkdf2 := fun _ _ _ => zeroDigest 32 }
  rand := fun _ => .ok (zeroDigest 18)
  opaqueString := some
  newGSS := none
  unmarshalStatus := fun _ => .error (.new "unexpected end of JSON input")

def plainConfig (requireAuth channelBinding : String) : Config where
  host := ascii "localhost"
  user := ascii "jack"
  password := ascii "secret"
  database := ascii "mydb"
  runtimeParams := ∅
  minProtocolVersion := "3.0"
  maxProtocolVersion := "3.0"
  requireAuth := requireAuth.toList
  channelBinding := channelBinding
  kerberosSpn := []
  kerberosSrvName := []
  oauthTokenProvider := none
  validateConnect := none

def usable (r : EStateM.Result Error PgConn Unit) : Option PgConn :=
  match r with
  | .ok () c => some c
  | .error _ _ => none

theorem usable_eq_some {r : EStateM.Result Error PgConn Unit} (h : (usable r).isSome = true) :
    ∃ c, r = .ok () c := by
  cases r with
  | ok u c => exact ⟨c, rfl⟩
  | error e c => simp [usable] at h

/-- The server asks for a password, confirms it and is ready. -/
def passwordServer : List Incoming :=
  [.message .authenticationCleartextPassword, .message .authenticationOk,
    .message (.readyForQuery 73)]

/-- The server asks for a password, as it must, and is content. -/
theorem connectOne_authenticated_password :
    ∃ ra c, parseRequireAuth "password".toList = .ok ra ∧ ra.authRequired = true ∧
      connectOne plainPlatform (plainConfig "password" "prefer") none false (dialed passwordServer) =
        .ok () c ∧
      Authenticated plainPlatform (plainConfig "password" "prefer") none ra c.wire := by
  have hra : parseRequireAuth "password".toList =
      .ok { raw := "password".toList, authRequired := true, allowed := 1 } := by decide +kernel
  obtain ⟨c, hrun⟩ := usable_eq_some (r := connectOne plainPlatform (plainConfig "password" "prefer")
    none false (dialed passwordServer)) (by decide +kernel)
  have hok : OkBeforeReady passwordServer := by simp [OkBeforeReady, beforeReady, passwordServer,
    Incoming.isReady, BackendMessage.isReadyForQuery]
  exact ⟨_, c, hra, rfl, hrun,
    (connectOne_authenticated_iff plainPlatform (plainConfig "password" "prefer")
    none false _ passwordServer c hra rfl hrun).mpr hok⟩

/-- A server that is ready at once is accepted, whatever the policy requires. -/
theorem connectOne_unauthenticated :
    ∃ ra c, parseRequireAuth "scram-sha-256".toList = .ok ra ∧ ra.authRequired = true ∧
      connectOne plainPlatform (plainConfig "scram-sha-256" "prefer") none false
        (dialed [.message (.readyForQuery 73)]) = .ok () c ∧
      ¬ Authenticated plainPlatform (plainConfig "scram-sha-256" "prefer") none ra c.wire := by
  have hra : parseRequireAuth "scram-sha-256".toList =
      .ok { raw := "scram-sha-256".toList, authRequired := true, allowed := 16 } := by decide +kernel
  obtain ⟨c, hrun⟩ := usable_eq_some (r := connectOne plainPlatform
    (plainConfig "scram-sha-256" "prefer") none false (dialed [.message (.readyForQuery 73)]))
    (by decide +kernel)
  refine ⟨_, c, hra, rfl, hrun, ?_⟩
  rintro ⟨es, hes, hs⟩
  obtain ⟨hmsgs, -⟩ := connectOne_ok hra rfl hrun
  have hbefore := hes.beforeReady c.pending
  rw [← hmsgs] at hbefore
  have hok := mem_map_of_mem (f := Incoming.message) hs.ok_mem
  rw [← hbefore] at hok
  simp [beforeReady, Incoming.isReady, BackendMessage.isReadyForQuery] at hok

end Pgx.Connect
