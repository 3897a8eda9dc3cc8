import Pgx.Connect.Loop

/-!
# Authentication exchanges on the wire

What a completed authentication looks like as a sequence of messages, for every
method, and what one round of the connect loop adds to the conversation.
-/
namespace Pgx.Connect

open Pgx.Go Pgx.Wire Pgx.Conn Pgx.Effect

/-- The four messages of SCRAM after the offer, with the signature of the server verified. -/
def ScramRun (k : Crypto) (sc : ScramClient) (es : List Event) : Prop :=
  ∃ serverFirst sc' serverFinal,
    sc.clientFirstMessage.2.recvServerFirstMessage serverFirst = .ok sc' ∧
    (sc'.clientFinalMessage k).2.recvServerFinalMessage k serverFinal = .ok () ∧
    es = [.sent (.saslInitialResponse sc.authMechanism sc.clientFirstMessage.1),
      .received (.authenticationSASLContinue serverFirst),
      .sent (.saslResponse (sc'.clientFinalMessage k).1),
      .received (.authenticationSASLFinal serverFinal)]

/-- Rounds of GSS tokens until the provider is satisfied. -/
inductive GssRun (cli : GSS) : List Bytes → Bytes → List Event → Prop where
  | last {tokens : List Bytes} {data token out : Bytes}
      (h : cli.continueWith (tokens ++ [token]) = .ok (true, out)) :
      GssRun cli tokens data [.sent (.gssResponse data), .received (.authenticationGSSContinue token)]
  | more {tokens : List Bytes} {data token next : Bytes} {es : List Event}
      (h : cli.continueWith (tokens ++ [token]) = .ok (false, next))
      (hes : GssRun cli (tokens ++ [token]) next es) :
      GssRun cli tokens data
        (.sent (.gssResponse data) :: .received (.authenticationGSSContinue token) :: es)

/-- A completed exchange after the events `w`, from the request of the server on. The
tokens come from the GSS provider and the OAuth provider of the client. With OAuth the
confirmation of the server is part of the exchange. -/
inductive Exchange (p : ConnectPlatform) (cfg : Config) (tls : Option (List Certificate))
    (w : List Event) : AuthMethod → List Event → Prop where
  | password :
      Exchange p cfg tls w .password
        [.received .authenticationCleartextPassword, .sent (.passwordMessage cfg.password)]
  | md5 (salt : Bytes) :
      Exchange p cfg tls w .md5
        [.received (.authenticationMD5Password salt),
          .sent (.passwordMessage (cfg.digestedPassword p.crypto salt))]
  | scram {ms : List Bytes} {sc : ScramClient} {es : List Event}
      (hms : cfg.usesOAuth ms = false)
      (hsc : startScram p.toPlatform (cfg.scramConfig tls)
        (w ++ [.received (.authenticationSASL ms)]) ms = .ok sc)
      (hes : ScramRun p.crypto sc es) :
      Exchange p cfg tls w .scramSHA256 (.received (.authenticationSASL ms) :: es)
  | oauth {ms : List Bytes} {provider : List Event → Except Error Bytes} {token : Bytes}
      (hms : cfg.usesOAuth ms = true) (hprovider : cfg.oauthTokenProvider = some provider)
      (htoken : provider (w ++ [.received (.authenticationSASL ms)]) = .ok token) :
      Exchange p cfg tls w .oauth
        [.received (.authenticationSASL ms),
          .sent (.saslInitialResponse (ascii "OAUTHBEARER") (bearer token)),
          .received .authenticationOk]
  | gss {cli : GSS} {data : Bytes} {es : List Event} (hcli : p.newGSS = some (.ok cli))
      (hdata : cfg.initToken cli = .ok data) (hes : GssRun cli [] data es) :
      Exchange p cfg tls w .gss (.received .authenticationGSS :: es)

/-! ## What the methods say -/

def Silent (es : List Event) : Prop := ∀ password, Event.sent (.passwordMessage password) ∉ es

theorem Silent.append {es fs : List Event} (h : Silent es) (k : Silent fs) : Silent (es ++ fs) :=
  fun password hm => (List.mem_append.mp hm).elim (h password) (k password)

theorem silent_nil : Silent [] := fun _ => List.not_mem_nil

variable {msg : BackendMessage} {w : List Event}

theorem silent_received : Silent [.received msg] := by
  intro password
  simp

theorem silent_receiveError {es : List Event}
    (h : es = [] ∨ ∃ err, es = [Event.received (.errorResponse err)]) : Silent es := by
  rcases h with rfl | ⟨err, rfl⟩
  · exact silent_nil
  · exact silent_received

theorem rxSASLContinue_talks (env : Env) : Talks w (rxSASLContinue env)
      (fun data es => es = [.received (.authenticationSASLContinue data)]) Silent := by
  apply (receiveMessage_talks env).bind (fun es => silent_receiveError)
  rintro msg _ rfl
  cases msg with
  | authenticationSASLContinue data => exact .pure rfl
  | _ => exact .throw silent_received

theorem rxSASLFinal_talks (env : Env) : Talks w (rxSASLFinal env)
      (fun data es => es = [.received (.authenticationSASLFinal data)]) Silent := by
  apply (receiveMessage_talks env).bind (fun es => silent_receiveError)
  rintro msg _ rfl
  cases msg with
  | authenticationSASLFinal data => exact .pure rfl
  | _ => exact .throw silent_received

theorem rxGSSContinue_talks (env : Env) : Talks w (rxGSSContinue env)
      (fun data es => es = [.received (.authenticationGSSContinue data)]) Silent := by
  apply (receiveMessage_talks env).bind (fun es => silent_receiveError)
  rintro msg _ rfl
  cases msg with
  | authenticationGSSContinue data => exact .pure rfl
  | _ => exact .throw silent_received

/-- Sending a message that carries no password, then going on. -/
theorem transmit_bind {α : Type} {env : Env} {msg : FrontendMessage} {x : Op α}
    {R : α → List Event → Prop} (hm : Silent [.sent msg])
    (hx : ∀ w, Talks w x (fun a es => R a (.sent msg :: es)) Silent) :
    Talks w (do send msg; writeBuffer env; x) R Silent := by
  apply (transmit_talks env msg).bind
  · rintro es rfl
    exact hm
  · rintro - es rfl
    exact (hx _).mono (fun _ _ h => h) (fun es h => hm.append h)

theorem converse_talks (p : Platform) (sc : ScramClient) :
    Talks w (converse p sc) (fun _ es => ScramRun p.crypto sc es) Silent := by
  refine transmit_bind (by intro password; simp) fun w => ?_
  apply (rxSASLContinue_talks p.env).bind (fun _ h => h)
  rintro serverFirst _ rfl
  refine .ofExcept_bind silent_received fun sc' hfirst => ?_
  refine (transmit_bind (R := fun _ es => ScramRun p.crypto sc (.sent _ :: .received _ :: es))
    (by intro password; simp) fun w => ?_).mono (fun _ _ h => h)
      (fun es h => silent_received.append h)
  apply (rxSASLFinal_talks p.env).bind (fun _ h => h)
  rintro serverFinal _ rfl
  refine .ofExcept (fun _ h => ?_) (fun _ _ => silent_received)
  exact ⟨serverFirst, sc', serverFinal, hfirst, h, rfl⟩

theorem oauthAuth_talks (p : ConnectPlatform) (cfg : Config) :
    Talks w (oauthAuth p cfg)
      (fun _ es => ∃ provider token, cfg.oauthTokenProvider = some provider ∧ provider w = .ok token ∧
        es = [.sent (.saslInitialResponse (ascii "OAUTHBEARER") (bearer token)),
          .received .authenticationOk])
      Silent := by
  unfold oauthAuth
  split
  · exact .throw silent_nil
  · rename_i provider hp
    refine .get_bind fun c hw => ?_
    refine .bind (Q := fun token es => provider w = .ok token ∧ es = []) (E := fun es => es = [])
      (.adaptExcept (.ofExcept (fun _ h => ⟨hw ▸ h, rfl⟩) (fun _ _ => rfl))) ?_ ?_
    · rintro es rfl
      exact silent_nil
    · rintro token _ ⟨htoken, rfl⟩
      refine (transmit_bind
        (R := fun _ es => es = [.sent (.saslInitialResponse (ascii "OAUTHBEARER") (bearer token)),
          .received .authenticationOk]) (by intro password; simp) fun w => ?_).mono
        (fun _ _ h => ⟨provider, token, hp, htoken, h⟩) (fun _ h => h)
      apply (receiveMessage_talks p.env).bind (fun es => silent_receiveError)
      rintro msg _ rfl
      cases msg with
      | authenticationOk => exact .pure rfl
      | authenticationSASLContinue data =>
        dsimp only
        split
        · exact .throw silent_received
        · exact .throw silent_received
      | _ => exact .throw silent_received

theorem gssRound_talks (env : Env) (cli : GSS) (st : List Bytes × Bytes) :
    Talks w (gssRound env cli st)
      (fun r es => ∃ token next,
        es = [.sent (.gssResponse st.2), .received (.authenticationGSSContinue token)] ∧
        match r with
        | .inl st' => cli.continueWith (st.1 ++ [token]) = .ok (false, next) ∧
          st' = (st.1 ++ [token], next)
        | .inr _ => cli.continueWith (st.1 ++ [token]) = .ok (true, next))
      Silent := by
  refine transmit_bind (by intro password; simp) fun w => ?_
  apply (rxGSSContinue_talks env).bind (fun _ h => h)
  rintro token _ rfl
  refine .ofExcept_bind silent_received fun (done, next) hr => ?_
  apply Talks.pure
  refine ⟨token, next, rfl, ?_⟩
  cases done with
  | true => exact hr
  | false => exact ⟨hr, rfl⟩

theorem gssAuth_talks (p : ConnectPlatform) (cfg : Config) :
    Talks w (gssAuth p cfg) (fun _ es => ∃ cli data, p.newGSS = some (.ok cli) ∧
      cfg.initToken cli = .ok data ∧ GssRun cli [] data es) Silent := by
  unfold gssAuth
  split
  · exact .throw silent_nil
  · rename_i provider hp
    refine .ofExcept_bind silent_nil fun cli hcli => .ofExcept_bind silent_nil fun data hdata => ?_
    rw [hcli] at hp
    -- what is left to do completes the rounds that are done
    apply Talks.loop (J := fun st es => Silent es ∧ ∀ fs, GssRun cli st.1 st.2 fs →
      GssRun cli [] data (es ++ fs))
    · rintro st es ⟨hes, hst⟩
      apply (gssRound_talks p.env cli st).mono
      · rintro r fs ⟨token, next, rfl, hr⟩
        have hsil : Silent (es ++ [Event.sent (.gssResponse st.2),
            .received (.authenticationGSSContinue token)]) := hes.append (by intro password; simp)
        cases r with
        | inl st' =>
          obtain ⟨hc, rfl⟩ := hr
          refine ⟨hsil, fun gs hgs => ?_⟩
          have hmore := hst _ (.more hc hgs)
          simpa using hmore
        | inr _ => exact ⟨cli, data, hp, hdata, hst _ (.last hr)⟩
      · exact fun fs h => hes.append h
    · exact ⟨silent_nil, fun fs h => h⟩

/-! ## One message -/

/-- A request for the password, or for a digest of it, that the policy permits. -/
def RequireAuth.asksPassword (ra : RequireAuth) : BackendMessage → Bool
  | .authenticationCleartextPassword => ra.allows .password
  | .authenticationMD5Password _ => ra.allows .md5
  | _ => false

namespace Attempt

variable (a : Attempt)

def isQuiet : BackendMessage → Bool
  | .backendKeyData _ _ | .parameterStatus _ _ | .noticeResponse _
    | .negotiateProtocolVersion _ => true
  | _ => false

theorem quiet_facts (h : isQuiet msg = true) :
    msg.isReadyForQuery = false ∧ msg ≠ .authenticationOk ∧
      (∀ ms, msg ≠ .authenticationSASL ms) ∧ ∀ ra : RequireAuth, ra.asksPassword msg = false := by
  cases msg <;> simp_all [isQuiet, BackendMessage.isReadyForQuery, RequireAuth.asksPassword]

/-- How the loop gets past a message, and what else goes over the wire on the way. -/
inductive Handled (w : List Event) (b : Bool) : BackendMessage → Bool ⊕ Unit → List Event → Prop where
  | quiet {msg : BackendMessage} (h : isQuiet msg = true) : Handled w b msg (.inl b) []
  | accepted (h : a.requireAuthPolicy.authRequired = true → b = true) :
      Handled w b .authenticationOk (.inl b) []
  | exchange {m : AuthMethod} {msg : BackendMessage} {es : List Event}
      (hm : a.requireAuthPolicy.allows m = true)
      (hes : Exchange a.platform a.config a.tls w m (.received msg :: es)) :
      Handled w b msg (.inl true) es
  | ready (txStatus : UInt8) : Handled w b (.readyForQuery txStatus) (.inr ()) []

theorem andContinue_talks {b : Bool} {x : Op Unit} {Q : Bool ⊕ Unit → List Event → Prop}
    {E : List Event → Prop} (h : Talks w x (fun _ es => Q (.inl b) es) E) :
    Talks w (andContinue b x) Q E := by
  refine h.bind (fun _ h => h) fun _ es hes => ?_
  apply Talks.pure
  rwa [List.append_nil]

theorem checkAuth_bind {α : Type} {m : AuthMethod} {x : Op α} {Q : α → List Event → Prop}
    {E : List Event → Prop} (hE : E []) (hx : a.requireAuthPolicy.allows m = true → Talks w x Q E) :
    Talks w (do a.checkAuth m; x) Q E := by
  unfold checkAuth
  cases hc : a.requireAuthPolicy.check m with
  | none =>
    have hx := hx (RequireAuth.check_eq_none.mp hc)
    exact hx
  | some err => exact .throw hE

theorem passwordAuth_talks {m : AuthMethod} {password : Bytes} {b : Bool}
    (hask : a.requireAuthPolicy.allows m = true → a.requireAuthPolicy.asksPassword msg = true)
    (hex : Exchange a.platform a.config a.tls w m
      [.received msg, .sent (.passwordMessage password)]) :
    Talks (w ++ [.received msg]) (andContinue true (a.passwordAuth m password)) (a.Handled w b msg)
      (fun es => ¬ Silent es → a.requireAuthPolicy.asksPassword msg = true) := by
  apply andContinue_talks
  apply a.checkAuth_bind (fun h => absurd silent_nil h)
  intro hm
  apply Talks.adaptExcept
  apply (transmit_talks _ _).mono
  · rintro - es rfl
    exact .exchange hm hex
  · intro es _ _
    exact hask hm

theorem saslAuth_talks (ms : List Bytes) (b : Bool) :
    Talks (w ++ [.received (.authenticationSASL ms)]) (andContinue true (a.saslAuth ms))
      (a.Handled w b (.authenticationSASL ms)) Silent := by
  apply andContinue_talks
  unfold saslAuth
  split <;> rename_i hms <;> refine a.checkAuth_bind silent_nil fun hm => Talks.adaptExcept ?_
  · apply (oauthAuth_talks _ _).mono
    · rintro - es ⟨provider, token, hp, htoken, rfl⟩
      exact .exchange hm (.oauth hms hp htoken)
    · exact fun _ h => h
  · refine .get_bind fun c hw => .ofExcept_bind silent_nil fun sc hsc => ?_
    apply (converse_talks _ sc).mono
    · exact fun _ es hes => .exchange hm (.scram (Bool.eq_false_iff.mpr hms) (hw ▸ hsc) hes)
    · exact fun _ h => h

theorem gssAuth_handled (b : Bool) :
    Talks (w ++ [.received .authenticationGSS]) (andContinue true (do
        a.checkAuth .gss
        orFail "failed GSS auth" (gssAuth a.platform a.config)))
      (a.Handled w b .authenticationGSS) Silent := by
  apply andContinue_talks
  apply a.checkAuth_bind silent_nil
  intro hm
  apply Talks.adaptExcept
  apply (gssAuth_talks _ _).mono
  · rintro - es ⟨cli, data, hcli, hdata, hes⟩
    exact .exchange hm (.gss hcli hdata hes)
  · exact fun _ h => h

theorem validate_talks (b : Bool) (txStatus : UInt8) :
    Talks (w ++ [.received (.readyForQuery txStatus)]) (do a.validate; pure (.inr ()))
      (a.Handled w b (.readyForQuery txStatus)) Silent := by
  have hready : a.Handled w b (.readyForQuery txStatus) (.inr ()) [] := Handled.ready txStatus
  have hvalid {w : List Event} : Talks w a.validate (fun _ es => es = []) Silent := by
    refine .bind (Q := fun _ es => es = []) (E := Silent) (.modify rfl fun _ => ⟨rfl, rfl, rfl⟩)
      (fun _ h => h) ?_
    rintro - es rfl
    split
    · exact .pure rfl
    · refine .get_bind fun c _ => ?_
      split
      · exact .pure rfl
      · split
        · exact .pure rfl
        · exact .throw silent_nil
      · exact .throw silent_nil
  apply hvalid.bind (fun _ h => h)
  rintro - es rfl
  exact .pure hready

/-- Only a permitted request for the password makes the loop send it. -/
theorem handleMessage_talks (b : Bool) (msg : BackendMessage) :
    Talks (w ++ [.received msg]) (a.handleMessage b msg)
      (a.Handled w b msg)
      (fun es => ¬ Silent es → a.requireAuthPolicy.asksPassword msg = true) := by
  have hsilent : ∀ es, Silent es → ¬ Silent es → a.requireAuthPolicy.asksPassword msg = true :=
    fun es h hn => absurd h hn
  cases msg with
  | backendKeyData processID secretKey =>
    apply andContinue_talks
    exact .modify (.quiet rfl) fun _ => ⟨rfl, rfl, rfl⟩
  | authenticationOk =>
    apply andContinue_talks
    unfold acceptOk
    split
    · exact .throw (hsilent _ silent_nil)
    · rename_i hreq
      refine .pure (.accepted fun hr => ?_)
      by_contra hb
      exact hreq ⟨hr, hb⟩
  | authenticationCleartextPassword => exact a.passwordAuth_talks (fun h => h) Exchange.password
  | authenticationMD5Password salt => exact a.passwordAuth_talks (fun h => h) (.md5 salt)
  | authenticationSASL ms => exact (a.saslAuth_talks ms b).mono (fun _ _ h => h) hsilent
  | authenticationGSS => exact (a.gssAuth_handled b).mono (fun _ _ h => h) hsilent
  | readyForQuery txStatus => exact (a.validate_talks b txStatus).mono (fun _ _ h => h) hsilent
  | negotiateProtocolVersion v =>
    apply andContinue_talks
    unfold checkVersion
    split
    · exact .throw (hsilent _ silent_nil)
    · exact .pure (.quiet rfl)
  | parameterStatus name value => exact .pure (.quiet rfl)
  | noticeResponse notice => exact .pure (.quiet rfl)
  | _ => exact .throw (hsilent _ silent_nil)

theorem round_talks (b : Bool) :
    Talks w (a.round b) (fun r es => ∃ msg fs, es = .received msg :: fs ∧ a.Handled w b msg r fs)
      (fun es => ¬ Silent es → ∃ msg fs, es = .received msg :: fs ∧
        a.requireAuthPolicy.asksPassword msg = true) := by
  apply (Talks.adaptExcept (receiveMessage_talks _)).bind
  · intro es h hn
    exact absurd (silent_receiveError h) hn
  · rintro msg _ rfl
    apply (a.handleMessage_talks b msg).mono
    · intro r es h
      exact ⟨msg, es, rfl, h⟩
    · intro es h hn
      refine ⟨msg, es, rfl, h fun hs => hn ?_⟩
      exact silent_received.append hs

end Attempt

/-- What is known of the loop is known of the attempt, whose first event is the startup message. -/
theorem connectOne_talks {p : ConnectPlatform} {cfg : Config} {tls : Option (List Certificate)}
    {ignore : Bool} {R : List Event → List Event → Prop} {F : List Event → Prop} (hF : F [])
    (hloop : ∀ ra v w, parseRequireAuth cfg.requireAuth = .ok ra →
      Talks w ((⟨p, cfg, tls, ignore, ra, v⟩ : Attempt).loop.run false) (fun _ es => R w es) F) :
    Talks w (connectOne p cfg tls ignore)
      (fun _ es => ∃ v ps fs, es = .sent (.startupMessage v ps) :: fs ∧
        R (w ++ [.sent (.startupMessage v ps)]) fs)
      (fun es => es = [] ∨ ∃ v ps fs, es = .sent (.startupMessage v ps) :: fs ∧ F fs) := by
  have hpure : ∀ {α : Type} {w : List Event} (msg : String) (r : Except Error α),
      Talks w (orFail msg (ofExcept r)) (fun x es => es = [] ∧ r = .ok x) (fun es => es = []) :=
    fun msg r => .adaptExcept (.ofExcept (fun x h => ⟨rfl, h⟩) (fun _ _ => rfl))
  apply (hpure _ _).bind (fun es h => .inl h)
  rintro maxV _ ⟨rfl, -⟩
  apply (hpure _ _).bind (fun es h => .inl h)
  rintro minV _ ⟨rfl, -⟩
  refine .bind (Q := fun _ es => es = []) (E := fun es => es = [])
    (.modify rfl fun _ => ⟨rfl, rfl, rfl⟩) (fun es h => .inl h) ?_
  rintro - es rfl
  apply (Talks.adaptExcept (transmit_talks p.env _)).bind
  · rintro es rfl
    exact .inr ⟨_, _, [], rfl, hF⟩
  · rintro - es rfl
    apply (hpure _ _).bind
    · rintro es rfl
      exact .inr ⟨_, _, [], rfl, hF⟩
    · rintro ra _ ⟨rfl, hra⟩
      apply (hloop ra minV _ hra).mono
      · intro _ es h
        exact ⟨_, _, es, rfl, by simpa using h⟩
      · intro es h
        exact .inr ⟨_, _, es, rfl, h⟩

end Pgx.Connect
