import Pgx.Conn.Streams

/-!
# Reading all results

`ReadAll` takes the results of a `MultiResultReader` one after the other and reads
each to its end. What `NextResult` makes of the next message is said once, for
each kind of message.
-/
namespace Pgx.Conn

open Pgx.Go Pgx.Wire Pgx.Effect

/-! ## The loop -/

/-- A reader that `NextResult` has yielded: its columns, and what reading it has given. -/
structure Yielded where
  fieldDescriptions : List FieldDescription
  result : Result

/-- What is left to read, and the descriptions that are left. -/
def PgConn.weight (c : PgConn) : Nat := c.unread + c.multiResultReader.statementDescriptions.length

/-- Nothing was added to what is left to read, and no description was taken. -/
def Waned (c d : PgConn) : Prop :=
  d.unread ≤ c.unread ∧
    d.multiResultReader.statementDescriptions = c.multiResultReader.statementDescriptions

instance : Std.Refl Waned := ⟨fun _ => ⟨le_rfl, rfl⟩⟩

instance : Trans Waned Waned Waned := ⟨fun h k => ⟨Nat.le_trans k.1 h.1, k.2.trans h.2⟩⟩

theorem Waned.weight {c d : PgConn} (h : Waned c d) : d.weight ≤ c.weight := by
  unfold PgConn.weight
  rw [h.2]
  exact Nat.add_le_add_right h.1 _

theorem waned_framed : Framed fun _ => Waned where
  receive := fun env c => by
    apply wp_mono (wp_and (receiveMessage_spec env c) (receiveMessage_received env c))
    · exact fun _ _ hd => ⟨hd.1.1.unread ▸ Nat.le_succ _, by rw [hd.2.multiResultReader]⟩
    · rintro - d ⟨hd | ⟨err, hd, -⟩, hr⟩
      · exact ⟨hd.unread, by rw [hr.multiResultReader]⟩
      · exact ⟨hd.unread ▸ Nat.le_succ _, by rw [hr.multiResultReader]⟩
  readers := fun _ _ _ _ _ h _ _ => ⟨le_rfl, h⟩
  close := fun _ => ⟨le_rfl, rfl⟩
  unlock := fun _ _ => ⟨le_rfl, rfl⟩

namespace MultiResultReader

theorem nextResult_progress (env : Env) (c : PgConn) :
    wp (nextResult env) (fun more d => more = true → d.weight < c.weight) (fun _ _ => True) c := by
  have hreceive : ∀ d : PgConn, d.weight ≤ c.weight → wp (receiveResult env)
      (fun r t => r.elim (fun _ => t.weight ≤ c.weight)
        (fun more => more = true → t.weight < c.weight))
      (fun _ _ => True) d := by
    intro d hd
    unfold receiveResult
    rw [wp_bind]
    apply wp_attempt
    apply wp_mono (wp_and (receiveMessage_reads env d) (receiveMessage_gains waned_framed env d))
    · intro msg t ht
      have hlt : t.weight < c.weight := by
        have hsame := ht.2.2
        unfold PgConn.weight at *
        rw [hsame]
        omega
      dsimp only
      cases startResult msg with
      | none => exact Nat.le_of_lt hlt
      | some rr => exact fun _ => hlt
    · exact fun _ _ _ => ⟨trivial, nofun⟩
  apply Loop.wp_run (I := fun _ d => d.weight ≤ c.weight)
  · intro u d hd
    show wp (nextResultRound env u) _ _ d
    unfold nextResultRound
    rw [wp_bind, wp_get]
    split
    · exact nofun
    · rw [wp_bind]
      apply wp_attempt
      have hpeek : ∀ t : PgConn, t.unread ≤ d.unread → Apart d t → t.weight ≤ c.weight := by
        intro t hle ht
        unfold PgConn.weight at *
        rw [ht.multiResultReader]
        omega
      apply wp_mono (wp_and (peekMessage_unread d) (peekMessage_spec d))
      · intro msg t ht
        have hw := hpeek t ht.1 ht.2.1
        cases msg with
        | dataRow values =>
          rw [wp_map]
          unfold describeRows
          rw [wp_bind, wp_get]
          split
          · exact nofun
          · trivial
          · rename_i sd sds formats rest hsds _
            intro _
            unfold PgConn.weight at *
            show t.unread + sds.length < _
            rw [hsds, List.length_cons] at hw
            omega
        | _ => exact hreceive t hw
      · exact fun _ t ht => ⟨trivial, hreceive t (hpeek t ht.1 ht.2.toApart)⟩
  · exact le_rfl

def readResultsRound (env : Env) (results : List Yielded) : Op (List Yielded ⊕ List Yielded) := do
  if ← nextResult env then
    let c ← get
    let result ← ResultReader.read env
    pure (.inl (results ++ [{ fieldDescriptions := c.resultReader.fieldDescriptions, result }]))
  else pure (.inr results)

theorem readResultsRound_progress {env : Env} {i j : List Yielded} {c d : PgConn}
    (h : readResultsRound env i c = .ok (.inl j) d) : d.weight < c.weight := by
  have hwp : wp (readResultsRound env i) (fun r d => ∀ k, r = .inl k → d.weight < c.weight)
      (fun _ _ => True) c := by
    unfold readResultsRound
    rw [wp_bind]
    apply wp_mono (nextResult_progress env c)
    · intro more t ht
      cases more with
      | false => exact nofun
      | true =>
        rw [if_pos rfl, wp_bind, wp_get, wp_bind]
        apply wp_mono (ResultReader.read_gains waned_framed env t)
        · exact fun _ e he k _ => Nat.lt_of_le_of_lt he.weight (ht rfl)
        · exact fun _ _ _ => trivial
    · exact fun _ _ _ => trivial
  exact wp_of_ok hwp h j rfl

def readResults (env : Env) : Loop PgConn Error (List Yielded) (List Yielded) where
  body := readResultsRound env
  measure := PgConn.weight
  progress := fun _ _ _ _ => readResultsRound_progress

theorem readResults_extends (env : Env) (results : List Yielded) (c : PgConn) :
    wp ((readResults env).run results) (fun rs _ => ∃ more, rs = results ++ more)
      (fun _ _ => True) c := by
  apply Loop.wp_run (I := fun rs _ => ∃ more, rs = results ++ more)
  · intro rs d hrs
    obtain ⟨more, rfl⟩ := hrs
    show wp (readResultsRound env _) _ _ d
    unfold readResultsRound
    rw [wp_bind]
    apply wp_mono (wp_true (nextResult env))
    · intro b t _
      cases b with
      | false => exact ⟨more, rfl⟩
      | true =>
        rw [if_pos rfl, wp_bind, wp_get, wp_bind]
        apply wp_mono (wp_true (ResultReader.read env))
        · exact fun result _ _ => ⟨more ++ [_], by rw [List.append_assoc]⟩
        · exact fun _ _ _ => trivial
    · exact fun _ _ _ => trivial
  · exact ⟨[], (List.append_nil _).symm⟩

/-! ## One result -/

/-- Between two results: these descriptions are left, and these messages are to come. -/
structure Between (queue : List (StatementDescription × List Int)) (ms : List BackendMessage)
    (c : PgConn) : Prop where
  status : c.status = .busy
  closed : c.multiResultReader.closed = false
  err : c.multiResultReader.err = none
  statementDescriptions : c.multiResultReader.statementDescriptions = queue.map Prod.fst
  resultFormats : c.multiResultReader.resultFormats = queue.map Prod.snd
  pending : Carries c.pending ms

def Over (c : PgConn) : Prop := c.multiResultReader.closed = true ∨
    c.multiResultReader.err.isSome = true

section NextResult

variable {env : Env} {c d : PgConn} {queue : List (StatementDescription × List Int)}
    {m : BackendMessage}
  {ms : List BackendMessage} {Q : Bool → PgConn → Prop} {E : Error → PgConn → Prop}

theorem Between.open (h : Between queue ms c) : c.status ≠ .closed := by
  rw [h.status]
  exact nofun

theorem Between.of_took {ns : List BackendMessage} (h : Between queue ms c) (hd : Took c d ns) :
    Between queue ns d := by
  refine ⟨hd.status.trans h.status, ?_, ?_, ?_, ?_, hd.pending⟩ <;> rw [hd.multiResultReader]
  · exact h.closed
  · exact h.err
  · exact h.statementDescriptions
  · exact h.resultFormats

theorem nextResult_over (h : Over c) (hQ : Q false c) : wp (nextResult env) Q E c := by
  apply Loop.wp_run_round
  show wp (nextResultRound env ()) _ _ c
  unfold nextResultRound
  rw [wp_bind, wp_get, if_pos (by simpa [Over] using h)]
  exact hQ

/-- What a round of `NextResult` does when this is the next message. -/
def takeMessage (env : Env) : BackendMessage → Op (Unit ⊕ Bool)
  | .dataRow _ => .inr <$> describeRows
  | _ => receiveResult env

theorem receiveResult_noise {rest : List Incoming} {Q : Unit ⊕ Bool → PgConn → Prop}
    (hs : c.status ≠ .closed) (hpend : c.pending = .message m :: rest) (hm : m.isAsync = true)
    (hQ : Q (.inl ()) (c.deliver m rest)) : wp (receiveResult env) Q E c := by
  unfold receiveResult receiveMessage
  rw [wp_bind, wp_attempt_iff, wp_bind, wp_attempt_iff]
  apply Conn.wp_receiveMessage hs hpend (passes_of_isAsync hm)
  cases m <;> first | exact hQ | cases hm

theorem nextResult_next (h : Between queue (m :: ms) c)
    (hnext : ∀ d rest, Between queue (m :: ms) d → d.pending = .message m :: rest → Carries rest ms →
      wp (takeMessage env m)
        (fun r t => r.elim (fun _ => wp (nextResult env) Q E t) (fun b => Q b t)) E d) :
    wp (nextResult env) Q E c := by
  generalize hn : c.unread = n
  induction n using Nat.strongRecOn generalizing c with
  | ind n ih =>
    obtain ⟨i, rest, hpend, hcase⟩ := h.pending.cons
    have hlooked : ∀ msg, i = .message msg → wp peekMessage (fun k d => k = msg ∧
        d.pending = c.pending ∧ Between queue (m :: ms) d) never c := by
      intro msg hi
      subst hi
      unfold wp
      rw [peekMessage_pending hpend]
      have hsame : ({ c with peekedMsg := some msg, inbox := rest } : PgConn).pending = c.pending :=
        hpend.symm
      refine ⟨rfl, hsame, h.status, h.closed, h.err, h.statementDescriptions, h.resultFormats, ?_⟩
      rw [hsame]
      exact h.pending
    apply Loop.wp_run_round
    show wp (nextResultRound env ()) _ _ c
    unfold nextResultRound
    rw [wp_bind, wp_get, if_neg (by simp [h.closed, h.err]), wp_bind, wp_attempt_iff]
    rcases hcase with ⟨hi, hrest⟩ | ⟨rfl, hrest⟩
    · obtain ⟨msg, rfl, hmsg⟩ := isNoise_message hi
      refine wp_mono (hlooked msg rfl) (fun k d hd => ?_) fun _ _ he => he.elim
      obtain ⟨rfl, hsame, hd⟩ := hd
      have hpend' := hsame.trans hpend
      have htook : Took d (d.deliver k rest) (m :: ms) :=
        ⟨deliver_received hd.open hpend', deliver_status _ _ _, by rwa [deliver_pending]⟩
      have hless : (d.deliver k rest).unread < c.unread := by
        unfold PgConn.unread
        rw [deliver_pending, hpend]
        exact Nat.lt_succ_self _
      have hgo : wp (receiveResult env)
          (fun r t => r.elim (fun _ => wp (nextResult env) Q E t) (fun b => Q b t)) E d :=
        receiveResult_noise hd.open hpend' hmsg (ih _ (hn ▸ hless) (hd.of_took htook) rfl)
      cases k <;> first | exact hgo | cases hmsg
    · refine wp_mono (hlooked m rfl) (fun k d hd => ?_) fun _ _ he => he.elim
      obtain ⟨rfl, hsame, hd⟩ := hd
      have hgo := hnext d rest hd (hsame.trans hpend) hrest
      cases k <;> exact hgo

/-- After a message that is neither a row nor the last one. -/
structure Passed (queue : List (StatementDescription × List Int)) (m : BackendMessage)
    (ms : List BackendMessage) (c : PgConn) : Prop where
  status : c.status = .busy
  closed : c.multiResultReader.closed = false
  err : c.multiResultReader.err = (MultiResultReader.noted {} m).err
  statementDescriptions : c.multiResultReader.statementDescriptions = queue.map Prod.fst
  resultFormats : c.multiResultReader.resultFormats = queue.map Prod.snd
  pending : Carries c.pending ms

theorem Passed.of_took (h : Between queue (m :: ms) c) (hd : Took c d ms) :
    Passed queue m ms { d with multiResultReader := d.multiResultReader.noted m } := by
  have hd' := h.of_took hd
  cases m with
  | errorResponse err =>
    exact ⟨hd'.status, hd'.closed, rfl, hd'.statementDescriptions, hd'.resultFormats, hd'.pending⟩
  | _ => exact ⟨hd'.status, hd'.closed, hd'.err, hd'.statementDescriptions,
    hd'.resultFormats, hd'.pending⟩

/-- One message of a result that is neither a row nor the last one. -/
theorem nextResult_message (h : Between queue (m :: ms) c) (hrow : ∀ values, m ≠ .dataRow values)
    (hready : m.isReadyForQuery = false)
    (hok : ∀ d, env.passes m = true → Passed queue m ms d → match startResult m with
      | none => wp (nextResult env) Q E d
      | some rr => Q true
          { d with resultReader := rr, multiResultReader := { d.multiResultReader with rr := true } })
    (hfail : ∀ d, env.passes m = false → Over d → Q false d) : wp (nextResult env) Q E c := by
  refine nextResult_next h fun d rest hd hpend hrest => ?_
  have hreceive : wp (receiveResult env)
      (fun r t => r.elim (fun _ => wp (nextResult env) Q E t) (fun b => Q b t)) E d := by
    unfold receiveResult receiveMessage
    rw [wp_bind, wp_attempt_iff, wp_bind, wp_attempt_iff]
    cases hp : env.passes m with
    | true =>
      apply Conn.wp_receiveMessage hd.open hpend hp
      have htook : Took d (d.deliver m rest) ms :=
        ⟨deliver_received hd.open hpend, deliver_status _ _ _, by rwa [deliver_pending]⟩
      refine ResultReader.wp_multi_note hready ?_
      have hstep := hok _ hp (.of_took hd htook)
      dsimp only
      cases hstart : startResult m with
      | none =>
        rw [hstart] at hstep
        exact hstep
      | some rr =>
        rw [hstart] at hstep
        exact hstep
    | false =>
      refine wp_mono (receiveMessage_refused hd.open hpend hp) (fun _ _ h => h.elim) fun e t ht => ?_
      have hpanic : ¬ e.isPanic = true := by
        rw [ht.1.isPanic]
        exact nofun
      rw [if_neg hpanic]
      show if e.isPanic = true then _ else _
      rw [if_neg hpanic]
      exact hfail _ hp (.inl rfl)
  cases m with
  | dataRow values => exact absurd rfl (hrow values)
  | _ => exact hreceive

def skips : BackendMessage → Bool
  | .parseComplete => true
  | .bindComplete => true
  | .noData => true
  | _ => false

theorem nextResult_skip (before : List BackendMessage) (hb : ∀ m ∈ before, skips m = true)
    (h : Between queue (before ++ ms) c) (hk : ∀ d, Between queue ms d → wp (nextResult env) Q E d) :
    wp (nextResult env) Q E c := by
  induction before generalizing c with
  | nil => exact hk c h
  | cons m before ih =>
    have hm : skips m = true := hb m (.head _)
    have hquiet : m.isReadyForQuery = false ∧ startResult m = none ∧
        (MultiResultReader.noted {} m).err = none ∧ env.passes m = true := by
      cases m <;> first | exact ⟨rfl, rfl, rfl, rfl⟩ | cases hm
    obtain ⟨hready, hstart, herr, hpass⟩ := hquiet
    refine nextResult_message (m := m) h ?_ hready (fun d _ hd => ?_) fun d hp => ?_
    · intro values hrow
      subst hrow
      cases hm
    · rw [hstart]
      exact ih (fun k hk => hb k (.tail _ hk)) ⟨hd.status, hd.closed, hd.err.trans herr,
        hd.statementDescriptions, hd.resultFormats, hd.pending⟩
    · rw [hpass] at hp
      cases hp

theorem nextResult_start {rr : ResultReader} (hstart : startResult m = some rr)
    (h : Between queue (m :: ms) c)
    (hQ : ∀ d, Between queue ms d → d.resultReader = rr → Q true d) : wp (nextResult env) Q E c := by
  have hquiet : m.isReadyForQuery = false ∧ (MultiResultReader.noted {} m).err = none ∧
      env.passes m = true := by
    cases m <;> first | exact ⟨rfl, rfl, rfl⟩ | cases hstart
  obtain ⟨hready, herr, hpass⟩ := hquiet
  refine nextResult_message h ?_ hready (fun d _ hd => ?_) fun d hp => ?_
  · intro values hrow
    subst hrow
    cases hstart
  · rw [hstart]
    exact hQ _ ⟨hd.status, hd.closed, hd.err.trans herr, hd.statementDescriptions, hd.resultFormats,
      hd.pending⟩ rfl
  · rw [hpass] at hp
    cases hp

theorem nextResult_error {err : PgError} (h : Between queue (.errorResponse err :: ms) c)
    (hQ : ∀ d, Over d → Q false d) : wp (nextResult env) Q E c := by
  refine nextResult_message h nofun rfl (fun d _ hd => ?_) fun d _ hd => hQ d hd
  have hover : Over d := .inr (by rw [hd.err]; rfl)
  exact nextResult_over hover (hQ d hover)

theorem nextResult_ready {txStatus : UInt8} (h : Between queue (.readyForQuery txStatus :: ms) c)
    (hQ : ∀ d, Over d → Q false d) : wp (nextResult env) Q E c := by
  refine nextResult_next h fun d rest hd hpend _ => ?_
  show wp (receiveResult env) _ _ d
  unfold receiveResult receiveMessage
  rw [wp_bind, wp_attempt_iff, wp_bind, wp_attempt_iff]
  apply Conn.wp_receiveMessage hd.open hpend rfl
  rw [wp_bind]
  unfold note
  rw [wp_bind, modifyMulti, wp_modify]
  unfold unlock
  simp only [deliver_status, hd.status]
  exact nextResult_over (.inl rfl) (hQ _ (.inl rfl))

/-- The first row of a result whose columns were queued with the batch. -/
theorem nextResult_dataRow {values : List (Option Bytes)}
    (h : Between queue (.dataRow values :: ms) c) (hnil : queue = [] → ∀ d, Over d → Q false d)
    (hcons : ∀ sd formats rest d, queue = (sd, formats) :: rest →
      Between rest (.dataRow values :: ms) d →
      d.resultReader = ({ multiResultReader := true } : ResultReader).describe
        (some sd) formats → Q true d) :
    wp (nextResult env) Q E c := by
  refine nextResult_next h fun d rest hd _ _ => ?_
  show wp (Sum.inr <$> describeRows) _ _ d
  rw [wp_map]
  unfold describeRows
  rw [wp_bind, wp_get]
  have hsds := hd.statementDescriptions
  have hformats := hd.resultFormats
  cases queue with
  | nil =>
    rw [hsds]
    exact hnil rfl _ (.inr rfl)
  | cons s rest =>
    rw [hsds, hformats]
    exact hcons s.1 s.2 rest _ rfl ⟨hd.status, hd.closed, hd.err, rfl, rfl, hd.pending⟩ rfl

end NextResult

end MultiResultReader

end Pgx.Conn
