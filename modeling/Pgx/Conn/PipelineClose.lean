import Pgx.Conn.Pipeline
import Pgx.Conn.Rows

/-!
# Closing a pipeline

`Close` reads the results that are left and throws them away. It comes to an end
because each result that it reads makes the work that is left smaller: messages
to read, requests in the queue, and a reader that is open.
-/
namespace Pgx.Conn

open Pgx.Go Pgx.Wire Pgx.Effect PgConn PipelineState

/-! ## Reading a result -/

/-- A graded relation along which a pipeline reads its results: opening a reader and putting a
request back each lose one. -/
structure PipelineFramed (R : Int → PgConn → PgConn → Prop) : Prop extends Framed R where
  opens : ∀ c rr, R (-1) c { c with resultReader := rr }
  putsBack : ∀ c, R (-1) c
    { c with pipeline := { c.pipeline with state := Pipeline.putBackSync c.pipeline.state } }

namespace Pipeline

section Gaining

variable {R : Int → PgConn → PgConn → Prop} [Graded R] (hR : PipelineFramed R) {α : Type} {n : Int}

include hR

omit [Graded R] in
theorem modifyPipeline_gains {f : Pipeline → Pipeline}
    (hf : ∀ p, (f p).state.requestEventQueue = p.state.requestEventQueue) :
    Gains R 0 (modifyPipeline f) :=
  Gains.modify fun c => hR.readers c c.resultReader c.multiResultReader _ id rfl rfl (hf _)

theorem receiveFailed_gains (err : Error) : Gains R n (receiveFailed err : Op α) :=
  Gains.seq (modifyPipeline_gains hR fun _ => rfl) fun _ => closeAndThrow_gains hR.toFramed err

theorem handleUnexpectedMessage_gains (errStr : String) (msg : BackendMessage) :
    Gains R n (handleUnexpectedMessage errStr msg : Op α) :=
  Gains.seq (modifyPipeline_gains hR fun _ => rfl) fun _ => closeAndThrow_gains hR.toFramed _

theorem handleError_gains (err : PgError) : Gains R n (handleError err : Op α) :=
  Gains.seq (modifyPipeline_gains hR fun _ => rfl) fun _ => .throw

theorem handleErrorClosed_gains (err : PgError) : Gains R n (handleErrorClosed err : Op α) :=
  Gains.seq (modifyPipeline_gains hR fun _ => rfl) fun _ =>
    Gains.seq (modifyReader_gains hR.toFramed fun _ _ => rfl) fun _ => .throw

theorem receiveMessage_gains (env : Env) : Gains R 2 (receiveMessage env) :=
  readLoop_gains (hR.receive env) (by decide) (fun _ _ h => absurd h (by simp))
    (receiveFailed_gains hR) (fun _ _ => .pure) ()

/-- What is done with a message costs at most what reading it has gained. -/
theorem receive_bind_gains {f : BackendMessage → Op α} (env : Env)
    (hf : ∀ msg, Gains R (-2) (f msg)) :
    Gains R 0 (receiveMessage env >>= f) :=
  (receiveMessage_gains hR env).bind hf (by decide) (by decide)

theorem startReader_gains (rr : ResultReader) : Gains R (-2) (startReader rr) := fun c =>
  Graded.mono (hR.opens c rr) (by decide)

section

variable (env : Env)

include env

theorem receiveParseComplete_gains (errStr : String) :
    Gains R 0 (receiveParseComplete env errStr) := by
  refine receive_bind_gains hR env fun msg => ?_
  cases msg with
  | parseComplete => exact Gains.pure.weaken (by decide)
  | errorResponse err => exact handleError_gains hR err
  | _ => exact handleUnexpectedMessage_gains hR _ _

theorem receiveBindComplete_gains (errStr : String) : Gains R 0 (receiveBindComplete env errStr) := by
  refine receive_bind_gains hR env fun msg => ?_
  cases msg with
  | bindComplete => exact Gains.pure.weaken (by decide)
  | errorResponse err => exact handleError_gains hR err
  | _ => exact handleUnexpectedMessage_gains hR _ _

theorem receiveDescribedResultReader_gains (errStr : String) :
    Gains R 0 (receiveDescribedResultReader env errStr) := by
  refine receive_bind_gains hR env fun msg => ?_
  cases msg with
  | rowDescription fields => exact startReader_gains hR _
  | noData =>
    refine .weaken (n := 0) (receive_bind_gains hR env fun msg => ?_) (by decide)
    cases msg with
    | commandComplete tag => exact startReader_gains hR _
    | errorResponse err => exact handleErrorClosed_gains hR err
    | _ => exact handleUnexpectedMessage_gains hR _ _
  | errorResponse err => exact handleErrorClosed_gains hR err
  | _ => exact handleUnexpectedMessage_gains hR _ _

theorem getResultsPrepare_gains : Gains R 0 (getResultsPrepare env) := by
  refine (receiveParseComplete_gains hR env _).seq fun _ => receive_bind_gains hR env fun msg => ?_
  cases msg with
  | parameterDescription oids =>
    refine .weaken (n := 0) (receive_bind_gains hR env fun msg => ?_) (by decide)
    cases msg with
    | rowDescription fields => exact Gains.pure.weaken (by decide)
    | noData => exact Gains.pure.weaken (by decide)
    | errorResponse err => exact handleError_gains hR err
    | _ => exact handleUnexpectedMessage_gains hR _ _
  | errorResponse err => exact handleError_gains hR err
  | _ => exact handleUnexpectedMessage_gains hR _ _

theorem getResultsQueryStatement_gains : Gains R 0 (getResultsQueryStatement env) := by
  refine (receiveBindComplete_gains hR env _).seq fun _ => receive_bind_gains hR env fun msg => ?_
  have hextract : Gains R 0 extractFrontStatementData :=
    Gains.get_bind fun c => .seq (modifyPipeline_gains hR fun _ => rfl) fun _ => .pure
  refine hextract.seq fun r => ?_
  split
  · exact .throw
  · split
    · exact .throw
    · cases msg with
      | dataRow values => exact startReader_gains hR _
      | commandComplete tag => exact startReader_gains hR _
      | errorResponse err => exact handleErrorClosed_gains hR err
      | _ => exact handleUnexpectedMessage_gains hR _ _

theorem getResultsDeallocate_gains : Gains R 0 (getResultsDeallocate env) := by
  refine receive_bind_gains hR env fun msg => ?_
  cases msg with
  | closeComplete => exact Gains.pure.weaken (by decide)
  | errorResponse err => exact handleErrorClosed_gains hR err
  | _ => exact handleUnexpectedMessage_gains hR _ _

/-- Putting the request back costs less than reading the error has gained. -/
theorem getResultsSync_gains : Gains R 0 (getResultsSync env) := by
  intro c
  unfold getResultsSync
  rw [wp_bind]
  refine wp_weaken (receiveMessage_gains hR env c) fun msg d hd => ?_
  cases msg with
  | readyForQuery tx =>
    have hready : Gains R 0
        (do modifyState (·.handleReadyForQuery); pure (some Results.pipelineSync)) :=
      Gains.seq (modifyPipeline_gains hR fun _ => rfl) fun _ => .pure
    exact hready.after hd (by decide) (by decide)
  | errorResponse err =>
    have hput := Graded.trans hd (hR.putsBack d)
    have herr : Gains R 0 (handleErrorClosed err : Op (Option Results)) :=
      handleErrorClosed_gains hR err
    exact herr.after (k := 0) hput (by decide) (by decide)
  | _ => exact (handleUnexpectedMessage_gains hR (n := 0) _ _).after hd (by decide) (by decide)

theorem getResultsOf_gains (req : PipelineRequestType) : Gains R 0 (getResultsOf env req) := by
  cases req with
  | nil => exact .pure
  | prepare => exact getResultsPrepare_gains hR env
  | queryParams =>
    exact (receiveParseComplete_gains hR env _).seq fun _ =>
      (receiveBindComplete_gains hR env _).seq fun _ => receiveDescribedResultReader_gains hR env _
  | queryPrepared =>
    exact (receiveBindComplete_gains hR env _).seq fun _ =>
      receiveDescribedResultReader_gains hR env _
  | queryStatement => exact getResultsQueryStatement_gains hR env
  | deallocate => exact getResultsDeallocate_gains hR env
  | syncRequest => exact getResultsSync_gains hR env
  | flushRequest => exact .throw

end

end Gaining

end Pipeline

def PgConn.backlog (c : PgConn) : Int :=
  2 * c.unread + c.pipeline.state.requestEventQueue.length + if c.resultReader.closed then 0 else 1

/-- The backlog has become smaller by `n`. -/
def Spent (n : Int) (c d : PgConn) : Prop := d.backlog + n ≤ c.backlog

instance : Graded Spent where
  refl := fun c => by
    show c.backlog + 0 ≤ c.backlog
    omega
  trans := fun {m n s t u} h k => by
    have h' : t.backlog + m ≤ s.backlog := h
    have k' : u.backlog + n ≤ t.backlog := k
    show u.backlog + (m + n) ≤ s.backlog
    omega
  mono := fun {m n s t} h hmn => by
    have h' : t.backlog + n ≤ s.backlog := h
    show t.backlog + m ≤ s.backlog
    omega

theorem backlog_of_unread {c d : PgConn} {n : Nat} (h : d.unread + n ≤ c.unread)
    (hq : d.pipeline = c.pipeline) (hr : d.resultReader = c.resultReader) :
    d.backlog + 2 * n ≤ c.backlog := by
  unfold backlog
  rw [hq, hr]
  omega

theorem receiveMessage_spends (env : Env) : Gains Spent 2 (receiveMessage env) := by
  intro c
  have hdrew : ∀ {msg d}, Drew msg c d → Spent 2 c d := fun hd =>
    backlog_of_unread (Nat.le_of_eq hd.unread) hd.pipeline hd.resultReader
  apply wp_mono (receiveMessage_spec env c)
  · exact fun _ _ hd => hdrew hd.1
  · rintro - d (hd | ⟨err, hd, -⟩)
    · exact backlog_of_unread (n := 0) hd.unread hd.pipeline hd.resultReader
    · exact Graded.mono (hdrew hd) (by decide)

theorem spent_framed : PipelineFramed Spent where
  receive := receiveMessage_spends
  readers := fun c rr mrr p hclosed _ _ hq => by
    show 2 * (c.unread : Int) + p.state.requestEventQueue.length + _ + 0 ≤ c.backlog
    unfold backlog
    rw [hq]
    cases hc : c.resultReader.closed with
    | true =>
      rw [hclosed hc]
      omega
    | false =>
      simp only [Bool.false_eq_true, if_false]
      split <;> omega
  close := fun c => Int.le_of_eq (Int.add_zero c.backlog)
  unlock := fun c _ => Int.le_of_eq (Int.add_zero c.backlog)
  opens := fun c rr => by
    show 2 * (c.unread : Int) + c.pipeline.state.requestEventQueue.length + _ + -1 ≤ c.backlog
    unfold backlog
    split <;> split <;> omega
  putsBack := fun c => by
    show 2 * (c.unread : Int) +
        ((c.pipeline.state.requestEventQueue.length + 1 : Nat) : Int) + _ + -1 ≤ c.backlog
    unfold backlog
    dsimp only
    omega

theorem ResultReader.close_spends (env : Env) (c : PgConn) (hopen : c.resultReader.closed = false) :
    wp (close env) (fun _ d => d.backlog + 1 ≤ c.backlog)
      (fun _ d => d.backlog + 1 ≤ c.backlog) c := by
  unfold close
  rw [wp_bind, wp_get, if_neg (by simp [hopen])]
  have hclosed :
      ({ c with resultReader := { c.resultReader with closed := true } } : PgConn).backlog + 1
      ≤ c.backlog := by
    simp [backlog, unread, pending, hopen]
  have hspent : ∀ {d}, Spent 0 { c with resultReader := { c.resultReader with closed := true } } d →
      d.backlog + 1 ≤ c.backlog := by
    intro d hd
    unfold Spent at hd
    omega
  apply wp_mono (closeRest_gains spent_framed.toFramed env _)
  · exact fun _ d hd => hspent hd
  · exact fun _ d hd => hspent hd

namespace Pipeline

theorem extractFrom_cons (pgErr : Option PgError) (e : PipelineRequestEvent)
    (es : List PipelineRequestEvent) :
    extractFrom pgErr (e :: es) = if !(e.wasSentToServer && e.beforeFlushOrSync) then
      (.nil, e :: es, pgErr)
      else if e.requestType = .syncRequest then (.syncRequest, es, none) else match pgErr with
        | none => (e.requestType, es, none)
        | some err => extractFrom (some err) es := by
  rw [extractFrom]
  by_cases hsync : e.requestType = .syncRequest
  · simp only [hsync, if_true]
    rfl
  · simp only [hsync, if_false]
    cases pgErr <;> rfl

theorem extractFrom_length (pgErr : Option PgError) (q : List PipelineRequestEvent) :
    (extractFrom pgErr q).2.1.length ≤ q.length ∧ ((extractFrom pgErr q).1 ≠ .nil →
        (extractFrom pgErr q).2.1.length < q.length) := by
  induction q generalizing pgErr with
  | nil => exact ⟨Nat.le_refl 0, fun h => absurd rfl h⟩
  | cons e es ih =>
    rw [extractFrom_cons]
    split
    · exact ⟨le_rfl, fun h => absurd rfl h⟩
    · split
      · exact ⟨Nat.le_succ _, fun _ => Nat.lt_succ_self _⟩
      · cases pgErr with
        | none => exact ⟨Nat.le_succ _, fun _ => Nat.lt_succ_self _⟩
        | some err =>
          have h := (ih (some err)).1
          exact ⟨Nat.le_succ_of_le h, fun _ => Nat.lt_succ_of_le h⟩

theorem closeReader_spends (env : Env) (c : PgConn) :
    wp (closeReader env) (fun _ d => d.backlog ≤ c.backlog) (fun _ d => d.backlog < c.backlog) c := by
  unfold closeReader
  rw [wp_bind, wp_get]
  cases hc : c.resultReader.closed with
  | true => exact Int.le_refl _
  | false =>
    rw [if_neg nofun, wp_bind]
    apply wp_mono (ResultReader.close_spends env c hc)
    · intro r d hd
      obtain ⟨tag, err⟩ := r
      cases err with
      | some err => exact (by omega : d.backlog < c.backlog)
      | none => exact (by omega : d.backlog ≤ c.backlog)
    · exact fun _ d hd => by omega

/-- A call that returns a result, or an error, has done some of the work. -/
theorem getResults_progress (env : Env) (c : PgConn) :
    wp (getResults env) (fun r d => r = none ∨ d.backlog < c.backlog)
      (fun _ d => d.backlog < c.backlog) c := by
  unfold getResults
  rw [wp_bind]
  refine wp_weaken (closeReader_spends env c) fun _ d hd => ?_
  have hlen := extractFrom_length d.pipeline.state.pgErr d.pipeline.state.requestEventQueue
  show wp (getResultsOf env d.pipeline.state.extractFrontRequestType.1) _ _
    { d with pipeline := { d.pipeline with state := d.pipeline.state.extractFrontRequestType.2 } }
  by_cases hnil : d.pipeline.state.extractFrontRequestType.1 = .nil
  · rw [hnil]
    exact .inl rfl
  · have hlt := hlen.2 hnil
    have hpop : ({ d with pipeline := { d.pipeline with
        state := d.pipeline.state.extractFrontRequestType.2 } } : PgConn).backlog < d.backlog := by
      simp only [backlog, unread, pending, PipelineState.extractFrontRequestType]
      omega
    have hspent : ∀ {e}, Spent 0 { d with pipeline := { d.pipeline with
        state := d.pipeline.state.extractFrontRequestType.2 } } e → e.backlog < c.backlog := by
      intro e he
      unfold Spent at he
      omega
    apply wp_mono (getResultsOf_gains spent_framed env _ _)
    · exact fun _ e he => .inr (hspent he)
    · exact fun _ e he => hspent he

/-- Whether `errors.As` finds a `PgError`. -/
def isPgError : Error → Bool
  | .pgError _ => true
  | .prepareError _ _ => true
  | .wrapf _ err => isPgError err
  | _ => false

def closeRound (env : Env) (_ : Unit) : Op (Unit ⊕ Unit) := do
  let c ← get
  if c.pipeline.state.expectedReadyForQueryCount > 0 then
    match ← outcome (getResults env) with
    | .error err =>
      modifyPipeline fun p => { p with err := some err }
      if isPgError err then pure (.inl ())
      else
        asyncClose
        pure (.inr ())
    | .ok (some _) => pure (.inl ())
    | .ok none =>
      asyncClose
      modifyPipeline fun p =>
        { p with err := p.err.or (some (.new "pipeline: no more results but expected ReadyForQuery")) }
      pure (.inr ())
  else pure (.inr ())

theorem closeRound_progress (env : Env) (c : PgConn) :
    wp (closeRound env ()) (fun r d => ∀ u, r = .inl u → d.backlog < c.backlog)
      (fun _ _ => True) c := by
  unfold closeRound
  rw [wp_bind, wp_get]
  split
  · rw [wp_bind]
    apply wp_attempt
    apply wp_mono (getResults_progress env c)
    · intro r d hd
      cases r with
      | none => exact nofun
      | some r => exact fun u _ => hd.resolve_left nofun
    · intro err d hd
      refine ⟨trivial, ?_⟩
      rw [wp_bind]
      split
      · exact fun u _ => hd
      · exact nofun
  · exact nofun

def closeLoop (env : Env) : Loop PgConn Error Unit Unit where
  body := closeRound env
  measure := fun c => c.backlog.toNat
  progress := fun _ c u d h => by
    have hlt := wp_of_ok (closeRound_progress env c) h u rfl
    have hpos : 0 ≤ d.backlog := by
      unfold PgConn.backlog
      split <;> omega
    omega

/-- The pipeline ends, and so does the use of the connection by it. -/
def close (env : Env) : Op (Option Error) := do
  let c ← get
  if c.pipeline.closed then pure c.pipeline.err
  else
    modifyPipeline fun p => { p with closed := true }
    if c.pipeline.state.pendingSync then
      asyncClose
      modifyPipeline fun p => { p with err := some (.new "pipeline has unsynced requests") }
      unlock
      pure (some (.new "pipeline has unsynced requests"))
    else
      (closeLoop env).run ()
      unlock
      let d ← get
      pure d.pipeline.err

end Pipeline

end Pgx.Conn
