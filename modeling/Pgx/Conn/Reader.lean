import Pgx.Conn.Talk

/-!
# The readers

A `ResultReader` reads the result of one query, a `MultiResultReader` the results
of several. Both live inside the connection, so their methods are operations on
the connection. A method that would wait for a message that never comes fails
instead, as if the server had closed the connection.
-/
namespace Pgx.Conn

open Pgx.Go Pgx.Wire Pgx.Effect

/-- Reading goes on until `done`, until it fails, or until a step ends it. -/
def readRound {ι β : Type} (recv : Op BackendMessage) (done : PgConn → Option β)
    (onError : Error → Op β) (step : ι → BackendMessage → Op (ι ⊕ β)) (i : ι) : Op (ι ⊕ β) := do
  let c ← get
  match done c with
  | some b => pure (.inr b)
  | none =>
    match ← outcome recv with
    | .error err => .inr <$> onError err
    | .ok msg => step i msg

theorem readRound_progress {ι β : Type} {recv : Op BackendMessage} {done : PgConn → Option β}
    {onError : Error → Op β} {step : ι → BackendMessage → Op (ι ⊕ β)} (hrecv : Reads 1 recv)
    (hstep : ∀ i msg, Reads 0 (step i msg)) {i j : ι} {c d : PgConn}
    (h : readRound recv done onError step i c = .ok (.inl j) d) : d.unread < c.unread := by
  have hwp : wp (readRound recv done onError step i)
      (fun r e => ∀ j, r = .inl j → e.unread < c.unread) (fun _ _ => True) c := by
    unfold readRound
    rw [wp_bind, wp_get]
    cases done c with
    | some b => exact nofun
    | none =>
      rw [wp_bind]
      apply wp_attempt
      apply wp_mono (hrecv c)
      · intro msg d hd
        apply wp_mono (hstep i msg d)
        · intro r e he j _
          omega
        · exact fun _ _ _ => trivial
      · intro err d _
        refine ⟨trivial, ?_⟩
        rw [wp_map]
        unfold wp
        split
        · exact nofun
        · trivial
  have hd := wp_of_ok hwp h
  exact hd j rfl

def readLoop {ι β : Type} (recv : Op BackendMessage) (hrecv : Reads 1 recv)
    (done : PgConn → Option β) (onError : Error → Op β) (step : ι → BackendMessage → Op (ι ⊕ β))
    (hstep : ∀ i msg, Reads 0 (step i msg)) : Loop PgConn Error ι β where
  body := readRound recv done onError step
  measure := PgConn.unread
  progress := fun _ _ _ _ => readRound_progress hrecv hstep

/-- A run whose failure is looked at, by a caller that then fails itself. -/
theorem Reads.outcome_bind {α β : Type} {x : Op α} {f : Except Error α → Op β} {m n : Nat}
    (h : Reads m x) (hok : ∀ a, Reads n (f (.ok a)))
    (herr : ∀ e c, wp (f (.error e)) never (fun _ _ => True) c) :
    Reads (m + n) (outcome x >>= f) := by
  intro c
  rw [wp_bind]
  apply wp_attempt
  apply wp_mono (h c)
  · intro a d hd
    apply wp_mono (hok a d)
    · intro b e he
      omega
    · exact fun _ _ _ => trivial
  · intro e d _
    refine ⟨trivial, ?_⟩
    exact wp_fails (herr e d) fun _ _ _ => trivial

theorem peekMessage_unread (c : PgConn) :
    wp peekMessage (fun _ d => d.unread ≤ c.unread) (fun _ d => d.unread ≤ c.unread) c := by
  apply wp_mono (peekMessage_spec c)
  · rintro msg d ⟨-, -, -, hpend, -⟩
    exact Nat.le_of_eq (congrArg List.length hpend)
  · exact fun _ _ hd => hd.unread

def textFormatCode : Int := 0

/-- The columns of a statement, with the formats that were asked for. -/
def combineFieldDescriptionsAndResultFormats (inputFields : List FieldDescription)
    (resultFormats : List Int) : Except Error (List FieldDescription) :=
  match resultFormats with
  | [] => .ok (inputFields.map fun f => { f with format := textFormatCode })
  | [format] => .ok (inputFields.map fun f => { f with format })
  | _ =>
    if resultFormats.length = inputFields.length then
      .ok (List.zipWith (fun f format => { f with format }) inputFields resultFormats)
    else .error (.errorf "result format codes length %d does not match field count %d"
      [toString resultFormats.length, toString inputFields.length])

def modifyReader (f : ResultReader → ResultReader) : Op Unit :=
  modify fun c => { c with resultReader := f c.resultReader }

def modifyMulti (f : MultiResultReader → MultiResultReader) : Op Unit :=
  modify fun c => { c with multiResultReader := f c.multiResultReader }

theorem modifyReader_reads (f : ResultReader → ResultReader) : Reads 0 (modifyReader f) :=
    Reads.modify fun _ => rfl

theorem modifyMulti_reads (f : MultiResultReader → MultiResultReader) : Reads 0 (modifyMulti f) :=
  Reads.modify fun _ => rfl

theorem unlock_reads : Reads 0 unlock := by
  intro c
  unfold unlock
  rw [wp_bind, wp_get]
  cases c.status with
  | busy => exact le_rfl
  | closed => exact le_rfl
  | _ => trivial

/-! ## `ResultReader` and `MultiResultReader`, one message -/

namespace ResultReader

/-- The first error is kept; the rest is only recorded when the command was not concluded. -/
def concludeCommand (rr : ResultReader) (commandTag : Bytes) (err : Option Error) : ResultReader :=
  let rr := { rr with err := rr.err.or err }
  if rr.commandConcluded then rr
  else { rr with commandTag, rowValues := [], commandConcluded := true }

def preloadRowValues (rr : ResultReader) (values : List (Option Bytes)) : ResultReader :=
  { rr with rowValues := values, preloaded := true }

/-- The columns of the statement, when its description is known. On a mismatch the command is
concluded; what the slice then holds is not modelled. -/
def describe (rr : ResultReader) (statementDescription : Option StatementDescription)
    (resultFormats : List Int) : ResultReader :=
  match statementDescription with
  | none => rr
  | some sd =>
    match combineFieldDescriptionsAndResultFormats sd.fields resultFormats with
    | .ok fieldDescriptions => { rr with fieldDescriptions }
    | .error err => ({ rr with fieldDescriptions := [] } : ResultReader).concludeCommand [] (some err)

def note (rr : ResultReader) : BackendMessage → ResultReader
  | .rowDescription fields => { rr with fieldDescriptions := fields }
  | .commandComplete commandTag => rr.concludeCommand commandTag none
  | .emptyQueryResponse => rr.concludeCommand [] none
  | .errorResponse err => rr.concludeCommand [] (some (.pgError err))
  | _ => rr

end ResultReader

namespace MultiResultReader

def note (msg : BackendMessage) : Op Unit :=
  match msg with
  | .readyForQuery _ => do
    modifyMulti fun mrr => { mrr with closed := true }
    unlock
  | .errorResponse err => modifyMulti fun mrr => { mrr with err := some (.pgError err) }
  | _ => pure ()

def receiveMessage (env : Env) : Op BackendMessage := do
  match ← outcome (Conn.receiveMessage env) with
  | .error err =>
    modifyMulti fun mrr => { mrr with err := some err, closed := true }
    asyncClose
    throw err
  | .ok msg =>
    note msg
    pure msg

end MultiResultReader

/-- An error in pipeline mode is remembered by the pipeline. -/
def PipelineState.handleError (s : PipelineState) (err : PgError) : PipelineState :=
  { s with pgErr := some err }

namespace ResultReader

def notePipeline (msg : BackendMessage) : Op Unit :=
  match msg with
  | .errorResponse err => modify fun c =>
      if c.resultReader.pipeline then
        { c with pipeline := { c.pipeline with state := c.pipeline.state.handleError err } }
      else c
  | _ => pure ()

/-- Reading failed: the command is concluded and the reader closed. -/
def fail (multi : Bool) (err : Error) : Op BackendMessage := do
  modifyReader fun rr => { rr.concludeCommand [] (some err) with closed := true }
  if multi then pure () else asyncClose
  let c ← get
  throw (c.resultReader.err.getD err)

def receiveMessage (env : Env) : Op BackendMessage := do
  let c ← get
  let multi := c.resultReader.multiResultReader
  match ← outcome
    (if multi then MultiResultReader.receiveMessage env else Conn.receiveMessage env) with
  | .error err => fail multi err
  | .ok msg =>
    notePipeline msg
    modifyReader fun rr => rr.note msg
    pure msg

end ResultReader

theorem MultiResultReader.note_reads (msg : BackendMessage) :
    Reads 0 (MultiResultReader.note msg) := by
  cases msg with
  | readyForQuery tx => exact (modifyMulti_reads _).bind fun _ => unlock_reads
  | errorResponse err => exact .modify fun _ => rfl
  | _ => exact .pure

theorem MultiResultReader.receiveMessage_reads (env : Env) :
    Reads 1 (MultiResultReader.receiveMessage env) := by
  refine (Conn.receiveMessage_reads env).outcome_bind (n := 0) (fun msg => ?_) fun e c => trivial
  exact (MultiResultReader.note_reads msg).bind fun _ => .pure

namespace ResultReader

theorem notePipeline_reads (msg : BackendMessage) : Reads 0 (notePipeline msg) := by
  cases msg with
  | errorResponse err =>
    refine .modify fun c => ?_
    split <;> rfl
  | _ => exact .pure

theorem fail_throws (multi : Bool) (err : Error) (c : PgConn) :
    wp (fail multi err) never (fun _ _ => True) c := by
  cases multi <;> trivial

theorem receiveMessage_reads (env : Env) : Reads 1 (receiveMessage env) := by
  refine .get_bind fun c => ?_
  have hrecv : Reads 1 (if c.resultReader.multiResultReader then MultiResultReader.receiveMessage env
      else Conn.receiveMessage env) := by
    cases c.resultReader.multiResultReader with
    | true => exact MultiResultReader.receiveMessage_reads env
    | false => exact Conn.receiveMessage_reads env
  refine hrecv.outcome_bind (n := 0) (fun msg => ?_) fun e d => fail_throws _ e d
  exact (notePipeline_reads msg).bind fun _ => (modifyReader_reads _).bind fun _ => .pure

/-! ## `ResultReader` -/

def nextRowStep (_ : Unit) (msg : BackendMessage) : Op (Unit ⊕ Bool) :=
  match msg with
  | .dataRow values => do
    modifyReader fun rr => { rr with rowValues := values }
    pure (.inr true)
  | _ => pure (.inl ())

theorem nextRowStep_reads (u : Unit) (msg : BackendMessage) : Reads 0 (nextRowStep u msg) := by
  cases msg with
  | dataRow values => exact (modifyReader_reads _).bind fun _ => .pure
  | _ => exact .pure

def concluded {β : Type} (b : β) (c : PgConn) : Option β :=
  if c.resultReader.commandConcluded then some b else none

def nextRowLoop (env : Env) : Loop PgConn Error Unit Bool :=
  readLoop (receiveMessage env) (receiveMessage_reads env) (concluded false) (fun _ => pure false)
    nextRowStep nextRowStep_reads

def nextRow (env : Env) : Op Bool := do
  let c ← get
  if c.resultReader.preloaded then
    modifyReader fun rr => { rr with preloaded := false }
    pure true
  else (nextRowLoop env).run ()

/-- The rest of the result is read; `false` when that failed. -/
def concludeLoop (env : Env) : Loop PgConn Error Unit Bool :=
  readLoop (receiveMessage env) (receiveMessage_reads env) (concluded true) (fun _ => pure false)
    (fun _ _ => pure (.inl ())) (fun _ _ => .pure)

def readyStep (_ : Unit) (msg : BackendMessage) : Op (Unit ⊕ Bool) :=
  match msg with
  -- Detect a deferred constraint violation where the ErrorResponse is sent after CommandComplete.
  | .errorResponse err => do
    modifyReader fun rr => { rr with err := some (.pgError err) }
    pure (.inl ())
  | .readyForQuery _ => do
    unlock
    pure (.inr true)
  | _ => pure (.inl ())

theorem readyStep_reads (u : Unit) (msg : BackendMessage) : Reads 0 (readyStep u msg) := by
  cases msg with
  | errorResponse err => exact (modifyReader_reads _).bind fun _ => .pure
  | readyForQuery tx => exact unlock_reads.bind fun _ => .pure
  | _ => exact .pure

def readyLoop (env : Env) : Loop PgConn Error Unit Bool :=
  readLoop (receiveMessage env) (receiveMessage_reads env) (fun _ => none) (fun _ => pure false)
    readyStep readyStep_reads

/-- The command tag, or none when reading failed, and the error. -/
def close (env : Env) : Op (Bytes × Option Error) := do
  let c ← get
  if c.resultReader.closed then pure (c.resultReader.commandTag, c.resultReader.err)
  else
    modifyReader fun rr => { rr with closed := true }
    let ok ← (concludeLoop env).run ()
    let d ← get
    if !ok then pure ([], d.resultReader.err)
    else if d.resultReader.multiResultReader || d.resultReader.pipeline then
      pure (d.resultReader.commandTag, d.resultReader.err)
    else
      let ok ← (readyLoop env).run ()
      let e ← get
      pure (if ok then e.resultReader.commandTag else [], e.resultReader.err)

def descriptionStep (statementDescription : Option StatementDescription) (resultFormats : List Int)
    (_ : Unit) (msg : BackendMessage) : Op (Unit ⊕ Unit) :=
  match msg with
  | .rowDescription _ => pure (.inr ())
  | .dataRow values => do
    modifyReader fun rr => (rr.preloadRowValues values).describe statementDescription resultFormats
    pure (.inr ())
  | .commandComplete _ => do
    modifyReader fun rr => rr.describe statementDescription resultFormats
    pure (.inr ())
  | _ => pure (.inl ())

theorem descriptionStep_reads (sd : Option StatementDescription) (resultFormats : List Int) (u : Unit)
    (msg : BackendMessage) : Reads 0 (descriptionStep sd resultFormats u msg) := by
  cases msg with
  | dataRow values => exact (modifyReader_reads _).bind fun _ => .pure
  | commandComplete tag => exact (modifyReader_reads _).bind fun _ => .pure
  | _ => exact .pure

def readUntilRowDescription (env : Env) (statementDescription : Option StatementDescription)
    (resultFormats : List Int) : Op Unit :=
  (readLoop (receiveMessage env) (receiveMessage_reads env) (concluded ()) (fun _ => pure ())
    (descriptionStep statementDescription resultFormats)
    (descriptionStep_reads statementDescription resultFormats)).run ()

end ResultReader

namespace MultiResultReader

/-- A result whose rows come without a `RowDescription`, as those of a statement whose
description was given when the batch was queued. -/
def describeRows : Op Bool := do
  let c ← get
  match c.multiResultReader.statementDescriptions, c.multiResultReader.resultFormats with
  | [], _ =>
    modifyMulti fun mrr =>
      { mrr with err := some (.new "unexpected DataRow message without preceding RowDescription") }
    pure false
  | _ :: _, [] => throw (.panic "index out of range [0] with length 0")
  | sd :: sds, formats :: rest =>
    modifyMulti fun mrr =>
      { mrr with statementDescriptions := sds, resultFormats := rest, rr := true }
    modifyReader fun _ => ({ multiResultReader := true } : ResultReader).describe (some sd) formats
    pure true

/-- The reader of a result that begins with this message, if one does. -/
def startResult (msg : BackendMessage) : Option ResultReader :=
  match msg with
  | .rowDescription fields => some { multiResultReader := true, fieldDescriptions := fields }
  | .commandComplete commandTag => some { commandTag, commandConcluded := true, closed := true }
  | .emptyQueryResponse => some { commandConcluded := true, closed := true }
  | _ => none

def receiveResult (env : Env) : Op (Unit ⊕ Bool) := do
  match ← outcome (receiveMessage env) with
  | .error _ => pure (.inr false)
  | .ok msg =>
    match startResult msg with
    | none => pure (.inl ())
    | some rr =>
      modifyReader fun _ => rr
      modifyMulti fun mrr => { mrr with rr := true }
      pure (.inr true)

def nextResultRound (env : Env) (_ : Unit) : Op (Unit ⊕ Bool) := do
  let c ← get
  if c.multiResultReader.closed || c.multiResultReader.err.isSome then pure (.inr false)
  else
    match ← outcome peekMessage with
    | .ok (.dataRow _) => .inr <$> describeRows
    | _ => receiveResult env

theorem receiveResult_progress (env : Env) (c : PgConn) :
    wp (receiveResult env) (fun r d => ∀ v, r = .inl v → d.unread < c.unread)
      (fun _ _ => True) c := by
  unfold receiveResult
  rw [wp_bind]
  apply wp_attempt
  apply wp_mono (receiveMessage_reads env c)
  · intro msg d hd
    dsimp only
    cases startResult msg with
    | none => exact fun v _ => (by omega : d.unread < c.unread)
    | some rr => exact nofun
  · exact fun _ _ _ => ⟨trivial, nofun⟩

theorem nextResultRound_progress {env : Env} {u v : Unit} {c d : PgConn}
    (h : nextResultRound env u c = .ok (.inl v) d) : d.unread < c.unread := by
  have hrecv : ∀ e : PgConn, e.unread ≤ c.unread → wp (receiveResult env)
      (fun r t => ∀ v, r = .inl v → t.unread < c.unread) (fun _ _ => True) e := by
    intro e he
    apply wp_mono (receiveResult_progress env e)
    · exact fun r t ht v hv => Nat.lt_of_lt_of_le (ht v hv) he
    · exact fun _ _ _ => trivial
  have hwp : wp (nextResultRound env u) (fun r e => ∀ v, r = .inl v → e.unread < c.unread)
      (fun _ _ => True) c := by
    unfold nextResultRound
    rw [wp_bind, wp_get]
    split
    · exact nofun
    · rw [wp_bind]
      apply wp_attempt
      apply wp_mono (peekMessage_unread c)
      · intro msg e he
        cases msg with
        | dataRow values =>
          rw [wp_map]
          unfold wp
          split
          · exact nofun
          · trivial
        | _ => exact hrecv e he
      · exact fun _ e he => ⟨trivial, hrecv e he⟩
  have hd := wp_of_ok hwp h
  exact hd v rfl

def nextResultLoop (env : Env) : Loop PgConn Error Unit Bool where
  body := nextResultRound env
  measure := PgConn.unread
  progress := fun _ _ _ _ => nextResultRound_progress

/-- Whether a result is available; it is then read by the connection's `ResultReader`. -/
def nextResult (env : Env) : Op Bool := (nextResultLoop env).run ()

def closeLoop (env : Env) : Loop PgConn Error Unit Unit :=
  readLoop (receiveMessage env) (receiveMessage_reads env)
    (fun c => if c.multiResultReader.closed then some () else none) (fun _ => pure ())
    (fun _ _ => pure (.inl ())) (fun _ _ => .pure)

def close (env : Env) : Op (Option Error) := do
  (closeLoop env).run ()
  let c ← get
  pure c.multiResultReader.err

end MultiResultReader

end Pgx.Conn
