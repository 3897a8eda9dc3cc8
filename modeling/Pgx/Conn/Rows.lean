import Pgx.Conn.Delivery

/-!
# Reading a whole result

`Read` takes all the rows of a `ResultReader` and closes it.
-/
namespace Pgx.Conn

open Pgx.Go Pgx.Wire Pgx.Effect

/-- A result that was read; the columns are only known when there was a row. -/
structure Result where
  fieldDescriptions : Option (List FieldDescription) := none
  rows : List (List (Option Bytes)) := []
  commandTag : Bytes := []
  err : Option Error := none
  deriving DecidableEq

/-! ## Frames -/

/-- A graded relation along which the readers move the connection. A message gains two; a change of
the readers loses nothing when it opens none, and keeps the descriptions that a batch was queued
with and the queue of the pipeline. -/
structure Framed (R : Int → PgConn → PgConn → Prop) : Prop where
  receive : ∀ env, Gains R 2 (receiveMessage env)
  readers : ∀ c rr mrr p, (c.resultReader.closed = true → rr.closed = true) →
    mrr.statementDescriptions = c.multiResultReader.statementDescriptions →
    mrr.resultFormats = c.multiResultReader.resultFormats →
    p.state.requestEventQueue = c.pipeline.state.requestEventQueue →
    R 0 c { c with resultReader := rr, multiResultReader := mrr, pipeline := p }
  close : ∀ c, R 0 c { c with status := .closed }
  unlock : ∀ c, c.status = .busy → R 0 c { c with status := .idle }

namespace ResultReader

theorem concludeCommand_closed (rr : ResultReader) (tag : Bytes) (err : Option Error) :
    (rr.concludeCommand tag err).closed = rr.closed := by
  unfold concludeCommand
  dsimp only
  split <;> rfl

theorem note_closed (rr : ResultReader) (msg : BackendMessage) :
    (rr.note msg).closed = rr.closed := by
  cases msg with
  | commandComplete tag => exact concludeCommand_closed rr tag none
  | emptyQueryResponse => exact concludeCommand_closed rr [] none
  | errorResponse err => exact concludeCommand_closed rr [] _
  | _ => rfl

end ResultReader

section Frames

variable {R : Int → PgConn → PgConn → Prop} [Graded R] (hR : Framed R)

include hR

theorem unlock_gains : Gains R 0 unlock := by
  intro c
  unfold unlock
  rw [wp_bind, wp_get]
  cases hs : c.status with
  | busy => exact hR.unlock c hs
  | _ => exact Graded.refl c

theorem closeAndThrow_gains {α : Type} {n : Int} (err : Error) :
    Gains R n (do asyncClose; throw err : Op α) :=
  Gains.seq (.modify hR.close) fun _ => .throw

omit [Graded R] in
theorem modifyReader_gains {f : ResultReader → ResultReader}
    (hf : ∀ rr, rr.closed = true → (f rr).closed = true) : Gains R 0 (modifyReader f) :=
  Gains.modify fun c => hR.readers c _ c.multiResultReader c.pipeline (hf _) rfl rfl rfl

omit [Graded R] in
theorem modifyMulti_gains {f : MultiResultReader → MultiResultReader}
    (hf : ∀ mrr, (f mrr).statementDescriptions = mrr.statementDescriptions ∧
      (f mrr).resultFormats = mrr.resultFormats) : Gains R 0 (modifyMulti f) :=
  Gains.modify fun c => hR.readers c c.resultReader _ c.pipeline id (hf _).1 (hf _).2 rfl

namespace MultiResultReader

theorem note_gains (msg : BackendMessage) : Gains R 0 (note msg) := by
  cases msg with
  | readyForQuery tx =>
    refine .seq (modifyMulti_gains hR ?_) fun _ => unlock_gains hR
    exact fun _ => ⟨rfl, rfl⟩
  | errorResponse err =>
    show Gains R 0 (modifyMulti fun mrr => { mrr with err := some (.pgError err) })
    exact modifyMulti_gains hR fun _ => ⟨rfl, rfl⟩
  | _ => exact .pure

theorem receiveMessage_gains (env : Env) : Gains R 2 (receiveMessage env) := by
  refine (hR.receive env).attempt_bind (n := 0) (by decide) (fun msg => ?_) (by decide) fun err => ?_
  · exact (note_gains hR msg).seq fun _ => .pure
  · refine .seq (modifyMulti_gains hR ?_) fun _ => closeAndThrow_gains hR err
    exact fun _ => ⟨rfl, rfl⟩

end MultiResultReader

namespace ResultReader

theorem notePipeline_gains (msg : BackendMessage) : Gains R 0 (notePipeline msg) := by
  cases msg with
  | errorResponse err =>
    refine .modify fun c => ?_
    split
    · exact hR.readers c c.resultReader c.multiResultReader _ id rfl rfl rfl
    · exact Graded.refl c
  | _ => exact .pure

theorem fail_gains {n : Int} (multi : Bool) (err : Error) : Gains R n (fail multi err) := by
  refine (modifyReader_gains hR fun _ _ => rfl).seq fun _ => ?_
  cases multi with
  | true => exact .get_bind fun _ => .throw
  | false => exact .seq (.modify hR.close) fun _ => .get_bind fun _ => .throw

theorem receiveMessage_gains (env : Env) : Gains R 2 (receiveMessage env) := by
  refine .get_bind fun c => ?_
  have hrecv : Gains R 2
      (if c.resultReader.multiResultReader then MultiResultReader.receiveMessage env
      else Conn.receiveMessage env) := by
    cases c.resultReader.multiResultReader with
    | true => exact MultiResultReader.receiveMessage_gains hR env
    | false => exact hR.receive env
  refine hrecv.attempt_bind (n := 0) (by decide) (fun msg => ?_) (by decide) fun err =>
    fail_gains hR _ err
  refine (notePipeline_gains hR msg).seq fun _ => ?_
  exact (modifyReader_gains hR fun rr h => (note_closed rr msg).trans h).seq fun _ => .pure

/-- A loop of the reader whose rounds change at most what `Framed` allows. -/
theorem readerLoop_gains {β : Type} (env : Env) {done : PgConn → Option β} {b : β}
    {step : Unit → BackendMessage → Op (Unit ⊕ β)} {hstep : ∀ i msg, Reads 0 (step i msg)}
    (hs : ∀ i msg, Gains R 0 (step i msg)) :
    Gains R 0 ((readLoop (receiveMessage env) (receiveMessage_reads env) done
      (fun _ => pure b) step hstep).run ()) :=
  readLoop_gains (receiveMessage_gains hR env) (by decide) (fun _ _ _ => Int.le_refl 0)
    (fun _ => .pure) hs ()

theorem nextRow_gains (env : Env) : Gains R 0 (nextRow env) := by
  refine .get_bind fun c => ?_
  split
  · exact .seq (modifyReader_gains hR fun _ h => h) fun _ => .pure
  · refine readerLoop_gains hR env fun _ msg => ?_
    cases msg with
    | dataRow values => exact .seq (modifyReader_gains hR fun _ h => h) fun _ => .pure
    | _ => exact .pure

theorem closeRest_gains (env : Env) : Gains R 0 (do
    let ok ← (concludeLoop env).run ()
    let d ← get
    if !ok then pure ([], d.resultReader.err) else if d.resultReader.multiResultReader
      || d.resultReader.pipeline then
      pure (d.resultReader.commandTag, d.resultReader.err) else
      let ok ← (readyLoop env).run ()
      let e ← get
      pure (if ok then e.resultReader.commandTag else [], e.resultReader.err)) := by
  have hconclude : Gains R 0 ((concludeLoop env).run ()) := readerLoop_gains hR env fun _ _ => .pure
  have hready : Gains R 0 ((readyLoop env).run ()) := by
    refine readerLoop_gains hR env fun _ msg => ?_
    cases msg with
    | errorResponse err => exact .seq (modifyReader_gains hR fun _ h => h) fun _ => .pure
    | readyForQuery tx => exact (unlock_gains hR).seq fun _ => .pure
    | _ => exact .pure
  refine hconclude.seq fun _ => .get_bind fun d => ?_
  split
  · exact .pure
  · split
    · exact .pure
    · exact hready.seq fun _ => .get_bind fun _ => .pure

theorem close_gains (env : Env) : Gains R 0 (close env) := by
  refine .get_bind fun c => ?_
  split
  · exact .pure
  · exact .seq (modifyReader_gains hR fun _ _ => rfl) fun _ => closeRest_gains hR env

end ResultReader

end Frames

theorem fed_framed : Framed fun _ => Fed where
  receive := receiveMessage_feeds
  readers := fun _ _ _ _ _ _ _ _ => .of_eq rfl rfl rfl rfl id
  close := fun _ => .of_eq rfl rfl rfl rfl fun _ => rfl
  unlock := fun _ hs => .of_eq rfl rfl rfl rfl fun h => nomatch hs.symm.trans h

namespace MultiResultReader

theorem receiveMessage_resultReader (env : Env) (c : PgConn) :
    wp (receiveMessage env) (fun _ d => d.resultReader = c.resultReader) (fun _ _ => True) c := by
  unfold receiveMessage
  rw [wp_bind]
  apply wp_attempt
  apply wp_mono (receiveMessage_received env c)
  · intro msg d hd
    have hrr := hd.resultReader
    rw [wp_bind]
    cases msg with
    | readyForQuery tx =>
      unfold note
      rw [wp_bind, modifyMulti, wp_modify]
      unfold unlock
      cases d.status with
      | busy => exact hrr
      | closed => exact hrr
      | _ => trivial
    | _ => exact hrr
  · exact fun _ _ _ => ⟨trivial, trivial⟩

end MultiResultReader

namespace ResultReader

theorem nextRow_feeds (env : Env) : Feeds (nextRow env) := nextRow_gains fed_framed env

theorem close_feeds (env : Env) : Feeds (close env) := close_gains fed_framed env

/-- One more row, with the columns when it is the first. -/
def readRound (env : Env) (br : Result) : Op (Result ⊕ Result) := do
  if ← nextRow env then
    let c ← get
    pure (.inl { br with
      fieldDescriptions := br.fieldDescriptions.or (some c.resultReader.fieldDescriptions)
      rows := br.rows ++ [c.resultReader.rowValues] })
  else pure (.inr br)

/-- What `NextRow` can still do: read, or hand out the row that was read already. -/
def rowsLeft (c : PgConn) : Nat := 2 * c.unread + if c.resultReader.preloaded then 1 else 0

theorem note_preloaded (rr : ResultReader) (msg : BackendMessage) :
    (rr.note msg).preloaded = rr.preloaded := by
  have hconclude : ∀ tag err, (rr.concludeCommand tag err).preloaded = rr.preloaded := by
    intro tag err
    unfold concludeCommand
    dsimp only
    split <;> rfl
  cases msg with
  | commandComplete tag => exact hconclude tag none
  | emptyQueryResponse => exact hconclude [] none
  | errorResponse err => exact hconclude [] _
  | _ => rfl

/-- A message changes the reader by what `note` says, and nothing else. -/
theorem receiveMessage_note (env : Env) (c : PgConn) :
    wp (receiveMessage env) (fun msg d => d.resultReader = c.resultReader.note msg)
      (fun _ _ => True) c := by
  unfold receiveMessage
  rw [wp_bind, wp_get, wp_bind]
  apply wp_attempt
  have hrecv : wp
      (if c.resultReader.multiResultReader = true then MultiResultReader.receiveMessage env
      else Conn.receiveMessage env) (fun _ d => d.resultReader = c.resultReader)
        (fun _ _ => True) c := by
    split
    · exact MultiResultReader.receiveMessage_resultReader env c
    · apply wp_mono (receiveMessage_received env c)
      · exact fun _ _ hd => hd.resultReader
      · exact fun _ _ _ => trivial
  apply wp_mono hrecv
  · intro msg d hd
    have hset : ∀ e : PgConn, e.resultReader = d.resultReader →
        e.resultReader.note msg = c.resultReader.note msg := fun e he => by rw [he, hd]
    rw [wp_bind]
    cases msg with
    | errorResponse err =>
      unfold notePipeline
      rw [wp_modify]
      split
      · exact hset _ rfl
      · exact hset _ rfl
    | _ => exact hset _ rfl
  · intro err d _
    refine ⟨trivial, ?_⟩
    exact wp_fails (fail_throws _ err d) fun _ _ _ => trivial

theorem nextRow_progress (env : Env) (c : PgConn) :
    wp (nextRow env) (fun more d => more = true → rowsLeft d < rowsLeft c) (fun _ _ => True) c := by
  unfold nextRow
  rw [wp_bind, wp_get]
  cases hp : c.resultReader.preloaded with
  | true =>
    intro _
    unfold rowsLeft PgConn.unread PgConn.pending
    simp [hp]
  | false =>
    apply wp_readLoop (I := fun _ d => d.unread ≤ c.unread ∧ d.resultReader.preloaded = false)
    · intro _ d b _ hdone
      unfold concluded at hdone
      split at hdone
      · cases hdone
        exact nofun
      · cases hdone
    · intro _ d hd _
      obtain ⟨hu, hpd⟩ := hd
      apply wp_mono (wp_and (receiveMessage_reads env d) (receiveMessage_note env d))
      · intro msg e he
        have hpe : e.resultReader.preloaded = false := by
          rw [he.2, note_preloaded, hpd]
        have hue : e.unread + 1 ≤ c.unread := by
          omega
        cases msg with
        | dataRow values =>
          intro _
          show 2 * e.unread + (if e.resultReader.preloaded then 1 else 0) < rowsLeft c
          unfold rowsLeft
          rw [hpe, hp]
          omega
        | _ => exact ⟨by omega, hpe⟩
      · intro e t _
        split
        · trivial
        · exact nofun
    · exact ⟨le_rfl, hp⟩

theorem readRound_progress {env : Env} {br br' : Result} {c d : PgConn}
    (h : readRound env br c = .ok (.inl br') d) : rowsLeft d < rowsLeft c := by
  have hwp : wp (readRound env br) (fun r d => ∀ b, r = .inl b → rowsLeft d < rowsLeft c)
      (fun _ _ => True) c := by
    unfold readRound
    rw [wp_bind]
    apply wp_mono (nextRow_progress env c)
    · intro more d hd
      cases more with
      | true => exact fun b _ => hd rfl
      | false => exact nofun
    · exact fun _ _ _ => trivial
  have hd := wp_of_ok hwp h
  exact hd br' rfl

def readRows (env : Env) : Loop PgConn Error Result Result where
  body := readRound env
  measure := rowsLeft
  progress := fun _ _ _ _ h => readRound_progress h

def read (env : Env) : Op Result := do
  let br ← (readRows env).run {}
  let (commandTag, err) ← close env
  pure { br with commandTag, err }

theorem read_gains {R : Int → PgConn → PgConn → Prop} [Graded R] (hR : Framed R) (env : Env) :
    Gains R 0 (read env) := by
  have hrows : Gains R 0 ((readRows env).run {}) := by
    refine .loop_zero (fun br => ?_) _
    refine (nextRow_gains hR env).seq fun more => ?_
    cases more with
    | true => exact .get_bind fun _ => .pure
    | false => exact .pure
  exact hrows.seq fun _ => (close_gains hR env).seq fun _ => .pure

end ResultReader

end Pgx.Conn
