import Pgx.Conn.Delivery
import Pgx.Conn.Session

/-!
# Operations on a busy connection

While a result is being read every other operation is turned down. The readers
live inside the connection, so it matters what a rejected operation has done to
them before it asked for the lock.
-/
namespace Pgx.Conn

open Pgx.Go Pgx.Wire Pgx.Effect

/-! ## Draining a reader -/

/-- The rest of an answer is on the network, up to its `ReadyForQuery`, and nothing in it closes
the connection. -/
structure AnswerLeft (env : Env) (body : List BackendMessage) (c : PgConn) : Prop where
  pending : ∃ txStatus rest, c.pending = body.map .message ++ .message
    (.readyForQuery txStatus) :: rest
  messages : ∀ msg ∈ body, msg.isReadyForQuery = false ∧ env.passes msg = true

def concludes : BackendMessage → Bool
  | .commandComplete _ => true
  | .emptyQueryResponse => true
  | .errorResponse _ => true
  | _ => false

/-- A reader of one result, without a `MultiResultReader` or a pipeline. -/
def Alone (rr : ResultReader) : Prop := rr.multiResultReader = false ∧ rr.pipeline = false

/-- A reader that was not closed, the method that drains it, and the answer that it reads. -/
inductive InProgress (env : Env) (c : PgConn) : ReaderCall → Prop
  | multi (body : List BackendMessage) (hopen : c.multiResultReader.closed = false)
      (hleft : AnswerLeft env body c) : InProgress env c .closeMultiResult
  | single (body : List BackendMessage) (hopen : c.resultReader.closed = false)
      (halone : Alone c.resultReader)
      (hleft : AnswerLeft env body c)
      (hend : c.resultReader.commandConcluded = true ∨ ∃ msg ∈ body, concludes msg = true) :
      InProgress env c .closeResult

section Drain

variable {env : Env} {c : PgConn} {msg : BackendMessage} {body : List BackendMessage}

theorem AnswerLeft.congr {d : PgConn} (h : AnswerLeft env body c) (hpend : d.pending = c.pending) :
    AnswerLeft env body d where
  pending := by rw [hpend]; exact h.pending
  messages := h.messages

/-- The next message of the answer, when there is one before the end. -/
theorem AnswerLeft.cons (h : AnswerLeft env (msg :: body) c) :
    ∃ rest, c.pending = .message msg :: rest ∧ env.passes msg = true ∧
      msg.isReadyForQuery = false ∧ AnswerLeft env body (c.deliver msg rest) := by
  obtain ⟨txStatus, rest, hpend⟩ := h.pending
  obtain ⟨hready, hpass⟩ := h.messages msg (.head _)
  refine ⟨_, hpend, hpass, hready, ⟨txStatus, rest, deliver_pending _ _ _⟩, fun m hm => ?_⟩
  exact h.messages m (.tail _ hm)

theorem AnswerLeft.nil (h : AnswerLeft env [] c) :
    ∃ txStatus rest, c.pending = .message (.readyForQuery txStatus) :: rest := h.pending

/-- The connection is busy, and an answer is left to read. -/
def Answering (env : Env) (c : PgConn) : Prop :=
  c.status = .busy ∧ ∃ body, AnswerLeft env body c

variable {E : Error → PgConn → Prop}

theorem wp_unlock_busy {Q : Unit → PgConn → Prop} (hs : c.status = .busy)
    (h : Q () { c with status := .idle }) : wp unlock Q E c := by
  unfold unlock
  rw [wp_bind, wp_get]
  simp only [hs]
  exact h

section

variable (h : AnswerLeft env body c) (hs : c.status = .busy)

include h hs

/-- One round of a loop that reads an answer: the message is received, and is the last one
exactly when it is `ReadyForQuery`. -/
theorem AnswerLeft.receive {Q : BackendMessage → PgConn → Prop}
    (hmore : ∀ msg body' rest, body = msg :: body' → msg.isReadyForQuery = false →
      AnswerLeft env body' (c.deliver msg rest) →
      Q msg (c.deliver msg rest)) (hlast : ∀ txStatus rest, body = [] →
      Q (.readyForQuery txStatus) (c.deliver (.readyForQuery txStatus) rest)) :
      wp (receiveMessage env) Q E c := by
  have hopen : c.status ≠ .closed := by
    rw [hs]
    exact nofun
  cases body with
  | nil =>
    obtain ⟨txStatus, rest, hpend⟩ := h.nil
    exact wp_receiveMessage hopen hpend rfl (hlast txStatus rest rfl)
  | cons msg body' =>
    obtain ⟨rest, hpend, hpass, hready, hleft⟩ := h.cons
    exact wp_receiveMessage hopen hpend hpass (hmore msg body' rest rfl hready hleft)

theorem MultiResultReader.receiveMessage_answer (hopen : c.multiResultReader.closed = false) :
    wp (MultiResultReader.receiveMessage env)
      (fun _ d => (d.multiResultReader.closed = true ∧ d.status = .idle) ∨
        (d.multiResultReader.closed = false ∧ Answering env d)) never c := by
  unfold MultiResultReader.receiveMessage
  rw [wp_bind, wp_attempt_iff]
  refine h.receive hs ?_ ?_
  · intro msg body' rest _ hready hleft
    have hd : (c.deliver msg rest).multiResultReader.closed = false ∧
        (c.deliver msg rest).status = .busy := by simp [hs, hopen]
    cases msg with
    | readyForQuery tx => cases hready
    | errorResponse err => exact .inr ⟨hd.1, hd.2, body', hleft.congr rfl⟩
    | _ => exact .inr ⟨hd.1, hd.2, body', hleft⟩
  · intro txStatus rest _
    rw [wp_bind]
    unfold MultiResultReader.note
    exact wp_unlock_busy (by simpa using hs) (.inl ⟨rfl, rfl⟩)

/-- Closing a `MultiResultReader` reads the answer to its end. -/
theorem MultiResultReader.close_drains (hopen : c.multiResultReader.closed = false) :
    wp (MultiResultReader.close env) (fun _ d => d.status = .idle) never c := by
  unfold MultiResultReader.close
  rw [wp_bind]
  apply wp_readLoop (I := fun _ d => (d.multiResultReader.closed = true ∧ d.status = .idle) ∨
    (d.multiResultReader.closed = false ∧ Answering env d))
  · intro _ d _ hd hdone
    rcases hd with ⟨_, hidle⟩ | ⟨hc, _⟩
    · exact hidle
    · simp [hc] at hdone
  · intro _ d hd hdone
    rcases hd with ⟨hc, _⟩ | ⟨hc, hbusy, body', hleft⟩
    · simp [hc] at hdone
    · exact wp_total (MultiResultReader.receiveMessage_answer hleft hbusy hc) fun _ _ he => he
  · exact .inr ⟨hopen, hs, body, h⟩

end

namespace ResultReader

theorem note_alone (rr : ResultReader) (msg : BackendMessage) (h : Alone rr) :
    Alone (rr.note msg) := by
  have hconclude : ∀ tag err, Alone (rr.concludeCommand tag err) := by
    intro tag err
    unfold concludeCommand
    dsimp only
    split <;> exact h
  cases msg with
  | commandComplete tag => exact hconclude tag none
  | emptyQueryResponse => exact hconclude [] none
  | errorResponse err => exact hconclude [] (some (.pgError err))
  | _ => exact h

/-- A command that is concluded stays so, and a concluding message concludes it. -/
theorem note_concluded (rr : ResultReader) (msg : BackendMessage)
    (h : rr.commandConcluded = true ∨ concludes msg = true) :
    (rr.note msg).commandConcluded = true := by
  have hconclude : ∀ tag err, (rr.concludeCommand tag err).commandConcluded = true := by
    intro tag err
    unfold concludeCommand
    dsimp only
    split
    · assumption
    · rfl
  cases msg with
  | commandComplete tag => exact hconclude tag none
  | emptyQueryResponse => exact hconclude [] none
  | errorResponse err => exact hconclude [] (some (.pgError err))
  | _ => exact h.resolve_right nofun

theorem receiveMessage_alone {Q : BackendMessage → PgConn → Prop}
    (h : AnswerLeft env body c) (hs : c.status = .busy) (halone : Alone c.resultReader)
    (hmore : ∀ msg body' d, body = msg :: body' → msg.isReadyForQuery = false → d.status = .busy →
      d.resultReader = c.resultReader.note msg → AnswerLeft env body' d → Q msg d)
    (hlast : ∀ txStatus d, body = [] → d.status = .busy → d.resultReader = c.resultReader →
      Q (.readyForQuery txStatus) d) : wp (receiveMessage env) Q E c := by
  unfold receiveMessage
  rw [wp_bind, wp_get]
  simp only [halone.1]
  rw [if_neg nofun, wp_bind, wp_attempt_iff]
  -- `notePipeline` changes nothing, since the reader does not belong to a pipeline.
  have hnote : ∀ (msg : BackendMessage) (d : PgConn), d.resultReader = c.resultReader →
      Q msg { d with resultReader := d.resultReader.note msg } →
      wp (do notePipeline msg; modifyReader fun rr => rr.note msg; pure msg) Q E d := by
    intro msg d hrr hd
    rw [wp_bind]
    cases msg with
    | errorResponse err =>
      unfold notePipeline
      rw [wp_modify, hrr, if_neg (by simp [halone.2])]
      exact hd
    | _ => exact hd
  refine h.receive hs ?_ ?_
  · intro msg body' rest hbody hready hleft
    apply hnote msg _ (deliver_resultReader _ _ _)
    exact hmore msg body' _ hbody hready (by simpa using hs) (by simp) (hleft.congr rfl)
  · intro txStatus rest hbody
    apply hnote _ _ (deliver_resultReader _ _ _)
    exact hlast txStatus _ hbody (by simpa using hs) (by simp [note])

def Concluding (env : Env) (c : PgConn) : Prop :=
  c.status = .busy ∧ Alone c.resultReader ∧ ∃ body, AnswerLeft env body c ∧
    (c.resultReader.commandConcluded = true ∨ ∃ msg ∈ body, concludes msg = true)

theorem concludeLoop_answer (h : Concluding env c) :
    wp ((concludeLoop env).run ()) (fun ok d => ok = true ∧ Alone d.resultReader ∧
      Answering env d) never c := by
  apply wp_readLoop (I := fun _ => Concluding env)
  · intro _ d b hd hdone
    obtain ⟨hs, halone, body', hleft, _⟩ := hd
    have hb : b = true := by
      unfold concluded at hdone
      split at hdone
      · exact (Option.some.inj hdone).symm
      · cases hdone
    exact ⟨hb, halone, hs, body', hleft⟩
  · intro _ d hd hdone
    obtain ⟨hs, halone, body', hleft, hend⟩ := hd
    have hnot : d.resultReader.commandConcluded = false := by
      unfold concluded at hdone
      split at hdone
      · cases hdone
      · simpa using ‹¬d.resultReader.commandConcluded = true›
    obtain ⟨m, hm, hmc⟩ := hend.resolve_left (by simp [hnot])
    refine receiveMessage_alone hleft hs halone ?_ ?_
    · intro msg body'' e hbody _ hse hrr hle
      subst hbody
      refine ⟨hse, by rw [hrr]; exact note_alone _ _ halone, body'', hle, ?_⟩
      rcases List.mem_cons.mp hm with rfl | hm'
      · exact .inl (by rw [hrr]; exact note_concluded _ _ (.inr hmc))
      · exact .inr ⟨m, hm', hmc⟩
    · intro txStatus e hbody _ _
      -- The answer ends only after the message that concludes the command.
      subst hbody
      cases hm
  · exact h

theorem readyLoop_answer (hs : c.status = .busy) (halone : Alone c.resultReader)
    (h : AnswerLeft env body c) :
    wp ((readyLoop env).run ()) (fun _ d => d.status = .idle) never c := by
  apply wp_readLoop (I := fun _ d => Alone d.resultReader ∧ Answering env d)
  · intro _ d b _ hdone
    cases hdone
  · intro _ d hd _
    obtain ⟨halone, hs, body', hleft⟩ := hd
    refine receiveMessage_alone hleft hs halone ?_ ?_
    · intro msg body'' e _ hready hse hrr hle
      have hal : Alone e.resultReader := by
        rw [hrr]
        exact note_alone _ _ halone
      cases msg with
      | readyForQuery tx => cases hready
      | errorResponse err => exact ⟨hal, hse, body'', hle.congr rfl⟩
      | _ => exact ⟨hal, hse, body'', hle⟩
    · intro txStatus e _ hse _
      unfold readyStep
      rw [wp_bind]
      exact wp_unlock_busy hse rfl
  · exact ⟨halone, hs, body, h⟩

/-- Closing the reader of one result reads the answer to its end. -/
theorem close_drains (hs : c.status = .busy) (hopen : c.resultReader.closed = false)
    (halone : Alone c.resultReader) (h : AnswerLeft env body c)
    (hend : c.resultReader.commandConcluded = true ∨ ∃ msg ∈ body, concludes msg = true) :
    wp (close env) (fun _ d => d.status = .idle) never c := by
  unfold close
  rw [wp_bind, wp_get, if_neg (by simp [hopen]), wp_bind, modifyReader, wp_modify, wp_bind]
  have hstart : Concluding env { c with resultReader := { c.resultReader with closed := true } } :=
    ⟨hs, halone, body, h.congr rfl, hend⟩
  refine wp_weaken (concludeLoop_answer hstart) fun ok d hd => ?_
  obtain ⟨rfl, hal, hsd, body', hleft⟩ := hd
  rw [wp_bind, wp_get]
  simp only [hal.1, hal.2, Bool.not_true, Bool.or_self]
  rw [if_neg Bool.false_ne_true, if_neg Bool.false_ne_true, wp_bind]
  exact wp_weaken (readyLoop_answer hsd hal hleft) fun _ _ he => he

end ResultReader

theorem InProgress.drained {call : ReaderCall} (h : InProgress env c call) (hs : c.status = .busy) :
    (after (call.run env) c).status = .idle := by
  apply after_of_wp (P := fun d => d.status = .idle)
  cases h <;> unfold ReaderCall.run <;> rw [wp_map]
  case multi body hopen hleft =>
    exact wp_total (MultiResultReader.close_drains hleft hs hopen) fun _ _ hd => hd
  case single body hopen halone hleft hend =>
    exact wp_total (ResultReader.close_drains hs hopen halone hleft hend) fun _ _ hd => hd

end Drain

/-! ## Rejected operations -/

def errBusy : Error := .connLockError "conn busy"

/-- What the `ResultReader` of the connection is after a command was rejected. -/
def rejectedReader : ResultReader := ({} : ResultReader).reject errBusy

/-- Operations that make the `ResultReader` of the connection their own before they ask for the
connection. -/
def Operation.claimsReader : Operation → Bool
  | execParams _ _ _ _ _ => true
  | execPrepared _ _ _ _ => true
  | execStatement _ _ _ _ => true
  | _ => false

/-- The error that is due: a batch that could not be built is turned down for that, and never
asks for the connection. -/
def Operation.refusal : Operation → Error
  | execBatch batch => batch.err.getD errBusy
  | _ => errBusy

/-- The error that the caller gets, from the call or from the reader that it returns. -/
def Operation.reported (env : Env) (op : Operation) (c : PgConn) : Option Error :=
  match op.run env c with
  | .error err _ => some err
  | .ok _ d => if op.claimsReader then d.resultReader.err else none

/-- What the methods of the readers return when they are called in turn, and the connection
after that. -/
def readOn (env : Env) : List ReaderCall → PgConn → List (Except Error Observation) × PgConn
  | [], c => ([], c)
  | call :: calls, c =>
    match call.run env c with
    | .ok o d => (.ok o :: (readOn env calls d).1, (readOn env calls d).2)
    | .error err d => (.error err :: (readOn env calls d).1, (readOn env calls d).2)

/-- The operation is turned down and leaves the reading of the result in progress alone. -/
structure Unaffected (env : Env) (op : Operation) (c : PgConn) : Prop where
  rejected : op.reported env c = some op.refusal
  reading : ∀ calls, readOn env calls (after (op.run env) c) = readOn env calls c
  drained : ∀ call, InProgress env c call →
    (after (call.run env) (after (op.run env) c)).status = .idle

section Rejected

variable {env : Env} {c : PgConn} {α β : Type}

theorem lock_busy (hs : c.status = .busy) : lock c = .error errBusy c := by
  simp only [lock, get_bind, hs]
  rfl

theorem lock_bind_busy {f : Unit → Op α} (hs : c.status = .busy) :
    (lock >>= f) c = .error errBusy c := by
  simp only [bind, EStateM.bind, lock_busy hs]

theorem discard_error {x : Op α} {err : Error} (h : x c = .error err c) :
    (discard x : Op Unit) c = .error err c := by
  simp only [discard, Functor.discard, Functor.mapConst, EStateM.map, Function.comp, h]

theorem execExtended_busy {paramValues : List (Option Bytes)} {msgs : List FrontendMessage}
    {sd : Option StatementDescription} {resultFormats : List Int} (hs : c.status = .busy) :
    execExtended env paramValues msgs sd resultFormats c = .ok ()
      { c with resultReader := rejectedReader } := by
  have hlock : outcome lock { c with resultReader := {} } = .ok (.error errBusy)
      { c with resultReader := {} } := by
    have h : lock { c with resultReader := {} } = .error errBusy
        { c with resultReader := {} } := lock_busy hs
    simp only [outcome, attempt, h]
    rfl
  have hprefix : execExtendedPrefix paramValues c = .ok false
      { c with resultReader := rejectedReader } := by
    simp only [execExtendedPrefix, modifyReader, modify_bind]
    simp only [bind, EStateM.bind, hlock]
    rfl
  simp only [execExtended, bind, EStateM.bind, hprefix]
  rfl

/-- An operation that asks for the connection first changes nothing. -/
theorem Operation.run_busy (env : Env) {op : Operation} (hop : op.claimsReader = false)
    (hs : c.status = .busy) :
    op.run env c = .error op.refusal c := by
  cases op with
  | execParams | execPrepared | execStatement => cases hop
  | execBatch batch =>
    apply discard_error
    cases hb : batch.err with
    | some err =>
      simp only [Conn.execBatch, refusal, hb]
      rfl
    | none =>
      simp only [Conn.execBatch, refusal, hb]
      exact lock_bind_busy hs
  | prepare name sql paramOIDs => exact discard_error (lock_bind_busy hs)
  | copyTo w sql => exact discard_error (lock_bind_busy hs)
  | copyFrom r sql => exact discard_error (lock_bind_busy hs)
  | receiveMessage => exact discard_error (lock_bind_busy hs)
  | ping =>
    apply discard_error
    have hexec : Conn.exec env (ascii "-- ping") c = .error errBusy c := lock_bind_busy hs
    simp only [Conn.ping, bind, EStateM.bind, hexec]
    rfl
  | _ => exact lock_bind_busy hs

theorem Operation.run_busy_claims (env : Env) {op : Operation} (hop : op.claimsReader = true)
    (hs : c.status = .busy) : op.run env c = .ok () { c with resultReader := rejectedReader } := by
  cases op with
  | execParams | execPrepared | execStatement => exact execExtended_busy hs
  | _ => cases hop

/-- Reading on is not disturbed exactly when the connection is left as it was. -/
theorem readOn_eq_iff {d : PgConn} : (∀ calls, readOn env calls d = readOn env calls c) ↔ d = c := by
  constructor
  · intro h
    exact congrArg Prod.snd (h [])
  · intro h calls
    rw [h]

end Rejected

/-- An operation on a busy connection is turned down and leaves the result that is being read
alone, unless it is one of those that claim the connection's `ResultReader` first. Such a call
replaces the reader by one that was rejected. -/
theorem unaffected_iff (env : Env) (op : Operation) (c : PgConn) (hs : c.status = .busy) :
    Unaffected env op c ↔ (op.claimsReader = true → c.resultReader = rejectedReader) := by
  constructor
  · intro h hop
    have hrun := Operation.run_busy_claims env hop hs
    have heq := readOn_eq_iff.mp h.reading
    rw [after, hrun] at heq
    exact (congrArg PgConn.resultReader heq).symm
  · intro h
    have hsame : op.reported env c = some op.refusal ∧ after (op.run env) c = c := by
      cases hop : op.claimsReader with
      | false =>
        have hrun := Operation.run_busy env hop hs
        exact ⟨by rw [Operation.reported, hrun], by rw [after, hrun]⟩
      | true =>
        have hrun := Operation.run_busy_claims env hop hs
        have hrefusal : op.refusal = errBusy := by cases op <;> first | rfl | cases hop
        constructor
        · rw [Operation.reported, hrun, hrefusal]
          simp only [hop]
          rfl
        · rw [after, hrun]
          rw [← h hop]
    refine ⟨hsame.1, readOn_eq_iff.mpr hsame.2, fun call hcall => ?_⟩
    rw [hsame.2]
    exact hcall.drained hs

def oneRow : List Incoming :=
  [.message .parseComplete, .message .bindComplete, .message (.rowDescription []),
    .message (.dataRow [some (ascii "7")]), .message (.commandComplete (ascii "SELECT 1"))]

/-- A connection with a result of one row that is being read. -/
def readingOneRow : PgConn :=
  after (execParams plainEnv (ascii "select 7") [] [] [] []) (Session.answered oneRow).conn

/-- An `Exec` is turned down and the row can still be read. -/
theorem unaffected_iff_exec : readingOneRow.status = .busy ∧
    Unaffected plainEnv (.exec (ascii "select 8")) readingOneRow := by
  have hs : readingOneRow.status = .busy := by decide +kernel
  exact ⟨hs, (unaffected_iff plainEnv _ _ hs).mpr nofun⟩

/-- A second `ExecParams` is turned down, but the row of the first is lost, its reader reports
the error of the second, and the connection stays busy. -/
theorem unaffected_execParams_false :
    readingOneRow.status = .busy ∧
      (readOn plainEnv [.nextRow, .values, .closeResult] readingOneRow).1 =
        [.ok (.available true), .ok (.row [some (ascii "7")]),
          .ok (.result (ascii "SELECT 1") none)] ∧
      (readOn plainEnv [.nextRow, .values, .closeResult]
        (after ((Operation.execParams (ascii "select 8") [] [] [] []).run plainEnv)
          readingOneRow)).1 =
        [.ok (.available false), .ok (.row []), .ok (.result [] (some errBusy))] ∧
      ¬ Unaffected plainEnv (.execParams (ascii "select 8") [] [] [] []) readingOneRow := by
  refine ⟨by decide +kernel, by decide +kernel, by decide +kernel, fun h => ?_⟩
  have hrow := congrArg Prod.fst (h.reading [.nextRow])
  exact absurd hrow (by decide +kernel)

end Pgx.Conn
