import Pgx.Conn.Preserve

/-!
# Sessions

A connection together with the batches that its user builds, and the calls that
a user can make, in any order: operations, methods of the readers, and the
queueing of commands in a batch.
-/
namespace Pgx.Conn

open Pgx.Go Pgx.Wire Pgx.Effect

inductive BatchCommand where
  | execParams (sql : Bytes) (paramValues : List (Option Bytes)) (paramOIDs : List UInt32)
      (paramFormats resultFormats : List Int)
  | execPrepared (stmtName : Bytes) (paramValues : List (Option Bytes))
      (paramFormats resultFormats : List Int)
  | execStatement (statementDescription : StatementDescription) (paramValues : List (Option Bytes))
      (paramFormats resultFormats : List Int)

def BatchCommand.queue (env : Env) : BatchCommand → Batch → Batch
  | execParams sql paramValues paramOIDs paramFormats resultFormats =>
    Batch.execParams env sql paramValues paramOIDs paramFormats resultFormats
  | execPrepared stmtName paramValues paramFormats resultFormats =>
    Batch.execPrepared env stmtName paramValues paramFormats resultFormats
  | execStatement sd paramValues paramFormats resultFormats =>
    Batch.execStatement env sd paramValues paramFormats resultFormats

/-- What the user of a connection can do outside pipeline mode. Batches are numbered. -/
inductive Call where
  | start (op : Operation)
  | execBatch (batch : Nat)
  | read (call : ReaderCall)
  | queue (batch : Nat) (command : BatchCommand)

structure Session where
  conn : PgConn
  batches : Nat → Batch := fun _ => {}

namespace Session

/-- A batch is changed by the call that executes it, but not by one that is rejected. -/
def execBatch (env : Env) (s : Session) (i : Nat) : Session :=
  match Conn.execBatch env (s.batches i) s.conn with
  | .ok batch d => { conn := d, batches := Function.update s.batches i batch }
  | .error _ d => { s with conn := d }

def step (env : Env) (s : Session) : Call → Session
  | .start op => { s with conn := after (op.run env) s.conn }
  | .execBatch i => s.execBatch env i
  | .read call => { s with conn := after (call.run env) s.conn }
  | .queue i command =>
    { s with batches := Function.update s.batches i (command.queue env (s.batches i)) }

def run (env : Env) (s : Session) (calls : List Call) : Session := calls.foldl (step env) s

/-! ## In step with the server -/

/-- `Deallocate` meets no server error that leaves the connection open, and a batch is not
executed again. -/
def Clean (env : Env) (s : Session) : Call → Prop
  | .start op => op.Clean env s.conn
  | .execBatch i => .sync ∉ (s.batches i).buf
  | _ => True

def CleanRun (env : Env) : Session → List Call → Prop
  | _, [] => True
  | s, call :: calls => s.Clean env call ∧ CleanRun env (s.step env call) calls

/-- A connection that has just become idle, with a server that follows the protocol. -/
structure Started (owed : List Event → Nat) (s : Session) : Prop where
  server : Conforming s.conn.peer owed
  idle : s.conn.status = .idle
  wire : s.conn.wire = []
  wbuf : s.conn.wbuf = []
  unread : AllAsync s.conn.pending
  batches : ∀ i, (s.batches i).buf = []

/-- The only requests in a batch are those that executing it has put there. -/
def Queueable (batch : Batch) : Prop := ∀ msg ∈ batch.buf, msg.asks = true → msg = .sync

theorem Queueable.encode {env : Env} {batch : Batch} {msg : FrontendMessage} (h : Queueable batch)
    (hmsg : msg.asks = false) : Queueable (batch.encode env msg) := by
  unfold Batch.encode
  cases batch.err with
  | some err => exact h
  | none =>
    cases env.encodeError msg with
    | some err => exact nofun
    | none =>
      intro m hm hask
      rcases List.mem_append.mp hm with hm | hm
      · exact h m hm hask
      · rw [List.mem_singleton.mp hm, hmsg] at hask
        cases hask

theorem Queueable.queue {env : Env} {batch : Batch} (h : Queueable batch) (command : BatchCommand) :
    Queueable (command.queue env batch) := by
  cases command with
  | execParams sql paramValues paramOIDs paramFormats resultFormats =>
    exact (((h.encode rfl).encode rfl).encode rfl).encode rfl
  | execPrepared stmtName paramValues paramFormats resultFormats =>
    exact ((h.encode rfl).encode rfl).encode rfl
  | execStatement sd paramValues paramFormats resultFormats =>
    have hbind : Queueable
        (batch.encode env (.bind sd.name paramFormats paramValues resultFormats)) := h.encode rfl
    unfold BatchCommand.queue Batch.execStatement
    dsimp only
    split
    · exact hbind
    · exact .encode (fun msg hm => hbind msg hm) rfl

theorem execBatch_buf (env : Env) (batch : Batch) (c : PgConn) :
    wp (Conn.execBatch env batch) (fun b _ => b.buf = batch.buf ++ [.sync] ∨ b.buf = [])
      (fun _ _ => True) c := by
  unfold Conn.execBatch
  cases batch.err with
  | some err => trivial
  | none =>
    rw [wp_bind]
    apply wp_mono (wp_true lock)
    · intro _ d _
      rw [wp_bind, modifyMulti, wp_modify]
      cases env.encodeError .sync with
      | some err => exact .inr rfl
      | none =>
        rw [wp_bind, sendAll, wp_modify, wp_bind]
        apply wp_attempt
        apply wp_mono (wp_true (flush env))
        · exact fun _ _ _ => .inl rfl
        · exact fun _ _ _ => ⟨trivial, .inl rfl⟩
    · exact fun _ _ _ => trivial

structure SessionInv (owed : List Event → Nat) (s : Session) : Prop where
  conn : Inv owed s.conn
  batches : ∀ i, Queueable (s.batches i)

section Invariant

variable {owed : List Event → Nat} {env : Env} {s : Session}

theorem Started.inv (h : Started owed s) : SessionInv owed s where
  conn := by
    refine .of_idle h.idle ⟨h.server, h.wbuf, ?_, fun _ => ?_, ?_⟩
    · have hnone : readyCount s.conn.pending = 0 := readyCount_of_allAsync h.unread
      rw [h.wire, hnone, h.server.start]
      rfl
    · rw [afterReady_of_none (readyCount_of_allAsync h.unread)]
      exact h.unread
    · rw [h.wire, readyCount_of_allAsync h.unread, h.server.start]
  batches := fun i msg hm => by
    rw [h.batches i] at hm
    cases hm

theorem SessionInv.execBatch {i : Nat} (h : SessionInv owed s) (hclean : .sync ∉ (s.batches i).buf) :
    SessionInv owed (s.execBatch env i) := by
  have hask : ∀ msg ∈ (s.batches i).buf, msg.asks = false := by
    intro msg hm
    by_contra ha
    exact hclean (h.batches i msg hm (by simpa using ha) ▸ hm)
  have hkeeps : wp (Conn.execBatch env (s.batches i)) (fun _ => Inv owed)
      (fun _ => Inv owed) s.conn :=
    execBatch_keeps hask s.conn h.conn
  have hbuf := execBatch_buf env (s.batches i) s.conn
  unfold Session.execBatch
  cases hr : Conn.execBatch env (s.batches i) s.conn with
  | error e d =>
    have hd := wp_of_error hkeeps hr
    exact { h with conn := hd }
  | ok batch d =>
    have hd := wp_of_ok hkeeps hr
    refine ⟨hd, fun j => ?_⟩
    by_cases hj : j = i
    · subst hj
      simp only [Function.update_self]
      rcases wp_of_ok hbuf hr with hb | hb
      · intro msg hm ha
        rw [hb] at hm
        rcases List.mem_append.mp hm with hm | hm
        · exact h.batches j msg hm ha
        · exact List.mem_singleton.mp hm
      · intro msg hm
        rw [hb] at hm
        cases hm
    · simp only [Function.update_of_ne hj]
      exact h.batches j

theorem SessionInv.step {call : Call} (h : SessionInv owed s) (hclean : s.Clean env call) :
    SessionInv owed (s.step env call) := by
  cases call with
  | start op => exact { h with conn := after_of_wp (op.run_keeps hclean h.conn) }
  | execBatch i => exact h.execBatch hclean
  | read call => exact { h with conn := after_of_wp (call.run_keeps s.conn h.conn) }
  | queue i command =>
    refine { h with batches := fun j => ?_ }
    by_cases hj : j = i
    · subst hj
      simp only [Session.step, Function.update_self]
      exact (h.batches j).queue command
    · simp only [Session.step, Function.update_of_ne hj]
      exact h.batches j

theorem SessionInv.run {calls : List Call} (h : SessionInv owed s) (hclean : CleanRun env s calls) :
    SessionInv owed (s.run env calls) := by
  induction calls generalizing s with
  | nil => exact h
  | cons call calls ih => exact ih (h.step hclean.1) hclean.2

end Invariant

/-- On an idle connection one `ReadyForQuery` has been consumed for each request sent, and
whatever is read next belongs to the answer to the next request, or to no answer at all. -/
def InSync (c : PgConn) : Prop :=
  c.status = .idle → readySeen c.wire = sentAsks c.wire ∧ AllAsync c.pending

/-- Whatever calls are made, and in whatever order, the connection is in step with the server
when it is idle: for every run in which no server error stops `Deallocate` and no batch is
executed again. -/
theorem run_inSync (env : Env) (owed : List Event → Nat) (s : Session) (calls : List Call)
    (hstart : Started owed s) (hclean : CleanRun env s calls) : InSync (s.run env calls).conn := by
  intro hidle
  have hinv := (hstart.inv.run hclean).conn
  have hout : Outstanding owed 0 (s.run env calls).conn := hinv.cases
    (fun h => nomatch hidle.symm.trans h) (fun _ h => h) (fun h => nomatch hidle.symm.trans h)
  have hcount := hout.count
  have hbound := hout.bound
  exact ⟨by omega, hout.allAsync⟩

def permissionDenied : PgError where
  severity := ascii "ERROR"
  code := ascii "42501"
  message := ascii "permission denied"

/-- A connection to a server that gives one answer to everything. -/
def answered (answer : List Incoming) : Session where
  conn := { peer := answering answer, inbox := [], status := .idle }

theorem answered_started {answer : List Incoming} (h : readyCount answer = 0) :
    Started (fun _ => 0) (answered answer) where
  server := answering_conforming h
  idle := rfl
  wire := rfl
  wbuf := rfl
  unread := AllAsync.nil
  batches := fun _ => rfl

def mixedCalls : List Call :=
  [.start (.deallocate (ascii "s")), .start (.exec (ascii "select 1")), .read .closeMultiResult,
    .execBatch 0, .read .closeMultiResult]

/-- The calls are answered and the connection is idle. -/
theorem run_inSync_mixed : ((answered []).run plainEnv mixedCalls).conn.status = .idle ∧
      InSync ((answered []).run plainEnv mixedCalls).conn := by
  constructor
  · decide +kernel
  · apply run_inSync plainEnv (fun _ => 0) (answered []) _ (answered_started rfl)
    refine ⟨fun _ err herr => ?_, trivial, trivial, List.not_mem_nil, trivial, trivial⟩
    cases herr with
    | tail _ herr => cases herr

/-- A server error stops `Deallocate` before the end of the answer. A batch that is executed
again asks for two answers, of which one is read. -/
theorem run_not_inSync :
    (Started (fun _ => 0) (answered [.message (.errorResponse permissionDenied)]) ∧
      ¬ InSync ((answered [.message (.errorResponse permissionDenied)]).run plainEnv
        [.start (.deallocate (ascii "s"))]).conn) ∧
    (Started (fun _ => 0) (answered []) ∧
      ¬ InSync ((answered []).run plainEnv [.execBatch 0, .read .closeMultiResult, .execBatch 0,
        .read .closeMultiResult]).conn) := by
  refine ⟨⟨answered_started rfl, fun h => ?_⟩, ⟨answered_started rfl, fun h => ?_⟩⟩
  · have hcount := (h (by decide +kernel)).1
    exact absurd hcount (by decide +kernel)
  · have hcount := (h (by decide +kernel)).1
    exact absurd hcount (by decide +kernel)

end Session

end Pgx.Conn
