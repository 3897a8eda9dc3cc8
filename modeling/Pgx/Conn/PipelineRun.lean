import Pgx.Conn.PipelineClose
import Pgx.Conn.Results
import Pgx.Conn.Script
import Pgx.Conn.Session

/-!
# Runs of a pipeline

A run is a sequence of calls on a pipeline that was started. Beside the
connection it keeps the requests that were queued and the results that were
returned; neither has an effect on the calls.
-/
namespace Pgx.Conn

open Pgx.Go Pgx.Wire Pgx.Effect

inductive PipelineCall where
  | send (r : Request)
  | sendFlushRequest
  | sendPipelineSync
  | flush
  | sync
  | getResults
  | nextRow
  | closeResult

structure PipelineRun where
  conn : PgConn
  /-- What was queued, oldest first. -/
  items : List Item := []
  /-- What `GetResults` has returned, errors apart. -/
  results : List Observed := []

def Item.send : Item → Op Unit
  | request (.prepare name sql paramOIDs) => Pipeline.sendPrepare name sql paramOIDs
  | request (.deallocate name) => Pipeline.sendDeallocate name
  | request (.queryParams sql paramValues paramOIDs paramFormats resultFormats) =>
    Pipeline.sendQueryParams sql paramValues paramOIDs paramFormats resultFormats
  | request (.queryPrepared stmtName paramValues paramFormats resultFormats) =>
    Pipeline.sendQueryPrepared stmtName paramValues paramFormats resultFormats
  | request (.queryStatement sd paramValues paramFormats resultFormats) =>
    Pipeline.sendQueryStatement sd paramValues paramFormats resultFormats
  | flushRequest => Pipeline.sendFlushRequest
  | sync => Pipeline.sendPipelineSync

namespace PipelineRun

/-- The run after a call that queues this item, unless the pipeline is closed. -/
def queued (s : PipelineRun) (i : Item) (x : Op Unit) : PipelineRun :=
  { s with
    conn := after x s.conn
    items := if s.conn.pipeline.closed then s.items else s.items ++ [i] }

def getResults (env : Env) (s : PipelineRun) : PipelineRun :=
  match Pipeline.exportedGetResults env s.conn with
  | .ok (some x) d => { s with conn := d, results := s.results ++ [observe env d x] }
  | .ok none d => { s with conn := d }
  | .error _ d => { s with conn := d }

def step (env : Env) (s : PipelineRun) : PipelineCall → PipelineRun
  | .send r => s.queued (.request r) (Item.request r).send
  | .sendFlushRequest => s.queued .flushRequest Pipeline.sendFlushRequest
  | .sendPipelineSync => s.queued .sync Pipeline.sendPipelineSync
  | .flush => { s with conn := after (Pipeline.flush env) s.conn }
  | .sync => s.queued .sync (Pipeline.sync env)
  | .getResults => s.getResults env
  -- a reader that was closed has no rows left, and before the first there is none
  | .nextRow =>
    if s.conn.resultReader.closed then s
    else { s with conn := after (ResultReader.nextRow env) s.conn }
  | .closeResult => { s with conn := after (ResultReader.close env) s.conn }

def run (env : Env) (s : PipelineRun) (calls : List PipelineCall) : PipelineRun :=
  calls.foldl (step env) s

/-- The run of a pipeline that was started on this connection. -/
def start (c : PgConn) : PipelineRun := { conn := after startPipeline c }

end PipelineRun

/-- The connection is idle, and the server has not been asked anything. -/
structure Fresh (log : List Event → ServerLog) (c : PgConn) : Prop where
  served : Served c.peer log
  status : c.status = .idle
  wbuf : c.wbuf = []
  pending : Carries c.pending []
  log : log c.wire = {}

/-- How an item is registered with the queues of the pipeline. -/
def Item.register : Item → PipelineState → PipelineState
  | request (.queryStatement sd _ _ resultFormats), s =>
    (s.pushBackRequestType .queryStatement).pushBackStatementData sd resultFormats
  | i, s => s.pushBackRequestType i.requestType

def PgConn.queue (c : PgConn) (i : Item) : PgConn :=
  { c with
    wbuf := c.wbuf ++ i.messages
    pipeline := { c.pipeline with state := i.register c.pipeline.state } }

@[simp] theorem queue_wire (c : PgConn) (i : Item) : (c.queue i).wire = c.wire := rfl

theorem send_eq_ok (c : PgConn) (i : Item) : i.send c = .ok ()
    (if c.pipeline.closed then c else c.queue i) := by
  have hsend : i.send = Pipeline.sendRequest i.messages i.register := by
    cases i with
    | request r => cases r <;> rfl
    | _ => rfl
  rw [hsend, Pipeline.sendRequest]
  rw [get_bind]
  cases c.pipeline.closed <;> rfl

theorem after_send (c : PgConn) (i : Item) :
    after i.send c = if c.pipeline.closed then c else c.queue i := by
  unfold after
  rw [send_eq_ok]

theorem after_sync (env : Env) (c : PgConn) :
    after (Pipeline.sync env) c = after (Pipeline.flush env) (after Item.sync.send c) := by
  unfold after Pipeline.sync
  simp only [bind, EStateM.bind]
  rw [show Pipeline.sendPipelineSync = Item.sync.send from rfl, send_eq_ok]

theorem messagesOf_append (is js : List Item) :
    messagesOf (is ++ js) = messagesOf is ++ messagesOf js :=
  List.flatMap_append

theorem messagesOf_singleton (i : Item) : messagesOf [i] = i.messages := List.flatMap_singleton _ _

theorem messagesOf_ne_nil {items : List Item} (h : items ≠ []) : messagesOf items ≠ [] := by
  cases items with
  | nil => exact absurd rfl h
  | cons i is =>
    cases i with
    | request r => cases r <;> exact nofun
    | _ => exact nofun

/-- These items went to the server, which gave them these outcomes; `out` is what the driver can
read since then. -/
structure Flushed (log : List Event → ServerLog) (c d : PgConn) (items : List Item)
    (os : List Outcome) (out : List BackendMessage) : Prop where
  peer : d.peer = c.peer
  wbuf : d.wbuf = []
  status : d.status = c.status
  resultReader : d.resultReader = c.resultReader
  pending : ∃ incoming, d.pending = c.pending ++ incoming ∧ Carries incoming out
  sent : d.wire = c.wire ++ (messagesOf items).map .sent
  serves : Serves (log c.wire).skipping items os (log d.wire).skipping
  outcomes : (log d.wire).outcomes = (log c.wire).outcomes ++ os
  held : (log c.wire).held ++ repliesOf items os = out ++ (log d.wire).held
  synced : ∀ init, items = init ++ [.sync] → (log d.wire).held = []
  flushRequested : ∀ init, items = init ++ [.flushRequest] → (log d.wire).held = []

structure FlushFailed (env : Env) (log : List Event → ServerLog) (c d : PgConn) : Prop where
  peer : d.peer = c.peer
  wbuf : d.wbuf = []
  status : d.status = .closed
  outcomes : (log c.wire).outcomes <+: (log d.wire).outcomes
  write : ∃ wire msgs, env.write wire msgs ≠ none

section Flush

variable {env : Env} {log : List Event → ServerLog} {c : PgConn} {items : List Item}

theorem flush_flushed (hserved : Served c.peer log) (hw : c.wbuf = messagesOf items) :
    wp (flush env) (fun _ d => d.pipeline = c.pipeline ∧
      ∃ outcomes out, Flushed log c d items outcomes out)
      (fun e d => e.isPanic = false ∧ d.peer = c.peer ∧ d.wbuf = [] ∧
        (log c.wire).outcomes <+: (log d.wire).outcomes ∧
        ∃ wire msgs, env.write wire msgs ≠ none) c := by
  unfold flush
  rw [wp_bind, wp_get]
  by_cases hi : items = []
  · subst hi
    have hw' : c.wbuf = [] := hw
    rw [hw']
    exact ⟨rfl, [], [], rfl, hw', rfl, rfl, ⟨[], (List.append_nil _).symm, .nil⟩,
      (List.append_nil _).symm, .nil, (List.append_nil _).symm, List.append_nil _,
      fun init h => absurd h (by simp), fun init h => absurd h (by simp)⟩
  · have hne : c.wbuf ≠ [] := hw ▸ messagesOf_ne_nil hi
    obtain ⟨outcomes, out, hserves, hout, hcar, hheld, hsync, hflush⟩ := hserved.sent c.wire items hi
    rw [← hw] at hserves hout hcar hheld hsync hflush
    obtain ⟨m, rest, hm⟩ := List.exists_cons_of_ne_nil hne
    rw [hm]
    dsimp only
    rw [← hm, wp_bind]
    unfold writeBuffer
    rw [wp_bind, wp_get]
    cases hwr : env.write c.wire c.wbuf with
    | some text =>
      refine ⟨rfl, rfl, rfl, ?_, c.wire, c.wbuf, ?_⟩
      · rw [hout]
        exact List.prefix_append _ _
      · rw [hwr]
        exact nofun
    | none =>
      refine ⟨rfl, outcomes, out, rfl, rfl, rfl, rfl,
        ⟨c.peer c.wire c.wbuf, ?_, hcar⟩, ?_, hserves, hout,
        hheld, hsync, hflush⟩
      · show c.peekedMsg.toList.map .message ++ (c.inbox ++ c.peer c.wire c.wbuf) = _
        rw [← List.append_assoc]
        rfl
      · rw [hw]

/-- The pipeline sends what is queued; when that fails it is closed. -/
theorem Pipeline.flush_flushed (hserved : Served c.peer log) (hw : c.wbuf = messagesOf items)
    (hopen : c.pipeline.closed = false) : wp (Pipeline.flush env)
      (fun _ d => d.pipeline = { c.pipeline with state := c.pipeline.state.registerSendingToServer } ∧
        ∃ outcomes out, Flushed log c d items outcomes out)
      (fun _ => FlushFailed env log c) c := by
  unfold Pipeline.flush
  rw [wp_bind, wp_get, if_neg (by simp [hopen]), wp_bind]
  rw [wp_attempt_iff]
  apply wp_mono (Conn.flush_flushed hserved hw)
  · intro _ d hd
    obtain ⟨hq, outcomes, out, hd⟩ := hd
    refine ⟨?_, outcomes, out, hd.peer, hd.wbuf, hd.status, hd.resultReader,
      hd.pending, hd.sent, hd.serves,
      hd.outcomes, hd.held, hd.synced, hd.flushRequested⟩
    show { d.pipeline with state := d.pipeline.state.registerSendingToServer } = _
    rw [hq]
  · intro e d hd
    obtain ⟨he, hp, hb, ho, hwr⟩ := hd
    rw [if_neg (by simp [he])]
    exact ⟨hp, hb, rfl, ho, hwr⟩

/-- The rule of `Flush`: a pipeline that is closed sends nothing, and one that cannot send is
closed. -/
theorem flush_rule {P : PgConn → Prop} (hclosed : c.pipeline.closed = true → P c)
    (hsent : ∀ answer, P { c with
      wbuf := [], wire := c.wire ++ c.wbuf.map .sent, inbox := c.inbox ++ answer
      pipeline := { c.pipeline with state := c.pipeline.state.registerSendingToServer } })
    (hfailed : ∀ err, P { c with
      wbuf := [], wire := c.wire ++ c.wbuf.map .sent, status := .closed
      pipeline := { c.pipeline with closed := true, err := some err } }) :
      P (after (Pipeline.flush env) c) := by
  apply after_of_wp
  unfold Pipeline.flush
  rw [wp_bind, wp_get]
  split
  · exact hclosed (by assumption)
  · rw [wp_bind, wp_attempt_iff]
    unfold Conn.flush writeBuffer
    rw [wp_bind, wp_get]
    cases hw : c.wbuf with
    | nil =>
      have h := hsent []
      rw [hw, List.map_nil, List.append_nil, List.append_nil, ← hw] at h
      exact h
    | cons m ms =>
      rw [wp_bind, wp_bind, wp_get]
      cases env.write c.wire c.wbuf with
      | some text => exact hfailed _
      | none => exact hsent _

end Flush

namespace Pipeline

theorem fed_pipelineFramed : PipelineFramed fun _ => Fed where
  toFramed := fed_framed
  opens := fun _ _ => .of_eq rfl rfl rfl rfl id
  putsBack := fun _ => .of_eq rfl rfl rfl rfl id

theorem modifyPipeline_feeds (f : Pipeline → Pipeline) : Feeds (modifyPipeline f) :=
    fun _ => .of_eq rfl rfl rfl rfl id

theorem closeReader_feeds (env : Env) : Feeds (closeReader env) := by
  refine Gains.get_bind (R := fun _ => Fed) (n := 0) fun c => ?_
  split
  · exact .pure
  · refine .seq (ResultReader.close_feeds env) fun r => ?_
    obtain ⟨tag, err⟩ := r
    cases err with
    | some err => exact .throw
    | none => exact .pure

theorem extractFrontRequestType_feeds : Feeds extractFrontRequestType :=
  Gains.get_bind (R := fun _ => Fed) (n := 0) fun _ => .seq (modifyPipeline_feeds _) fun _ => .pure

theorem getResults_feeds (env : Env) : Feeds (getResults env) :=
  Gains.seq (R := fun _ => Fed) (n := 0) (closeReader_feeds env) fun _ =>
    Gains.seq extractFrontRequestType_feeds fun req => getResultsOf_gains fed_pipelineFramed env req

theorem exportedGetResults_feeds (env : Env) : Feeds (exportedGetResults env) := by
  refine Gains.get_bind (R := fun _ => Fed) (n := 0) fun c => ?_
  split
  · exact .throw
  · exact getResults_feeds env

end Pipeline

namespace Pipeline

variable {env : Env} {c : PgConn}

/-- The error of a call on a connection that is closed, which the reader does not notice. -/
structure Rejected (c : PgConn) (e : Error) (d : PgConn) : Prop extends Shut c d where
  resultReader : d.resultReader = c.resultReader
  err : e = .connLockError "conn closed" ∨ ∃ text, e = .new text

section

variable (hs : c.status = .closed)

include hs

theorem receiveMessage_closed : wp (receiveMessage env) never (Rejected c) c := by
  apply wp_readLoop (I := fun _ d => d = c)
  · intro _ d b _ hdone
    cases hdone
  · intro _ d hd _
    subst hd
    unfold Conn.receiveMessage
    rw [wp_bind, wp_get, if_pos hs]
    exact ⟨⟨.of_eq rfl rfl rfl rfl fun _ => rfl, rfl⟩, rfl, .inl rfl⟩
  · rfl

theorem receive_bind_closed {α : Type} {Q : α → PgConn → Prop} {f : BackendMessage → Op α} :
    wp (receiveMessage env >>= f) Q (Rejected c) c := by
  rw [wp_bind]
  exact wp_weaken (receiveMessage_closed hs) fun _ _ he => he.elim

theorem getResultsOf_closed (req : PipelineRequestType) :
    wp (getResultsOf env req) (fun r d => r = none ∧ d = c) (Rejected c) c := by
  cases req with
  | nil => exact ⟨rfl, rfl⟩
  | flushRequest => exact ⟨⟨.refl c, hs⟩, rfl, .inr ⟨_, rfl⟩⟩
  | prepare | queryParams | queryPrepared | queryStatement =>
    -- the first message is read by a function of its own
    refine (wp_bind ..).mpr ?_
    exact receive_bind_closed hs
  | deallocate | syncRequest => exact receive_bind_closed hs

theorem getResults_closed : wp (getResults env) (fun r d => r = none ∧ Shut c d)
    (fun _ => Shut c) c := by
  have hshut : ∀ d, Fed c d → Shut c d := fun d hd => ⟨hd, (hd.closed hs).1⟩
  unfold getResults
  rw [wp_bind]
  apply wp_mono (closeReader_feeds env c)
  · intro _ d hd
    rw [wp_bind]
    apply wp_mono (extractFrontRequestType_feeds d)
    · intro req e he
      have hce := hshut e (hd.trans he)
      apply wp_mono (getResultsOf_closed hce.status req)
      · rintro _ t ⟨hr, rfl⟩
        exact ⟨hr, hce⟩
      · exact fun _ t ht => ⟨hce.toFed.trans ht.toFed, ht.status⟩
    · exact fun _ e he => hshut e (hd.trans he)
  · exact fun _ d hd => hshut d hd

theorem exportedGetResults_closed :
    wp (exportedGetResults env) (fun r d => r = none ∧ Shut c d) (fun _ => Shut c) c := by
  unfold exportedGetResults
  rw [wp_bind, wp_get]
  split
  · exact ⟨.refl c, hs⟩
  · exact getResults_closed hs

end

end Pipeline

/-- What the driver has read makes no difference to the server. -/
theorem Served.fed {log : List Event → ServerLog} {c d : PgConn} (h : Served c.peer log)
    (hd : Fed c d) : log d.wire = log c.wire := by
  obtain ⟨msgs, hw, -⟩ := hd.wire
  rw [hw]
  generalize c.wire = wire
  clear hw
  induction msgs generalizing wire with
  | nil => rw [List.map_nil, List.append_nil]
  | cons msg msgs ih =>
    have hcons := ih (wire ++ [.received msg])
    rw [List.append_assoc] at hcons
    exact hcons.trans (h.received wire msg)

namespace PipelineRun

variable {env : Env}

theorem getResults_conn (env : Env) (s : PipelineRun) :
    (s.getResults env).conn = after (Pipeline.exportedGetResults env) s.conn := by
  unfold getResults after
  split <;> rename_i h <;> rw [h]

theorem getResults_fed (env : Env) (s : PipelineRun) :
    Fed s.conn (s.getResults env).conn ∧ (s.getResults env).items = s.items := by
  refine ⟨?_, ?_⟩
  · rw [getResults_conn]
    exact after_of_wp (P := Fed s.conn) (Pipeline.exportedGetResults_feeds env s.conn)
  · unfold getResults
    split <;> rfl

/-- The rule of a step: a call queues an item, flushes, does both, or reads. -/
theorem step_rule {s : PipelineRun} {P : PipelineRun → Prop} (h : P s)
    (hqueued : ∀ i : Item, P (s.queued i i.send))
    (hflush : ∀ t : PipelineRun, P t → P { t with conn := after (Pipeline.flush env) t.conn })
    (hget : P (s.getResults env))
    (hrow : s.conn.resultReader.closed = false →
      P { s with conn := after (ResultReader.nextRow env) s.conn })
    (hclose : P { s with conn := after (ResultReader.close env) s.conn }) (call : PipelineCall) :
    P (s.step env call) := by
  cases call with
  | send r => exact hqueued (.request r)
  | sendFlushRequest => exact hqueued .flushRequest
  | sendPipelineSync => exact hqueued .sync
  | flush => exact hflush s h
  | sync =>
    show P (s.queued .sync (Pipeline.sync env))
    unfold queued
    rw [after_sync]
    exact hflush _ (hqueued .sync)
  | getResults => exact hget
  | nextRow =>
    show P (if s.conn.resultReader.closed then s else _)
    split
    · exact h
    · rename_i hopen
      exact hrow (Bool.of_not_eq_true hopen)
  | closeResult => exact hclose

end PipelineRun

theorem received_sent (wire : List Event) (msgs : List FrontendMessage) :
    received (wire ++ msgs.map .sent) = received wire := by
  rw [received_append]
  induction msgs with
  | nil => exact List.append_nil _
  | cons msg msgs ih => exact ih

/-! ## Closed connections -/

section Runs

variable {env : Env} {log : List Event → ServerLog} {c : PgConn} {s t : PipelineRun}

theorem flush_closed (hs : c.status = .closed) : (after (Pipeline.flush env) c).status = .closed ∧
    received (after (Pipeline.flush env) c).wire = received c.wire := by
  have hsent := received_sent c.wire c.wbuf
  exact flush_rule (P := fun d => d.status = .closed ∧ received d.wire = received c.wire)
    (fun _ => ⟨hs, rfl⟩)
    (fun _ => ⟨hs, hsent⟩) fun _ => ⟨rfl, hsent⟩

/-- From `s` to `t` the connection is closed: nothing is read from it, and no result returned. -/
structure Closed (s t : PipelineRun) : Prop where
  status : t.conn.status = .closed
  received : received t.conn.wire = received s.conn.wire
  results : t.results = s.results

theorem Closed.step (h : Closed s t) (call : PipelineCall) : Closed s (t.step env call) := by
  have hfed : ∀ u : PipelineRun, Fed t.conn u.conn → u.results = t.results →
      Closed s u := fun u hu hr =>
    ⟨(hu.closed h.status).1, by rw [(hu.closed h.status).2, h.received], hr.trans h.results⟩
  refine PipelineRun.step_rule h (fun i => ?_) (fun u hu => ?_) (hfed _ (t.getResults_fed env).1 ?_)
    (fun _ => hfed _ (after_of_wp (ResultReader.nextRow_feeds env t.conn)) rfl)
    (hfed _ (after_of_wp (ResultReader.close_feeds env t.conn)) rfl) call
  · unfold PipelineRun.queued
    rw [after_send]
    split <;> exact ⟨h.status, h.received, h.results⟩
  · exact ⟨(flush_closed hu.status).1, (flush_closed hu.status).2.trans hu.received, hu.results⟩
  · have hclosed : wp (Pipeline.exportedGetResults env)
        (fun r d => r = none ∧ Shut t.conn d) _ t.conn :=
      Pipeline.exportedGetResults_closed h.status
    unfold PipelineRun.getResults
    split
    · rename_i x d hx
      cases (wp_of_ok hclosed hx).1
    · rfl
    · rfl

/-- On a closed connection a pipeline sends nothing and gives no results. -/
theorem PipelineRun.run_closed (env : Env) (s : PipelineRun) (calls : List PipelineCall)
    (hs : s.conn.status = .closed) : Closed s (s.run env calls) :=
  List.foldlRecOn calls _ ⟨hs, rfl, rfl⟩ fun _ h call _ => h.step call

/-- A message that has arrived is not read. -/
theorem run_closed_sync :
    ((⟨{ peer := fun _ _ => [], inbox := [.message .parseComplete], status := .closed }, [], []⟩ :
    PipelineRun).run plainEnv [.sync, .getResults]).results = [] :=
  (PipelineRun.run_closed plainEnv _ [.sync, .getResults] rfl).results

theorem Fresh.start (h : Fresh log c) : Conn.after startPipeline c =
    { c with status := .busy, resultReader := { closed := true }, pipeline := {} } := by
  apply after_of_wp (P := fun d =>
    d = { c with status := .busy, resultReader := { closed := true }, pipeline := {} })
  unfold startPipeline lock
  rw [wp_bind, wp_bind, wp_get, h.status]
  rfl

end Runs

theorem Script.fresh (t : Script) : Fresh t.log t.conn where
  served := t.served
  status := rfl
  wbuf := rfl
  pending := rfl
  log := rfl

/-- A server on which the statement `gone` does not exist. -/
def oneRowServer : Script where
  rows := [[some (ascii "1")]]
  commandTag := ascii "SELECT 1"
  refused := ascii "gone"
  err := { severity := ascii "ERROR", code := ascii "26000", message := ascii "no such statement" }
  named := by decide

def textColumn (name : Bytes) : FieldDescription where
  name := name
  tableOID := 0
  tableAttributeNumber := 0
  dataTypeOID := 25
  dataTypeSize := -1
  typeModifier := -1
  format := 0

def oneColumn (name column : Bytes) : StatementDescription where
  name := name
  sql := []
  paramOIDs := []
  fields := [textColumn column]

def queryColumn (name column : Bytes) : PipelineCall :=
  .send (.queryStatement (oneColumn name column) [] [] [])

end Pgx.Conn
