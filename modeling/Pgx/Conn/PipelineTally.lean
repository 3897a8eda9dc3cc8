import Mathlib.Data.List.Induction
import Pgx.Conn.PipelineDrain

/-!
# Closing a pipeline

`Close` reads until it has seen a `ReadyForQuery` for every `Sync`. The invariant
of a run counts: a `ReadyForQuery` is still to be read for every `Sync` that is
expected and was sent, and the queue of requests ends with what was queued last.
-/
namespace Pgx.Conn

open Pgx.Go Pgx.Wire Pgx.Effect List Pipeline PipelineState

/-! ## The queue of requests -/

/-- The type under which an item is queued. Flush requests are not. -/
def Item.queuedType : Item → Option PipelineRequestType
  | .flushRequest => none
  | i => some i.requestType

def requestTypes (items : List Item) : List PipelineRequestType := items.filterMap Item.queuedType

theorem requestTypes_append (is js : List Item) :
    requestTypes (is ++ js) = requestTypes is ++ requestTypes js := filterMap_append

def tagsOf (q : List PipelineRequestEvent) : List (PipelineRequestType × Bool) :=
  q.map fun e => (e.requestType, e.wasSentToServer)

/-- The queue holds the last of the requests that were sent, and those that were not. -/
def Waiting (sent queued : List PipelineRequestType) (q : List PipelineRequestEvent) : Prop :=
  ∃ l, l <:+ sent ∧ tagsOf q = l.map (·, true) ++ queued.map (·, false)

section

variable {marked : PipelineRequestEvent → Bool} {mark : PipelineRequestEvent → PipelineRequestEvent}

theorem markBack_append {k : List PipelineRequestEvent}
    (l : List PipelineRequestEvent) (h : ∀ e ∈ l, marked e = false) :
    markBack marked mark (l ++ k) = l.map mark ++ markBack marked mark k := by
  induction l with
  | nil => rfl
  | cons e l ih =>
    rw [cons_append, markBack, h e (.head _), if_neg nofun, ih fun e he => h e (.tail _ he)]
    rfl

theorem markBack_of_marked {l : List PipelineRequestEvent}
    (h : ∀ e ∈ l, marked e = true) : markBack marked mark l = l := by
  cases l with
  | nil => rfl
  | cons e l => rw [markBack, h e (.head _), if_pos rfl]

theorem markBack_reverse {l k : List PipelineRequestEvent}
    (hl : ∀ e ∈ l, marked e = true) (hk : ∀ e ∈ k, marked e = false) :
    (markBack marked mark (l ++ k).reverse).reverse = l ++ k.map mark := by
  rw [reverse_append, markBack_append _ fun e he => hk e (mem_reverse.mp he),
    markBack_of_marked fun e he => hl e (mem_reverse.mp he), reverse_append,
    reverse_reverse, ← map_reverse, reverse_reverse]

end

theorem markBack_tags {marked : PipelineRequestEvent → Bool}
    {mark : PipelineRequestEvent → PipelineRequestEvent}
    (h : ∀ e, (mark e).requestType = e.requestType ∧ (mark e).wasSentToServer = e.wasSentToServer)
    (q : List PipelineRequestEvent) :
    tagsOf (markBack marked mark q) = tagsOf q := by
  induction q with
  | nil => rfl
  | cons e q ih =>
    unfold markBack
    split
    · rfl
    · show ((mark e).requestType, (mark e).wasSentToServer) :: tagsOf _ = _ :: tagsOf q
      rw [ih, (h e).1, (h e).2]

theorem tagsOf_reverse (q : List PipelineRequestEvent) :
    tagsOf q.reverse = (tagsOf q).reverse := map_reverse

theorem registerFlushing_tags (s : PipelineState) :
    tagsOf s.registerFlushingBufferOnServer.requestEventQueue = tagsOf s.requestEventQueue := by
  show tagsOf (markBack _ _ s.requestEventQueue.reverse).reverse = _
  rw [tagsOf_reverse, markBack_tags, tagsOf_reverse, reverse_reverse]
  exact fun _ => ⟨rfl, rfl⟩

structure Registered (i : Item) (s t : PipelineState) : Prop where
  tags : tagsOf t.requestEventQueue = tagsOf s.requestEventQueue ++ (requestTypes [i]).map (·, false)
  lastRequestType : t.lastRequestType = i.requestType
  expected : t.expectedReadyForQueryCount = s.expectedReadyForQueryCount + [i].count .sync

theorem Item.registered (i : Item) (s : PipelineState) : Registered i s (i.register s) := by
  cases i with
  | request r => cases r <;> exact ⟨map_append, rfl, (Int.add_zero _).symm⟩
  | flushRequest =>
    exact ⟨(registerFlushing_tags s).trans (append_nil _).symm, rfl, (Int.add_zero _).symm⟩
  | sync => exact ⟨(registerFlushing_tags _).trans map_append, rfl, rfl⟩

namespace Waiting

variable {sent queued : List PipelineRequestType} {q : List PipelineRequestEvent}

theorem register (h : Waiting sent queued q) {q' : List PipelineRequestEvent}
    {types : List PipelineRequestType}
    (hq : tagsOf q' = tagsOf q ++ types.map (·, false)) : Waiting sent (queued ++ types) q' := by
  obtain ⟨l, hl, htags⟩ := h
  refine ⟨l, hl, ?_⟩
  rw [hq, htags, map_append, append_assoc]

theorem send {s : PipelineState} (h : Waiting sent queued s.requestEventQueue) :
    Waiting (sent ++ queued) [] s.registerSendingToServer.requestEventQueue := by
  obtain ⟨l, ⟨init, rfl⟩, htags⟩ := h
  obtain ⟨a, b, hq, ha, hb⟩ := map_eq_append_iff.mp htags
  have hsent : ∀ e ∈ a, e.wasSentToServer = true := by
    intro e he
    have hmem : (e.requestType, e.wasSentToServer) ∈ l.map (·, true) := ha ▸ mem_map_of_mem he
    obtain ⟨_, -, heq⟩ := mem_map.mp hmem
    exact (congrArg Prod.snd heq).symm
  have hunsent : ∀ e ∈ b, e.wasSentToServer = false := by
    intro e he
    have hmem : (e.requestType, e.wasSentToServer) ∈ queued.map (·, false) := hb ▸ mem_map_of_mem he
    obtain ⟨_, -, heq⟩ := mem_map.mp hmem
    exact (congrArg Prod.snd heq).symm
  refine ⟨l ++ queued, ⟨init, by rw [append_assoc]⟩, ?_⟩
  show tagsOf (markBack _ _ s.requestEventQueue.reverse).reverse = _
  rw [hq, markBack_reverse hsent hunsent]
  have htypes : b.map (·.requestType) = queued := by
    have hfst := congrArg (map Prod.fst) hb
    simpa [map_map, Function.comp_def] using hfst
  simp only [tagsOf, map_append, map_map, ha, map_nil, append_nil, ← htypes]
  rfl

theorem extract (h : Waiting sent queued q) (pgErr : Option PgError) :
    ∃ l, l <:+ sent ∧ tagsOf (extractFrom pgErr q).2.1 = l.map (·, true) ++ queued.map (·, false) ∧
      ((extractFrom pgErr q).1 = .syncRequest → .syncRequest :: l <:+ sent) := by
  obtain ⟨l, hl, htags⟩ := h
  induction q generalizing l with
  | nil => exact ⟨l, hl, htags, nofun⟩
  | cons e es ih =>
    rw [extractFrom_cons]
    by_cases hready : (!(e.wasSentToServer && e.beforeFlushOrSync)) = true
    · rw [if_pos hready]
      exact ⟨l, hl, htags, nofun⟩
    · rw [if_neg hready]
      have hsent : e.wasSentToServer = true := by
        cases hs : e.wasSentToServer with
        | true => rfl
        | false => simp [hs] at hready
      cases l with
      | nil =>
        cases queued with
        | nil => cases htags
        | cons t queued =>
          injection htags with h1 _
          have hfalse : e.wasSentToServer = false := congrArg Prod.snd h1
          rw [hsent] at hfalse
          cases hfalse
      | cons t l =>
        injection htags with h1 h2
        have htype : e.requestType = t := congrArg Prod.fst h1
        have hl' : l <:+ sent := (suffix_cons t l).trans hl
        by_cases hsync : e.requestType = .syncRequest
        · rw [if_pos hsync]
          refine ⟨l, hl', h2, fun _ => ?_⟩
          rw [← hsync, htype]
          exact hl
        · rw [if_neg hsync]
          cases pgErr with
          | none => exact ⟨l, hl', h2, fun h => absurd h hsync⟩
          | some err => exact ih l hl' h2

end Waiting

/-! ## The invariant of a run -/

/-- The items in the pipeline and the stream of answers, against the counts that the driver keeps.
`b` is the connection before the pipeline was started. -/
structure Tally (log : List Event → ServerLog) (b c : PgConn) (sent queued : List Item)
    (ms : List BackendMessage) : Prop where
  served : Served c.peer log
  status : c.status = .busy
  wbuf : c.wbuf = messagesOf queued
  pending : Carries c.pending ms
  serves : Serves false sent (log c.wire).outcomes (log c.wire).skipping
  stream : ms ++ (log c.wire).held <:+ repliesOf sent (log c.wire).outcomes
  reader : Follows c.resultReader (ms ++ (log c.wire).held)
  expected : c.pipeline.state.expectedReadyForQueryCount =
    readies (ms ++ (log c.wire).held) + queued.count .sync
  asked : sentAsks c.wire = sentAsks b.wire + sent.count .sync
  seen : readySeen c.wire + readies (ms ++ (log c.wire).held) = readySeen b.wire + sent.count .sync
  events : Waiting (requestTypes sent) (requestTypes queued) c.pipeline.state.requestEventQueue
  lastRequestType : c.pipeline.state.lastRequestType =
    ((sent ++ queued).getLast?.map Item.requestType).getD .nil
  held : (∀ init r, sent ≠ init ++ [.request r]) → (log c.wire).held = []

/-- The connection was closed, and the reader knows. -/
structure Ended (c : PgConn) : Prop where
  status : c.status = .closed
  reader : c.resultReader.closed = true

structure Halted (c : PgConn) : Prop where
  status : c.status = .closed
  pipelineClosed : c.pipeline.closed = true

theorem askCount_messagesOf (items : List Item) :
    askCount (messagesOf items) = items.count .sync := by
  induction items with
  | nil => rfl
  | cons i items ih =>
    have hi : askCount i.messages = if i = .sync then 1 else 0 := by
      cases i with
      | request r => cases r <;> rfl
      | _ => rfl
    show askCount (i.messages ++ messagesOf items) = _
    rw [askCount, countP_append, count_cons]
    simp only [beq_iff_eq]
    rw [← hi, ← ih, Nat.add_comm]
    rfl

namespace Tally

variable {env : Env} {log : List Event → ServerLog} {b c d : PgConn} {sent queued : List Item}
  {ms ns : List BackendMessage}

section

variable (h : Tally log b c sent queued ms)

include h

theorem notClosed : c.status ≠ .closed := by
  rw [h.status]
  exact nofun

theorem sound : Sound (ms ++ (log c.wire).held) := h.serves.sound.of_suffix h.stream

theorem read {k : Nat} {back : List PipelineRequestEvent} (hd : Ate k back c d ms ns)
    (hq : Waiting (requestTypes sent) (requestTypes queued)
      (back ++ c.pipeline.state.requestEventQueue))
    (hrr : Follows d.resultReader (ns ++ (log c.wire).held)) : Tally log b d sent queued ns := by
  have hlog : log d.wire = log c.wire := h.served.fed hd.toFed
  obtain ⟨used, hms, hused⟩ := hd.used
  have hcount : readies (ms ++ (log c.wire).held) = k + readies (ns ++ (log c.wire).held) := by
    rw [hms, append_assoc, readies_append, hused]
  have hseen := hd.toFed.readySeen h.pending hd.pending
  have hms' : readies ms = k + readies ns := by rw [hms, readies_append, hused]
  refine ⟨by rw [hd.peer]; exact h.served, hd.status.trans h.status, hd.wbuf.trans h.wbuf, hd.pending, ?_,
    ?_, ?_, ?_, ?_, ?_, ?_, hd.lastRequestType.trans h.lastRequestType, ?_⟩
  · rw [hlog]
    exact h.serves
  · rw [hlog]
    refine IsSuffix.trans ⟨used, ?_⟩ h.stream
    rw [hms, append_assoc]
  · rw [hlog]
    exact hrr
  · have he := hd.expected
    have he' := h.expected
    rw [hlog]
    omega
  · rw [hd.toFed.sentAsks]
    exact h.asked
  · have hs := h.seen
    rw [hlog]
    omega
  · rw [hd.events]
    exact hq
  · rw [hlog]
    exact h.held

theorem queue (i : Item) : Tally log b (c.queue i) sent (queued ++ [i]) ms := by
  have hreg := i.registered c.pipeline.state
  refine ⟨h.served, h.status, ?_, h.pending, h.serves, h.stream, h.reader, ?_, h.asked,
    h.seen, ?_, ?_, h.held⟩
  · show c.wbuf ++ i.messages = _
    rw [h.wbuf, messagesOf_append, messagesOf_singleton]
  · show (i.register c.pipeline.state).expectedReadyForQueryCount = _
    rw [hreg.expected, h.expected, count_append]
    push_cast
    rw [Int.add_assoc]
    rfl
  · rw [requestTypes_append]
    exact h.events.register hreg.tags
  · show (i.register c.pipeline.state).lastRequestType = _
    rw [hreg.lastRequestType, ← append_assoc, getLast?_concat]
    rfl

theorem flush {os : List Outcome} {out : List BackendMessage} (hd : Flushed log c d queued os out)
    (hq : d.pipeline = { c.pipeline with state := c.pipeline.state.registerSendingToServer }) :
    Tally log b d (sent ++ queued) [] (ms ++ out) := by
  obtain ⟨incoming, hpend, hcar⟩ := hd.pending
  have hstream : ms ++ out ++ (log d.wire).held = ms ++ (log c.wire).held ++ repliesOf queued os := by
    rw [append_assoc, ← hd.held, append_assoc]
  have hreadies : readies (ms ++ out ++ (log d.wire).held) =
      readies (ms ++ (log c.wire).held) + queued.count .sync := by
    rw [hstream, readies_append, hd.serves.readies]
  refine ⟨by rw [hd.peer]; exact h.served, hd.status.trans h.status, hd.wbuf,
    ?_, ?_, ?_, ?_, ?_, ?_, ?_, ?_, ?_, ?_⟩
  · rw [hpend]
    exact h.pending.append hcar
  · rw [hd.outcomes]
    exact h.serves.append hd.serves
  · obtain ⟨l, hl⟩ := h.stream
    refine ⟨l, ?_⟩
    rw [hstream, hd.outcomes, repliesOf_append h.serves.length, ← hl, ← append_assoc l]
  · rw [hd.resultReader, hstream]
    refine h.reader.imp_right fun hr => ⟨hr.pipeline, hr.place.imp_right fun hl => ⟨hl.1, ?_⟩⟩
    obtain ⟨rows, ending, rest, hrest⟩ := hl.2
    exact ⟨rows, ending, rest ++ repliesOf queued os, by rw [hrest, append_assoc]; rfl⟩
  · rw [hq, hreadies]
    show c.pipeline.state.expectedReadyForQueryCount = _
    rw [h.expected]
    push_cast
    exact (Int.add_zero _).symm
  · rw [hd.sent, sentAsks_sent, askCount_messagesOf, h.asked, count_append, Nat.add_assoc]
  · have hs := h.seen
    rw [hd.sent, readySeen_sent, ← hd.sent, hreadies, count_append]
    omega
  · rw [hq, requestTypes_append]
    exact h.events.send
  · rw [hq, append_nil]
    exact h.lastRequestType
  · intro hlast
    rcases eq_nil_or_concat' queued with rfl | ⟨init, i, rfl⟩
    · have hsame : d.wire = c.wire := by
        rw [hd.sent]
        exact append_nil _
      rw [hsame]
      exact h.held (by simpa using hlast)
    · cases i with
      | request r => exact absurd (append_assoc sent init [.request r]).symm (hlast _ r)
      | flushRequest => exact hd.flushRequested init rfl
      | sync => exact hd.synced init rfl

end

/-- The connection after the first request was taken off the queue. -/
def popped (d : PgConn) : PgConn :=
  { d with pipeline := { d.pipeline with state := d.pipeline.state.extractFrontRequestType.2 } }

/-- What `GetResults` leaves when it fails. -/
def Failed (log : List Event → ServerLog) (b c : PgConn) (sent queued : List Item)
    (ms : List BackendMessage) (e : Error) (d : PgConn) : Prop :=
  e.isPanic = false ∧
    ((e ≠ errUnexpectedEOF ∧ d.pipeline.closed = c.pipeline.closed ∧
        ∃ ns, Tally log b d sent queued ns) ∨
      (Ended d ∧ (e = errUnexpectedEOF → readies ms = 0)))

theorem failed {req : PipelineRequestType} {e : Error} (h : Tally log b c sent queued ms)
    (hd : Fault req c ms e d) (hsync : req = .syncRequest → Waiting (requestTypes sent)
      (requestTypes queued) (syncEvent :: c.pipeline.state.requestEventQueue)) :
    Failed log b c sent queued ms e d := by
  obtain ⟨hpanic, ⟨hne, hrr, back, ns, hback, hate⟩ | ⟨hlost, hstarved⟩⟩ := hd
  · refine ⟨hpanic, .inl ⟨hne, hate.pipelineClosed, ns, h.read hate ?_ (.inl hrr)⟩⟩
    rcases hback with rfl | ⟨hreq, rfl⟩
    · exact h.events
    · exact hsync hreq
  · exact ⟨hpanic, .inr ⟨⟨hlost.status, hlost.reader⟩, hstarved⟩⟩

theorem getResults (h : Tally log b c sent queued ms) : wp (Pipeline.getResults env)
      (fun _ d => d.pipeline.closed = c.pipeline.closed ∧ d.pipeline.err = c.pipeline.err ∧
        ∃ ns, Tally log b d sent queued ns)
      (Failed log b c sent queued ms) c := by
  unfold Pipeline.getResults
  rw [wp_bind]
  apply wp_mono (closeReader_ate h.notClosed h.pending h.reader)
  · intro _ d hd
    obtain ⟨hrr, ns, hate⟩ := hd
    have hd : Tally log b d sent queued ns := h.read hate h.events (.inl hrr)
    obtain ⟨l, hl, htags, hsync⟩ := hd.events.extract d.pipeline.state.pgErr
    have hpop : Tally log b (popped d) sent queued ns :=
      ⟨hd.served, hd.status, hd.wbuf, hd.pending, hd.serves, hd.stream,
      hd.reader, hd.expected, hd.asked, hd.seen, ⟨l, hl, htags⟩, hd.lastRequestType, hd.held⟩
    apply wp_mono (getResultsOf_gives hpop.notClosed hpop.sound hpop.pending hrr)
    · intro _ e he
      obtain ⟨k, ks, he, hfollows⟩ := he
      exact ⟨he.pipelineClosed.trans hate.pipelineClosed, he.pipelineErr.trans hate.pipelineErr, ks,
        hpop.read he hpop.events hfollows⟩
    · intro err e he
      obtain ⟨hpanic, ⟨hne, hclosed, hks⟩ | ⟨hended, hstarved⟩⟩ := hpop.failed he fun hreq =>
        ⟨.syncRequest :: l, hsync hreq, congrArg (cons _) htags⟩
      · exact ⟨hpanic, .inl ⟨hne, hclosed.trans hate.pipelineClosed, hks⟩⟩
      · refine ⟨hpanic, .inr ⟨hended, fun heq => ?_⟩⟩
        obtain ⟨used, hms, hused⟩ := hate.used
        rw [hms, readies_append, hused, hstarved heq]
  · exact fun e d hd => h.failed hd nofun

end Tally

section Closed

variable {env : Env} {c : PgConn}

theorem Ended.getResults (h : Ended c) : wp (Pipeline.getResults env)
      (fun r d => r = none ∧ Ended d ∧ d.pipeline.closed = c.pipeline.closed ∧
        d.pipeline.err = c.pipeline.err)
      (fun e d => Ended d ∧ (e = .connLockError "conn closed" ∨ ∃ text, e = .new text)) c := by
  unfold Pipeline.getResults
  rw [wp_bind]
  unfold closeReader
  rw [wp_bind, wp_get, if_pos h.reader]
  have hs : (Tally.popped c).status = .closed := h.status
  have hrr : (Tally.popped c).resultReader.closed = true := h.reader
  apply wp_mono (getResultsOf_closed hs _)
  · intro r d hd
    obtain ⟨rfl, rfl⟩ := hd
    exact ⟨rfl, ⟨hs, hrr⟩, rfl, rfl⟩
  · intro e d hd
    exact ⟨⟨hd.status, by rw [hd.resultReader]; exact hrr⟩, hd.err⟩

theorem Ended.flush (h : Ended c) : Ended (after (Pipeline.flush env) c) ∨
    Halted (after (Pipeline.flush env) c) :=
  flush_rule (P := fun d => Ended d ∨ Halted d) (fun _ => .inl h) (fun _ => .inl ⟨h.status, h.reader⟩)
    fun _ => .inr ⟨rfl, rfl⟩

/-- Reading from a connection that is closed leaves the pipeline alone. -/
theorem ResultReader.receiveMessage_halted (hs : c.status = .closed) :
    wp (ResultReader.receiveMessage env) never
      (fun _ d => d.status = .closed ∧ d.pipeline = c.pipeline) c := by
  have hrecv : wp (Conn.receiveMessage env) never (fun e d => d = c ∧ e.isPanic = false) c := by
    unfold Conn.receiveMessage
    rw [wp_bind, wp_get, if_pos hs]
    exact ⟨rfl, rfl⟩
  have hmulti : wp (MultiResultReader.receiveMessage env) never
      (fun e d => (d.status = .closed ∧ d.pipeline = c.pipeline) ∧ e.isPanic = false) c := by
    unfold MultiResultReader.receiveMessage
    rw [wp_bind, wp_attempt_iff]
    refine wp_fails hrecv fun e d hd => ?_
    obtain ⟨rfl, he⟩ := hd
    rw [if_neg (by simp [he])]
    exact ⟨⟨rfl, rfl⟩, he⟩
  unfold ResultReader.receiveMessage
  rw [wp_bind, wp_get, wp_bind, wp_attempt_iff]
  cases c.resultReader.multiResultReader with
  | true =>
    refine wp_fails hmulti fun e d hd => ?_
    rw [if_neg (by simp [hd.2])]
    exact hd.1
  | false =>
    refine wp_fails hrecv fun e d hd => ?_
    obtain ⟨rfl, he⟩ := hd
    rw [if_neg (by simp [he])]
    exact ⟨rfl, rfl⟩

theorem Halted.readLoop {β : Type} {b : β} {done : PgConn → Option β}
    {step : Unit → BackendMessage → Op (Unit ⊕ β)} {hstep : ∀ i msg, Reads 0 (step i msg)}
    (h : Halted c) :
    wp ((readLoop (ResultReader.receiveMessage env) (ResultReader.receiveMessage_reads env) done
      (fun _ => pure b) step hstep).run ()) (fun _ => Halted) (fun _ => Halted) c := by
  apply wp_readLoop (I := fun _ => Halted)
  · exact fun _ d b hd _ => hd
  · intro _ d hd _
    refine wp_fails (ResultReader.receiveMessage_halted hd.status) fun e t ht => ?_
    have hhalted : Halted t := ⟨ht.1, by rw [ht.2]; exact hd.pipelineClosed⟩
    split
    · exact hhalted
    · exact hhalted
  · exact h

theorem Halted.nextRow (h : Halted c) : wp (ResultReader.nextRow env) (fun _ => Halted)
    (fun _ => Halted) c := by
  unfold ResultReader.nextRow
  rw [wp_bind, wp_get]
  split
  · exact ⟨h.status, h.pipelineClosed⟩
  · exact h.readLoop

theorem Halted.closeResult (h : Halted c) : wp (ResultReader.close env) (fun _ => Halted)
    (fun _ => Halted) c := by
  unfold ResultReader.close
  rw [wp_bind, wp_get]
  split
  · exact h
  · rw [wp_bind, modifyReader, wp_modify, wp_bind]
    have hc : Halted { c with resultReader := { c.resultReader with closed := true } } :=
      ⟨h.status, h.pipelineClosed⟩
    refine wp_weaken hc.readLoop fun ok d hd => ?_
    rw [wp_bind, wp_get]
    split
    · exact hd
    · split
      · exact hd
      · rw [wp_bind]
        exact wp_weaken hd.readLoop fun _ _ he => he

end Closed

def Standing (log : List Event → ServerLog) (b : PgConn) (s : PipelineRun) : Prop :=
  (s.conn.pipeline.closed = false ∧
    ∃ sent queued ms, s.items = sent ++ queued ∧ Tally log b s.conn sent queued ms) ∨
  Ended s.conn ∨ Halted s.conn

section Runs

variable {env : Env} {log : List Event → ServerLog} {b : PgConn} {s : PipelineRun}

theorem Halted.flush (h : Halted c) : Halted (after (Pipeline.flush env) c) :=
  flush_rule (fun _ => h) (fun _ => ⟨h.status, h.pipelineClosed⟩) fun _ => ⟨rfl, rfl⟩

theorem Ended.step (h : Ended s.conn) (call : PipelineCall) :
    Ended (s.step env call).conn ∨ Halted (s.step env call).conn := by
  refine PipelineRun.step_rule (P := fun t => Ended t.conn ∨ Halted t.conn) (.inl h)
    (fun i => .inl ?_)
    (fun t ht => ht.elim Ended.flush fun ht => .inr ht.flush) (.inl ?_)
      (fun hopen => ?_) (.inl ?_) call
  · show Ended (after i.send s.conn)
    rw [after_send]
    split
    · exact h
    · exact ⟨h.status, h.reader⟩
  · rw [s.getResults_conn env]
    apply after_of_wp (P := Ended)
    unfold exportedGetResults
    rw [wp_bind, wp_get]
    split
    · exact h
    · apply wp_mono h.getResults
      · exact fun _ _ hd => hd.2.1
      · exact fun _ _ hd => hd.1
  · cases h.reader.symm.trans hopen
  · apply after_of_wp (P := Ended)
    refine wp_total (ResultReader.close_closed h.reader) ?_
    rintro _ _ ⟨-, rfl⟩
    exact h

theorem Halted.step (h : Halted s.conn) (call : PipelineCall) : Halted (s.step env call).conn := by
  refine PipelineRun.step_rule (P := fun t => Halted t.conn) h (fun i => ?_) (fun _ ht => ht.flush) ?_
    (fun _ => after_of_wp (P := Halted) h.nextRow) (after_of_wp (P := Halted) h.closeResult) call
  · show Halted (after i.send s.conn)
    rw [after_send, if_pos h.pipelineClosed]
    exact h
  · rw [s.getResults_conn env]
    apply after_of_wp (P := Halted)
    unfold exportedGetResults
    rw [wp_bind, wp_get, if_pos h.pipelineClosed]
    exact h

theorem Standing.flush (h : Standing log b s) :
    Standing log b { s with conn := after (Pipeline.flush env) s.conn } := by
  rcases h with ⟨hopen, sent, queued, ms, hitems, h⟩ | h | h
  · have hkind : Halted (after (Pipeline.flush env) s.conn) ∨
        (after (Pipeline.flush env) s.conn).status = s.conn.status :=
      flush_rule (P := fun d => Halted d ∨ d.status = s.conn.status) (fun _ => .inr rfl)
        (fun _ => .inr rfl)
        fun _ => .inl ⟨rfl, rfl⟩
    rcases hkind with hd | hstatus
    · exact .inr (.inr hd)
    · revert hstatus
      apply after_of_wp (P := fun d => d.status = s.conn.status → Standing log b { s with conn := d })
      apply wp_mono (Pipeline.flush_flushed h.served h.wbuf hopen)
      · rintro _ d ⟨hq, os, out, hd⟩ -
        exact .inl ⟨by rw [hq]; exact hopen, sent ++ queued, [], ms ++ out,
          by rw [append_nil, hitems], h.flush hd hq⟩
      · exact fun _ d hd hs => absurd (hs.symm.trans hd.status) h.notClosed
  · exact .inr h.flush
  · exact .inr (.inr h.flush)

theorem Standing.step (h : Standing log b s) (call : PipelineCall) :
    Standing log b (s.step env call) := by
  rcases h with ⟨hopen, sent, queued, ms, hitems, h⟩ | h | h
  · refine PipelineRun.step_rule (.inl ⟨hopen, sent, queued, ms, hitems, h⟩) (fun i => ?_)
      (fun _ ht => ht.flush) ?_
      (fun hrr => ?_) ?_ call
    · unfold PipelineRun.queued
      rw [after_send, hopen]
      refine .inl ⟨hopen, sent, queued ++ [i], ms, ?_, h.queue i⟩
      show s.items ++ [i] = _
      rw [hitems, append_assoc]
    · have hconn := s.getResults_conn env
      have hget := (s.getResults_fed env).2
      suffices hd : ∀ d, d = after (exportedGetResults env) s.conn →
          (d.pipeline.closed = false ∧ ∃ ns, Tally log b d sent queued ns) ∨ Ended d by
        rcases hd _ rfl with ⟨hc, ns, hd⟩ | hd
        · exact .inl ⟨hconn ▸ hc, sent, queued, ns, hget.trans hitems, hconn ▸ hd⟩
        · exact .inr (.inl (hconn ▸ hd))
      rintro _ rfl
      apply after_of_wp
        (P := fun d => (d.pipeline.closed = false ∧ ∃ ns, Tally log b d sent queued ns) ∨ Ended d)
      unfold exportedGetResults
      rw [wp_bind, wp_get, if_neg (by simp [hopen])]
      apply wp_mono h.getResults
      · exact fun _ d hd => .inl ⟨hd.1.trans hopen, hd.2.2⟩
      · intro e d hd
        rcases hd.2 with ⟨-, hc, hns⟩ | ⟨hended, -⟩
        · exact .inl ⟨hc.trans hopen, hns⟩
        · exact .inr hended
    · have hserve := h.reader.resolve_left (by simp [hrr])
      apply after_of_wp (P := fun d => Standing log b { s with conn := d })
      refine wp_total (ResultReader.nextRow_serving h.notClosed h.pending hserve) fun _ d hd => ?_
      rcases hd with ⟨ns, hate, hd⟩ | hd
      · exact .inl ⟨hate.pipelineClosed.trans hopen, sent, queued, ns, hitems,
          h.read hate h.events (.inr hd)⟩
      · exact .inr (.inl ⟨hd.status, hd.reader⟩)
    · apply after_of_wp (P := fun d => Standing log b { s with conn := d })
      cases hrr : s.conn.resultReader.closed with
      | true =>
        refine wp_total (ResultReader.close_closed hrr) ?_
        rintro _ _ ⟨-, rfl⟩
        exact .inl ⟨hopen, sent, queued, ms, hitems, h⟩
      | false =>
        have hserve := h.reader.resolve_left (by simp [hrr])
        refine wp_total (ResultReader.close_serving h.notClosed h.pending hserve hrr) fun _ d hd => ?_
        rcases hd with ⟨hcd, -, ns, hate⟩ | ⟨hd, -⟩
        · exact .inl ⟨hate.pipelineClosed.trans hopen, sent, queued, ns, hitems,
            h.read hate h.events (.inl hcd)⟩
        · exact .inr (.inl ⟨hd.status, hd.reader⟩)
  · exact .inr (h.step call)
  · exact .inr (.inr (h.step call))

theorem Standing.run (h : Standing log b s) (calls : List PipelineCall) :
    Standing log b (s.run env calls) := foldlRecOn calls _ h fun _ h call _ => h.step call

theorem Fresh.standing {c : PgConn} (h : Fresh log c) : Standing log c (.start c) := by
  have hstart : after startPipeline c =
      { c with status := .busy, resultReader := { closed := true }, pipeline := {} } := h.start
  refine .inl ⟨?_, [], [], [], rfl, ?_⟩
  · unfold PipelineRun.start
    rw [hstart]
  · unfold PipelineRun.start
    rw [hstart]
    refine ⟨h.served, rfl, h.wbuf, h.pending, ?_, ?_, .inl rfl, ?_, rfl, ?_, ⟨[], suffix_rfl, rfl⟩,
      rfl, ?_⟩
    · rw [h.log]
      exact .nil
    · rw [h.log]
      exact suffix_rfl
    · rw [h.log]
      rfl
    · rw [h.log]
      rfl
    · rw [h.log]
      exact fun _ => rfl

end Runs

/-! ## `Close` -/

section Close

variable {env : Env} {log : List Event → ServerLog} {b c : PgConn} {sent queued : List Item}
  {ms : List BackendMessage}

variable {items : List Item}

theorem requestTypes_nil (h : requestTypes items = []) : ∀ i ∈ items, i = .flushRequest := by
  intro i hi
  have hnone := filterMap_eq_nil_iff.mp h i hi
  cases i with
  | flushRequest => rfl
  | request r => cases hnone
  | sync => cases hnone

/-- Everything that is answered was sent, and the last of it is a `Sync`. -/
structure Settles (sent queued : List Item) : Prop where
  queued : requestTypes queued = []
  sent : requestTypes sent = [] ∨ (requestTypes sent).getLast? = some .syncRequest

theorem Tally.settles (h : Tally log b c sent queued ms)
    (hsync : c.pipeline.state.pendingSync = false) : Settles sent queued := by
  obtain ⟨l, hl, htags⟩ := h.events
  unfold pendingSync at hsync
  cases hlast : c.pipeline.state.requestEventQueue.getLast? with
  | some e =>
    rw [hlast] at hsync
    have he : e.requestType = .syncRequest ∧ e.wasSentToServer = true := by simpa using hsync
    have htag : (l.map (·, true) ++ (requestTypes queued).map (·, false)).getLast? = some
        (.syncRequest, true) := by
      rw [← htags]
      unfold tagsOf
      rw [getLast?_map, hlast, ← he.1, ← he.2]
      rfl
    rcases eq_nil_or_concat' (requestTypes queued) with hq | ⟨init, t, hq⟩
    · refine ⟨hq, .inr ?_⟩
      rw [hq, map_nil, append_nil, getLast?_map, Option.map_eq_some_iff] at htag
      obtain ⟨t, ht, htype⟩ := htag
      obtain ⟨k, hk⟩ := hl
      rw [← hk, getLast?_append, ht]
      exact congrArg some (congrArg Prod.fst htype)
    · rw [hq, map_append, ← append_assoc, map_singleton, getLast?_concat] at htag
      cases congrArg (Option.map Prod.snd) htag
  | none =>
    rw [hlast] at hsync
    have hnil : c.pipeline.state.requestEventQueue = [] := getLast?_eq_none_iff.mp hlast
    rw [hnil] at htags
    have hq : requestTypes queued = [] := by
      have := (append_eq_nil_iff.mp htags.symm).2
      exact map_eq_nil_iff.mp this
    refine ⟨hq, ?_⟩
    have htype : c.pipeline.state.lastRequestType = .syncRequest ∨
        c.pipeline.state.lastRequestType = .nil := by simpa [or_iff_not_imp_left] using hsync
    rw [h.lastRequestType] at htype
    rcases eq_nil_or_concat' queued with rfl | ⟨init, i, rfl⟩
    · rcases eq_nil_or_concat' sent with rfl | ⟨init, i, rfl⟩
      · exact .inl rfl
      · rw [append_nil, getLast?_concat] at htype
        cases i with
        | sync => exact .inr (by rw [requestTypes_append]; exact getLast?_concat ..)
        | flushRequest => rcases htype with htype | htype <;> cases htype
        | request r => cases r <;> rcases htype with htype | htype <;> cases htype
    · have hi : i = .flushRequest := requestTypes_nil hq i (by simp)
      rw [← append_assoc, getLast?_concat, hi] at htype
      rcases htype with htype | htype <;> cases htype

theorem not_request (h : requestTypes items = [] ∨
      (requestTypes items).getLast? = some .syncRequest) :
    ∀ init r, items ≠ init ++ [.request r] := by
  rintro init r rfl
  rw [requestTypes_append] at h
  rcases h with h | h
  · cases (append_eq_nil_iff.mp h).2
  · have hlast : (requestTypes init ++ [(Item.request r).requestType]).getLast? =
        some .syncRequest := h
    rw [getLast?_concat] at hlast
    cases r <;> cases hlast

theorem getLast?_request {r : Request} {is : List Item}
    (h : (requestTypes (.request r :: is)).getLast? = some .syncRequest) :
    (requestTypes is).getLast? = some .syncRequest := by
  have hcons : ((Item.request r).requestType :: requestTypes is).getLast? = some .syncRequest := h
  cases hr : requestTypes is with
  | nil =>
    rw [hr] at hcons
    cases r <;> cases hcons
  | cons t ts =>
    rw [hr] at hcons
    exact hcons

/-- The answers end with the `ReadyForQuery` of the last `Sync`. -/
theorem Serves.ends {skip skip' : Bool} {outcomes : List Outcome}
    (h : Serves skip items outcomes skip') :
    (requestTypes items = [] → repliesOf items outcomes = []) ∧
    ((requestTypes items).getLast? = some .syncRequest →
        ∃ init txStatus, repliesOf items outcomes = init ++ [.readyForQuery txStatus]) := by
  induction h with
  | nil => exact ⟨fun _ => rfl, nofun⟩
  | @skipped i is os skip' hi h ih =>
    cases i with
    | sync => exact absurd rfl hi
    | flushRequest => exact ih
    | request r =>
      exact ⟨fun h => (by cases h), fun hlast => ih.2 (getLast?_request hlast)⟩
  | @answered skip i o is os skip' hskip ho h ih =>
    rw [repliesOf_cons]
    cases i with
    | flushRequest =>
      cases ho with
      | flushed => exact ih
    | sync =>
      refine ⟨fun h => (by cases h), fun hlast => ?_⟩
      have hcons : (.syncRequest :: requestTypes is).getLast? = some .syncRequest := hlast
      cases hr : requestTypes is with
      | nil =>
        rw [ih.1 hr, append_nil]
        cases ho with
        | synced err txStatus => exact ⟨err.toList.map .errorResponse, txStatus, rfl⟩
      | cons t ts =>
        rw [hr, getLast?_cons_cons, ← hr] at hcons
        obtain ⟨init, tx, heq⟩ := ih.2 hcons
        exact ⟨_ ++ init, tx, by rw [heq, append_assoc]⟩
    | request r =>
      refine ⟨fun h => (by cases h), fun hlast => ?_⟩
      obtain ⟨init, tx, heq⟩ := ih.2 (getLast?_request hlast)
      exact ⟨_ ++ init, tx, by rw [heq, append_assoc]⟩

theorem Tally.drained (h : Tally log b c sent queued ms) (hs : Settles sent queued)
    (hready : readies (ms ++ (log c.wire).held) = 0) : ms ++ (log c.wire).held = [] := by
  obtain ⟨used, hused⟩ := h.stream
  rcases hs.sent with hnil | hlast
  · rw [h.serves.ends.1 hnil] at hused
    exact (append_eq_nil_iff.mp hused).2
  · obtain ⟨init, tx, heq⟩ := h.serves.ends.2 hlast
    rw [heq] at hused
    rcases eq_nil_or_concat' (ms ++ (log c.wire).held) with hnil | ⟨k, m, hk⟩
    · exact hnil
    · rw [hk, ← append_assoc] at hused
      have hm : m = .readyForQuery tx := by
        have := congrArg getLast? hused
        rw [getLast?_concat, getLast?_concat] at this
        exact Option.some.inj this
      rw [hk, readies_append, hm] at hready
      cases Nat.add_eq_zero_iff.mp hready |>.2

/-- The items that no `Sync` follows that was sent, when this many were sent. -/
def behindSync (sent : Nat) (items : List Item) : List Item :=
  (items.take sent).reverse.takeWhile (fun i => i != .sync) ++ items.drop sent

theorem not_behind {r : Request} (h : requestTypes items = [] ∨
      (requestTypes items).getLast? = some .syncRequest) :
    .request r ∉ items.reverse.takeWhile (fun i => i != .sync) := by
  induction items using reverseRecOn with
  | nil => exact not_mem_nil
  | append_singleton init i ih =>
    rw [reverse_concat]
    cases i with
    | sync => exact not_mem_nil
    | flushRequest =>
      rw [requestTypes_append, show requestTypes [Item.flushRequest] = [] from rfl, append_nil] at h
      simpa using ih h
    | request q => exact absurd rfl (not_request h init q)

theorem Settles.behind {r : Request} (h : Settles sent queued) :
    .request r ∉ behindSync sent.length (sent ++ queued) := by
  unfold behindSync
  rw [take_left, drop_left]
  intro hmem
  rcases mem_append.mp hmem with hmem | hmem
  · exact not_behind h.sent hmem
  · cases requestTypes_nil h.queued _ hmem

/-- An error that is not waiting in vain, unless it was there before. -/
def Blameless (c d : PgConn) : Prop :=
  d.pipeline.err = some errUnexpectedEOF → c.pipeline.err = some errUnexpectedEOF

/-- What the loop of `Close` keeps. -/
def Draining (log : List Event → ServerLog) (b c : PgConn) (sent queued : List Item)
    (d : PgConn) : Prop :=
  Blameless c d ∧ ((∃ ns, Tally log b d sent queued ns) ∨ Ended d)

def Drained (log : List Event → ServerLog) (b c : PgConn) (sent queued : List Item)
    (d : PgConn) : Prop :=
  Blameless c d ∧ (Tally log b d sent queued [] ∨ d.status = .closed)

variable {d : PgConn}

theorem Tally.of_pipeline (h : Tally log b d sent queued ms) (p : Pipeline)
    (hp : p.state = d.pipeline.state) : Tally log b { d with pipeline := p } sent queued ms := by
  refine ⟨h.served, h.status, h.wbuf, h.pending, h.serves, h.stream, h.reader, ?_, h.asked, h.seen,
    ?_, ?_, h.held⟩
  · rw [hp]
    exact h.expected
  · rw [hp]
    exact h.events
  · rw [hp]
    exact h.lastRequestType

/-- `GetResults`, as it is called by `Close`: it never waits in vain. -/
theorem Draining.getResults (hs : Settles sent queued) (h : Draining log b c sent queued d)
    (hpos : 0 < d.pipeline.state.expectedReadyForQueryCount) :
    wp (Pipeline.getResults env)
      (fun r e => e.pipeline.err = d.pipeline.err ∧ (r ≠ none → ∃ ns, Tally log b e sent queued ns))
      (fun err e => err.isPanic = false ∧ err ≠ errUnexpectedEOF ∧
        ((∃ ns, Tally log b e sent queued ns) ∨ Ended e)) d := by
  rcases h.2 with ⟨ns, h⟩ | h
  · have hready : readies ns ≠ 0 := by
      have hexp := h.expected
      have hq : queued.count .sync = 0 := count_eq_zero.mpr fun hmem =>
        nomatch requestTypes_nil hs.queued _ hmem
      rw [h.held (not_request hs.sent), append_nil] at hexp
      omega
    apply wp_mono h.getResults
    · exact fun r e he => ⟨he.2.1, fun _ => he.2.2⟩
    · intro err e he
      obtain ⟨hpanic, ⟨hne, -, he⟩ | ⟨he, hstarved⟩⟩ := he
      · exact ⟨hpanic, hne, .inl he⟩
      · exact ⟨hpanic, fun heq => hready (hstarved heq), .inr he⟩
  · apply wp_mono h.getResults
    · exact fun r e he => ⟨he.2.2.2, fun hne => absurd he.1 hne⟩
    · intro err e he
      obtain ⟨he, rfl | ⟨text, rfl⟩⟩ := he
      · exact ⟨rfl, nofun, .inr he⟩
      · exact ⟨rfl, nofun, .inr he⟩

theorem closeRound_drains (hs : Settles sent queued) (h : Draining log b c sent queued d) :
    wp (closeRound env ())
      (fun r e => r.elim (fun _ => Draining log b c sent queued e)
        (fun _ => Drained log b c sent queued e))
      never d := by
  have hblame : Blameless c d := h.1
  unfold closeRound
  rw [wp_bind, wp_get]
  split
  · rename_i hpos
    rw [wp_bind, wp_attempt_iff]
    apply wp_mono (h.getResults hs hpos)
    · intro r e he
      obtain ⟨herr, he⟩ := he
      cases r with
      | some r => exact ⟨fun heof => hblame (herr ▸ heof), .inl (he (Option.some_ne_none r))⟩
      | none =>
        -- the connection is closed, and there is an error if there was none
        refine ⟨fun heof => ?_, .inr rfl⟩
        have heof' : e.pipeline.err.or
            (some (.new "pipeline: no more results but expected ReadyForQuery")) =
              some errUnexpectedEOF := heof
        cases hd : e.pipeline.err with
        | none =>
          rw [hd] at heof'
          cases heof'
        | some err =>
          rw [hd] at heof'
          exact hblame (herr ▸ hd.trans heof')
    · intro err e he
      obtain ⟨hpanic, hne, he⟩ := he
      have hblame' : ∀ p : Pipeline, p.err = some err →
          p.err = some errUnexpectedEOF → c.pipeline.err = some errUnexpectedEOF := by
        intro p hp heof
        exact absurd (Option.some.inj (hp.symm.trans heof)) hne
      rw [if_neg (by simp [hpanic])]
      rw [wp_bind]
      split
      · refine ⟨hblame' _ rfl, ?_⟩
        rcases he with ⟨ns, he⟩ | he
        · exact .inl ⟨ns, he.of_pipeline _ rfl⟩
        · exact .inr ⟨he.status, he.reader⟩
      · exact ⟨hblame' _ rfl, .inr rfl⟩
  · rename_i hpos
    refine ⟨hblame, ?_⟩
    rcases h.2 with ⟨ns, h⟩ | h
    · have hexp := h.expected
      have hnil := h.drained hs (by omega)
      obtain rfl := (append_eq_nil_iff.mp hnil).1
      exact .inl h
    · exact .inr h.status

/-- What is known of the connection after `Close`, where `c` is the one that it was called on and
`b` the one before the pipeline was started. -/
structure CloseLeaves (b c : PgConn) (r : Option Error) (d : PgConn) : Prop where
  /-- `Close` has not waited for a message that does not come. -/
  blameless : r = some errUnexpectedEOF → c.pipeline.err = some errUnexpectedEOF
  idle : d.status ≠ .closed → d.status = .idle
  balance : d.status ≠ .closed →
    readySeen d.wire + sentAsks b.wire = sentAsks d.wire + readySeen b.wire
  nothingUnread : d.status ≠ .closed → Carries d.pending []

theorem CloseLeaves.of_closed {r : Option Error} (hd : d.status = .closed)
    (hr : r = some errUnexpectedEOF → c.pipeline.err = some errUnexpectedEOF) : CloseLeaves b c r d :=
  ⟨hr, fun h => absurd hd h, fun h => absurd hd h, fun h => absurd hd h⟩

theorem close_drained (hs : Settles sent queued) (h : Draining log b c sent queued c) : wp (do
        (closeLoop env).run ()
        unlock
        let d ← get
        pure d.pipeline.err) (CloseLeaves b c) never c := by
  rw [wp_bind]
  refine wp_weaken ((closeLoop env).wp_run (I := fun _ => Draining log b c sent queued)
    (fun _ _ hd => closeRound_drains hs hd) h) fun _ d hd => ?_
  obtain ⟨hblame, hd⟩ := hd
  rw [wp_bind]
  unfold unlock
  rw [wp_bind, wp_get]
  rcases hd with hd | hd
  · rw [hd.status]
    have hheld : (log d.wire).held = [] := hd.held (not_request hs.sent)
    refine ⟨hblame, fun _ => rfl, fun _ => ?_, fun _ => hd.pending⟩
    have hseen := hd.seen
    have hasked := hd.asked
    rw [hheld] at hseen
    show readySeen d.wire + sentAsks b.wire = sentAsks d.wire + readySeen b.wire
    rw [append_nil, readies_nil] at hseen
    omega
  · rw [hd]
    exact .of_closed hd hblame

theorem drain_feeds (env : Env) : Feeds (do
      (closeLoop env).run ()
      unlock
      let d ← get
      pure d.pipeline.err : Op (Option Error)) := by
  have hround : ∀ u, Feeds (closeRound env u) := by
    intro u
    have hclose : Gains (fun _ => Fed) 0 asyncClose := Gains.modify fed_framed.close
    refine Gains.get_bind (R := fun _ => Fed) (n := 0) fun c => ?_
    split
    · refine .attempt_bind (n := 0) (getResults_feeds env) (Int.le_refl 0) (fun r => ?_)
        (Int.le_refl 0)
        fun err => .seq (modifyPipeline_feeds _) fun _ => ?_
      · cases r with
        | none => exact hclose.seq fun _ => .seq (modifyPipeline_feeds _) fun _ => .pure
        | some r => exact .pure
      · split
        · exact .pure
        · exact hclose.seq fun _ => .pure
    · exact .pure
  exact Gains.seq (R := fun _ => Fed) (n := 0) (Gains.loop_zero hround ()) fun _ =>
    (unlock_gains fed_framed).seq fun _ => .get_bind fun _ => .pure

/-- `Close` returns, and this is how it leaves the connection. -/
theorem close_standing {s : PipelineRun} (h : Standing log b s) : wp (close env)
      (fun r d => CloseLeaves b s.conn r d ∧ (d.status ≠ .closed →
        ∀ r, .request r ∉ behindSync (log s.conn.wire).outcomes.length s.items))
      never s.conn := by
  unfold close
  rw [wp_bind, wp_get]
  cases hclosed : s.conn.pipeline.closed with
  | true =>
    have hs : s.conn.status = .closed := by
      rcases h with ⟨hopen, -⟩ | h | h
      · rw [hclosed] at hopen
        cases hopen
      · exact h.status
      · exact h.status
    exact ⟨.of_closed hs id, fun hd => absurd hs hd⟩
  | false =>
    cases hsync : s.conn.pipeline.state.pendingSync with
    | true =>
      have hr : (some (.new "pipeline has unsynced requests")) ≠ some errUnexpectedEOF := nofun
      exact ⟨.of_closed rfl fun h => absurd h hr, fun hd => absurd rfl hd⟩
    | false =>
      rcases h with ⟨-, sent, queued, ms, hitems, h⟩ | h | h
      · have hs := h.settles hsync
        have hd : Draining log b
            { s.conn with pipeline := { s.conn.pipeline with closed := true } } sent
            queued { s.conn with pipeline := { s.conn.pipeline with closed := true } } :=
          ⟨id, .inl ⟨ms, h.of_pipeline _ rfl⟩⟩
        refine wp_weaken (close_drained hs hd) fun r d hr => ?_
        refine ⟨⟨hr.blameless, hr.idle, hr.balance, hr.nothingUnread⟩, fun _ r => ?_⟩
        rw [hitems, ← h.serves.length]
        exact hs.behind
      · have hs : Settles [] [] := ⟨rfl, .inl rfl⟩
        have hd : Draining log b
            { s.conn with pipeline := { s.conn.pipeline with closed := true } } []
            [] { s.conn with pipeline := { s.conn.pipeline with closed := true } } :=
          ⟨id, .inr ⟨h.status, h.reader⟩⟩
        apply wp_mono (wp_and (close_drained hs hd) (drain_feeds env _))
        · intro r d hr
          have hend : d.status = .closed := (hr.2.closed h.status).1
          exact ⟨.of_closed hend hr.1.blameless, fun hne => absurd hend hne⟩
        · exact fun _ _ he => he.1
      · rw [h.pipelineClosed] at hclosed
        cases hclosed

/-- After any calls on a pipeline, `Close` returns, without waiting for a message that does not
come. It closes the connection when some request was not followed by a `Sync` that was sent. When it
leaves the connection open, it is idle, a `ReadyForQuery` was consumed for every `Sync`, and nothing
is left to be read. -/
theorem close_balances (env : Env) (log : List Event → ServerLog) (c : PgConn)
    (calls : List PipelineCall) (hfresh : Fresh log c) :
    ∃ r d, Pipeline.close env ((PipelineRun.start c).run env calls).conn = .ok r d ∧
      CloseLeaves c ((PipelineRun.start c).run env calls).conn r d ∧
      ((∃ q, .request q ∈ behindSync
        (log ((PipelineRun.start c).run env calls).conn.wire).outcomes.length
          ((PipelineRun.start c).run env calls).items) → d.status = .closed) := by
  have hstanding : Standing log c ((PipelineRun.start c).run env calls) := hfresh.standing.run calls
  have hclose : wp (Pipeline.close env) _ _ _ := close_standing hstanding
  cases hx : Pipeline.close env ((PipelineRun.start c).run env calls).conn with
  | ok r d =>
    obtain ⟨hleaves, hbehind⟩ := wp_of_ok hclose hx
    refine ⟨r, d, rfl, hleaves, fun hq => ?_⟩
    obtain ⟨q, hq⟩ := hq
    by_contra hne
    exact hbehind hne q hq
  | error e d => exact (wp_of_error hclose hx).elim

/-- A pipeline with a result that was read in part, and one that was not read. -/
def unreadPipeline : List PipelineCall :=
  [queryColumn (ascii "s") (ascii "a"), .send (.queryParams (ascii "select 1") [] [] [] []), .sync,
    .getResults, .nextRow, queryColumn (ascii "gone") (ascii "b"), .sync]

/-- `Close` with a row unread and a statement that is gone -/
theorem close_balances_unread :
    (after (Pipeline.close plainEnv)
        ((PipelineRun.start oneRowServer.conn).run plainEnv unreadPipeline).conn).status = .idle ∧
      ∃ r d, Pipeline.close plainEnv
          ((PipelineRun.start oneRowServer.conn).run plainEnv unreadPipeline).conn = .ok r d ∧
        CloseLeaves oneRowServer.conn
          ((PipelineRun.start oneRowServer.conn).run plainEnv unreadPipeline).conn r d := by
  obtain ⟨r, d, hok, hleaves, -⟩ := close_balances plainEnv oneRowServer.log oneRowServer.conn
    unreadPipeline oneRowServer.fresh
  exact ⟨by decide +kernel, r, d, hok, hleaves⟩

/-- A flush request after the last `Sync` is not in the queue, and `Close` does not see it. -/
theorem close_flushRequest_behind :
    Fresh oneRowServer.log oneRowServer.conn ∧
      .flushRequest ∈ behindSync
        (oneRowServer.log ((PipelineRun.start oneRowServer.conn).run plainEnv
          [.sync, .sendFlushRequest]).conn.wire).outcomes.length
        ((PipelineRun.start oneRowServer.conn).run plainEnv [.sync, .sendFlushRequest]).items ∧
      (after (Pipeline.close plainEnv) ((PipelineRun.start oneRowServer.conn).run plainEnv
        [.sync, .sendFlushRequest]).conn).status = .idle :=
  ⟨oneRowServer.fresh, by decide +kernel, by decide +kernel⟩

end Close

end Pgx.Conn
