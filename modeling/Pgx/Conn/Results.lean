import Pgx.Conn.Streams

/-!
# The results of a pipeline, one request at a time

What `GetResults` returns for the request at the front of the queue when the
answer to it is next on the network.
-/
namespace Pgx.Conn

open Pgx.Go Pgx.Wire Pgx.Effect Item ResultReader

variable {tag : Bytes} {ending : Ending} {e : Error} {rows : List (List (Option Bytes))}
    {before : List BackendMessage} {fields : List FieldDescription}

/-- What `GetResults` gives: for a reader, its columns and what reading it to the end gives. -/
inductive Observed where
  | statementDescription (psd : StatementDescription)
  | rows (fieldDescriptions : List FieldDescription) (rows : List (List (Option Bytes)))
      (commandTag : Bytes) (err : Option Error)
  | closeComplete
  | pipelineSync
  deriving DecidableEq

/-- The reader is read to the end in a copy of the connection. -/
def observe (env : Env) (c : PgConn) : Pipeline.Results → Observed
  | .statementDescription psd => .statementDescription psd
  | .resultReader =>
    match ResultReader.read env c with
    | .ok br _ => .rows c.resultReader.fieldDescriptions br.rows br.commandTag br.err
    | .error err _ => .rows c.resultReader.fieldDescriptions [] [] (some err)
  | .closeComplete => .closeComplete
  | .pipelineSync => .pipelineSync

/-- The columns of the rows of a statement whose description the caller holds. -/
def statementColumns (sd : StatementDescription) (resultFormats : List Int) : List FieldDescription :=
  match combineFieldDescriptionsAndResultFormats sd.fields resultFormats with
  | .ok fields => fields
  | .error _ => []

/-- The columns of the rows that a request returns, where these are what the server describes. -/
def Request.columns (fields : Option (List FieldDescription)) : Request → List FieldDescription
  | queryStatement sd _ _ resultFormats => statementColumns sd resultFormats
  | _ => fields.getD []

def Item.requestType : Item → PipelineRequestType
  | request (.prepare _ _ _) => .prepare
  | request (.deallocate _) => .deallocate
  | request (.queryParams _ _ _ _ _) => .queryParams
  | request (.queryPrepared _ _ _ _) => .queryPrepared
  | request (.queryStatement _ _ _ _) => .queryStatement
  | flushRequest => .flushRequest
  | sync => .syncRequest

/-! ## What reading an answer does -/

/-- Messages were read, up to these, and the queues of the pipeline were changed. -/
structure Settled (c d : PgConn) (s : PipelineState) (ms : List BackendMessage) : Prop
    extends Fed c d where
  status : d.status = c.status
  pending : Carries d.pending ms
  pipeline : d.pipeline = { c.pipeline with state := s }

/-- An error in place of the next message: the pipeline remembers it, or the connection was
closed. -/
def Refusal (env : Env) (c : PgConn) (err : PgError) (ms : List BackendMessage) (e : Error)
    (d : PgConn) : Prop :=
  e = .pgError err ∧
    ((env.passes (.errorResponse err) = true ∧ Settled c d (c.pipeline.state.handleError err) ms ∧
        d.resultReader.closed = true) ∨
      (env.passes (.errorResponse err) = false ∧ Cut c d e))

namespace Pipeline

variable {env : Env} {c d t : PgConn} {m : BackendMessage} {ms ns : List BackendMessage}
  {err : PgError} {α : Type} {Q : α → PgConn → Prop} {E : Error → PgConn → Prop} {errStr : String}

theorem took_trans (h : Took c d ns) (k : Took d t ms) : Took c t ms :=
  ⟨h.toReceived.trans k.toReceived, k.status.trans h.status, k.pending⟩

/-- Reading a message leaves the connection open. -/
theorem took_open (hs : c.status ≠ .closed) (h : Took c d ms) : d.status ≠ .closed := by
  rw [h.status]
  exact hs

theorem took_closed (hrr : c.resultReader.closed = true) (h : Took c d ms) :
    d.resultReader.closed = true := by
  rw [h.resultReader, hrr]

theorem settled_of_took {s : PipelineState} (h : Took c d ns) (k : Settled d t s ms) :
    Settled c t s ms := by
  refine ⟨h.toFed.trans k.toFed, k.status.trans h.status, k.pending, ?_⟩
  rw [k.pipeline, h.pipeline]

theorem Refusal.of_took (h : Took c d ns) (k : Refusal env d err ms e t) :
    Refusal env c err ms e t := by
  obtain ⟨he, ⟨hp, hset, hrr⟩ | ⟨hp, hcut⟩⟩ := k
  · refine ⟨he, .inl ⟨hp, settled_of_took h ?_, hrr⟩⟩
    rw [h.pipeline] at hset
    exact hset
  · exact ⟨he, .inr ⟨hp, hcut.of_took h⟩⟩

theorem Refusal.of_cut (hp : env.passes (.errorResponse err) = false)
    (he : ErrorIs (.errorResponse err) e) (hd : Cut c d e) : Refusal env c err ms e d := by
  obtain ⟨err', h1, h2⟩ := he
  injection h1 with h1
  exact ⟨h1 ▸ h2, .inr ⟨hp, hd⟩⟩

theorem handleError_refusal (hp : env.passes (.errorResponse err) = true) (h : Took c d ms)
    (hrr : c.resultReader.closed = true) : wp (handleError err : Op α) Q
      (Refusal env c err ms) d := by
  unfold handleError
  rw [wp_bind, modifyState, modifyPipeline, wp_modify]
  have hclosed : d.resultReader.closed = true := took_closed hrr h
  refine ⟨rfl, .inl ⟨hp, ⟨⟨h.peer, h.wbuf, h.wire, h.closed⟩, h.status, h.pending, ?_⟩, hclosed⟩⟩
  rw [h.pipeline]

theorem handleErrorClosed_refusal (hp : env.passes (.errorResponse err) = true) (h : Took c d ms) :
    wp (handleErrorClosed err : Op α) Q (Refusal env c err ms) d := by
  unfold handleErrorClosed
  rw [wp_bind, modifyState, modifyPipeline, wp_modify]
  refine ⟨rfl, .inl ⟨hp, ⟨⟨h.peer, h.wbuf, h.wire, h.closed⟩, h.status, h.pending, ?_⟩, rfl⟩⟩
  rw [h.pipeline]

theorem handleUnexpectedMessage_cut (hs : c.status ≠ .closed) (h : Took c d ms) :
    wp (handleUnexpectedMessage errStr m : Op α) Q
      (fun e t => Cut c t e ∧ ∃ text args, e = .errorf text args) d := by
  have hpipe : ∀ e, ({ d.pipeline with err := some e } : Pipeline) =
      { c.pipeline with err := some e } := by
    rw [h.pipeline]
    exact fun _ => rfl
  exact ⟨⟨⟨⟨h.peer, h.wbuf, h.wire, fun hc => absurd hc hs⟩, rfl⟩, h.resultReader, hpipe _⟩, _, _,
    rfl⟩

theorem startReader_took (h : Took c d ms) (rr : ResultReader) :
    wp (startReader rr) (fun r e => r = some .resultReader ∧ Settled c e c.pipeline.state ms ∧
      e.resultReader = rr) E d :=
  ⟨rfl, ⟨⟨h.peer, h.wbuf, h.wire, h.closed⟩, h.status, h.pending, h.pipeline⟩, rfl⟩

section Receive

variable (hs : c.status ≠ .closed)

include hs

theorem receiveParseComplete_ok (hc : Carries c.pending (.parseComplete :: ms)) :
    wp (receiveParseComplete env errStr) (fun _ d => Took c d ms) never c := by
  unfold receiveParseComplete
  rw [wp_bind]
  exact wp_receiveMessage hs hc (fun d _ hd => hd) fun _ _ hp => nomatch hp

theorem receiveParseComplete_error (hrr : c.resultReader.closed = true)
    (hc : Carries c.pending (.errorResponse err :: ms)) :
    wp (receiveParseComplete env errStr) never (Refusal env c err ms) c := by
  unfold receiveParseComplete
  rw [wp_bind]
  exact wp_receiveMessage hs hc (fun d hp hd => handleError_refusal hp hd hrr)
    fun _ _ => Refusal.of_cut

theorem receiveBindComplete_ok (hc : Carries c.pending (.bindComplete :: ms)) :
    wp (receiveBindComplete env errStr) (fun _ d => Took c d ms) never c := by
  unfold receiveBindComplete
  rw [wp_bind]
  exact wp_receiveMessage hs hc (fun d _ hd => hd) fun _ _ hp => nomatch hp

theorem receiveBindComplete_error (hrr : c.resultReader.closed = true)
    (hc : Carries c.pending (.errorResponse err :: ms)) :
    wp (receiveBindComplete env errStr) never (Refusal env c err ms) c := by
  unfold receiveBindComplete
  rw [wp_bind]
  exact wp_receiveMessage hs hc (fun d hp hd => handleError_refusal hp hd hrr)
    fun _ _ => Refusal.of_cut

theorem receiveDescribedResultReader_rows (hc : Carries c.pending (.rowDescription fields :: ms)) :
    wp (receiveDescribedResultReader env errStr)
      (fun r d => r = some .resultReader ∧ Settled c d c.pipeline.state ms ∧
        d.resultReader = { pipeline := true, fieldDescriptions := fields }) never c := by
  unfold receiveDescribedResultReader
  rw [wp_bind]
  exact wp_receiveMessage hs hc (fun d _ hd => startReader_took hd _) fun _ _ hp => nomatch hp

theorem receiveDescribedResultReader_complete
    (hc : Carries c.pending (.noData :: .commandComplete tag :: ms)) :
    wp (receiveDescribedResultReader env errStr)
      (fun r d => r = some .resultReader ∧ Settled c d c.pipeline.state ms ∧
        d.resultReader = { commandTag := tag, commandConcluded := true, closed := true })
      never c := by
  unfold receiveDescribedResultReader
  rw [wp_bind]
  refine wp_receiveMessage hs hc (fun d _ hd => ?_) fun _ _ hp => nomatch hp
  unfold receiveCommandComplete
  rw [wp_bind]
  refine wp_receiveMessage (took_open hs hd) hd.pending (fun e _ he => ?_) fun _ _ hp => nomatch hp
  exact startReader_took (took_trans hd he) _

/-- An empty query is not known here: the connection is closed. -/
theorem receiveDescribedResultReader_empty (hc :
    Carries c.pending (.noData :: .emptyQueryResponse :: ms)) :
    wp (receiveDescribedResultReader env errStr) never
      (fun e d => Cut c d e ∧ ∃ text args, e = .errorf text args) c := by
  unfold receiveDescribedResultReader
  rw [wp_bind]
  refine wp_receiveMessage hs hc (fun d _ hd => ?_) fun _ _ hp => nomatch hp
  unfold receiveCommandComplete
  rw [wp_bind]
  refine wp_receiveMessage (took_open hs hd) hd.pending (fun e _ he => ?_) fun _ _ hp => nomatch hp
  exact handleUnexpectedMessage_cut hs (took_trans hd he)

theorem receiveDescribedResultReader_error
    (hb : before <+: [.noData]) (hc : Carries c.pending (before ++ .errorResponse err :: ms)) :
    wp (receiveDescribedResultReader env errStr) never (Refusal env c err ms) c := by
  unfold receiveDescribedResultReader
  rw [wp_bind]
  rcases List.prefix_cons_iff.mp hb with rfl | ⟨t, rfl, ht⟩
  · exact wp_receiveMessage hs hc (fun d hp hd => handleErrorClosed_refusal hp hd)
      fun _ _ => Refusal.of_cut
  · obtain rfl := List.prefix_nil.mp ht
    refine wp_receiveMessage hs hc (fun d _ hd => ?_) fun _ _ hp => nomatch hp
    unfold receiveCommandComplete
    rw [wp_bind]
    refine wp_receiveMessage (took_open hs hd) hd.pending (fun e hp he => ?_) fun _ e hp hm he => ?_
    · exact handleErrorClosed_refusal hp (took_trans hd he)
    · exact Refusal.of_cut hp hm (he.of_took hd)

end Receive

/-! ## Requests -/

variable {r : Request}

theorem columns_of_describes {fields : Option (List FieldDescription)}
    (hr : r.describes = true) : r.columns fields = fields.getD [] := by
  cases r <;> first | rfl | cases hr

theorem bound_failed (hs : c.status ≠ .closed)
    (hrr : c.resultReader.closed = true) (hb : before <+: [.bindComplete, .noData])
    (hc : Carries c.pending (before ++ .errorResponse err :: ms)) :
    wp (do receiveBindComplete env errStr; receiveDescribedResultReader env errStr) never
      (Refusal env c err ms) c := by
  rw [wp_bind]
  rcases List.prefix_cons_iff.mp hb with rfl | ⟨t, rfl, ht⟩
  · exact wp_weaken (receiveBindComplete_error hs hrr hc) fun _ _ he => he.elim
  · refine wp_total (receiveBindComplete_ok hs hc) fun _ d hd => ?_
    exact wp_weaken_error (receiveDescribedResultReader_error (took_open hs hd) ht hd.pending)
      fun _ _ he => Refusal.of_took hd he

section Described

variable {r : Request} (hs : c.status ≠ .closed) (hrr : c.resultReader.closed = true)
  (hr : r.describes = true)

include hs hr

theorem getResultsOf_opening {Q : Option Results → PgConn → Prop}
    {fields : Option (List FieldDescription)} (hc : Carries c.pending (r.prelude fields ++ ms))
    (h : ∀ t errStr, Took c t (describeMessage fields :: ms) →
      wp (receiveDescribedResultReader env errStr) Q E t) :
    wp (getResultsOf env (Item.request r).requestType) Q E c := by
  cases r with
  | queryParams sql paramValues paramOIDs paramFormats resultFormats =>
    show wp (getResultsQueryParams env) Q E c
    unfold getResultsQueryParams
    rw [wp_bind]
    refine wp_total (receiveParseComplete_ok hs hc) fun _ d hd => ?_
    rw [wp_bind]
    exact wp_total (receiveBindComplete_ok (took_open hs hd) hd.pending) fun _ t ht =>
      h t _ (took_trans hd ht)
  | queryPrepared stmtName paramValues paramFormats resultFormats =>
    show wp (getResultsQueryPrepared env) Q E c
    unfold getResultsQueryPrepared
    rw [wp_bind]
    exact wp_total (receiveBindComplete_ok hs hc) fun _ t ht => h t _ ht
  | _ => cases hr

include hrr

section

variable (hb : before <+: r.prelude none) (hc :
    Carries c.pending ((Item.request r).reply (.failed before err) ++ ms))

include hb hc

theorem getResultsOf_refusal : wp (getResultsOf env (Item.request r).requestType) never
    (Refusal env c err ms) c := by
  have hc' : Carries c.pending (before ++ .errorResponse err :: ms) := by
    simpa [reply] using hc
  cases r with
  | queryParams sql paramValues paramOIDs paramFormats resultFormats =>
    show wp (getResultsQueryParams env) _ _ c
    unfold getResultsQueryParams
    rw [wp_bind]
    rcases List.prefix_cons_iff.mp hb with rfl | ⟨t, rfl, ht⟩
    · exact wp_weaken (receiveParseComplete_error hs hrr hc') fun _ _ he => he.elim
    · refine wp_total (receiveParseComplete_ok hs hc') fun _ d hd => ?_
      exact wp_weaken_error (bound_failed (took_open hs hd) (took_closed hrr hd) ht hd.pending)
        fun _ _ he => Refusal.of_took hd he
  | queryPrepared stmtName paramValues paramFormats resultFormats =>
    exact bound_failed hs hrr hb hc'
  | _ => cases hr

end

end Described

/-- The connection after the description of the statement was taken off its queue. -/
def unqueued (d : PgConn) : PgConn :=
  { d with pipeline := { d.pipeline with state := d.pipeline.state.extractFrontStatementData.2 } }

end Pipeline

end Pgx.Conn
