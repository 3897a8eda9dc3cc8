import Pgx.BatchResults.Model

/-!
# The order of the callbacks

`Close` calls the callbacks of a batch in order, each with the result of its own query, and none
behind a query that failed, provided that no callback hides the error of its row. A query
without a callback whose error `batchResults` drops is the other way in which callbacks run that
should not. An empty query ends a `pipelineBatchResults`, although the server reports no error.
-/
namespace Pgx.BatchResults

open Pgx.Go Pgx.Wire Pgx.Rows List Pgx.BatchResults.Stream

/-- What a conforming server answers to so many queries: after an error it answers no more. -/
inductive Answered (syncErr : Option PgError) : Nat → List Reply → Prop where
  | done : Answered syncErr 0 []
  | ok {n : Nat} {r : Reply} {rs : List Reply} : r.error = none → Answered syncErr n rs →
      Answered syncErr (n + 1) (r :: rs)
  | failed {n : Nat} {r : Reply} : r.error ≠ none → syncErr = none → Answered syncErr (n + 1) [r]

/-- The rows that a callback is given for an answer. -/
def rowsOf : Reply → RowsState
  | .command tag => { err := none, closed := false, reader := some (.concluded tag none) }
  | .empty => { err := none, closed := false, reader := some (.concluded [] none) }
  | .rows rows fin => { err := none, closed := false, reader := some (.reading rows fin) }
  | .refused err => { err := some (.pgError err), closed := true, reader := none }

def Reply.commandTag : Reply → Bytes
  | command tag => tag
  | rows _ (.complete tag) => tag
  | _ => []

/-- The call of a callback for the answer to its own query. -/
def Callback.own (i : Nat) (r : Reply) : Callback → Call
  | query fn => { index := i, seen := (fn.run (rowsOf r)).seen, err := (fn.run (rowsOf r)).err }
  | queryRow fn => { index := i, seen := (fn.run (rowsOf r)).seen, err := (fn.run (rowsOf r)).err }
  | exec fn => { index := i, seen := [.commandTag r.commandTag], err := fn r.commandTag }

/-- The error that `Fn` returns for the answer to its own query. -/
def Callback.result (r : Reply) : Callback → Option Error
  | query fn => (fn.run (rowsOf r)).err.or (fn.run (rowsOf r)).rows.close.err
  | queryRow fn => (fn.run (rowsOf r)).err
  | exec fn => fn r.commandTag

/-- The callbacks run in order, each at most once and on its own result, and none behind a query
that failed or whose callback returned an error. A callback that nothing has stopped does run.
Places are counted from `i`. -/
structure OrderlyFrom (i : Nat) (queries : List (Option Callback)) (replies : List Reply)
    (calls : List Call) :
    Prop where
  order : calls.Pairwise fun a b => a.index < b.index
  own : ∀ call ∈ calls, ∃ k callback r, call.index = i + k ∧ queries[k]? = some (some callback) ∧
    replies[k]? = some r ∧ call = callback.own call.index r
  stops : ∀ call ∈ calls, ∀ j, i + j < call.index →
    (∀ r, replies[j]? = some r → r.error = none) ∧ ∀ earlier ∈ calls, earlier.index = i + j →
    earlier.err = none
  called : ∀ k callback, queries[k]? = some (some callback) →
    (∀ j, j ≤ k → ∃ r, replies[j]? = some r ∧ r.error = none) →
    (∀ j, j < k → ∀ earlier r, queries[j]? = some (some earlier) → replies[j]? = some r →
      earlier.result r = none) →
    ∃ call ∈ calls, call.index = i + k

/-- On this answer a `QueryRow` callback scans its row, and returns the error if that fails. -/
def Callback.CarefulOn (r : Reply) : Callback → Prop
  | queryRow fn => (fn.run (rowsOf r)).rows.closed = true ∧
      ((fn.run (rowsOf r)).err = none → (fn.run (rowsOf r)).rows.err = none)
  | _ => True

/-- Every callback is careful with the answer to its own query. -/
def Careful (queries : List (Option Callback)) (replies : List Reply) : Prop :=
  ∀ (k : Nat) (callback : Callback) (r : Reply), queries[k]? = some (some callback) →
  replies[k]? = some r →
    callback.CarefulOn r

/-- A callback that runs also when its query has failed. -/
def Callback.takesRows : Callback → Bool
  | exec _ => false
  | _ => true

/-- Behind a query without a callback that the server refuses there is no callback that takes rows.
-/
def NoneBehindRefused (queries : List (Option Callback)) (replies : List Reply) : Prop :=
  ∀ (j : Nat) (err : PgError), queries[j]? = some none → replies[j]? = some (.refused err) →
    ∀ (k : Nat) (callback : Callback), j < k → queries[k]? = some (some callback) →
    callback.takesRows = false

/-- The query of a callback, and those before it, are not empty. -/
def NoneEmpty (queries : List (Option Callback)) (replies : List Reply) : Prop :=
  ∀ (k : Nat) (callback : Callback), queries[k]? = some (some callback) →
  ∀ j ≤ k, replies[j]? ≠ some .empty

/-! ## What a callback leaves -/

/-- Rows on the way through an answer that ends with this error, or without one. -/
structure Along (e : Option PgError) (st : RowsState) : Prop where
  closed : st.closed = true → (e ≠ none → st.err ≠ none) ∧
    (e = none → ∃ rd, st.reader = some rd ∧ rd.isReading = false ∧ rd.err = none)
  opened : st.closed = false → st.err = none ∧ ∃ rd, st.reader = some rd ∧
    rd.conclude.err = e.map .pgError

namespace Along

variable {e : Option PgError} {st : RowsState}

theorem of_closed (hc : st.closed = true) (herr : e ≠ none → st.err ≠ none)
    (hrd : e = none → ∃ rd, st.reader = some rd ∧ rd.isReading = false ∧ rd.err = none) :
    Along e st where
  closed := fun _ => ⟨herr, hrd⟩
  opened := fun h => absurd (hc.symm.trans h) (by decide)

theorem of_opened {rd : Reader} (hc : st.closed = false) (herr : st.err = none)
    (hrd : st.reader = some rd) (hend : rd.conclude.err = e.map .pgError) : Along e st where
  closed := fun h => absurd (hc.symm.trans h) (by decide)
  opened := fun _ => ⟨herr, rd, hrd, hend⟩

theorem rowsOf (r : Reply) : Along r.error (rowsOf r) := by
  cases r with
  | command tag => exact of_opened rfl rfl rfl rfl
  | empty => exact of_opened rfl rfl rfl rfl
  | rows rows fin => cases fin <;> exact of_opened rfl rfl rfl rfl
  | refused err => exact of_closed rfl (fun _ => by simp [BatchResults.rowsOf]) (fun h => by cases h)

theorem close_closed (st : RowsState) : st.close.closed = true := by
  unfold RowsState.close
  split
  · assumption
  · rfl

/-- Closing open rows, with or without an error already found. -/
theorem close_of_opened {rd : Reader} (hc : st.closed = false) (hrd : st.reader = some rd)
    (hend : rd.conclude.err = e.map .pgError) : Along e st.close := by
  refine of_closed (close_closed st) (fun hne => ?_) (fun hok => ?_)
  · obtain ⟨x, hx⟩ := Option.ne_none_iff_exists'.mp hne
    cases hs : st.err <;> simp [RowsState.close, hc, hrd, hend, hx, hs]
  · refine ⟨rd.conclude, by simp [RowsState.close, hc, hrd], by unfold Reader.conclude; split <;> rfl, ?_⟩
    rw [hend, hok]
    rfl

section

variable (h : Along e st)

include h

theorem close : Along e st.close := by
  cases hc : st.closed with
  | true =>
    rw [RowsState.close, if_pos hc]
    exact h
  | false =>
    obtain ⟨_, rd, hrd, hend⟩ := h.opened hc
    exact close_of_opened hc hrd hend

theorem fatal (err : Error) : Along e (st.fatal err) := by
  cases hs : st.err with
  | some x =>
    rw [RowsState.fatal, hs]
    exact h
  | none =>
    have hfatal : st.fatal err = RowsState.close { st with err := some err } := by
      rw [RowsState.fatal, hs]
    rw [hfatal]
    rcases Bool.eq_false_or_eq_true st.closed with hc | hc
    · have hset : Along e { st with err := some err } :=
        of_closed hc (fun _ => by simp) (h.closed hc).2
      exact hset.close
    · obtain ⟨_, rd, hrd, hend⟩ := h.opened hc
      exact close_of_opened hc hrd hend

theorem next : Along e st.next.2 := by
  cases hc : st.closed with
  | true =>
    rw [RowsState.next, if_pos hc]
    exact h
  | false =>
    obtain ⟨herr, rd, hrd, hend⟩ := h.opened hc
    rw [RowsState.next, if_neg (by simp [hc]), hrd]
    have hstay : ∀ rd', rd'.conclude.err = e.map .pgError → Along e { st with reader := some rd' } :=
      fun rd' h' => of_opened hc herr rfl h'
    cases rd with
    | concluded tag err => exact (hstay _ hend).close
    | reading rows fin =>
      cases rows with
      | nil =>
        refine (hstay _ ?_).close
        cases fin <;> exact hend
      | cons row rows =>
        refine hstay _ ?_
        cases fin <;> exact hend

theorem scanRow (driverBytes : Bool) (conv : Row → Option Error) :
    Along e (st.scanRow driverBytes conv).2 := by
  unfold RowsState.scanRow
  split
  · exact h
  · split
    · exact h.close
    · have hn := h.next
      split
      · next st' hst =>
        rw [hst] at hn
        exact hn
      · next row st' hst =>
        rw [hst] at hn
        dsimp only
        cases conv row with
        | some err =>
          have hclosed := (hn.fatal err).close
          split <;> exact hclosed
        | none =>
          have hclosed := hn.close
          split <;> exact hclosed

theorem rowsFn (fn : RowsFn) : Along e (fn.run st).rows := by
  induction fn generalizing st with
  | ret err => exact h
  | next k ih => exact ih _ h.next
  | scanFails err k ih => exact ih (h.fatal err)
  | askErr k ih => exact ih _ h
  | close k ih => exact ih h.close

theorem rowFn (fn : RowFn) : Along e (fn.run st).rows := by
  induction fn generalizing st with
  | ret err => exact h
  | scan driverBytes conv k ih => exact ih _ (h.scanRow driverBytes conv)

end

end Along

/-- Nothing has failed, and the next answer to be read is the first of these. -/
structure Ready (syncErr : Option PgError) (replies : List Reply) (br : BatchState) : Prop where
  reader : br.stream.reader.isReading = false
  pending : br.stream.pending = replies
  syncErr : br.stream.syncErr = syncErr
  streamErr : br.stream.err = none
  closed : br.stream.closed = false
  err : br.err = none
  lastErr : br.lastErr = none

variable {syncErr : Option PgError} {replies : List Reply} {br : BatchState} {r : Reply}

/-- The next answer decides what is returned. -/
theorem Ready.nextResult (h : Ready syncErr (r :: replies) br) : br.stream.nextResult = match r with
      | .command tag => (true, { br.stream with reader := .concluded tag none, pending := replies })
      | .empty => (true, { br.stream with reader := .concluded [] none, pending := replies })
      | .rows rows fin => (true, { br.stream with reader := .reading rows fin, pending := replies })
      | .refused err =>
        (false, { br.stream with pending := replies, err := some (.pgError err) }) := by
  obtain ⟨⟨reader, pending, _, err, closed⟩, _, _⟩ := br
  obtain ⟨hrd, hp, _, he, hc, _, _⟩ := h
  simp only at hrd hp he hc
  subst hp he hc
  cases reader with
  | reading rows fin => cases hrd
  | concluded tag err => cases r <;> rfl

theorem Ready.getResults (h : Ready syncErr (r :: replies) br) : br.stream.getResults = match r with
      | .command tag =>
        (.ok .reader, { br.stream with reader := .concluded tag none, pending := replies })
      | .empty => (.error errEmptyQuery, { br.stream with pending := replies, closed := true })
      | .rows rows fin =>
        (.ok .reader, { br.stream with reader := .reading rows fin, pending := replies })
      | .refused err =>
        (.error (.pgError err),
          { br.stream with pending := replies, err := some (.pgError err) }) := by
  obtain ⟨⟨reader, pending, _, err, closed⟩, _, _⟩ := br
  obtain ⟨hrd, hp, _, he, hc, _, _⟩ := h
  simp only at hrd hp he hc
  subst hp he hc
  cases reader with
  | reading rows fin => cases hrd
  | concluded tag err => cases r <;> rfl

/-- The rows of an answer were read to their end, and without an error. -/
theorem Ready.leave (h : Ready syncErr (r :: replies) br) (begun rd : Reader)
    (hrd : rd.isReading = false)
    (herr : rd.err = none) {st : RowsState} (hreader : st.reader = some rd) (hst : st.err = none) :
    Ready syncErr replies
      (.leave { br with stream := { br.stream with reader := begun, pending := replies } } st) := by
  simp only [BatchState.leave, hreader, hst]
  exact ⟨hrd, rfl, h.syncErr, by simp [setReader, h.streamErr, herr], h.closed, h.err, rfl⟩

section

variable (impl : Impl) (h : Ready syncErr (r :: replies) br)

include impl h

theorem Ready.query (hlast : r.error ≠ none → replies = [] ∧ syncErr = none)
    (hne : impl = .pipeline → r ≠ .empty) : (br.query impl).1 = rowsOf r ∧
      (r.error = none → ∀ st rd, st.reader = some rd → st.err = none → rd.isReading = false →
        rd.err = none →
        Ready syncErr replies ((br.query impl).2.leave st)) := by
  simp only [BatchState.query, BatchState.multiQuery, BatchState.pipelineQuery, h.nextResult,
    h.lastErr, h.getResults]
  cases r with
  | refused err =>
    obtain ⟨rfl, rfl⟩ := hlast (by simp [Reply.error])
    cases impl with
    | multi =>
      refine ⟨?_, fun h' => by cases h'⟩
      simp [multiClose, h.closed, h.reader, pendingErr, h.syncErr, rowsOf]
    | pipeline => exact ⟨rfl, fun h' => by cases h'⟩
  | empty =>
    cases impl with
    | multi => exact ⟨rfl, fun _ _ rd hst herr hrd hend => h.leave _ rd hrd hend hst herr⟩
    | pipeline => exact absurd rfl (hne rfl)
  | _ => cases impl <;> exact ⟨rfl, fun _ _ rd hst herr hrd hend => h.leave _ rd hrd hend hst herr⟩

theorem Ready.exec_ok (hr : r.error = none) (hne : impl = .pipeline → r ≠ .empty) :
    (br.exec impl).1 = .ok r.commandTag ∧ Ready syncErr replies (br.exec impl).2 := by
  have hready : ∀ tag begun,
      Ready syncErr replies
        { br with stream := setReader { br.stream with reader := begun, pending := replies } (.concluded tag none) } :=
    fun tag begun => ⟨rfl, rfl,
      h.syncErr, by simp [setReader, h.streamErr, Reader.err], h.closed, h.err, h.lastErr⟩
  simp only [h.lastErr] at hready
  cases impl <;>
    simp only [BatchState.exec, BatchState.multiExec, BatchState.pipelineExec, h.nextResult,
      h.lastErr, h.getResults]
  all_goals
    cases r with
    | command tag => exact ⟨rfl, hready tag _⟩
    | empty => first | exact ⟨rfl, hready [] _⟩ | exact absurd rfl (hne rfl)
    | rows rows fin =>
      cases fin with
      | complete tag => exact ⟨rfl, hready tag _⟩
      | error err => cases hr
    | refused err => cases hr

omit impl h in
/-- The `Exec` of an empty query in a pipeline fails. -/
theorem Ready.exec_empty (h : Ready syncErr (.empty :: replies) br) :
    (br.exec .pipeline).2.err ≠ none := by
  simp [BatchState.exec, BatchState.pipelineExec, h.lastErr, h.getResults]

/-- An `Exec` whose query fails returns an error, and `br.err` has it unless a `batchResults` drops
it. -/
theorem Ready.exec_failed (hr : r.error ≠ none) :
    (∃ err, (br.exec impl).1 = .error err) ∧ ((br.exec impl).2.err ≠ none ∨
      impl = .multi ∧ (∃ err, r = .refused err) ∧ (br.exec impl).2.stream.closed = true) := by
  simp only [BatchState.exec, BatchState.multiExec, BatchState.pipelineExec, h.nextResult,
    h.lastErr, h.getResults]
  cases r with
  | command tag => exact absurd rfl hr
  | empty => exact absurd rfl hr
  | rows rows fin =>
    cases fin with
    | complete tag => exact absurd rfl hr
    | error err =>
      cases impl <;>
        exact ⟨⟨_, rfl⟩, .inl (by simp [closeReader, setReader, Reader.conclude, Reader.err])⟩
  | refused err =>
    cases impl with
    | multi => exact ⟨⟨_, rfl⟩, .inr ⟨rfl, ⟨err, rfl⟩, by simp [multiClose, h.closed]⟩⟩
    | pipeline => exact ⟨⟨_, rfl⟩, .inl (by simp)⟩

end

/-! ## One query, and the whole batch -/

/-- A callback is called for its own answer, or not at all if that is an error. Either an error
stops the loop, or the query and its callback have succeeded and the next answer is up. -/
theorem Ready.runFn (impl : Impl) (i : Nat) {callback : Callback}
    (h : Ready syncErr (r :: replies) br)
    (hlast : r.error ≠ none → replies = [] ∧ syncErr = none) (hne : impl = .pipeline → r ≠ .empty)
    (hcareful : callback.CarefulOn r) : ((br.runFn impl i callback).1 = [callback.own i r] ∨
      r.error ≠ none ∧ (br.runFn impl i callback).1 = []) ∧
      ((br.runFn impl i callback).2.1 ≠ none ∧ (r.error = none → callback.result r ≠ none) ∨
        (br.runFn impl i callback).2.1 = none ∧ r.error = none ∧ (callback.own i r).err = none ∧
          Ready syncErr replies (br.runFn impl i callback).2.2) := by
  -- Closed rows without an error are those of a query that succeeded.
  have hstep : ∀ st, Along r.error st → st.closed = true → st.err = none →
      r.error = none ∧ Ready syncErr replies ((br.query impl).2.leave st) := by
    intro st hst hc herr
    have hr : r.error = none := by
      by_contra hne
      exact (hst.closed hc).1 hne herr
    obtain ⟨rd, hreader, hrd, hend⟩ := (hst.closed hc).2 hr
    exact ⟨hr, (h.query impl hlast hne).2 hr st rd hreader herr hrd hend⟩
  cases callback with
  | query fn =>
    simp only [BatchState.runFn, (h.query impl hlast hne).1]
    refine ⟨.inl rfl, ?_⟩
    by_cases hresult : (fn.run (rowsOf r)).err.or (fn.run (rowsOf r)).rows.close.err = none
    · obtain ⟨herr, hrows⟩ := Option.or_eq_none_iff.mp hresult
      obtain ⟨hr, hready⟩ := hstep _ ((Along.rowsOf r).rowsFn fn).close (Along.close_closed _) hrows
      exact .inr ⟨hresult, hr, herr, hready⟩
    · exact .inl ⟨hresult, fun _ => hresult⟩
  | queryRow fn =>
    simp only [BatchState.runFn, (h.query impl hlast hne).1]
    refine ⟨.inl rfl, ?_⟩
    by_cases herr : (fn.run (rowsOf r)).err = none
    · obtain ⟨hclosed, hrows⟩ := hcareful
      obtain ⟨hr, hready⟩ := hstep _ ((Along.rowsOf r).rowFn fn) hclosed (hrows herr)
      exact .inr ⟨herr, hr, herr, hready⟩
    · exact .inl ⟨herr, fun _ => herr⟩
  | exec fn =>
    by_cases hr : r.error = none
    · obtain ⟨htag, hready⟩ := h.exec_ok impl hr hne
      have hexec : br.exec impl = (.ok r.commandTag, (br.exec impl).2) := Prod.ext htag rfl
      rw [BatchState.runFn, hexec]
      refine ⟨.inl rfl, ?_⟩
      by_cases herr : fn r.commandTag = none
      · exact .inr ⟨herr, hr, herr, hready⟩
      · exact .inl ⟨herr, fun _ => herr⟩
    · obtain ⟨⟨err, herr⟩, _⟩ := h.exec_failed impl hr
      have hexec : br.exec impl = (.error err, (br.exec impl).2) := Prod.ext herr rfl
      rw [BatchState.runFn, hexec]
      exact ⟨.inr ⟨hr, rfl⟩, .inl ⟨by simp, fun h' => absurd h' hr⟩⟩

section Loop

variable {impl : Impl} {i : Nat} {queries : List (Option Callback)}

theorem closeLoop_of_err (i : Nat) (herr : br.err ≠ none) (queries : List (Option Callback)) :
    br.closeLoop impl i queries = [] := by
  cases queries with
  | nil => rfl
  | cons q queries => simp [BatchState.closeLoop, Option.isSome_iff_ne_none.mpr herr]

theorem closeLoop_none (herr : br.err = none) :
    br.closeLoop impl i (none :: queries) = (br.exec impl).2.closeLoop impl (i + 1) queries := by
  simp [BatchState.closeLoop, herr]

theorem closeLoop_some (herr : br.err = none) (callback : Callback) :
    br.closeLoop impl i (some callback :: queries) = (br.runFn impl i callback).1 ++
      BatchState.closeLoop impl (i + 1)
        { (br.runFn impl i callback).2.2 with
          err := (br.runFn impl i callback).2.1.or (br.runFn impl i callback).2.2.err } queries := by
  simp [BatchState.closeLoop, herr]

end Loop

/-- A closed `MultiResultReader` gives an error to every query. -/
theorem closeLoop_of_closed (queries : List (Option Callback)) (i : Nat) (br : BatchState)
    (hclosed : br.stream.closed = true)
    (hnone : ∀ (k : Nat) (callback : Callback), queries[k]? = some (some callback) →
      callback.takesRows = false) :
    br.closeLoop .multi i queries = [] := by
  have hnext : br.multiExec = (.error (br.stream.err.getD errNoMoreResults), br) := by
    simp [BatchState.multiExec, nextResult, multiClose, hclosed]
  induction queries generalizing i with
  | nil => rfl
  | cons q queries ih =>
    by_cases herr : br.err = none
    · cases q with
      | none =>
        simp only [closeLoop_none herr, BatchState.exec, hnext]
        exact ih (i + 1) (fun k callback h => hnone (k + 1) callback h)
      | some callback =>
        cases callback with
        | query fn => exact absurd (hnone 0 _ rfl) (by simp [Callback.takesRows])
        | queryRow fn => exact absurd (hnone 0 _ rfl) (by simp [Callback.takesRows])
        | exec fn =>
          simp only [closeLoop_some herr, BatchState.runFn, BatchState.exec, hnext, nil_append]
          exact closeLoop_of_err _ (by simp) queries
    · exact closeLoop_of_err i herr _

namespace OrderlyFrom

variable {i : Nat} {queries : List (Option Callback)}

theorem failed (q : Option Callback) (hr : r.error ≠ none) :
    OrderlyFrom i (q :: queries) (r :: replies) [] := by
  refine ⟨Pairwise.nil, by simp, by simp, fun k callback _ hok _ => ?_⟩
  obtain ⟨r', hr', hnone⟩ := hok 0 (Nat.zero_le k)
  cases hr'
  exact absurd hnone hr

theorem of_noCallback (hnone : ∀ (k : Nat) (callback : Callback),
      queries[k]? ≠ some (some callback)) :
    OrderlyFrom i queries replies [] :=
  ⟨Pairwise.nil, by simp, by simp, fun k callback hk => absurd hk (hnone k callback)⟩

theorem own_index (callback : Callback) (i : Nat) (r : Reply) : (callback.own i r).index = i := by
  cases callback <;> rfl

theorem single (callback : Callback) (hstop : r.error = none → callback.result r ≠ none) :
    OrderlyFrom i (some callback :: queries) (r :: replies) [callback.own i r] := by
  have hindex := own_index callback i r
  refine ⟨pairwise_singleton _ _, fun call hcall => ?_, fun call hcall j hj => ?_,
    fun k _ hk hok hstops => ?_⟩
  · rw [mem_singleton.mp hcall]
    exact ⟨0, callback, r, by rw [hindex]; rfl, rfl, rfl, by rw [hindex]⟩
  · rw [mem_singleton.mp hcall] at hj
    omega
  · obtain ⟨r', hr', hnone⟩ := hok 0 (Nat.zero_le k)
    cases hr'
    cases k with
    | zero => exact ⟨_, .head _, hindex⟩
    | succ k => exact absurd (hstops 0 (by omega) callback r rfl rfl) (hstop hnone)

variable {calls : List Call}

theorem index_gt (h : OrderlyFrom (i + 1) queries replies calls) {call : Call}
    (hcall : call ∈ calls) : i < call.index := by
  obtain ⟨k, _, _, hk, _⟩ := h.own call hcall
  omega

theorem tail_called (q : Option Callback) (h : OrderlyFrom (i + 1) queries replies calls)
    (k : Nat) (callback : Callback) (hk : queries[k]? = some (some callback))
    (hok : ∀ j, j ≤ k + 1 → ∃ r', (r :: replies)[j]? = some r' ∧ r'.error = none)
    (hstops : ∀ j, j < k + 1 → ∀ earlier r', (q :: queries)[j]? = some (some earlier) →
      (r :: replies)[j]? = some r' → earlier.result r' = none) :
      ∃ call ∈ calls, call.index = i + (k + 1) := by
  obtain ⟨call, hcall, hindex⟩ := h.called k callback hk (fun j hj => hok (j + 1) (by omega))
    (fun j hj earlier r' hq hr' => hstops (j + 1) (by omega) earlier r' hq hr')
  exact ⟨call, hcall, by omega⟩

theorem skip (hr : r.error = none) (h : OrderlyFrom (i + 1) queries replies calls) :
    OrderlyFrom i (none :: queries) (r :: replies) calls := by
  refine ⟨h.order, fun call hcall => ?_, fun call hcall j hj => ?_,
    fun k callback hk hok hstops => ?_⟩
  · obtain ⟨k, callback, r', hk, hq, hr', hown⟩ := h.own call hcall
    exact ⟨k + 1, callback, r', by omega, hq, hr', hown⟩
  · cases j with
    | zero =>
      refine ⟨fun r' h' => by cases h'; exact hr, fun earlier he hi => ?_⟩
      have := h.index_gt he
      omega
    | succ j =>
      obtain ⟨hok, herr⟩ := h.stops call hcall j (by omega)
      exact ⟨fun r' h' => hok r' h', fun earlier he hi => herr earlier he (by omega)⟩
  · cases k with
    | zero => cases hk
    | succ k => exact h.tail_called none k callback hk hok hstops

theorem cons (callback : Callback) (hr : r.error = none) (herr : (callback.own i r).err = none)
    (h : OrderlyFrom (i + 1) queries replies calls) :
    OrderlyFrom i (some callback :: queries) (r :: replies) (callback.own i r :: calls) := by
  have hindex := own_index callback i r
  have hskip : OrderlyFrom i (none :: queries) (r :: replies) calls := skip hr h
  refine ⟨pairwise_cons.mpr ⟨fun call hcall => ?_, h.order⟩, fun call hcall => ?_,
    fun call hcall j hj => ?_,
    fun k callback' hk hok hstops => ?_⟩
  · rw [hindex]
    exact h.index_gt hcall
  · rcases mem_cons.mp hcall with rfl | hcall
    · exact ⟨0, callback, r, by rw [hindex]; rfl, rfl, rfl, by rw [hindex]⟩
    · obtain ⟨k, callback', r', hk, hq, hr', hown⟩ := h.own call hcall
      exact ⟨k + 1, callback', r', by omega, hq, hr', hown⟩
  · rcases mem_cons.mp hcall with rfl | hcall
    · omega
    · obtain ⟨hok, hcalls⟩ := hskip.stops call hcall j hj
      exact ⟨hok, forall_mem_cons.mpr ⟨fun _ => herr, hcalls⟩⟩
  · cases k with
    | zero => exact ⟨_, mem_cons_self .., hindex⟩
    | succ k =>
      obtain ⟨call, hcall, hi⟩ := h.tail_called (some callback) k callback' hk hok hstops
      exact ⟨call, .tail _ hcall, hi⟩

end OrderlyFrom

/-- The loop at a query with a callback; `hrest` has the queries behind it. -/
theorem closeLoop_callback (impl : Impl) (i : Nat) {callback : Callback}
    (queries : List (Option Callback))
    (h : Ready syncErr (r :: replies) br) (hlast : r.error ≠ none → replies = [] ∧ syncErr = none)
    (hne : impl = .pipeline → r ≠ .empty) (hcareful : callback.CarefulOn r)
    (hrest : r.error = none → ∀ br', Ready syncErr replies br' →
      OrderlyFrom (i + 1) queries replies (br'.closeLoop impl (i + 1) queries)) :
    OrderlyFrom i (some callback :: queries) (r :: replies)
      (br.closeLoop impl i (some callback :: queries)) := by
  obtain ⟨hcalls, hnext⟩ := h.runFn impl i hlast hne hcareful
  rw [closeLoop_some h.err]
  rcases hnext with ⟨herr, hstop⟩ | ⟨herr, hr, hown, hready⟩
  · rw [closeLoop_of_err _ (by simp [herr])]
    rcases hcalls with hcalls | ⟨hr, hcalls⟩
    · rw [hcalls]
      exact .single callback hstop
    · rw [hcalls]
      exact .failed _ hr
  · rcases hcalls with hcalls | ⟨hne, _⟩
    · rw [hcalls, herr]
      exact .cons callback hr hown (hrest hr _ hready)
    · exact absurd hr hne

theorem closeLoop_orderly (impl : Impl) {n : Nat} (hanswered : Answered syncErr n replies)
    (i : Nat) (queries : List (Option Callback)) (hlen : queries.length = n)
    (hready : Ready syncErr replies br)
    (hcareful : Careful queries replies) (hrefused :
    impl = .multi → NoneBehindRefused queries replies)
    (hempty : impl = .pipeline → NoneEmpty queries replies) :
    OrderlyFrom i queries replies (br.closeLoop impl i queries) := by
  induction hanswered generalizing i queries br with
  | done =>
    rw [length_eq_zero_iff.mp hlen]
    exact .of_noCallback (by simp)
  | @ok n r rs hr _ ih =>
    obtain ⟨q, queries, rfl⟩ := exists_cons_of_length_eq_add_one hlen
    have hrest : ∀ br', Ready syncErr rs br' →
        OrderlyFrom (i + 1) queries rs (br'.closeLoop impl (i + 1) queries) :=
      fun br' hready' => ih (i + 1) queries (by simpa using hlen) hready'
        (fun k callback r' hk hr' => hcareful (k + 1) callback r' hk hr')
        (fun himpl j err hq hreply k callback hjk hk =>
          hrefused himpl (j + 1) err hq hreply (k + 1) callback (by omega) hk)
        (fun himpl k callback hk j hj hreply =>
          hempty himpl (k + 1) callback hk (j + 1) (by omega) hreply)
    cases q with
    | none =>
      rw [closeLoop_none hready.err]
      by_cases hne : impl = .pipeline ∧ r = .empty
      · -- Nothing behind the empty query has a callback.
        obtain ⟨rfl, rfl⟩ := hne
        rw [closeLoop_of_err _ hready.exec_empty]
        refine .of_noCallback fun k callback hk => ?_
        exact hempty rfl k callback hk 0 (Nat.zero_le k) rfl
      · exact .skip hr (hrest _ (hready.exec_ok impl hr fun himpl hr' => hne ⟨himpl, hr'⟩).2)
    | some callback =>
      exact closeLoop_callback impl i queries hready (absurd hr)
        (fun himpl hr' => hempty himpl 0 callback rfl 0 (Nat.le_refl 0) (congrArg some hr'))
        (hcareful 0 callback r rfl rfl) (fun _ => hrest)
  | @failed n r hr hsync =>
    obtain ⟨q, queries, rfl⟩ := exists_cons_of_length_eq_add_one hlen
    cases q with
    | none =>
      rw [closeLoop_none hready.err]
      rcases (hready.exec_failed impl hr).2 with herr | ⟨rfl, ⟨err, rfl⟩, hclosed⟩
      · rw [closeLoop_of_err (i + 1) herr queries]
        exact .failed _ hr
      · rw [closeLoop_of_closed queries (i + 1) _ hclosed fun k callback hk =>
          hrefused rfl 0 err rfl rfl (k + 1) callback (by omega) hk]
        exact .failed _ hr
    | some callback =>
      exact closeLoop_callback impl i queries hready (fun _ => ⟨rfl, hsync⟩)
        (fun _ hr' => hr (by rw [hr']; rfl))
        (hcareful 0 callback r rfl rfl) (absurd · hr)

/-- A callback that scans its row and returns the error. -/
def scansRow : RowFn := .scan false (fun _ => none) fun
  | .error err => .ret (some err)
  | .ok _ => .ret none

/-- A callback that does not return the error of its row. -/
def hidesErr : RowFn := .scan false (fun _ => none) fun _ => .ret none

/-- A callback that looks for the error of its rows. -/
def asksErr : RowsFn := .askErr fun _ => .ret none

end Pgx.BatchResults
