import Pgx.Go.Bytes

/-!
# The background reader

`internal/bgreader`. The sections under the lock are single steps, and so is the end of a `Read`
of the underlying reader by the goroutine, which it makes without the lock. The steps come in any
order. What was read and what was delivered is written down as bytes and errors in one list.
-/
namespace Pgx.Conn.BgReader

open Pgx.Go List

inductive Status where
  | stopped
  | running
  | stopping
  deriving DecidableEq

/-- Bytes, and the error that came with them. -/
structure ReadResult (E : Type) where
  buf : Bytes
  err : Option E

variable {E : Type}

def ReadResult.items (r : ReadResult E) : List (UInt8 ⊕ E) := r.buf.map .inl ++ r.err.toList.map .inr

structure BGReader (E : Type) where
  status : Status := .stopped
  readResults : List (ReadResult E) := []
  /-- The goroutines of `bgRead`, each in a `Read` of the underlying reader. -/
  reading : Nat := 0
  /-- The lengths that the calls of `Read` ask for that are in `cond.Wait`. -/
  waiting : List Nat := []
  source : List (UInt8 ⊕ E) := []
  delivered : List (UInt8 ⊕ E) := []

/-- A step has what the underlying reader returns, if it is read from. -/
inductive Step (E : Type) where
  | start
  | stop
  | bgRead (result : ReadResult E)
  | read (n : Nat) (result : ReadResult E)
  /-- A call that waits gets the lock again. -/
  | wake (i : Nat)

/-- A `Read` of the underlying reader returns at most as many bytes as were asked for. -/
def ReadResult.upTo (r : ReadResult E) (n : Nat) : ReadResult E := { r with buf := r.buf.take n }

def readFromReadResults (s : BGReader E) (n : Nat) : BGReader E :=
  match s.readResults with
  | [] => s
  | r :: rest =>
    if r.buf.length ≤ n then { s with readResults := rest, delivered := s.delivered ++ r.items }
    else
      { s with
        readResults := { r with buf := r.buf.drop n } :: rest
        delivered := s.delivered ++ (r.buf.take n).map .inl }

def step (s : BGReader E) : Step E → BGReader E
  | .start =>
    match s.status with
    | .stopped => { s with status := .running, reading := s.reading + 1 }
    | _ => { s with status := .running }
  | .stop => if s.status = .running then { s with status := .stopping } else s
  | .bgRead result =>
    if s.reading = 0 then s
    else
      let r := result.upTo 8192
      let s := { s with readResults := s.readResults ++ [r], source := s.source ++ r.items }
      if s.status = .stopping ∨ r.err.isSome then
        { s with status := .stopped, reading := s.reading - 1 } else s
  | .read n result =>
    if s.readResults ≠ [] then readFromReadResults s n
    else if s.status = .stopped then
      let r := result.upTo n
      { s with source := s.source ++ r.items, delivered := s.delivered ++ r.items }
    else { s with waiting := s.waiting ++ [n] }
  | .wake i =>
    match s.waiting[i]? with
    | none => s
    | some n =>
      if s.readResults = [] then s else readFromReadResults
        { s with waiting := s.waiting.eraseIdx i } n

def run (steps : List (Step E)) : BGReader E := steps.foldl step {}

/-- Nothing was lost, and the underlying reader is read by one goroutine or, when the background
reader is stopped, by none. -/
structure InOrder (s : BGReader E) : Prop where
  items : s.delivered ++ s.readResults.flatMap ReadResult.items = s.source
  reading : s.reading = if s.status = .stopped then 0 else 1

variable {s : BGReader E}

theorem InOrder.readFromReadResults (h : InOrder s) (n : Nat) :
    InOrder (readFromReadResults s n) := by
  have hitems := h.items
  unfold BgReader.readFromReadResults
  split
  · exact h
  · next r rest hr =>
    rw [hr, flatMap_cons] at hitems
    split
    · exact ⟨by rw [append_assoc, hitems], h.reading⟩
    · refine ⟨?_, h.reading⟩
      have hcut : (r.buf.take n).map .inl ++ ReadResult.items
          { r with buf := r.buf.drop n } = r.items := by
        rw [ReadResult.items, ← append_assoc, ← map_append, take_append_drop]
        rfl
      rw [flatMap_cons, append_assoc, ← append_assoc (map _ _), hcut, hitems]

theorem InOrder.step (h : InOrder s) (st : Step E) : InOrder (step s st) := by
  have hread := h.reading
  cases st with
  | start =>
    unfold BgReader.step
    cases hs : s.status <;> exact ⟨h.items, by simp [hread, hs]⟩
  | stop =>
    simp only [BgReader.step]
    split
    · next hs => exact ⟨h.items, by simp [hread, hs]⟩
    · exact h
  | bgRead result =>
    have hitems : s.delivered ++ (s.readResults ++ [result.upTo 8192]).flatMap ReadResult.items =
        s.source ++ (result.upTo 8192).items := by
      rw [flatMap_append, ← append_assoc, h.items, flatMap_singleton]
    simp only [BgReader.step]
    split
    · exact h
    · split
      · refine ⟨hitems, ?_⟩
        dsimp only
        rw [hread]
        split <;> rfl
      · exact ⟨hitems, hread⟩
  | read n result =>
    simp only [BgReader.step]
    split
    · exact h.readFromReadResults n
    · next hnone =>
      have hitems := h.items
      rw [not_not.mp hnone, flatMap_nil, append_nil] at hitems
      split
      · exact ⟨by rw [not_not.mp hnone, flatMap_nil, append_nil, hitems], hread⟩
      · exact ⟨h.items, hread⟩
  | wake i =>
    simp only [BgReader.step]
    split
    · exact h
    · split
      · exact h
      · have hs : InOrder { s with waiting := s.waiting.eraseIdx i } := ⟨h.items, hread⟩
        exact hs.readFromReadResults _

/-- In any order of the steps what is delivered, and what is left in the queue, is what the
underlying reader gave, each error behind the bytes that it came with. -/
theorem run_inOrder (steps : List (Step E)) : InOrder (run steps) :=
  foldlRecOn steps step ⟨rfl, rfl⟩ fun _ h st _ => h.step st

/-! ## Calls that wait -/

/-- A call waits, and nothing will wake it. -/
def Stuck (s : BGReader E) : Prop := s.waiting ≠ [] ∧ s.status = .stopped ∧ s.readResults = []

/-- `Read` is only called when no other call of it waits. -/
def OneAtATime : BGReader E → List (Step E) → Prop
  | _, [] => True
  | s, st :: steps =>
    (∀ n result, st = .read n result → s.waiting = []) ∧ OneAtATime (step s st) steps

theorem readFromReadResults_waiting (s : BGReader E) (n : Nat) :
    (readFromReadResults s n).waiting = s.waiting := by
  unfold readFromReadResults
  split
  · rfl
  · split <;> rfl

theorem step_not_stuck (hlen : s.waiting.length ≤ 1) (h : ¬ Stuck s) {st : Step E}
    (hone : ∀ n result, st = .read n result → s.waiting = []) :
    (step s st).waiting.length ≤ 1 ∧ ¬ Stuck (step s st) := by
  cases st with
  | start =>
    unfold step
    cases s.status <;> exact ⟨hlen, fun hstuck => by cases hstuck.2.1⟩
  | stop =>
    simp only [step]
    split
    · exact ⟨hlen, fun hstuck => by cases hstuck.2.1⟩
    · exact ⟨hlen, h⟩
  | bgRead result =>
    simp only [step]
    split
    · exact ⟨hlen, h⟩
    · split <;> exact ⟨hlen, fun hstuck => by simpa using hstuck.2.2⟩
  | read n result =>
    have hnil := hone n result rfl
    simp only [step]
    split
    · unfold Stuck
      rw [readFromReadResults_waiting, hnil]
      exact ⟨Nat.zero_le _, fun hstuck => hstuck.1 rfl⟩
    · split
      · exact ⟨hlen, fun hstuck => hstuck.1 hnil⟩
      · next hrun => exact ⟨by simp [hnil], fun hstuck => hrun hstuck.2.1⟩
  | wake i =>
    simp only [step]
    split
    · exact ⟨hlen, h⟩
    · next n hi =>
      split
      · exact ⟨hlen, h⟩
      · have hlt := (List.getElem?_eq_some_iff.mp hi).1
        have hnil : s.waiting.eraseIdx i = [] := by
          rw [← length_eq_zero_iff, length_eraseIdx_of_lt hlt]
          omega
        unfold Stuck
        rw [readFromReadResults_waiting]
        exact ⟨by simp [hnil], fun hstuck => hstuck.1 hnil⟩

/-- With one `Read` at a time a call that waits has a result, or a goroutine that reads one. Of two
calls that wait one can be left behind: the other takes the last result of a reader that was
stopped. -/
theorem run_not_stuck (E : Type) :
    (∀ steps : List (Step E), OneAtATime {} steps → ¬ Stuck (run steps)) ∧
    ∃ steps : List (Step E), Stuck (run steps) := by
  constructor
  · intro steps
    suffices hall : ∀ s : BGReader E, s.waiting.length ≤ 1 → ¬ Stuck s → OneAtATime s steps →
        ¬ Stuck (steps.foldl step s) from
      hall {} (Nat.zero_le 1) fun hstuck => hstuck.1 rfl
    induction steps with
    | nil => exact fun _ _ h _ => h
    | cons st steps ih =>
      intro s hlen h hone
      obtain ⟨hlen', h'⟩ := step_not_stuck hlen h hone.1
      exact ih _ hlen' h' hone.2
  · exact ⟨[.start, .read 1 ⟨[], none⟩, .read 1 ⟨[], none⟩, .stop, .bgRead ⟨[0], none⟩, .wake 0],
      cons_ne_nil _ _, rfl, rfl⟩

end Pgx.Conn.BgReader
