import Mathlib.Data.List.AList
import Mathlib.Data.List.Induction
import Mathlib.Data.List.Rotate

/-!
# Maps

A Go map is an association list without repeated keys. `range` visits the entries
in an order that the language leaves open; a `RangeOrder` is one choice of order
for every list of entries.
-/
namespace Pgx.Go

abbrev Map (K V : Type) : Type := AList fun _ : K => V

/-- `len(m)` -/
def Map.len {K V : Type} (m : Map K V) : Nat := m.entries.length

structure RangeOrder where
  order : {α : Type} → List α → List α
  perm : ∀ {α : Type} (l : List α), (order l).Perm l

def RangeOrder.listed : RangeOrder := ⟨id, fun l => List.Perm.refl l⟩

def RangeOrder.rotated (n : Nat) : RangeOrder := ⟨fun l => l.rotate n, fun l => List.rotate_perm l n⟩

def RangeOrder.reversed : RangeOrder := ⟨List.reverse, fun l => List.reverse_perm l⟩

section Writes

variable {K V : Type} [DecidableEq K]

/-- The value that a key has after a list of writes. -/
def lastWrite (ws : List (K × V)) (k : K) : Option V :=
    (ws.reverse.find? fun w => w.1 = k).map Prod.snd

theorem lookup_foldl_insert (ws : List (K × V)) (k : K) :
    (ws.foldl (fun m w => AList.insert w.1 w.2 m) (∅ : Map K V)).lookup k = lastWrite ws k := by
  induction ws using List.reverseRecOn with
  | nil => rfl
  | append_singleton ws w ih =>
    rw [List.foldl_append, List.foldl_cons, List.foldl_nil]
    by_cases h : k = w.1
    · subst h
      rw [AList.lookup_insert]
      simp [lastWrite]
    · rw [AList.lookup_insert_ne h, ih]
      simp [lastWrite, Ne.symm h]

theorem mem_of_lastWrite {ws : List (K × V)} {k : K} {v : V} (h : lastWrite ws k = some v) :
    (k, v) ∈ ws := by
  obtain ⟨w, hw, rfl⟩ := Option.map_eq_some_iff.mp h
  have hk : w.1 = k := by simpa using List.find?_some hw
  have hmem := List.mem_of_find?_eq_some hw
  rw [List.mem_reverse] at hmem
  rwa [← hk]

theorem exists_lastWrite {ws : List (K × V)} {k : K} {v : V} (h : (k, v) ∈ ws) :
    ∃ u, lastWrite ws k = some u := by
  cases hf : ws.reverse.find? fun w => w.1 = k with
  | none =>
    have := List.find?_eq_none.mp hf (k, v) (List.mem_reverse.mpr h)
    simp at this
  | some w => exact ⟨w.2, by simp [lastWrite, hf]⟩

/-- The entries of the map are the last writes of their keys. -/
theorem mem_entries_foldl_insert (ws : List (K × V)) (k : K) (v : V) :
    (⟨k, v⟩ : Sigma fun _ : K => V) ∈
      (ws.foldl (fun m w => AList.insert w.1 w.2 m) (∅ : Map K V)).entries ↔
      lastWrite ws k = some v := by
  rw [← AList.mem_lookup_iff, lookup_foldl_insert, Option.mem_def]

end Writes

end Pgx.Go
