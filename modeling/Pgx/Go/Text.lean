import Mathlib.Algebra.Group.Nat.Defs
import Mathlib.Data.List.Basic
import Mathlib.Tactic.Common

/-!
# Valid UTF-8 strings

A Go string that holds valid UTF-8 is the list of its code points. Offsets are
counted in code points, and a slice `src[pos:]` is the remaining list. Searching
for valid UTF-8 in valid UTF-8 only ever matches at code point boundaries, so
`strings.Index` is list search.
-/
namespace Pgx.Go

abbrev Text := List Char

/-- `utf8.RuneError`, which is also the ordinary character U+FFFD. -/
def runeError : Char := '�'

/-- The end of the string decodes as `RuneError` of width 0. -/
def decodeRuneInString : Text → Char × Nat
  | [] => (runeError, 0)
  | c :: _ => (c, c.utf8Size)

@[simp] theorem decodeRune_nil : decodeRuneInString [] = (runeError, 0) := rfl

@[simp] theorem decodeRune_cons (c : Char) (cs : Text) :
    decodeRuneInString (c :: cs) = (c, c.utf8Size) := rfl

theorem peek_eq_iff (cs : Text) {d : Char} (hd : d ≠ runeError) :
    (decodeRuneInString cs).1 = d ↔ cs.head? = some d := by
  cases cs with
  | nil => simp [Ne.symm hd]
  | cons c cs => simp

def isDigit (c : Char) : Bool := '0' ≤ c && c ≤ '9'

theorem take_takeWhile (p : Char → Bool) (cs : Text) :
    cs.take (cs.takeWhile p).length = cs.takeWhile p := by
  nth_rewrite 2 [← List.takeWhile_append_dropWhile (p := p) (l := cs)]
  exact List.take_left

/-- What is behind the longest run -/
theorem drop_takeWhile (p : Char → Bool) (cs : Text) :
    cs.drop (cs.takeWhile p).length = cs.dropWhile p := by
  nth_rewrite 2 [← List.takeWhile_append_dropWhile (p := p) (l := cs)]
  exact List.drop_left

/-- `strings.Index`: the offset of the first occurrence. -/
def index (s sub : Text) : Option Nat :=
  if sub.isPrefixOf s then some 0
  else match s with
    | [] => none
    | _ :: s => (index s sub).map (· + 1)

theorem index_spec {s sub : Text} {k : Nat} (h : index s sub = some k) :
    k ≤ s.length ∧ sub <+: s.drop k := by
  induction s generalizing k with
  | nil =>
    unfold index at h
    split at h
    · rename_i hp
      obtain rfl := Option.some.inj h
      exact ⟨Nat.zero_le _, List.isPrefixOf_iff_prefix.mp hp⟩
    · simp at h
  | cons c s ih =>
    unfold index at h
    split at h
    · rename_i hp
      obtain rfl := Option.some.inj h
      exact ⟨Nat.zero_le _, List.isPrefixOf_iff_prefix.mp hp⟩
    · obtain ⟨j, hj, rfl⟩ := Option.map_eq_some_iff.mp h
      exact ⟨Nat.succ_le_succ (ih hj).1, (ih hj).2⟩

theorem index_bound {s sub : Text} {k : Nat} (h : index s sub = some k) :
    k + sub.length ≤ s.length := by
  obtain ⟨hk, hp⟩ := index_spec h
  have hl := hp.length_le
  rw [List.length_drop] at hl
  omega

private theorem isPrefixOf_append_congr {sub u ys zs : Text} (hl : sub.length ≤ u.length) :
    sub.isPrefixOf (u ++ ys) = sub.isPrefixOf (u ++ zs) := by
  rw [Bool.eq_iff_iff, List.isPrefixOf_iff_prefix, List.isPrefixOf_iff_prefix]
  constructor
  · intro h
    exact (List.prefix_of_prefix_length_le h (List.prefix_append u ys) hl).trans
      (List.prefix_append u zs)
  · intro h
    exact (List.prefix_of_prefix_length_le h (List.prefix_append u zs) hl).trans
      (List.prefix_append u ys)

theorem index_append_congr {sub u ys zs : Text} {k : Nat}
    (h : index (u ++ ys) sub = some k) (hu : u.length = k + sub.length) :
    index (u ++ zs) sub = some k := by
  induction u generalizing k with
  | nil =>
    have hs : sub = [] := List.length_eq_zero_iff.mp (by simp at hu; omega)
    have hk : k = 0 := by simp at hu; omega
    subst hs hk
    unfold index
    simp
  | cons c u ih =>
    have hc : sub.isPrefixOf (c :: u ++ ys) = sub.isPrefixOf (c :: u ++ zs) :=
      isPrefixOf_append_congr (by rw [hu]; omega)
    unfold index at h ⊢
    rw [← hc]
    split at h
    · rename_i hp
      rw [if_pos hp]
      exact h
    · rename_i hp
      rw [if_neg hp]
      obtain ⟨j, hj, rfl⟩ := Option.map_eq_some_iff.mp h
      simp only [List.length_cons] at hu
      simp only [List.cons_append, ih hj (by omega), Option.map_some]

end Pgx.Go
