import Mathlib.Algebra.Order.Ring.Nat
import Mathlib.Tactic.Linarith
import Mathlib.Tactic.Ring

/-!
# Positional numbers

The value of a list of digits in a base, most significant digit first. Digits may
be larger than the base, as in wire formats that do not check them.
-/
namespace Pgx.Radix

def value (b : Nat) (ds : List Nat) : Nat := ds.foldl (fun v d => v * b + d) 0

variable {b : Nat}

@[simp] theorem value_nil : value b [] = 0 := rfl

theorem foldl_eq (v : Nat) (ds : List Nat) : ds.foldl (fun v d => v * b + d) v = v * b ^ ds.length +
    value b ds := by
  induction ds generalizing v with
  | nil => simp
  | cons d ds ih =>
    have hcons : value b (d :: ds) = (0 * b + d) * b ^ ds.length + value b ds := ih (0 * b + d)
    rw [List.foldl_cons, ih, hcons, List.length_cons]
    ring

theorem value_append (xs ys : List Nat) : value b (xs ++ ys) = value b xs * b ^ ys.length +
    value b ys := by
  unfold value
  rw [List.foldl_append, foldl_eq]
  rfl

theorem value_cons (d : Nat) (ds : List Nat) :
    value b (d :: ds) = d * b ^ ds.length + value b ds := by
  have h := value_append (b := b) [d] ds
  simpa [value] using h

theorem value_concat (ds : List Nat) (d : Nat) : value b (ds ++ [d]) = value b ds * b + d := by
  simp [value, List.foldl_append]

theorem value_lt {ds : List Nat} (h : ∀ d ∈ ds, d < b) : value b ds < b ^ ds.length := by
  induction ds with
  | nil => simp
  | cons d ds ih =>
    have hd : d + 1 ≤ b := h d (.head _)
    have hds := ih fun x hx => h x (.tail _ hx)
    have hmul : (d + 1) * b ^ ds.length ≤ b * b ^ ds.length := Nat.mul_le_mul_right _ hd
    rw [value_cons, List.length_cons, pow_succ]
    linarith

/-- Digits below a larger bound still give a value that grows no faster than the bound. -/
theorem value_lt_pow {c : Nat} {ds : List Nat} (hb : b ≤ c) (h : ∀ d ∈ ds, d < c) :
    value b ds < c ^ ds.length := by
  refine lt_of_le_of_lt ?_ (value_lt h)
  induction ds with
  | nil => simp
  | cons d ds ih =>
    have hds := ih fun x hx => h x (.tail _ hx)
    rw [value_cons, value_cons]
    exact Nat.add_le_add (Nat.mul_le_mul_left _ (Nat.pow_le_pow_left hb _)) hds

theorem value_replicate_zero (n : Nat) : value b (List.replicate n 0) = 0 := by
  induction n with
  | zero => rfl
  | succ n ih => rw [List.replicate_succ, value_cons, ih, Nat.zero_mul]

end Pgx.Radix
