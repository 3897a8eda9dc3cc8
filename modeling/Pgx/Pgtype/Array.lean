import Mathlib.Algebra.BigOperators.Ring.List
import Mathlib.Algebra.Order.BigOperators.GroupWithZero.List
import Pgx.Go.Cursor
import Pgx.Go.Platform

/-!
# The dimensions of an array

The lengths of an array's dimensions are signed numbers of 32 bits, and their product is taken in
`int`.
-/
namespace Pgx.Pgtype

open Pgx.Go List

structure ArrayDimension where
  length : Int32
  lowerBound : Int32
  deriving DecidableEq

variable {dims : List ArrayDimension} {p : Platform}

/-- `int(d.Length)` -/
def ArrayDimension.len (d : ArrayDimension) : Int := d.length.toInt

def cardinality (p : Platform) : List ArrayDimension → Int
  | [] => 0
  | d :: ds =>
    let elementCount := ds.foldl (fun n d => p.int (n * d.len)) d.len
    if elementCount < 0 then 0 else elementCount

/-! ## The true number of elements -/

def lengths (dims : List ArrayDimension) : List Int := dims.map ArrayDimension.len

/-- The product of the lengths, over the integers -/
def volume (dims : List ArrayDimension) : Int := if dims = [] then 0 else (lengths dims).prod

theorem int_mul_int (p : Platform) (m n : Int) : p.int (p.int m * n) = p.int (m * n) :=
    Int.bmod_mul_bmod

theorem int_of_fits (p : Platform) {n : Int} (hlow : -2 ^ 31 ≤ n) (hhigh : n < 2 ^ 31) :
    p.int n = n := by
  cases p with
  | bits32 =>
    show signed 32 n = n
    exact signed_of_fits (by omega) (by omega)
  | bits64 =>
    show signed 64 n = n
    exact signed_of_fits (by omega) (by omega)

/-- The numbers an `int` can have -/
def Fits (p : Platform) (n : Int) : Prop := p.int n = n

instance (p : Platform) (n : Int) : Decidable (Fits p n) := inferInstanceAs (Decidable (_ = _))

theorem Platform.int_fits (p : Platform) (n : Int) : Fits p (p.int n) := by
  exact Int.bmod_bmod

theorem fits_iff (p : Platform) (n : Int) : Fits p n ↔ -(2 ^ p.bits) ≤ 2 * n ∧
    2 * n < 2 ^ p.bits := by
  constructor
  · intro h
    have hlow := Int.le_bmod (x := n) (m := 2 ^ p.bits) (by positivity)
    have hhigh := Int.bmod_lt (x := n) (m := 2 ^ p.bits) (by positivity)
    have heq : n.bmod (2 ^ p.bits) = n := h
    rw [heq] at hlow hhigh
    cases p <;> simp only [Platform.bits] at hlow hhigh ⊢ <;> omega
  · rintro ⟨hlow, hhigh⟩
    exact signed_of_fits hlow hhigh

/-- What lies between 0 and an `int` is one. -/
theorem fits_of_between {m n : Int} (h0 : 0 ≤ m) (hle : m ≤ n) (hn : Fits p n) : Fits p m := by
  rw [fits_iff] at hn ⊢
  have hpos : (0 : Int) < 2 ^ p.bits := by positivity
  omega

theorem fits_len (p : Platform) (d : ArrayDimension) : Fits p d.len :=
    int_of_fits p d.length.le_toInt d.length.toInt_lt

theorem foldl_int_mul (p : Platform) (ds : List ArrayDimension) :
    ∀ {n : Int}, Fits p n → ds.foldl (fun n d => p.int (n * d.len)) n = p.int
      (n * (lengths ds).prod) := by
  induction ds with
  | nil =>
    intro n hn
    simpa [lengths] using hn.symm
  | cons d ds ih =>
    intro n _
    have hprod : (lengths (d :: ds)).prod = d.len * (lengths ds).prod := prod_cons
    rw [foldl_cons, ih (Platform.int_fits p _), int_mul_int, hprod, mul_assoc]

/-- The product wraps, and a negative result counts as none. -/
theorem cardinality_eq (p : Platform) (dims : List ArrayDimension) :
    cardinality p dims = max 0 (p.int (volume dims)) := by
  cases dims with
  | nil =>
    have h0 : p.int 0 = 0 := int_of_fits p (by omega) (by omega)
    simp [cardinality, volume, h0]
  | cons d ds =>
    have hfold := foldl_int_mul p ds (fits_len p d)
    have hvolume : volume (d :: ds) = d.len * (lengths ds).prod := by
      simp [volume, lengths]
    rw [hvolume]
    simp only [cardinality]
    split <;> omega

theorem cardinality_of_fits (h0 : 0 ≤ volume dims) (h : Fits p (volume dims)) :
    cardinality p dims = volume dims := by
  rw [cardinality_eq, h, max_eq_right h0]

end Pgx.Pgtype
