import Mathlib.Algebra.Group.Int.Defs
import Pgx.Go.Bytes

/-!
# `strconv.ParseInt` for 32 bits

`parseInt32` leaves the error out: its callers take the number that comes with it, zero for a text
that is not a number and the nearest number for one that is out of range.
-/
namespace Pgx.Go

/-- The number of a sign and a magnitude, cut to 32 bits. -/
def clampInt32 (neg : Bool) (un : Nat) : Int :=
  if neg then if un > 2 ^ 31 then -(2 ^ 31) else -un
  else if un ≥ 2 ^ 31 then 2 ^ 31 - 1 else un

/-- The number of `strconv.ParseInt(s, 10, 32)`. -/
def parseInt32 (s : Bytes) : Int :=
  if (splitSign s).2 = [] then 0
  else match parseUintUpTo (2 ^ 32 - 1) 0 (splitSign s).2 with
    | .ok un => clampInt32 (splitSign s).1 un
    | .error .errSyntax => 0
    | .error .errRange => clampInt32 (splitSign s).1 (2 ^ 32 - 1)

theorem parseInt32_formatInt (n : Int32) : parseInt32 (asciiText (formatInt n.toInt)) = n.toInt := by
  have hlow := n.le_toInt
  have hhigh := n.toInt_lt
  have hparse : parseUintUpTo (2 ^ 32 - 1) 0 (asciiText (formatUint n.toInt.natAbs)) =
      .ok n.toInt.natAbs :=
    parseUintUpTo_formatUint (by omega)
  unfold parseInt32
  rw [splitSign_formatInt, if_neg (asciiText_formatUint_ne_nil _)]
  simp only [hparse, clampInt32, decide_eq_true_eq]
  by_cases hneg : n.toInt < 0
  · rw [if_pos hneg, if_neg (by omega)]
    omega
  · rw [if_neg hneg, if_neg (by omega)]
    omega

/-- `strconv.ParseInt(s, 10, 32)` with its error -/
def parseInt32Checked (s : Bytes) : Except NumError Int32 :=
  if (splitSign s).2 = [] then .error .errSyntax
  else match parseUintUpTo (2 ^ 32 - 1) 0 (splitSign s).2 with
    | .error e => .error e
    | .ok un =>
      if (splitSign s).1 then if un > 2 ^ 31 then .error .errRange else .ok (Int32.ofInt (-un))
      else if un ≥ 2 ^ 31 then .error .errRange else .ok (Int32.ofInt un)

theorem parseInt32Checked_formatInt (n : Int32) :
    parseInt32Checked (asciiText (formatInt n.toInt)) = .ok n := by
  have hlow := n.le_toInt
  have hhigh := n.toInt_lt
  have hparse : parseUintUpTo (2 ^ 32 - 1) 0 (asciiText (formatUint n.toInt.natAbs)) =
      .ok n.toInt.natAbs :=
    parseUintUpTo_formatUint (by omega)
  unfold parseInt32Checked
  rw [splitSign_formatInt, if_neg (asciiText_formatUint_ne_nil _)]
  simp only [hparse, decide_eq_true_eq]
  by_cases hneg : n.toInt < 0
  · have habs : -(n.toInt.natAbs : Int) = n.toInt := by omega
    rw [if_pos hneg, if_neg (by omega), habs, Int32.ofInt_toInt]
  · have habs : (n.toInt.natAbs : Int) = n.toInt := by omega
    rw [if_neg hneg, if_neg (by omega), habs, Int32.ofInt_toInt]

end Pgx.Go
