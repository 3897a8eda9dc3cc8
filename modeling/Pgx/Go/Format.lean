import Pgx.Go.Text

/-!
# Number formatting

`strconv.AppendInt` in base 10, `strconv.AppendBool`, `hex.Encode`, and
`strconv.AppendFloat` with format `'f'` and precision -1 on 64-bit floats: the
shortest decimal that reads back as the same float, and the nearest one among
those of that length.
-/
namespace Pgx.Go

def formatUint (n : Nat) : Text := Nat.toDigits 10 n

def formatInt (n : Int) : Text :=
  if n < 0 then '-' :: formatUint n.natAbs else formatUint n.natAbs

/-- `formatUint` with leading zeros up to a width. -/
def formatPadded (width n : Nat) : Text :=
  List.replicate (width - (formatUint n).length) '0' ++ formatUint n

theorem isDigit_of_mem_formatUint {n : Nat} {c : Char} (h : c ∈ formatUint n) : isDigit c = true :=
  Nat.isDigit_of_mem_toDigits (by omega) (by omega) h

theorem isDigit_of_mem_formatPadded {width n : Nat} {c : Char} (h : c ∈ formatPadded width n) :
    isDigit c = true := by
  rcases List.mem_append.mp h with hz | hd
  · rw [List.eq_of_mem_replicate hz]
    decide
  · exact isDigit_of_mem_formatUint hd

def formatBool (b : Bool) : Text := if b then "true".toList else "false".toList

def hexDigit (n : Nat) : Char := Nat.digitChar n

def hexEncode (bs : List UInt8) : Text :=
  bs.flatMap fun b => [hexDigit (b.toNat / 16), hexDigit (b.toNat % 16)]

theorem hexEncode_ne_quote {bs : List UInt8} {c : Char} (h : c ∈ hexEncode bs) : c ≠ '\'' := by
  have hdigit : ∀ n < 16, hexDigit n ≠ '\'' := by decide
  obtain ⟨b, -, hc⟩ := List.mem_flatMap.mp h
  have hb : b.toNat < 256 := b.toNat_lt
  simp only [List.mem_cons, List.not_mem_nil, or_false] at hc
  rcases hc with rfl | rfl
  · exact hdigit _ (by omega)
  · exact hdigit _ (by omega)

namespace Float64

def negative (bits : BitVec 64) : Bool := bits.getLsbD 63

def exponent (bits : BitVec 64) : Nat := bits.toNat / 2 ^ 52 % 2 ^ 11

def fraction (bits : BitVec 64) : Nat := bits.toNat % 2 ^ 52

/-- A finite float is `mantissa * 2 ^ (shift - 1074)`. -/
def mantissa (bits : BitVec 64) : Nat :=
  if exponent bits = 0 then fraction bits else 2 ^ 52 + fraction bits

def shift (bits : BitVec 64) : Nat := exponent bits - 1

/-- The value of a finite float and the halves of its gaps, in units of `2 ^ (-1076)`. -/
def scaled (bits : BitVec 64) : Nat := mantissa bits * 2 ^ (shift bits + 2)

def upperGap (bits : BitVec 64) : Nat := 2 ^ (shift bits + 1)

/-- The gap below a power of two is half as wide. -/
def lowerGap (bits : BitVec 64) : Nat :=
  if fraction bits = 0 ∧ 1 < exponent bits then 2 ^ shift bits else 2 ^ (shift bits + 1)

/-- `coeff * 10 ^ exp`, as a numerator over `2 ^ (-1076)` and a denominator. -/
def decimalNum (coeff : Nat) (exp : Int) : Nat := coeff * 10 ^ exp.toNat * 2 ^ 1076

def decimalDen (exp : Int) : Nat := 10 ^ (-exp).toNat

/-- Whether a decimal reads back as the float. The ends of the interval round to
even, so they count for an even mantissa. -/
def readsBack (bits : BitVec 64) (coeff : Nat) (exp : Int) : Bool :=
  let x := decimalNum coeff exp
  let low := (scaled bits - lowerGap bits) * decimalDen exp
  let high := (scaled bits + upperGap bits) * decimalDen exp
  if mantissa bits % 2 = 0 then low ≤ x && x ≤ high else low < x && x < high

/-- The decimal below or above the float at a given exponent: the one that reads
back, or the nearer one, or the even one. -/
def roundAt (bits : BitVec 64) (exp : Int) : Option Nat :=
  let unit := decimalNum 1 exp
  let down := scaled bits * decimalDen exp / unit
  let twiceRest := 2 * (scaled bits * decimalDen exp % unit)
  match readsBack bits down exp, readsBack bits (down + 1) exp with
  | true, true =>
    if twiceRest < unit ∨ (twiceRest = unit ∧ down % 2 = 0) then some down else some (down + 1)
  | true, false => some down
  | false, true => some (down + 1)
  | false, false => none

/-- Descend from `10 ^ exp` to the first exponent with a decimal that reads back.
The last exponent represents the float exactly. -/
def shortestFrom (bits : BitVec 64) : Nat → Int → Nat × Int
  | 0, exp => (scaled bits * decimalDen exp / decimalNum 1 exp, exp)
  | fuel + 1, exp =>
    match roundAt bits exp with
    | some coeff => (coeff, exp)
    | none => shortestFrom bits fuel (exp - 1)

def shortest (bits : BitVec 64) : Nat × Int := shortestFrom bits (309 + 1074) 309

/-- `coeff * 10 ^ exp` without an exponent. -/
def fixedPoint (coeff : Nat) (exp : Int) : Text :=
  if 0 ≤ exp then formatUint (coeff * 10 ^ exp.toNat)
  else
    formatUint (coeff / decimalDen exp) ++ '.' ::
      formatPadded (-exp).toNat (coeff % decimalDen exp)

theorem mem_fixedPoint {coeff : Nat} {exp : Int} {c : Char} (h : c ∈ fixedPoint coeff exp) :
    isDigit c = true ∨ c = '.' := by
  unfold fixedPoint at h
  split at h
  · exact .inl (isDigit_of_mem_formatUint h)
  · rcases List.mem_append.mp h with hi | hf
    · exact .inl (isDigit_of_mem_formatUint hi)
    · rcases List.mem_cons.mp hf with rfl | hf
      · exact .inr rfl
      · exact .inl (isDigit_of_mem_formatPadded hf)

end Float64

open Float64 in
def formatFloat (bits : BitVec 64) : Text :=
  if exponent bits = 2047 then
    if fraction bits ≠ 0 then "NaN".toList
    else if negative bits then "-Inf".toList else "+Inf".toList
  else
    let digits :=
      if mantissa bits = 0 then ['0'] else fixedPoint (shortest bits).1 (shortest bits).2
    if negative bits then '-' :: digits else digits

end Pgx.Go
