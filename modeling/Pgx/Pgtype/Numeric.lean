import Pgx.Effect.Budget
import Pgx.Go.BigEndian
import Mathlib.Data.Rat.Floor

/-!
# Numerics

`pgtype.Numeric` with its binary codec (`encodeNumericBinary` and the scan plan for
a `NumericScanner`) and its text (`numberTextBytes` and `parseNumericString`). A
`big.Int` is an integer. Loops that are not counted run on a budget of rounds.
-/
namespace Pgx.Pgtype

open Pgx.Go Pgx.Effect

/-- PostgreSQL's numeric storage has 16-bit digits in base 10,000. -/
def nbase : Nat := 10000

def pgNumericNaN : Nat := 0x00000000c0000000
def pgNumericNaNSign : Nat := 0xc000
def pgNumericPosInf : Nat := 0x00000000d0000000
def pgNumericPosInfSign : Nat := 0xd000
def pgNumericNegInf : Nat := 0x00000000f0000000
def pgNumericNegInfSign : Nat := 0xf000

inductive InfinityModifier where
  | negativeInfinity
  | finite
  | infinity
  deriving DecidableEq, Repr

/-- The number `int * 10 ^ exp`, or one of the special values. -/
structure Numeric where
  int : Option Int := none
  exp : Int32 := 0
  nan : Bool := false
  infinityModifier : InfinityModifier := .finite
  valid : Bool := false
  deriving DecidableEq

/-- An error made by `fmt.Errorf` from a format and its operand. -/
inductive NumericError where
  | bytes (format : String) (operand : Bytes)
  | int (format : String) (operand : Int)
  deriving DecidableEq, Repr

inductive Value where
  | null
  | nan
  | negativeInfinity
  | infinity
  | finite (q : ℚ)
  deriving DecidableEq

def Numeric.value (n : Numeric) : Value :=
  if !n.valid then .null
  else if n.nan then .nan
  else
    match n.infinityModifier with
    | .infinity => .infinity
    | .negativeInfinity => .negativeInfinity
    | .finite => .finite (n.int.getD 0 * 10 ^ n.exp.toInt)

namespace Numeric

/-- The absolute value and the exponent, realigned to an exponent that is a multiple of four. -/
def aligned (n : Numeric) : Nat × Int :=
  let absInt := (n.int.getD 0).natAbs
  let exp := n.exp.toInt
  let residue := exp.tmod 4
  if residue = 1 ∨ residue = -3 then (absInt * 10, signed 32 (exp - 1))
  else if residue = 2 ∨ residue = -2 then (absInt * 100, signed 32 (exp - 2))
  else if residue = 3 ∨ residue = -1 then (absInt * 1000, signed 32 (exp - 3))
  else (absInt, exp)

/-- The whole part, and the fraction under a leading one that keeps its zeros. -/
def parts (n : Numeric) : Nat × Nat :=
  let (absInt, exp) := n.aligned
  if exp < 0 then
    let divisor := 10 ^ (signed 32 (-exp)).toNat
    (absInt / divisor, absInt % divisor + divisor)
  else (absInt, 0)

end Numeric

def digitRound (stop : Nat) : Nat × List Nat → (Nat × List Nat) ⊕ List Nat
  | (part, digits) =>
    if part ≠ stop then .inl (part / nbase, digits ++ [part % nbase]) else .inr digits

/-- The base-10,000 digits, least significant first, until `stop` is left. -/
def nbaseDigits (stop part : Nat) : Budget (List Nat) := Budget.loop (digitRound stop) (part, [])

def fracNbaseDigits (fracPart : Nat) : Budget (List Nat) :=
  if fracPart ≠ 0 then nbaseDigits 1 fracPart else pure []

def encodeNumericBinary (n : Numeric) (buf : Bytes) : Budget (Option Bytes) :=
  if !n.valid then pure none
  else if n.nan then pure (some (appendUint64 buf pgNumericNaN))
  else
    match n.infinityModifier with
    | .infinity => pure (some (appendUint64 buf pgNumericPosInf))
    | .negativeInfinity => pure (some (appendUint64 buf pgNumericNegInf))
    | .finite => do
      let sign : Int := if n.int.getD 0 < 0 then 16384 else 0
      let exp := n.aligned.2
      let wholeDigits ← nbaseDigits 0 n.parts.1
      let fracDigits ← fracNbaseDigits n.parts.2
      let buf := appendInt16 buf (wholeDigits.length + fracDigits.length)
      -- int16 arithmetic is modulo 2^16, so the sum is cut once, where it is written
      let weight : Int :=
        if 0 < wholeDigits.length then
          wholeDigits.length - 1 + if 0 < exp then exp.tdiv 4 else 0
        else exp.tdiv 4 - 1 + fracDigits.length
      let buf := appendInt16 buf weight
      let buf := appendInt16 buf sign
      let dscale : Int := if n.exp.toInt < 0 then -n.exp.toInt else 0
      let buf := appendInt16 buf dscale
      let buf := wholeDigits.reverse.foldl (fun buf (d : Nat) => appendInt16 buf d) buf
      pure (some (fracDigits.reverse.foldl (fun buf (d : Nat) => appendInt16 buf d) buf))

/-! ## Decoding -/

/-- Up to four digits, with the bytes and the digits read. Four 16-bit digits stay below `2 ^ 63`.
-/
def nbaseDigitsToInt64 (src : Bytes) : Nat × Nat × Nat :=
  let digits := min (src.length / 2) 4
  let (accum, rp) := (List.range digits).foldl
    (fun (accum, rp) i =>
      let accum := if 0 < i then accum * nbase else accum
      (accum + fromBigEndian ((src.drop rp).take 2), rp + 2))
    (0, 0)
  (accum, rp, digits)

/-- The four fields at the start of a binary numeric. -/
structure Header where
  ndigits : Nat
  weight : Int
  sign : Nat
  dscale : Int
  deriving DecidableEq, Repr

def header (src : Bytes) : Header where
  ndigits := fromBigEndian (src.take 2)
  weight := signed 16 (fromBigEndian ((src.drop 2).take 2))
  sign := fromBigEndian ((src.drop 4).take 2)
  dscale := signed 16 (fromBigEndian ((src.drop 6).take 2))

namespace Header

/-- The number of groups of four digits, in 16-bit arithmetic. -/
def groups (h : Header) : Nat := (h.ndigits + 3) % 2 ^ 16 / 4

def exp (h : Header) : Int := (h.weight - h.ndigits + 1) * 4

def fracDecimalDigits (h : Header) : Int := (h.ndigits - h.weight - 1) * 4

end Header

/-- The power of the base that makes room for this many digits. -/
def groupMul : Nat → Option Nat
  | 1 => some nbase
  | 2 => some (nbase * nbase)
  | 3 => some (nbase * nbase * nbase)
  | 4 => some (nbase * nbase * nbase * nbase)
  | _ => none

/-- One round of the digit loop: the group at `rp` is added to the digits before it. -/
def groupRound (groups : Nat) (src : Bytes) :
    Nat × Nat × Nat → (Nat × Nat × Nat) ⊕ Except NumericError Nat
  | (i, rp, accum) =>
    if i < groups then
      let (int64accum, bytesRead, digitsRead) := nbaseDigitsToInt64 (src.drop rp)
      if 0 < i then
        match groupMul digitsRead with
        | some mul => .inl (i + 1, rp + bytesRead, accum * mul + int64accum)
        | none => .inr (.error (.int "invalid digitsRead: %d (this can't happen)" digitsRead))
      else .inl (i + 1, rp + bytesRead, accum + int64accum)
    else .inr (.ok accum)

/-- The digits of `src` behind the header, four at a time. -/
def readGroups (groups : Nat) (src : Bytes) : Budget (Except NumericError Nat) :=
  Budget.loop (groupRound groups src) (0, 8, 0)

/-- Multiply or divide until the exponent is that of the display scale. -/
def rescale (h : Header) (accum : Nat) : Budget (Nat × Int) :=
  if 0 < h.dscale then
    if h.fracDecimalDigits < h.dscale then
      Budget.forRange (h.dscale - h.fracDecimalDigits).toNat (fun (accum, exp) =>
        (accum * 10, exp - 1))
        (accum, h.exp)
    else if h.dscale < h.fracDecimalDigits then
      Budget.forRange (h.fracDecimalDigits - h.dscale).toNat (fun (accum, exp) =>
        (accum / 10, exp + 1))
        (accum, h.exp)
    else pure (accum, h.exp)
  else pure (accum, h.exp)

def reduceRound : Nat × Int → (Nat × Int) ⊕ (Nat × Int)
  | (accum, exp) => if accum % 10 ≠ 0 then .inr (accum, exp) else .inl (accum / 10, exp + 1)

def reduce (accum : Nat) (exp : Int) : Budget (Nat × Int) := Budget.loop reduceRound (accum, exp)

/-- The last step: trailing zeros are dropped unless there is a fraction, and the sign is set. -/
def finish (h : Header) (accum : Nat) (exp : Int) : Budget (Except NumericError Numeric) := do
  let (accum, exp) ← if 0 ≤ exp then reduce accum exp else pure (accum, exp)
  pure (.ok { int := some (if h.sign ≠ 0 then -accum else accum), exp := Int32.ofInt exp, valid := true })

/-- `scanPlanBinaryNumericToNumericScanner.Scan` into a `*Numeric`. -/
def scanNumericBinary (src : Option Bytes) : Budget (Except NumericError Numeric) :=
  match src with
  | none => pure (.ok {})
  | some src =>
    if src.length < 8 then pure (.error (.bytes "numeric incomplete %v" src))
    else
      let h := header src
      if h.sign = pgNumericNaNSign then pure (.ok { nan := true, valid := true })
      else if h.sign = pgNumericPosInfSign then
        pure (.ok { infinityModifier := .infinity, valid := true })
      else if h.sign = pgNumericNegInfSign then
        pure (.ok { infinityModifier := .negativeInfinity, valid := true })
      else if h.ndigits = 0 then pure (.ok { int := some 0, valid := true })
      else if src.length - 8 < h.ndigits * 2 then pure (.error (.bytes "numeric incomplete %v" src))
      else do
        match ← readGroups h.groups src with
        | .error e => pure (.error e)
        | .ok accum =>
          let (accum, exp) ← rescale h accum
          finish h accum exp

def minus (neg : Bool) : Bytes := if neg then ascii "-" else []

/-- The digits of the integer with the point that the exponent puts in, or with its zeros. -/
def magnitude (intStr : Bytes) (exp : Int) : Bytes :=
  if 0 < exp then intStr ++ List.replicate exp.toNat 48
  else if exp < 0 then
    if intStr.length ≤ -exp then
      ascii "0." ++ List.replicate (-exp - intStr.length).toNat 48 ++ intStr
    else
      let dpPos := (intStr.length + exp).toNat
      intStr.take dpPos ++ ascii "." ++ intStr.drop dpPos
  else intStr

/-- `numberTextBytes` with an `int` of 64 bits; in 32 bits the least exponent has no negation. -/
def Numeric.numberTextBytes (n : Numeric) : Bytes :=
  match n.int with
  | none => ascii "0"
  | some int => minus (int < 0) ++ magnitude (asciiText (formatUint int.natAbs)) n.exp.toInt

/-- The digits of `big.Int.SetString` in base 10. -/
def natOfDigits (n : Nat) : Bytes → Option Nat
  | [] => some n
  | c :: cs => if c < 48 ∨ 57 < c then none else natOfDigits (n * 10 + (c.toNat - 48)) cs

/-- `big.Int.SetString` in base 10. -/
def setString (str : Bytes) : Option Int :=
  match splitSign str with
  | (_, []) => none
  | (neg, digits) => (natOfDigits 0 digits).map fun (n : Nat) => if neg then -(n : Int) else (n : Int)

/-- Take trailing zeros off a number that is more than its sign and a zero; the text comes
last byte first. -/
def trimZeros : Bytes → Nat → Bytes × Nat
  | 48 :: c :: cs, exp => if c ≠ 45 then trimZeros (c :: cs) (exp + 1) else (48 :: c :: cs, exp)
  | str, exp => (str, exp)

def parseNumericString (str : Bytes) : Except NumericError (Int × Int32) :=
  let (str, exp) :=
    match indexByte 46 str with
    | none => ((trimZeros str.reverse 0).1.reverse, Int32.ofInt (trimZeros str.reverse 0).2)
    | some idx => (str.take idx ++ str.drop (idx + 1), Int32.ofInt (-(str.length - idx - 1 : Int)))
  match setString str with
  | some accum => .ok (accum, exp)
  | none => .error (.bytes "%s is not a number" str)

end Pgx.Pgtype
