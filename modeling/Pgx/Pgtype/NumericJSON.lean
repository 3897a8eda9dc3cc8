import Pgx.Pgtype.NumericRoundTrip

/-!
# Numerics in JSON

`MarshalJSON` writes null, a quoted `NaN`, or the text of the number; `UnmarshalJSON`
reads the first two and leaves the rest to the text scan plan.
-/
namespace Pgx.Pgtype

open Pgx.Go

/-- `scanPlanTextAnyToNumericScanner.Scan` into a `*Numeric` -/
def scanNumericText (src : Option Bytes) : Except NumericError Numeric :=
  match src with
  | none => .ok {}
  | some src =>
    if src = ascii "NaN" then .ok { nan := true, valid := true }
    else if src = ascii "Infinity" then .ok { infinityModifier := .infinity, valid := true }
    else if src = ascii "-Infinity" then .ok { infinityModifier := .negativeInfinity, valid := true }
    else (fun (num, exp) => { int := some num, exp, valid := true }) <$> parseNumericString src

def Numeric.marshalJSON (n : Numeric) : Bytes :=
  if !n.valid then ascii "null"
  else if n.nan then ascii "\"NaN\""
  else n.numberTextBytes

def unmarshalJSON (src : Bytes) : Except NumericError Numeric :=
  if src = ascii "null" then .ok {}
  else if src = ascii "\"NaN\"" then .ok { nan := true, valid := true }
  else scanNumericText (some src)

namespace Numeric

/-- A number, and one that does not end in more zeros than an int32 counts. -/
structure JSONSafe (n : Numeric) : Prop where
  finite : n.infinityModifier = .finite
  zeros : n.exp.toInt < 0 ∨ n.int.getD 0 = 0 ∨
    ¬ (10 : Int) ^ (2 ^ 31 - n.exp.toInt.toNat) ∣ n.int.getD 0

theorem unmarshalJSON_number {src : Bytes} {i : Int} {x : Int32}
    (h : parseNumericString src = .ok (i, x)) :
    unmarshalJSON src = .ok { int := some i, exp := x, valid := true } := by
  have hword : ∀ word : Bytes, (parseNumericString word).isOk = false → src ≠ word := by
    rintro word hword rfl
    rw [h] at hword
    cases hword
  unfold unmarshalJSON scanNumericText
  simp only [hword (ascii "null") (by decide), hword (ascii "\"NaN\"") (by decide),
    hword (ascii "NaN") (by decide),
    hword (ascii "Infinity") (by decide), hword (ascii "-Infinity") (by decide), if_false, h]
  rfl

end Numeric

/-- What `MarshalJSON` writes is read back as the same value, but for an infinity, which is written
as a number, and for the numbers whose text ends in more zeros than the reader can count. -/
theorem unmarshalJSON_marshalJSON_iff (n : Numeric) :
    (∃ m, unmarshalJSON n.marshalJSON = .ok m ∧ m.value = n.value) ↔
      (n.valid = true → n.nan = false → n.JSONSafe) := by
  cases hvalid : n.valid with
  | false =>
    refine iff_of_true ⟨{}, ?_, ?_⟩ (by simp)
    · simp only [Numeric.marshalJSON, hvalid]
      rfl
    · simp [Numeric.value, hvalid]
  | true =>
    cases hnan : n.nan with
    | true =>
      refine iff_of_true ⟨{ nan := true, valid := true }, ?_, ?_⟩ (by simp)
      · simp only [Numeric.marshalJSON, hvalid, hnan]
        rfl
      · simp [Numeric.value, hvalid, hnan]
    | false =>
      obtain ⟨i, x, hparse, hvalue⟩ := n.parse_numberTextBytes
      have htext : n.marshalJSON = n.numberTextBytes := by simp [Numeric.marshalJSON, hvalid, hnan]
      rw [htext, Numeric.unmarshalJSON_number hparse]
      simp only [Except.ok.injEq, exists_eq_left', forall_const]
      have hread : ({ int := some i, exp := x, valid := true } : Numeric).value = .finite
          (i * 10 ^ x.toInt) := rfl
      rw [hread]
      cases hfin : n.infinityModifier with
      | finite =>
        have hn : n.value = .finite (n.int.getD 0 * 10 ^ n.exp.toInt) := by
          simp [Numeric.value, hvalid, hnan, hfin]
        have hzeros : (n.exp.toInt < 0 ∨ n.int.getD 0 = 0 ∨ strippedZeros n.numberTextBytes < 2 ^ 31) ↔
            (n.exp.toInt < 0 ∨ n.int.getD 0 = 0 ∨
              ¬ (10 : Int) ^ (2 ^ 31 - n.exp.toInt.toNat) ∣ n.int.getD 0) := by
          by_cases hexp : n.exp.toInt < 0
          · exact iff_of_true (.inl hexp) (.inl hexp)
          by_cases hint : n.int.getD 0 = 0
          · exact iff_of_true (.inr (.inl hint)) (.inr (.inl hint))
          · rw [Numeric.zeros_lt_iff (by omega) hint]
        rw [hn, Value.finite.injEq, hvalue, hzeros]
        exact ⟨fun h => ⟨hfin, h⟩, fun h => h.zeros⟩
      | _ =>
        refine iff_of_false ?_ fun h => by cases hfin.symm.trans h.finite
        simp [Numeric.value, hvalid, hnan, hfin]

/-- Both infinities are read back as zero. -/
theorem unmarshalJSON_infinity :
    unmarshalJSON ({ infinityModifier := .infinity, valid := true } : Numeric).marshalJSON =
        .ok { int := some 0, valid := true } ∧
      unmarshalJSON ({ infinityModifier := .negativeInfinity, valid := true } : Numeric).marshalJSON =
        .ok { int := some 0, valid := true } := by
  constructor <;> decide

end Pgx.Pgtype
