import Pgx.Pgtype.TextScan
import Mathlib.Data.List.DropRight

/-!
# Intervals as text

The text that pgx writes for an interval and the text that PostgreSQL writes for it both read back
as its three components. In a `time.Duration` the components are one number of nanoseconds, which 64
bits need not hold.
-/
namespace Pgx.Pgtype

open Pgx.Go List

variable {ε : Type}

/-- `fmt.Sprintf("%0*d", width, n)`: a sign is part of the width. -/
def formatZeroed (width : Nat) (n : Int) : Text :=
  if n < 0 then '-' :: formatPadded (width - 1) n.natAbs else formatPadded width n.natAbs

/-- What `encodePlanIntervalCodecText.Encode` appends for the microseconds -/
def encodeIntervalTime (microseconds : Int) : Bytes :=
  let absMicroseconds := if microseconds < 0 then signed 64 (-microseconds) else microseconds
  let hours := absMicroseconds.tdiv 3600000000
  let minutes := (absMicroseconds.tmod 3600000000).tdiv 60000000
  let seconds := (absMicroseconds.tmod 60000000).tdiv 1000000
  let timeStr :=
    formatZeroed 2 hours ++ ':' :: formatZeroed 2 minutes ++ ':' :: formatZeroed 2 seconds
  let fraction := absMicroseconds.tmod 1000000
  (if microseconds < 0 then [45] else []) ++ asciiText timeStr ++
    if fraction ≠ 0 then asciiText ('.' :: formatZeroed 6 fraction) else []

/-- `encodePlanIntervalCodecText.Encode` -/
def encodeIntervalText (interval : Interval) : Bytes :=
  let buf := if interval.months ≠ 0 then asciiText
      (formatInt interval.months) ++ ascii " mon " else []
  let buf := if interval.days ≠ 0 then buf ++ asciiText
      (formatInt interval.days) ++ ascii " day " else buf
  buf ++ encodeIntervalTime interval.microseconds

/-! ## Words and numbers -/

variable {sep : UInt8}

theorem splitByte_word {a : Bytes} (h : sep ∉ a) : splitByte sep a = [a] := by
  induction a with
  | nil => rfl
  | cons c a ih =>
    have hc := ne_of_not_mem_cons h
    rw [splitByte, if_neg (Ne.symm hc), ih (not_mem_of_not_mem_cons h)]

theorem splitByte_append {a : Bytes} (h : sep ∉ a) (b : Bytes) :
    splitByte sep (a ++ sep :: b) = a :: splitByte sep b := by
  induction a with
  | nil => rw [nil_append, splitByte, if_pos rfl]
  | cons c a ih =>
    have hc := ne_of_not_mem_cons h
    rw [cons_append, splitByte, if_neg (Ne.symm hc), ih (not_mem_of_not_mem_cons h)]

theorem splitByte_intercalate {words : List Bytes} (hne : words ≠ []) (h : ∀ w ∈ words, sep ∉ w) :
    splitByte sep (intercalate [sep] words) = words := by
  induction words with
  | nil => exact absurd rfl hne
  | cons w words ih =>
    have hw := h w (.head _)
    cases words with
    | nil => rw [intercalate_singleton, splitByte_word hw]
    | cons w' words =>
      rw [intercalate_cons_cons, append_assoc, singleton_append, splitByte_append hw,
        ih nofun fun x hx => h x (.tail _ hx)]

theorem splitByteN_append {a : Bytes} (h : sep ∉ a) (n : Nat) (b : Bytes) :
    splitByteN sep (n + 1) (a ++ sep :: b) = a :: splitByteN sep n b := by
  rw [splitByteN, indexByte_append h]
  simp

/-- The sign of a number; PostgreSQL also writes a plus where the part before is negative. -/
def signOf (plus : Bool) (n : Int) : Bytes := if n < 0 then [45] else if plus then [43] else []

variable {t : Text}

theorem splitSign_signOf {k : Nat} (h : Writes t k) (plus : Bool) (n : Int) :
    splitSign (signOf plus n ++ asciiText t) = (decide (n < 0), asciiText t) := by
  unfold signOf
  by_cases hn : n < 0
  · rw [if_pos hn, decide_eq_true hn]
    rfl
  · rw [if_neg hn, decide_eq_false hn]
    cases plus with
    | true => rfl
    | false => exact splitSign_digits h.digits

variable {n : Int}

theorem signOf_not_mem {plus : Bool} {b : UInt8} (hb : b ≠ 43 ∧ b ≠ 45) : b ∉ signOf plus n := by
  unfold signOf
  split
  · simpa using hb.2
  · split
    · simpa using hb.1
    · exact not_mem_nil

def unitWords (plus : Bool) (n : Int) (unit : Bytes) : List Bytes :=
  if n = 0 then [] else [signOf plus n ++ asciiText (formatUint n.natAbs), unit]

theorem unitWords_not_mem {plus : Bool} {unit : Bytes} (h : 32 ∉ unit) :
    ∀ w ∈ unitWords plus n unit, 32 ∉ w := by
  intro w hw
  unfold unitWords at hw
  split at hw
  · exact absurd hw not_mem_nil
  · rcases mem_pair.mp hw with rfl | rfl
    · exact not_mem_append (signOf_not_mem (by decide)) ((writes_formatUint _).not_mem (by decide))
    · exact h

section Units

variable {plus : Bool} {n months days : Int} {unit : Bytes} {parts : List Bytes}

theorem intervalUnits_unitWords (hn : n ≠ 0) (hlow : -2 ^ 63 < n) (hhigh : n < 2 ^ 63) :
    intervalUnits (unitWords plus n unit ++ parts) months days =
      ((if unit = ascii "year" ∨ unit = ascii "years" then
          intervalUnits parts (signed 32 (months + signed 32 (signed 64 (n * 12)))) days
        else if unit = ascii "mon" ∨ unit = ascii "mons" then
          intervalUnits parts (signed 32 (months + signed 32 n)) days
        else if unit = ascii "day" ∨ unit = ascii "days" then intervalUnits parts months (signed 32 n)
        else returnError (.errorf "bad interval format: %q" [unit])) :
          Checked (TextScanError ε) _) := by
  have habs : (if decide (n < 0) then -(n.natAbs : Int) else n.natAbs) = n := by
    by_cases hneg : n < 0
    · rw [decide_eq_true hneg, if_pos rfl]
      omega
    · rw [decide_eq_false hneg, if_neg nofun]
      omega
  have hnumber :=
    (writes_formatUint n.natAbs).atoi (splitSign_signOf (writes_formatUint _) plus n) (by omega)
  unfold unitWords
  rw [if_neg hn, cons_append, cons_append, nil_append, intervalUnits, hnumber, habs]
  rfl

theorem intervalUnits_years (hunit : unit = ascii "year" ∨ unit = ascii "years")
    (hlow : -2 ^ 31 ≤ n * 12) (hhigh : n * 12 < 2 ^ 31) :
    intervalUnits (unitWords plus n unit ++ parts) 0 days =
      (intervalUnits parts (n * 12) days : Checked (TextScanError ε) _) := by
  by_cases hn : n = 0
  · subst hn
    rfl
  · rw [intervalUnits_unitWords hn (by omega) (by omega), if_pos hunit,
      @signed_of_fits 64 _ (by omega) (by omega),
      Int.zero_add, signed_of_fits (n := n * 12) (by omega) (by omega),
      signed_of_fits (by omega) (by omega)]

theorem intervalUnits_months (hunit : unit = ascii "mon" ∨ unit = ascii "mons")
    (hlow : -2 ^ 31 ≤ months + n)
    (hhigh : months + n < 2 ^ 31) (hnlow : -2 ^ 31 ≤ n) (hnhigh : n < 2 ^ 31) :
    intervalUnits (unitWords plus n unit ++ parts) months days =
      (intervalUnits parts (months + n) days : Checked (TextScanError ε) _) := by
  by_cases hn : n = 0
  · subst hn
    rw [Int.add_zero]
    rfl
  · have hyear : ¬ (unit = ascii "year" ∨ unit = ascii "years") := by
      rcases hunit with rfl | rfl <;> decide
    rw [intervalUnits_unitWords hn (by omega) (by omega), if_neg hyear, if_pos hunit,
      signed_of_fits (n := n) (by omega) (by omega), signed_of_fits (by omega) (by omega)]

theorem intervalUnits_days (hunit : unit = ascii "day" ∨ unit = ascii "days") (hlow : -2 ^ 31 ≤ n)
    (hhigh : n < 2 ^ 31) :
    intervalUnits (unitWords plus n unit ++ parts) months 0 =
      (intervalUnits parts months n : Checked (TextScanError ε) _) := by
  by_cases hn : n = 0
  · subst hn
    rfl
  · have hyear : ¬ (unit = ascii "year" ∨ unit = ascii "years") := by
      rcases hunit with rfl | rfl <;> decide
    have hmon : ¬ (unit = ascii "mon" ∨ unit = ascii "mons") := by
      rcases hunit with rfl | rfl <;> decide
    rw [intervalUnits_unitWords hn (by omega) (by omega), if_neg hyear, if_neg hmon, if_pos hunit,
      signed_of_fits (by omega) (by omega)]

end Units

/-- Six digits behind the point, or fewer where those left out are zeros -/
inductive FractionText (n : Nat) : Bytes → Prop where
  | whole : n = 0 → FractionText n []
  | digits {t : Text} {k : Nat} : Writes t k → t.length ≤ 6 → k * 10 ^ (6 - t.length) = n →
    FractionText n (46 :: asciiText t)

/-- Hours, minutes and seconds with what is behind the point -/
def clockText (microseconds : Nat) (fraction : Bytes) : Bytes :=
  asciiText (formatPadded 2 (microseconds / 3600000000)) ++
    58 :: (asciiText (formatPadded 2 (microseconds % 3600000000 / 60000000)) ++
      58 :: (asciiText (formatPadded 2 (microseconds % 60000000 / 1000000)) ++ fraction))

variable {fraction : Bytes}

theorem FractionText.not_mem {n : Nat} (h : FractionText n fraction) {b : UInt8}
    (hb : b.toNat < 46 ∨ 57 < b.toNat) : b ∉ fraction := by
  cases h with
  | whole _ => exact not_mem_nil
  | digits hw _ _ =>
    refine not_mem_cons_of_ne_of_not_mem ?_ (hw.not_mem (by omega))
    rintro rfl
    exact absurd hb (by decide)

theorem scaleMicroseconds_eq (i : Nat) (hlow : 0 ≤ n) (h : n * 10 ^ i < 2 ^ 63) :
    scaleMicroseconds i n = n * 10 ^ i := by
  induction i generalizing n with
  | zero => simp [scaleMicroseconds]
  | succ i ih =>
    have hpow : n * 10 ^ (i + 1) = n * 10 * 10 ^ i := by
      rw [Int.pow_succ, Int.mul_comm _ 10, Int.mul_assoc]
    have hone : n * 10 ≤ n * 10 * 10 ^ i :=
      le_mul_of_one_le_right (by omega) (Int.pow_pos (by decide))
    rw [hpow] at h ⊢
    rw [scaleMicroseconds, signed_of_fits (by omega) (by omega)]
    exact ih (by omega) h

theorem intervalNumber_writes {s : Bytes} {neg : Bool} {n : Nat} (h : Writes t n)
    (hs : splitSign s = (neg, asciiText t)) (hn : n < 2 ^ 63) (format : String) :
    intervalNumber format s = (.ok (if neg then -(n : Int) else n) :
    Checked (TextScanError ε) Int) := by
  unfold intervalNumber
  rw [h.atoi hs hn]

theorem intervalNumber_digits {n : Nat} (h : Writes t n) (hn : n < 2 ^ 63) (format : String) :
    intervalNumber format (asciiText t) = (.ok n : Checked (TextScanError ε) Int) :=
  intervalNumber_writes h (splitSign_digits h.digits) hn format

theorem intervalFraction_text {n : Nat} {s : Bytes} (h : FractionText n fraction) (hs : 46 ∉ s)
    (hn : n < 1000000) : (cutPoint (s ++ fraction)).1 = s ∧
      intervalFraction (cutPoint (s ++ fraction)).2 = (.ok n : Checked (TextScanError ε) Int) := by
  unfold cutPoint
  cases h with
  | whole hzero =>
    subst hzero
    rw [append_nil, indexByte_eq_none hs]
    exact ⟨rfl, rfl⟩
  | @digits t k hw hlen hvalue =>
    have hk : k < 2 ^ 63 := by
      have := Nat.le_mul_of_pos_right k (Nat.pow_pos (n := 6 - t.length) (show 0 < 10 by decide))
      omega
    rw [indexByte_append hs]
    have hdrop : (s ++ 46 :: asciiText t).drop (s.length + 1) = asciiText t := by simp
    refine ⟨by simp, ?_⟩
    show intervalFraction (some ((s ++ 46 :: asciiText t).drop (s.length + 1))) = _
    have hscale : scaleMicroseconds (6 - t.length) k = n := by
      rw [scaleMicroseconds_eq _ (by omega)
        (by rw [← hvalue] at hn; exact_mod_cast (by omega : k * 10 ^ (6 - t.length) < 2 ^ 63)),
        ← hvalue]
      push_cast
      rfl
    rw [hdrop, intervalFraction, intervalNumber_digits hw hk]
    show Except.ok (scaleMicroseconds (6 - (asciiText t).length) k) = _
    rw [show (asciiText t).length = t.length from length_map .., hscale]

theorem intervalSign_signOf {k : Nat} (h : Writes t k) (plus : Bool) (n : Int) :
    ∃ rest, intervalSign (signOf plus n ++ asciiText t) =
      (.ok (decide (n < 0), rest) : Checked (TextScanError ε) _) ∧
      splitSign rest = (false, asciiText t) := by
  obtain ⟨c, cs, hc⟩ := exists_cons_of_ne_nil fun hnil : asciiText t = [] =>
    h.ne_nil (map_eq_nil_iff.mp hnil)
  have h45 : c ≠ 45 := by
    rintro rfl
    exact h.not_mem (b := 45) (by decide) (by rw [hc]; exact (.head _))
  have hdigits : splitSign (asciiText t) = (false, asciiText t) := splitSign_digits h.digits
  unfold signOf
  by_cases hn : n < 0
  · refine ⟨asciiText t, ?_, hdigits⟩
    rw [if_pos hn, decide_eq_true hn]
    simp [intervalSign, byteAt, sliceAt, bind, Except.bind, pure, Except.pure]
  · rw [if_neg hn, decide_eq_false hn]
    cases plus with
    | true => exact ⟨43 :: asciiText t, rfl, rfl⟩
    | false =>
      refine ⟨asciiText t, ?_, hdigits⟩
      rw [hc]
      simp [intervalSign, byteAt, h45, bind, Except.bind, pure, Except.pure]

theorem clockText_not_mem {n m : Nat} (h : FractionText n fraction) : 32 ∉ clockText m fraction := by
  have hw := fun k => (writes_formatPadded 2 k).not_mem (b := 32) (by decide)
  simp only [clockText, mem_append, mem_cons, hw, h.not_mem (b := 32) (by decide), false_or, or_false]
  decide

/-- A clock with a sign is read as the microseconds it stands for. -/
theorem intervalTime_clockText (hlow : -2 ^ 63 < n) (hhigh : n < 2 ^ 63)
    (h : FractionText (n.natAbs % 1000000) fraction) (plus : Bool) :
    intervalTime (signOf plus n ++ clockText n.natAbs fraction) =
      (.ok n : Checked (TextScanError ε) Int) := by
  have hw := fun k => writes_formatPadded 2 k
  obtain ⟨rest, hsign, hrest⟩ := intervalSign_signOf (ε := ε) (hw (n.natAbs / 3600000000)) plus n
  have hsplit : splitByteN 58 2 (signOf plus n ++ clockText n.natAbs fraction) =
      [signOf plus n ++ asciiText (formatPadded 2 (n.natAbs / 3600000000)),
        asciiText (formatPadded 2 (n.natAbs % 3600000000 / 60000000)),
        asciiText (formatPadded 2 (n.natAbs % 60000000 / 1000000)) ++ fraction] := by
    unfold clockText
    rw [← append_assoc,
      splitByteN_append (not_mem_append (signOf_not_mem (by decide)) ((hw _).not_mem (by decide))),
      splitByteN_append ((hw _).not_mem (by decide))]
    rfl
  have hminutes := intervalNumber_digits (ε := ε) (hw (n.natAbs % 3600000000 / 60000000)) (by omega)
  have hseconds := intervalNumber_digits (ε := ε) (hw (n.natAbs % 60000000 / 1000000)) (by omega)
  obtain ⟨hsecs, hfrac⟩ :=
    intervalFraction_text (ε := ε) (s := asciiText (formatPadded 2 (n.natAbs % 60000000 / 1000000)))
    h ((hw _).not_mem (by decide)) (by omega)
  have htotal : ((n.natAbs / 3600000000 : Nat) : Int) * 3600000000 +
      (n.natAbs % 3600000000 / 60000000 : Nat) * 60000000 +
      (n.natAbs % 60000000 / 1000000 : Nat) * 1000000 + (n.natAbs % 1000000 : Nat) = n.natAbs := by
        omega
  unfold intervalTime
  rw [hsplit]
  simp only [hsign, hsecs, hfrac, intervalNumber_writes (hw (n.natAbs / 3600000000)) hrest
    (by omega), hminutes, hseconds,
    bind, Except.bind, pure, Except.pure, Bool.false_eq_true, if_false, htotal]
  rw [signed_of_fits (n := (n.natAbs : Int)) (by omega) (by omega)]
  by_cases hneg : n < 0
  · rw [decide_eq_true hneg, if_pos rfl, signed_of_fits (n := -(n.natAbs : Int))
      (by omega) (by omega)]
    exact congrArg _ (by omega)
  · rw [decide_eq_false hneg, if_neg nofun]
    exact congrArg _ (by omega)

/-! ## The two forms -/

theorem scanIntervalText_words {words : List Bytes} (hne : words ≠ []) (h : ∀ w ∈ words, 32 ∉ w)
    {months days : Int}
    {time : List Bytes} (hunits :
    intervalUnits words 0 0 = (intervalUnits time months days : Checked (TextScanError ε) _))
    (htime : time = [] ∧ n = 0 ∨ ∃ last, time = [last] ∧
      intervalTime last = (.ok n : Checked (TextScanError ε) Int)) :
    scanIntervalText (intercalate [32] words) =
      (.ok ⟨n, days, months⟩ : Checked (TextScanError ε) Interval) := by
  unfold scanIntervalText
  rw [splitByte_intercalate hne h, hunits]
  rcases htime with ⟨rfl, rfl⟩ | ⟨last, rfl, hlast⟩
  · rfl
  · show (intervalTime last >>= fun microseconds =>
      pure (⟨microseconds, days, months⟩ : Interval)) = _
    rw [hlast]
    rfl

theorem asciiText_append (a b : Text) : asciiText (a ++ b) = asciiText a ++ asciiText b := map_append

theorem formatZeroed_natCast (width n : Nat) : formatZeroed width n = formatPadded width n := by
  unfold formatZeroed
  rw [if_neg (by omega), Int.natAbs_natCast]

theorem formatPadded_length {width n : Nat} (hw : 0 < width) (hn : n < 10 ^ width) :
    (formatPadded width n).length = width := by
  have hlen := (Nat.length_toDigits_le_iff (n := n) (show 1 < 10 by decide) hw).mpr hn
  unfold formatPadded formatUint
  rw [length_append, length_replicate]
  omega

theorem fractionText_of_zeros {n k : Nat} (hpos : n ≠ 0) (hn : n < 1000000)
    (h : formatPadded 6 n = t ++ replicate k '0') : FractionText n (46 :: asciiText t) := by
  have hw := writes_formatPadded 6 n
  have hlen : (formatPadded 6 n).length = 6 := formatPadded_length (by decide) hn
  have hvalue := hw.value
  rw [h, Nat.ofDigitChars_append, Nat.ofDigitChars_replicate_zero] at hvalue
  rw [h, length_append, length_replicate] at hlen
  refine .digits (t := t) (k := Nat.ofDigitChars 10 t 0)
    ⟨fun c hc => hw.digits c ?_, ?_, rfl⟩ (by omega) ?_
  · rw [h]
    exact mem_append_left _ hc
  · rintro rfl
    exact hpos hvalue.symm
  · rw [show 6 - t.length = k by omega, Nat.mul_comm, hvalue]

theorem encodeIntervalTime_eq (hlow : -2 ^ 63 < n) (hhigh : n < 2 ^ 63) :
    ∃ fraction, encodeIntervalTime n = signOf false n ++ clockText n.natAbs fraction ∧
      FractionText (n.natAbs % 1000000) fraction := by
  have habs : (if n < 0 then signed 64 (-n) else n) = (n.natAbs : Int) := by
    split
    · rw [signed_of_fits (by omega) (by omega)]
      omega
    · omega
  refine ⟨if n.natAbs % 1000000 = 0 then [] else 46 :: asciiText
    (formatPadded 6 (n.natAbs % 1000000)), ?_, ?_⟩
  · unfold encodeIntervalTime
    have hhours : (n.natAbs : Int).tdiv 3600000000 = (n.natAbs / 3600000000 : Nat) := rfl
    have hminutes : ((n.natAbs : Int).tmod 3600000000).tdiv 60000000 =
        (n.natAbs % 3600000000 / 60000000 : Nat) := rfl
    have hseconds : ((n.natAbs : Int).tmod 60000000).tdiv 1000000 =
        (n.natAbs % 60000000 / 1000000 : Nat) := rfl
    have hfraction : (n.natAbs : Int).tmod 1000000 = (n.natAbs % 1000000 : Nat) := rfl
    simp only [habs, hhours, hminutes, hseconds, hfraction, formatZeroed_natCast]
    have hzero : ((n.natAbs % 1000000 : Nat) : Int) ≠ 0 ↔ ¬ n.natAbs % 1000000 = 0 := by omega
    simp only [hzero, ite_not, asciiText_append, append_assoc]
    rfl
  · split
    · exact .whole ‹_›
    · exact fractionText_of_zeros (k := 0) ‹_› (by omega) (append_nil _).symm

/-- The sign of the smallest number stays in the parts, and the sum wraps to it again. -/
theorem intervalTime_min : intervalTime (encodeIntervalTime (-2 ^ 63)) =
    (.ok (-2 ^ 63) : Checked (TextScanError ε) Int) :=
  rfl

theorem intervalTime_encode (microseconds : Int64) :
    intervalTime (encodeIntervalTime microseconds.toInt) =
      (.ok microseconds.toInt : Checked (TextScanError ε) Int) ∧
      32 ∉ encodeIntervalTime microseconds.toInt := by
  have hlow := microseconds.le_toInt
  have hhigh := microseconds.toInt_lt
  by_cases hmin : microseconds.toInt = -2 ^ 63
  · rw [hmin]
    exact ⟨intervalTime_min, by decide +kernel⟩
  · obtain ⟨fraction, htext, hfraction⟩ :=
      encodeIntervalTime_eq (n := microseconds.toInt) (by omega) hhigh
    rw [htext]
    exact ⟨intervalTime_clockText (by omega) hhigh hfraction false,
      not_mem_append (signOf_not_mem (by decide)) (clockText_not_mem hfraction)⟩

theorem intercalate_unitWords {plus : Bool} {unit : Bytes} {parts : List Bytes} (h : parts ≠ []) :
    intercalate [32] (unitWords plus n unit ++ parts) =
      (if n ≠ 0 then signOf plus n ++ asciiText
        (formatUint n.natAbs) ++ 32 :: (unit ++ [32]) else []) ++
        intercalate [32] parts := by
  obtain ⟨part, parts, rfl⟩ := exists_cons_of_ne_nil h
  unfold unitWords
  by_cases hn : n = 0
  · rw [if_pos hn, if_neg (not_not.mpr hn)]
    rfl
  · rw [if_neg hn, if_pos hn]
    simp

theorem asciiText_formatInt (n : Int) : asciiText (formatInt n) = signOf false n ++ asciiText
    (formatUint n.natAbs) := by
  unfold formatInt signOf
  by_cases hn : n < 0
  · rw [if_pos hn, if_pos hn]
    rfl
  · rw [if_neg hn, if_neg hn]
    rfl

theorem encodeIntervalText_eq (i : Interval) :
    encodeIntervalText i = intercalate [32] (unitWords false i.months (ascii "mon") ++
      (unitWords false i.days (ascii "day") ++ [encodeIntervalTime i.microseconds])) := by
  rw [intercalate_unitWords (by simp), intercalate_unitWords (cons_ne_nil _ _)]
  unfold encodeIntervalText
  simp only [asciiText_formatInt]
  by_cases hd : i.days = 0
  · simp [hd, ascii, asciiText]
  · simp [hd, ascii, asciiText]

/-- The words that PostgreSQL has written, and whether the last number among them is negative -/
structure PostgresOutput where
  words : List Bytes
  isBefore : Bool

/-- PostgreSQL's `AddPostgresIntPart` -/
def PostgresOutput.part (out : PostgresOutput) (value : Int) (unit : String) : PostgresOutput where
  words := out.words ++ unitWords out.isBefore value
    (ascii unit ++ if value = 1 then [] else ascii "s")
  isBefore := if value = 0 then out.isBefore else decide (value < 0)

/-- What is behind the point, without the zeros at its end -/
def trimmedFraction (n : Nat) : Bytes :=
  if n = 0 then [] else 46 :: asciiText ((formatPadded 6 n).rdropWhile (· == '0'))

/-- The interval as PostgreSQL writes it -/
def postgresIntervalText (i : Interval) : Bytes :=
  let out := (((PostgresOutput.mk [] false).part (i.months.tdiv 12) "year").part
      (i.months.tmod 12) "mon").part i.days "day"
  let time := signOf out.isBefore i.microseconds ++
    clockText i.microseconds.natAbs (trimmedFraction (i.microseconds.natAbs % 1000000))
  intercalate [32] (out.words ++ if out.words = [] ∨ i.microseconds ≠ 0 then [time] else [])

theorem trimmedFraction_text {n : Nat} (hn : n < 1000000) : FractionText n (trimmedFraction n) := by
  unfold trimmedFraction
  split
  · exact .whole ‹_›
  · have hsix := (rdropWhile_append_rtakeWhile (p := (· == '0')) (l := formatPadded 6 n)).symm
    have hzeros : (formatPadded 6 n).rtakeWhile (· == '0') =
        replicate ((formatPadded 6 n).rtakeWhile (· == '0')).length '0' :=
      eq_replicate_of_mem fun c hc => beq_iff_eq.mp (mem_rtakeWhile_imp (p := (· == '0')) hc)
    exact fractionText_of_zeros ‹_› hn (hsix.trans (congrArg _ hzeros))

theorem plural_unit (unit : String) (value : Int) :
    (ascii unit ++ if value = 1 then [] else ascii "s") = ascii unit ∨
    (ascii unit ++ if value = 1 then [] else ascii "s") = ascii unit ++ ascii "s" := by
  split
  · exact .inl (append_nil _)
  · exact .inr rfl

theorem plural_not_mem {unit : String} (h : 32 ∉ ascii unit) (value : Int) :
    32 ∉ ascii unit ++ if value = 1 then [] else ascii "s" := by
  rcases plural_unit unit value with hu | hu
  · rwa [hu]
  · rw [hu]
    exact not_mem_append h (by decide)

theorem scanIntervalText_encode (microseconds : Int64) (days months : Int32) :
    scanIntervalText (encodeIntervalText ⟨microseconds.toInt, days.toInt, months.toInt⟩) =
      (.ok ⟨microseconds.toInt, days.toInt, months.toInt⟩ : Checked (TextScanError ε) Interval) := by
  obtain ⟨htime, hspace⟩ := intervalTime_encode (ε := ε) microseconds
  have hmonths := months.le_toInt
  have hmonths' := months.toInt_lt
  rw [encodeIntervalText_eq]
  refine scanIntervalText_words (by simp) ?_ ?_ (.inr ⟨_, rfl, htime⟩)
  · intro w hw
    simp only [mem_append, mem_singleton] at hw
    rcases hw with hw | hw | rfl
    · exact unitWords_not_mem (by decide) w hw
    · exact unitWords_not_mem (by decide) w hw
    · exact hspace
  · rw [intervalUnits_months (.inl rfl) (by omega) (by omega) hmonths hmonths', Int.zero_add,
      intervalUnits_days (.inl rfl) days.le_toInt days.toInt_lt]

theorem years_months (n : Int) : n.tdiv 12 * 12 + n.tmod 12 = n ∧ -12 < n.tmod 12 ∧ n.tmod 12 < 12 ∧
    (0 ≤ n → 0 ≤ n.tmod 12) ∧ (n ≤ 0 → n.tmod 12 ≤ 0) := by
  refine ⟨?_, Int.lt_tmod_of_pos n (by decide), Int.tmod_lt_of_pos n (by decide),
    Int.tmod_nonneg 12, fun hn => ?_⟩
  · rw [Int.mul_comm]
    exact Int.mul_tdiv_add_tmod n 12
  · have hneg := Int.tmod_nonneg 12 (Int.neg_nonneg_of_nonpos hn)
    rw [Int.neg_tmod] at hneg
    omega

theorem scanIntervalText_postgres {microseconds : Int64} (h : microseconds ≠ Int64.minValue)
    (days months : Int32) :
    scanIntervalText (postgresIntervalText ⟨microseconds.toInt, days.toInt, months.toInt⟩) =
      (.ok ⟨microseconds.toInt, days.toInt, months.toInt⟩ : Checked (TextScanError ε) Interval) := by
  have hlow := microseconds.le_toInt
  have hmin : microseconds.toInt ≠ -2 ^ 63 := fun heq => h (Int64.toInt_inj.mp heq)
  have hmonths := months.le_toInt
  have hmonths' := months.toInt_lt
  obtain ⟨hyears, hrest⟩ := years_months months.toInt
  unfold postgresIntervalText
  dsimp only
  generalize hout : PostgresOutput.part _ days.toInt "day" = out
  have hunits : ∀ time, intervalUnits (out.words ++ time) 0 0 =
      (intervalUnits time months.toInt days.toInt : Checked (TextScanError ε) _) := by
    intro time
    rw [← hout]
    simp only [PostgresOutput.part, nil_append, append_assoc]
    rw [intervalUnits_years (plural_unit "year" _) (by omega) (by omega),
      intervalUnits_months (plural_unit "mon" _) (by omega) (by omega) (by omega) (by omega), hyears,
      intervalUnits_days (plural_unit "day" _) days.le_toInt days.toInt_lt]
  have hspace : ∀ w ∈ out.words, 32 ∉ w := by
    rw [← hout]
    intro w hw
    simp only [PostgresOutput.part, nil_append, mem_append] at hw
    rcases hw with (hw | hw) | hw
    all_goals exact unitWords_not_mem (plural_not_mem (by decide) _) w hw
  by_cases htime : out.words = [] ∨ microseconds.toInt ≠ 0
  · have hfraction := trimmedFraction_text (n := microseconds.toInt.natAbs % 1000000) (by omega)
    have hclock :=
      intervalTime_clockText (ε := ε) (by omega) microseconds.toInt_lt hfraction out.isBefore
    rw [if_pos htime]
    refine scanIntervalText_words (by simp) ?_ (hunits _) (.inr ⟨_, rfl, hclock⟩)
    intro w hw
    rcases mem_append.mp hw with hw | hw
    · exact hspace w hw
    · rw [mem_singleton.mp hw]
      exact not_mem_append (signOf_not_mem (by decide)) (clockText_not_mem hfraction)
  · rw [if_neg htime, append_nil]
    obtain ⟨hne, hzero⟩ := not_or.mp htime
    have := hunits []
    rw [append_nil] at this
    exact scanIntervalText_words hne hspace this (.inl ⟨rfl, not_not.mp hzero⟩)

/-- Both forms of an interval read back as the interval. -/
theorem intervalText_roundTrip (microseconds : Int64) (days months : Int32)
    (h : microseconds ≠ Int64.minValue) :
    let i : Interval := ⟨microseconds.toInt, days.toInt, months.toInt⟩
    scanIntervalText (encodeIntervalText i) = (.ok i : Checked (TextScanError ε) Interval) ∧
      scanIntervalText (postgresIntervalText i) = (.ok i : Checked (TextScanError ε) Interval) :=
  ⟨scanIntervalText_encode microseconds days months, scanIntervalText_postgres h days months⟩

/-- Parts with different signs -/
theorem intervalText_roundTrip_mixed : scanIntervalText (postgresIntervalText ⟨-1500000, 3, -13⟩) =
      (.ok ⟨-1500000, 3, -13⟩ : Checked (TextScanError Empty) Interval) :=
  (intervalText_roundTrip (-1500000) 3 (-13) (by decide)).2

/-- `encodePlanIntervalCodecBinary.Encode` -/
def encodeIntervalBinary (interval : Interval) : Bytes :=
  bigEndian 8 (unsigned 64 interval.microseconds) ++ (bigEndian 4 (unsigned 32 interval.days) ++
    bigEndian 4 (unsigned 32 interval.months))

/-- `scanPlanBinaryIntervalToIntervalScanner.Scan` -/
def scanIntervalBinary (src : Bytes) : Checked (TextScanError ε) Interval :=
  if src.length ≠ 16 then
    returnError (.errorf "Received an invalid size for an interval: %d"
      [asciiText (formatUint src.length)])
  else
    .ok {
      microseconds := signed 64 (fromBigEndian (src.take 8))
      days := signed 32 (fromBigEndian ((src.drop 8).take 4))
      months := signed 32 (fromBigEndian (src.drop 12)) }

/-- `durationWrapper.ScanInterval`: what is stored, in nanoseconds. The sum wraps as its products
do. -/
def scanDuration : Option Interval → Checked (TextScanError ε) Int
  | none => returnError (.errorf "cannot scan NULL into *time.Interval" [])
  | some v =>
    let us := signed 64 (v.months * 2592000000000 + v.days * 86400000000 + v.microseconds)
    .ok (signed 64 (us * 1000))

theorem scanIntervalBinary_encode (microseconds : Int64) (days months : Int32) :
    scanIntervalBinary (encodeIntervalBinary ⟨microseconds.toInt, days.toInt, months.toInt⟩) =
      (.ok ⟨microseconds.toInt, days.toInt, months.toInt⟩ : Checked (TextScanError ε) Interval) := by
  have hread64 :
      ∀ n : Int64, signed 64 (fromBigEndian (bigEndian 8 (unsigned 64 n.toInt))) = n.toInt := by
    intro n
    have hlow := n.le_toInt
    have hhigh := n.toInt_lt
    rw [fromBigEndian_bigEndian_of_lt (unsigned_lt 64 _), signed_unsigned,
      signed_of_fits (by omega) (by omega)]
  have hread32 :
      ∀ n : Int32, signed 32 (fromBigEndian (bigEndian 4 (unsigned 32 n.toInt))) = n.toInt := by
    intro n
    have hlow := n.le_toInt
    have hhigh := n.toInt_lt
    rw [fromBigEndian_bigEndian_of_lt (unsigned_lt 32 _), signed_unsigned,
      signed_of_fits (by omega) (by omega)]
  have hdrop : ∀ (a b : Nat) (x y z : Bytes), x.length = a → y.length = b →
      (x ++ (y ++ z)).drop (a + b) = z := by
    rintro _ _ x y z rfl rfl
    rw [← drop_drop, drop_left, drop_left]
  unfold scanIntervalBinary encodeIntervalBinary
  rw [if_neg (by simp [bigEndian_length]), take_left' (bigEndian_length ..),
    drop_left' (bigEndian_length ..),
    take_left' (bigEndian_length ..), hdrop 8 4 _ _ _ (bigEndian_length ..) (bigEndian_length ..),
    hread64, hread32, hread32]

/-- The interval in nanoseconds, with months of 30 days and days of 24 hours -/
def Interval.nanoseconds (i : Interval) : Int :=
  i.months * (30 * 24 * 3600 * 10 ^ 9) + i.days * (24 * 3600 * 10 ^ 9) + i.microseconds * 1000

def FitsDuration (n : Int) : Prop := -2 ^ 63 ≤ n ∧ n < 2 ^ 63

/-- Exactly the number is stored, or an error says that it does not fit. -/
def StoresDuration (n : Int) (outcome : Checked (TextScanError ε) Int) : Prop :=
  outcome = .ok n ∨ ¬ FitsDuration n ∧ ∃ err, outcome = .error (.returned err)

theorem signed64_range (n : Int) : FitsDuration (signed 64 n) := by
  have hlow := Int.le_bmod (x := n) (m := 2 ^ 64) (by decide)
  have hhigh := Int.bmod_lt (x := n) (m := 2 ^ 64) (by decide)
  unfold FitsDuration signed
  omega

/-- A duration is stored exactly if it fits, from the binary form and from both forms in text; the
server's text of the least number of microseconds is not read. -/
theorem scanDuration_exact_iff (microseconds : Int64) (days months : Int32) :
    let i : Interval := ⟨microseconds.toInt, days.toInt, months.toInt⟩
    let outcome : Checked (TextScanError ε) Int :=
      scanIntervalText (encodeIntervalText i) >>= fun v => scanDuration (some v)
    outcome = (scanIntervalBinary (encodeIntervalBinary i) >>= fun v => scanDuration (some v)) ∧
      (microseconds ≠ Int64.minValue →
        outcome = (scanIntervalText (postgresIntervalText i) >>= fun v => scanDuration (some v))) ∧
      (StoresDuration i.nanoseconds outcome ↔ FitsDuration i.nanoseconds) := by
  intro i outcome
  have houtcome : outcome = scanDuration (some i) := by
    show (scanIntervalText (encodeIntervalText i) >>= fun v => scanDuration (some v)) = _
    rw [scanIntervalText_encode]
    rfl
  refine ⟨?_, fun hmin => ?_, ?_⟩
  · rw [houtcome, scanIntervalBinary_encode]
    rfl
  · rw [houtcome, scanIntervalText_postgres hmin]
    rfl
  · have htotal : i.nanoseconds = (i.months * 2592000000000 + i.days * 86400000000 + i.microseconds)
        * 1000 := by
      unfold Interval.nanoseconds
      omega
    rw [houtcome]
    constructor
    · rintro (hstored | ⟨-, err, herr⟩)
      · have hvalue : signed 64 _ = i.nanoseconds := Except.ok.inj hstored
        rw [← hvalue]
        exact signed64_range _
      · cases herr
    · intro hfits
      obtain ⟨hlow, hhigh⟩ := hfits
      left
      show Except.ok (signed 64 (signed 64 _ * 1000)) = _
      rw [signed_of_fits (n := i.months * 2592000000000 + i.days * 86400000000 + i.microseconds)
        (by omega) (by omega),
        ← htotal, signed_of_fits (by omega) (by omega)]

/-- Three hundred years are stored as a negative duration. -/
theorem scanDuration_threeHundredYears :
    (scanIntervalBinary (encodeIntervalBinary ⟨0, 0, 3600⟩) >>= fun v => scanDuration (some v)) =
        (.ok (-9115544073709551616) : Checked (TextScanError Empty) Int) ∧
      (⟨0, 0, 3600⟩ : Interval).nanoseconds = 9331200000000000000 ∧
      ¬ StoresDuration (⟨0, 0, 3600⟩ : Interval).nanoseconds
        (.ok (-9115544073709551616) : Checked (TextScanError Empty) Int) := by
  have hscan := scanIntervalBinary_encode (ε := Empty) 0 0 3600
  refine ⟨?_, by decide, ?_⟩
  · exact congrArg Except.ok (by decide)
  rintro (hstored | ⟨-, err, herr⟩)
  · exact absurd (Except.ok.inj hstored) (by decide)
  · cases herr

end Pgx.Pgtype
