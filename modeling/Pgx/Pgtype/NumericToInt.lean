import Pgx.Go.Cursor
import Pgx.Go.Platform
import Pgx.Pgtype.NumericDecode

/-!
# Numerics as integers

`Numeric.toBigInt`, the conversion `Int64Value`, and the scans of a binary numeric into `int64`,
`uint64` and `uint`. The special values have no integer, and nothing looks at them before their nil
pointer is used.
-/
namespace Pgx.Pgtype

open Pgx.Go Pgx.Effect List Numeric

variable {i : Int} {n : Numeric}

inductive IntError where
  | numeric (err : NumericError)
  | convert (format : String) (n : Numeric)
  | int (format : String) (operand : Int)
  | new (text : String)
  | wrapped (format : String) (err : IntError)
  deriving DecidableEq

/-- `big.Int.Exp` of ten, which is one for an exponent that is not positive -/
def exp10 (y : Int) : Int := if y ≤ 0 then 1 else 10 ^ y.toNat

namespace Numeric

/-- A nil `Int` is returned as it is unless it must be scaled. -/
def toBigInt (n : Numeric) : Checked IntError (Option Int) :=
  if n.exp = 0 then .ok n.int
  else
    match n.int with
    | none => .error .panic
    | some num =>
      if 0 < n.exp.toInt then .ok (some (num * exp10 n.exp.toInt))
      else if num % exp10 (signed 32 (-n.exp.toInt)) ≠ 0 then
        .error (.returned (.convert "cannot convert %v to integer" n))
      else .ok (some (num / exp10 (signed 32 (-n.exp.toInt))))

/-- The integer if it is in the range. `IsInt64` and `IsUint64` dereference the pointer. -/
def toInteger (wrap : IntError → IntError) (lo hi : Int) (outOfRange : Int → IntError) (n : Numeric) :
    Checked IntError Int :=
  match n.toBigInt with
  | .error (.returned err) => .error (.returned (wrap err))
  | .error .panic => .error .panic
  | .ok none => .error .panic
  | .ok (some bi) => if lo ≤ bi ∧ bi ≤ hi then .ok bi else .error (.returned (outOfRange bi))

def int64Value (n : Numeric) : Checked IntError (Option Int) :=
  if !n.valid then .ok none
  else
    (n.toInteger id (-2 ^ 63) (2 ^ 63 - 1) fun _ => .convert "cannot convert %v to int64" n).map some

end Numeric

def scanInt64Binary (src : Option Bytes) : Budget (Checked IntError Int) :=
  match src with
  | none => pure (.error (.returned (.new "cannot scan NULL into *int64")))
  | some src => do
    match ← scanNumericBinary (some src) with
    | .error err => pure (.error (.returned (.numeric err)))
    | .ok n => pure (n.toInteger id (-2 ^ 63) (2 ^ 63 - 1) (.int "%v is out of range for int64"))

/-- The plan for a `NumericScanner` with this `ScanNumeric` -/
def scanInto (scanNumeric : Numeric → Checked IntError Int) (src : Option Bytes) :
    Budget (Checked IntError Int) := do
  match ← scanNumericBinary src with
  | .error err => pure (.error (.returned (.numeric err)))
  | .ok n => pure (scanNumeric n)

def uint64Wrapper.scanNumeric (v : Numeric) : Checked IntError Int :=
  if !v.valid then .error (.returned (.new "cannot scan NULL into *uint64"))
  else
    v.toInteger (.wrapped "cannot scan into *uint64: %w") 0 (2 ^ 64 - 1)
      (.int "cannot scan %v into *uint64")

/-- What `IsUint64` lets through may still be too large for a `uint`. -/
def uintWrapper.scanNumeric (p : Platform) (v : Numeric) : Checked IntError Int :=
  if !v.valid then .error (.returned (.new "cannot scan NULL into *uint"))
  else
    match v.toInteger (.wrapped "cannot scan into *uint: %w") 0 (2 ^ 64 - 1)
      (.int "cannot scan %v into *uint") with
    | .error err => .error err
    | .ok ui => if 2 ^ p.bits - 1 < ui then .error
      (.returned (.int "cannot scan %v into *uint" ui)) else .ok ui

inductive IntTarget where
  | int64
  | uint64
  | uint (p : Platform)

namespace IntTarget

def lo : IntTarget → Int
  | int64 => -2 ^ 63
  | _ => 0

def hi : IntTarget → Int
  | int64 => 2 ^ 63 - 1
  | uint64 => 2 ^ 64 - 1
  | uint p => 2 ^ p.bits - 1

def scan : IntTarget → Option Bytes → Budget (Checked IntError Int)
  | int64 => scanInt64Binary
  | uint64 => scanInto uint64Wrapper.scanNumeric
  | uint p => scanInto (uintWrapper.scanNumeric p)

def take : IntTarget → Numeric → Checked IntError Int
  | int64 => Numeric.toInteger id (-2 ^ 63) (2 ^ 63 - 1) (.int "%v is out of range for int64")
  | uint64 => uint64Wrapper.scanNumeric
  | uint p => uintWrapper.scanNumeric p

end IntTarget

/-! ## What a conversion should do -/

/-- The value comes out if it is an integer of the range, and an error otherwise. -/
structure Exactly (lo hi : Int) (v : Value) (r : Checked IntError Int) : Prop where
  sound : ∀ i, r = .ok i → v = .finite i ∧ lo ≤ i ∧ i ≤ hi
  complete : ∀ i : Int, v = .finite i → lo ≤ i → i ≤ hi → r = .ok i
  returns : NoPanic r

/-- The number that `toBigInt` computes. The lowest exponent is its own negative, and then nothing
is divided by. -/
def scaled (i : Int) (exp : Int32) : ℚ := if exp.toInt = -2 ^ 31 then i else i * 10 ^ exp.toInt

def Numeric.IsNumber (n : Numeric) : Prop := n.nan = false ∧ n.infinityModifier = .finite

/-- The number is an integer of the range. -/
def Hits (lo hi : Int) (q : ℚ) : Prop := ∃ k : Int, lo ≤ k ∧ k ≤ hi ∧ q = k

/-- `Int` is there. With the lowest exponent, which is not applied, it is zero or neither it nor the
number is an integer of the range; what stands in `Int` and `Exp` of a special value is not one. -/
def Convertible (lo hi : Int) (n : Numeric) : Prop :=
  ∃ i, n.int = some i ∧
    if n.exp.toInt = -2 ^ 31 then
      n.IsNumber ∧ i = 0 ∨ (i < lo ∨ hi < i) ∧ (n.IsNumber → ¬ Hits lo hi (i * 10 ^ n.exp.toInt))
    else n.IsNumber ∨ ¬ Hits lo hi (i * 10 ^ n.exp.toInt)

theorem exp10_pos (y : Int) : 0 < exp10 y := by
  unfold exp10
  split
  · omega
  · positivity

theorem exp10_cast {y : Int} (h : 0 ≤ y) : (exp10 y : ℚ) = 10 ^ y := by
  obtain ⟨k, rfl⟩ := Int.eq_ofNat_of_zero_le h
  unfold exp10
  split
  · have hk : k = 0 := by omega
    simp [hk]
  · simp

theorem quotient_cases (i : Int) {d : Int} (hd : 0 < d) :
    (i % d = 0 ∧ (i : ℚ) / d = (i / d : Int)) ∨ (i % d ≠ 0 ∧ ∀ k : Int, (i : ℚ) / d ≠ k) := by
  have hne : (d : ℚ) ≠ 0 := by exact_mod_cast hd.ne'
  by_cases hrem : i % d = 0
  · refine .inl ⟨hrem, ?_⟩
    obtain ⟨q, rfl⟩ := Int.dvd_of_emod_eq_zero hrem
    rw [Int.mul_ediv_cancel_left _ hd.ne']
    push_cast
    field_simp
  · refine .inr ⟨hrem, fun k hk => hrem ?_⟩
    rw [div_eq_iff hne] at hk
    have hmul : i = k * d := by exact_mod_cast hk
    rw [hmul, Int.mul_emod_left]

theorem Numeric.toBigInt_of_some (h : n.int = some i) :
    (∃ k : Int, scaled i n.exp = k ∧ n.toBigInt = .ok (some k)) ∨
      ((∀ k : Int, scaled i n.exp ≠ k) ∧ ∃ err, n.toBigInt = .error (.returned err)) := by
  have hlow := n.exp.le_toInt
  by_cases hzero : n.exp = 0
  · refine .inl ⟨i, ?_, ?_⟩
    · simp [scaled, hzero]
    · simp [toBigInt, hzero, h]
  by_cases hpos : 0 < n.exp.toInt
  · refine .inl ⟨i * exp10 n.exp.toInt, ?_, ?_⟩
    · rw [scaled, if_neg (by omega), Int.cast_mul, exp10_cast (le_of_lt hpos)]
    · simp [toBigInt, hzero, h, hpos]
  have hscaled : scaled i n.exp = (i : ℚ) / exp10 (signed 32 (-n.exp.toInt)) := by
    unfold scaled
    split
    · next hmin =>
      rw [hmin]
      have hone : exp10 (signed 32 (-(-2 ^ 31))) = 1 := by decide
      rw [hone, Int.cast_one, div_one]
    · rw [signed_of_fits (by omega) (by omega), exp10_cast (by omega), zpow_neg, div_inv_eq_mul]
  rcases quotient_cases i (exp10_pos (signed 32 (-n.exp.toInt))) with ⟨hrem, hquot⟩ | ⟨hrem, hquot⟩
  · refine .inl ⟨_, hscaled.trans hquot, ?_⟩
    simp [toBigInt, hzero, h, hpos, hrem]
  · refine .inr ⟨fun k hk => hquot k (hscaled.symm.trans hk), ?_⟩
    simp [toBigInt, hzero, h, hpos, hrem]

theorem Numeric.toInteger_of_none (h : n.int = none) (wrap : IntError → IntError) (lo hi : Int)
    (outOfRange : Int → IntError) : n.toInteger wrap lo hi outOfRange = .error .panic := by
  have hbig : n.toBigInt = .ok none ∨ n.toBigInt = .error .panic := by
    unfold toBigInt
    rw [h]
    by_cases hzero : n.exp = 0 <;> simp [hzero]
  rcases hbig with hbig | hbig <;> simp [toInteger, hbig]

/-- What a conversion returns is the scaled number, if it is an integer of the range. -/
structure Returns (lo hi : Int) (q : ℚ) (r : Checked IntError Int) : Prop where
  returns : NoPanic r
  ok_iff : ∀ k : Int, r = .ok k ↔ q = k ∧ lo ≤ k ∧ k ≤ hi

theorem Numeric.toInteger_of_some (h : n.int = some i) (wrap : IntError → IntError) (lo hi : Int)
    (outOfRange : Int → IntError) : Returns lo hi (scaled i n.exp)
      (n.toInteger wrap lo hi outOfRange) := by
  rcases toBigInt_of_some h with ⟨k, hk, hbig⟩ | ⟨hnone, err, hbig⟩
  · rw [hk]
    by_cases hrange : lo ≤ k ∧ k ≤ hi
    · have hout : n.toInteger wrap lo hi outOfRange = .ok k := by simp [toInteger, hbig, hrange]
      rw [hout]
      refine ⟨noPanic_ok k, fun j => ?_⟩
      rw [Except.ok.injEq, Int.cast_inj]
      constructor
      · rintro rfl
        exact ⟨rfl, hrange⟩
      · exact fun hj => hj.1
    · have hout : n.toInteger wrap lo hi outOfRange = .error (.returned (outOfRange k)) := by
        simp only [toInteger, hbig, if_neg hrange]
      rw [hout]
      refine ⟨noPanic_returned _, fun j => ⟨nofun, fun hj => ?_⟩⟩
      rw [Int.cast_inj] at hj
      obtain ⟨rfl, hj⟩ := hj
      exact absurd hj hrange
  · have hout : n.toInteger wrap lo hi outOfRange = .error (.returned (wrap err)) := by
      simp only [toInteger, hbig]
    rw [hout]
    exact ⟨noPanic_returned _, fun j => ⟨nofun, fun hj => absurd hj.1 (hnone j)⟩⟩

theorem Returns.exactly_iff {lo hi : Int} {q : ℚ} {v : Value} {r : Checked IntError Int}
    (h : Returns lo hi q r) :
    Exactly lo hi v r ↔ ∀ k : Int, lo ≤ k → k ≤ hi → (q = k ↔ v = .finite k) := by
  constructor
  · intro hr k hlo hhi
    constructor
    · intro hq
      exact (hr.sound k ((h.ok_iff k).mpr ⟨hq, hlo, hhi⟩)).1
    · intro hv
      exact ((h.ok_iff k).mp (hr.complete k hv hlo hhi)).1
  · intro hall
    refine ⟨fun k hk => ?_, fun k hv hlo hhi => ?_, h.returns⟩
    · obtain ⟨hq, hlo, hhi⟩ := (h.ok_iff k).mp hk
      exact ⟨(hall k hlo hhi).mp hq, hlo, hhi⟩
    · exact (h.ok_iff k).mpr ⟨(hall k hlo hhi).mpr hv, hlo, hhi⟩

theorem Numeric.value_of_number (hvalid : n.valid = true) (hnum : n.IsNumber) (h : n.int = some i) :
    n.value = .finite (i * 10 ^ n.exp.toInt) := by
  simp [value, hvalid, hnum.1, hnum.2, h]

theorem Numeric.value_of_special (hvalid : n.valid = true) (hnum : ¬ n.IsNumber) (q : ℚ) :
    n.value ≠ .finite q := by
  cases hnan : n.nan with
  | true => simp [value, hvalid, hnan]
  | false =>
    cases hinf : n.infinityModifier with
    | finite => exact absurd ⟨hnan, hinf⟩ hnum
    | _ => simp [value, hvalid, hnan, hinf]

/-- The lowest exponent leaves an integer as it is. Only zero is then its own value. -/
theorem unscaled_iff {lo hi : Int} {e : Int} (he : e = -2 ^ 31) :
    (∀ k : Int, lo ≤ k → k ≤ hi → ((i : ℚ) = k ↔ (i : ℚ) * 10 ^ e = k)) ↔
      i = 0 ∨ (i < lo ∨ hi < i) ∧ ¬ Hits lo hi (i * 10 ^ e) := by
  constructor
  · intro hall
    by_cases hrange : lo ≤ i ∧ i ≤ hi
    · left
      have hself := (hall i hrange.1 hrange.2).mp rfl
      have hlt : (10 : ℚ) ^ e < 1 := zpow_lt_one_of_neg₀ (by norm_num) (by omega)
      rcases mul_right_eq_self₀.mp hself with hone | hzero
      · exact absurd hone hlt.ne
      · exact_mod_cast hzero
    · refine .inr ⟨by omega, ?_⟩
      rintro ⟨k, hlo, hhi, hk⟩
      obtain rfl : i = k := by exact_mod_cast (hall k hlo hhi).mpr hk
      exact hrange ⟨hlo, hhi⟩
  · rintro (rfl | ⟨hout, hmiss⟩) k hlo hhi
    · simp
    · refine iff_of_false (fun hk => ?_) fun hk => hmiss ⟨k, hlo, hhi, hk⟩
      obtain rfl : i = k := by exact_mod_cast hk
      omega

theorem Numeric.scaled_iff (hvalid : n.valid = true) (h : n.int = some i) (lo hi : Int) :
    (∀ k : Int, lo ≤ k → k ≤ hi → (scaled i n.exp = k ↔ n.value = .finite k)) ↔
    Convertible lo hi n := by
  simp only [Convertible, h, Option.some.injEq, exists_eq_left']
  by_cases hmin : n.exp.toInt = -2 ^ 31
  · have hscaled : scaled i n.exp = i := if_pos hmin
    rw [if_pos hmin, hscaled]
    by_cases hnum : n.IsNumber
    · simp only [value_of_number hvalid hnum h, Value.finite.injEq, hnum, true_and, forall_const]
      exact unscaled_iff hmin
    · simp only [value_of_special hvalid hnum, hnum, iff_false, false_and, false_or,
        false_imp_iff, and_true,
        Int.cast_inj]
      constructor
      · intro hall
        by_contra hin
        exact hall i (by omega) (by omega) rfl
      · rintro hout k hlo hhi rfl
        omega
  · have hscaled : scaled i n.exp = i * 10 ^ n.exp.toInt := if_neg hmin
    rw [if_neg hmin, hscaled]
    by_cases hnum : n.IsNumber
    · simp [value_of_number hvalid hnum h, hnum]
    · simp only [value_of_special hvalid hnum, hnum, iff_false, false_or, Hits]
      push Not
      exact forall_congr' fun k => forall_congr' fun _ => Iff.rfl

/-- The conversion does what it should exactly if the numeric is convertible. -/
theorem Numeric.toInteger_exactly_iff (n : Numeric) (hvalid : n.valid = true)
    (wrap : IntError → IntError) (lo hi : Int) (outOfRange : Int → IntError) :
    Exactly lo hi n.value (n.toInteger wrap lo hi outOfRange) ↔ Convertible lo hi n := by
  cases hint : n.int with
  | none =>
    constructor
    · intro h
      exact absurd (n.toInteger_of_none hint wrap lo hi outOfRange) h.returns
    · rintro ⟨i, hsome, -⟩
      cases hint.symm.trans hsome
  | some i => rw [(toInteger_of_some hint wrap lo hi outOfRange).exactly_iff, scaled_iff hvalid hint]

theorem uintWrapper.scanNumeric_returns (p : Platform) (hvalid : n.valid = true)
    (h : n.int = some i) : Returns 0 (2 ^ p.bits - 1) (scaled i n.exp)
      (uintWrapper.scanNumeric p n) := by
  have hret := toInteger_of_some h (.wrapped "cannot scan into *uint: %w") 0 (2 ^ 64 - 1)
    (.int "cannot scan %v into *uint")
  have hbits : (2 : Int) ^ p.bits - 1 ≤ 2 ^ 64 - 1 := by cases p <;> decide
  unfold uintWrapper.scanNumeric
  rw [hvalid]
  generalize n.toInteger (.wrapped "cannot scan into *uint: %w") 0 (2 ^ 64 - 1)
    (.int "cannot scan %v into *uint") = r
    at hret
  simp only [Bool.not_true, Bool.false_eq_true, if_false]
  generalize (2 : Int) ^ p.bits - 1 = hi at hbits
  cases r with
  | error err =>
    refine ⟨fun hp =>
      hret.returns (congrArg Except.error (Except.error.inj hp)), fun k => ⟨nofun, ?_⟩⟩
    intro hk
    exact nomatch (hret.ok_iff k).mpr ⟨hk.1, hk.2.1, by omega⟩
  | ok ui =>
    obtain ⟨hq, hlo, hhi⟩ := (hret.ok_iff ui).mp rfl
    rw [hq]
    simp only
    split
    · refine ⟨noPanic_returned _, fun k => ⟨nofun, fun hk => ?_⟩⟩
      rw [Int.cast_inj] at hk
      omega
    · refine ⟨noPanic_ok _, fun k => ?_⟩
      rw [Except.ok.injEq, Int.cast_inj]
      omega

theorem IntTarget.take_returns (t : IntTarget) (hvalid : n.valid = true) (h : n.int = some i) :
    Returns t.lo t.hi (scaled i n.exp) (t.take n) := by
  cases t with
  | int64 => exact toInteger_of_some h _ _ _ _
  | uint64 =>
    have htake : take .uint64 n = n.toInteger (.wrapped "cannot scan into *uint64: %w") 0 (2 ^ 64 - 1)
        (.int "cannot scan %v into *uint64") := if_neg (by simp [hvalid])
    rw [htake]
    exact toInteger_of_some h _ _ _ _
  | uint p => exact uintWrapper.scanNumeric_returns p hvalid h

theorem IntTarget.take_exactly (t : IntTarget) (h : n.Ordinary) :
    Exactly t.lo t.hi n.value (t.take n) := by
  obtain ⟨i, hint⟩ := Option.ne_none_iff_exists'.mp h.hasInt
  rw [(t.take_returns h.valid hint).exactly_iff]
  intro k _ _
  have hexp := h.exponent
  rw [value_of_number h.valid ⟨h.number, h.finite⟩ hint, scaled, if_neg (by omega),
    Value.finite.injEq]

/-- A special value is not told from a number, and its nil pointer is used. -/
theorem IntTarget.take_panics (t : IntTarget) (hvalid : n.valid = true) (h : n.int = none) :
    t.take n = .error .panic := by
  cases t with
  | int64 => exact n.toInteger_of_none h _ _ _ _
  | uint64 => simp [take, uint64Wrapper.scanNumeric, hvalid, n.toInteger_of_none h]
  | uint p => simp [take, uintWrapper.scanNumeric, hvalid, n.toInteger_of_none h]

theorem IntTarget.scan_spends (t : IntTarget) {src : Bytes} {k : Nat}
    (h : Budget.Spends (scanNumericBinary (some src)) k (.ok n)) :
    Budget.Spends (t.scan (some src)) k (t.take n) := by
  cases t with
  | int64 => exact h.bind_zero (.pure _)
  | uint64 => exact h.bind_zero (.pure _)
  | uint p => exact h.bind_zero (.pure _)

/-! ## What the server sends -/

/-- A binary numeric as `numeric_send` writes it: a sign of the server's, the digits and nothing
behind them, no zero in front, and a scale that hides none of them. -/
structure Sent (src : Bytes) : Prop where
  length : src.length = 8 + 2 * (header src).ndigits
  count : (header src).ndigits ≤ 65532
  leading : ∀ d, (words (src.drop 8)).head? = some d → d ≠ 0
  sign : (header src).sign ∈ [0, numericNeg, pgNumericNaNSign, pgNumericPosInfSign,
    pgNumericNegInfSign]
  visible : Visible src

def Value.IsFinite (v : Value) : Prop := ∃ q, v = .finite q

theorem radix_value_ne_zero {ds : List Nat} {d : Nat} (hhead : ds.head? = some d) (hd : d ≠ 0) :
    Radix.value nbase ds ≠ 0 := by
  obtain ⟨tail, rfl⟩ := head?_eq_some_iff.mp hhead
  have hpow : 0 < nbase ^ tail.length := Nat.pow_pos (by decide)
  have happ : Radix.value nbase ([d] ++ tail) = _ := Radix.value_append ..
  have hone : Radix.value nbase [d] = d := by simp [Radix.value]
  rw [singleton_append, hone] at happ
  have := Nat.mul_pos (Nat.pos_of_ne_zero hd) hpow
  omega

namespace Sent

variable {src : Bytes} (h : Sent src)
include h

theorem exact : Exact src := ⟨h.count, .inr (by have := h.length; omega)⟩

theorem covered_eq (d : Digital src) : covered src = stated src := by
  rcases covered_cases d with ⟨-, heq⟩ | ⟨hexact, -⟩ | ⟨hexact, -⟩
  · exact heq
  · exact absurd (h.exact) hexact
  · exact absurd (h.exact) hexact

theorem signed (d : Digital src) : Signed src := by
  have hsign := h.sign
  simp only [mem_cons, d.notNaN, d.notPosInf, d.notNegInf, not_mem_nil, or_false] at hsign
  exact hsign.imp_right .inl

theorem not_endless (d : Digital src) : ¬ Endless src := by
  intro hend
  have hlen := h.length
  have hdigits := d.digits
  have hwords : (words (src.drop 8)).length = (header src).ndigits := by
    rw [words_length, length_drop]
    omega
  have hstated : stated src = words (src.drop 8) := take_of_length_le (by omega)
  cases hhead : (words (src.drop 8)).head? with
  | none =>
    rw [head?_eq_none_iff] at hhead
    rw [hhead] at hwords
    exact hdigits hwords.symm
  | some d' =>
    have hzero := hend.2.2
    rw [h.covered_eq d, hstated] at hzero
    exact radix_value_ne_zero hhead (h.leading d' hhead) hzero

theorem scan_number (hfinite : (denoted src).IsFinite) :
    ∃ k ≤ roundBound src.length (header src), ∃ n,
    Budget.Spends (scanNumericBinary (some src)) k (.ok n) ∧
      n.Ordinary ∧ n.value = denoted src := by
  have hlen := h.length
  obtain ⟨q, hq⟩ := hfinite
  have h1 : (header src).sign ≠ pgNumericNaNSign := fun hs => by simp [denoted, hs] at hq
  have h2 : (header src).sign ≠ pgNumericPosInfSign := fun hs => by
    simp only [denoted, if_neg h1, if_pos hs] at hq
    cases hq
  have h3 : (header src).sign ≠ pgNumericNegInfSign := fun hs => by
    simp only [denoted, if_neg h1, if_neg h2, if_pos hs] at hq
    cases hq
  by_cases h4 : (header src).ndigits = 0
  · refine ⟨0, Nat.zero_le _, _, scan_noDigits (by omega) h1 h2 h3 h4, ?_, ?_⟩
    · exact ⟨rfl, rfl, rfl, Option.some_ne_none 0, by decide⟩
    · rw [denoted_eq h1 h2 h3, shown_noDigits h4]
      simp [value]
  · have d : Digital src := ⟨by omega, h1, h2, h3, h4, by omega⟩
    obtain ⟨k, hk, n, hspends, hord, hvalue⟩ := scan_value d (h.not_endless d)
    refine ⟨k, hk, n, hspends, hord, ?_⟩
    rw [hvalue]
    exact (value_eq_denoted_iff d).mpr ⟨.inl ⟨h.exact, h.visible⟩, h.signed d⟩

theorem scan_special (hspecial : ¬ (denoted src).IsFinite) :
    ∃ n, Budget.Spends (scanNumericBinary (some src)) 0 (.ok n) ∧ n.valid = true ∧ n.int = none := by
  have hlen : ¬ src.length < 8 := by
    have := h.length
    omega
  by_cases h1 : (header src).sign = pgNumericNaNSign
  · simp only [scanNumericBinary, if_neg hlen, if_pos h1]
    exact ⟨_, .pure _, rfl, rfl⟩
  by_cases h2 : (header src).sign = pgNumericPosInfSign
  · simp only [scanNumericBinary, if_neg hlen, if_neg h1, if_pos h2]
    exact ⟨_, .pure _, rfl, rfl⟩
  by_cases h3 : (header src).sign = pgNumericNegInfSign
  · simp only [scanNumericBinary, if_neg hlen, if_neg h1, if_neg h2, if_pos h3]
    exact ⟨_, .pure _, rfl, rfl⟩
  · exact absurd ⟨_, denoted_eq h1 h2 h3⟩ hspecial

theorem scan_exactly_iff (t : IntTarget) :
    (∃ r left, t.scan (some src) (roundBound src.length (header src)) = some (r, left) ∧
      Exactly t.lo t.hi (denoted src) r) ↔ (denoted src).IsFinite := by
  by_cases hfinite : (denoted src).IsFinite
  · obtain ⟨k, hk, n, hspends, hord, hvalue⟩ := h.scan_number hfinite
    rw [(t.scan_spends hspends).exists_iff hk]
    have hexact := t.take_exactly hord
    rw [hvalue] at hexact
    exact iff_of_true hexact hfinite
  · obtain ⟨n, hspends, hvalid, hint⟩ := h.scan_special hfinite
    rw [(t.scan_spends hspends).exists_iff (Nat.zero_le _), t.take_panics hvalid hint]
    exact iff_of_false (fun hexact => hexact.returns rfl) hfinite

end Sent

/-- Scans of what the server sends give the value or an error exactly for the numbers, and so does
`Int64Value` for the convertible ones. -/
theorem toInteger_exactly (src : Bytes) (t : IntTarget) (n : Numeric) :
    (Sent src →
      ((∃ r left, t.scan (some src) (roundBound src.length (header src)) = some (r, left) ∧
        Exactly t.lo t.hi (denoted src) r) ↔ (denoted src).IsFinite)) ∧
    (n.valid = false → n.int64Value = .ok none) ∧ (n.valid = true →
      ((∃ r, n.int64Value = r.map some ∧ Exactly (-2 ^ 63) (2 ^ 63 - 1) n.value r) ↔
        Convertible (-2 ^ 63) (2 ^ 63 - 1) n)) := by
  refine ⟨fun h => h.scan_exactly_iff t, fun hvalid => ?_, fun hvalid => ?_⟩
  · simp [Numeric.int64Value, hvalid]
  · have hout : n.int64Value =
        (n.toInteger id (-2 ^ 63) (2 ^ 63 - 1) fun _ =>
          .convert "cannot convert %v to int64" n).map some := by
      simp [Numeric.int64Value, hvalid]
    rw [hout, ← n.toInteger_exactly_iff hvalid id _ _ fun _ =>
      .convert "cannot convert %v to int64" n]
    constructor
    · rintro ⟨r, hr, hexact⟩
      have hsame : n.toInteger id (-2 ^ 63) (2 ^ 63 - 1)
          (fun _ => .convert "cannot convert %v to int64" n) = r := by
        generalize n.toInteger id (-2 ^ 63) (2 ^ 63 - 1)
          (fun _ => .convert "cannot convert %v to int64" n) = s at hr
        cases s <;> cases r <;> simp_all [Except.map]
      rw [hsame]
      exact hexact
    · exact fun hexact => ⟨_, rfl, hexact⟩

def sevenSent : Bytes := [0, 1, 0, 0, 0, 0, 0, 0, 0, 7]

theorem sevenSent_sent : Sent sevenSent where
  length := by decide
  count := by decide
  leading := fun d hd => by
    have hwords : words (sevenSent.drop 8) = [7] := by decide
    rw [hwords] at hd
    obtain rfl := Option.some.inj hd
    decide
  sign := by decide
  visible := by
    have hscale : (header sevenSent).dscale = 0 := by decide
    have hdigits : Radix.value nbase (stated sevenSent) = 7 := by decide
    have hexp : (header sevenSent).exp = 0 := by decide
    simp [Visible, positional_eq, hscale, hdigits, hexp]

/-- Seven, from the server and from a `Numeric` -/
theorem toInteger_exactly_sample :
    (∃ r left, IntTarget.int64.scan (some sevenSent)
      (roundBound sevenSent.length (header sevenSent)) = some (r, left) ∧
      Exactly (-2 ^ 63) (2 ^ 63 - 1) (denoted sevenSent) r) ∧
    ∃ r, Numeric.int64Value { int := some 7, valid := true } = r.map some ∧
      Exactly (-2 ^ 63) (2 ^ 63 - 1) (Numeric.value { int := some 7, valid := true }) r := by
  obtain ⟨hscan, -, hvalue⟩ := toInteger_exactly sevenSent .int64 { int := some 7, valid := true }
  refine ⟨(hscan sevenSent_sent).mpr ⟨_, denoted_eq (by decide) (by decide) (by decide)⟩, ?_⟩
  refine (hvalue rfl).mpr ⟨7, rfl, ?_⟩
  rw [if_neg (by decide)]
  exact .inl ⟨rfl, rfl⟩

def nanSent : Bytes := [0, 0, 0, 0, 0xc0, 0, 0, 0]

/-- A NaN has no `Int`, and its pointer is followed. -/
theorem nanSent_panics : Sent nanSent ∧ IntTarget.int64.scan (some nanSent) 0 = some
    (.error .panic, 0) ∧
      IntTarget.uint64.scan (some nanSent) 0 = some (.error .panic, 0) ∧
      Numeric.int64Value { nan := true, valid := true } = .error .panic :=
  ⟨⟨by decide, by decide, nofun, by decide, .inr (by
    have hdigits : Radix.value nbase (stated nanSent) = 0 := by decide
    simp [positional_eq, hdigits])⟩, rfl, rfl, rfl⟩

end Pgx.Pgtype
