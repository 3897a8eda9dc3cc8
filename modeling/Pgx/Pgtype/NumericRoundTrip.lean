import Pgx.Pgtype.NumericDecode
import Mathlib.Data.Nat.Digits.Defs

/-!
# Numerics survive encoding

A finite numeric whose digit count, weight and scale fit their 16-bit fields is
decoded from its binary encoding with the same value, and with the same integer and
exponent when it has a fraction. The text of a numeric parses back to its value.
-/
namespace Pgx.Pgtype

open Pgx.Go Pgx.Effect List Radix

theorem nbaseDigits_whole (v : Nat) : ∃ k, Budget.Spends (nbaseDigits 0 v) k
    (Nat.digits nbase v) := by
  have hfrom : ∀ v acc, ∃ k, Budget.Spends (.loop (digitRound 0) (v, acc)) k
      (acc ++ Nat.digits nbase v) := by
    intro v
    induction v using Nat.strong_induction_on with
    | _ v ih =>
      intro acc
      by_cases hv : v = 0
      · subst hv
        refine ⟨0, ?_⟩
        exact .loop_done (by simp [digitRound])
      · have hpos := Nat.pos_of_ne_zero hv
        obtain ⟨k, hk⟩ := ih (v / nbase) (Nat.div_lt_self hpos (by decide)) (acc ++ [v % nbase])
        refine ⟨k + 1, ?_⟩
        rw [Nat.digits_def' (by decide) hpos, append_cons]
        exact .loop_step (if_pos hv) hk
  exact hfrom v []

/-- The digits of the fraction under a leading one: as many as the one stands for. -/
theorem nbaseDigits_frac (k f : Nat) (hf : f < nbase ^ k) :
    ∃ ds, Budget.Spends (nbaseDigits 1 (f + nbase ^ k)) k ds ∧ ds.length = k ∧
      (∀ d ∈ ds, d < nbase) ∧ value nbase ds.reverse = f := by
  have hfrom : ∀ k f acc, f < nbase ^ k → ∃ ds,
      Budget.Spends (.loop (digitRound 1) (f + nbase ^ k, acc)) k (acc ++ ds) ∧ ds.length = k ∧
        (∀ d ∈ ds, d < nbase) ∧ value nbase ds.reverse = f := by
    intro k
    induction k with
    | zero =>
      intro f acc hf
      obtain rfl : f = 0 := by simpa using hf
      refine ⟨[], ?_, rfl, nofun, rfl⟩
      exact .loop_done (by simp [digitRound])
    | succ k ih =>
      intro f acc hf
      have hpos : 0 < nbase ^ k := Nat.pow_pos (by decide)
      have hsucc : nbase ^ (k + 1) = nbase * nbase ^ k := pow_succ' ..
      have hdiv : (f + nbase ^ (k + 1)) / nbase = f / nbase + nbase ^ k := by
        rw [hsucc, Nat.add_mul_div_left _ _ (by decide)]
      have hmod : (f + nbase ^ (k + 1)) % nbase = f % nbase := by
        rw [hsucc, Nat.add_mul_mod_self_left]
      obtain ⟨ds, hspends, hlen, hlt, hvalue⟩ :=
        ih (f / nbase) (acc ++ [f % nbase]) (Nat.div_lt_of_lt_mul (hsucc ▸ hf))
      refine ⟨f % nbase :: ds, ?_, by rw [length_cons, hlen], ?_, ?_⟩
      · rw [append_cons]
        refine .loop_step (if_pos ?_) ?_
        · have : nbase ≤ nbase * nbase ^ k := Nat.le_mul_of_pos_right _ hpos
          have : (2 : Nat) ≤ nbase := by decide
          omega
        · rw [hdiv, hmod]
          exact hspends
      · intro d hd
        rcases mem_cons.mp hd with rfl | hd
        · exact Nat.mod_lt _ (by decide)
        · exact hlt d hd
      · rw [reverse_cons, value_concat, hvalue, Nat.mul_comm]
        exact Nat.div_add_mod f nbase
  exact hfrom k f [] hf

theorem value_reverse_digits (v : Nat) : value nbase (Nat.digits nbase v).reverse = v := by
  induction v using Nat.strong_induction_on with
  | _ v ih =>
    by_cases hv : v = 0
    · subst hv
      rfl
    · have hpos := Nat.pos_of_ne_zero hv
      rw [Nat.digits_def' (by decide) hpos, reverse_cons, value_concat,
        ih _ (Nat.div_lt_self hpos (by decide)), Nat.mul_comm]
      exact Nat.div_add_mod v nbase

/-! ## Fields of the encoding -/

namespace Numeric

def wholeCount (n : Numeric) : Nat := (Nat.digits nbase n.parts.1).length

def fracCount (n : Numeric) : Nat := (-n.aligned.2 / 4).toNat

def weight (n : Numeric) : Int :=
  if 0 < n.wholeCount then n.wholeCount - 1 + if 0 < n.aligned.2 then n.aligned.2.tdiv 4 else 0
  else n.aligned.2.tdiv 4 - 1 + n.fracCount

def scale (n : Numeric) : Int := if n.exp.toInt < 0 then -n.exp.toInt else 0

/-- The digit count, the weight and the scale are int16 numbers. -/
structure Fits (n : Numeric) : Prop where
  digitCount : n.wholeCount + n.fracCount ≤ 32767
  weightLow : -32768 ≤ n.weight
  weightHigh : n.weight ≤ 32767
  scale : n.scale ≤ 32767

/-- The exponent is made a multiple of four. -/
theorem aligned_eq (n : Numeric) :
    n.aligned = ((n.int.getD 0).natAbs * 10 ^ (n.exp.toInt % 4).toNat,
      n.exp.toInt - n.exp.toInt % 4) := by
  have hlow := n.exp.le_toInt
  have hhigh := n.exp.toInt_lt
  unfold aligned
  generalize n.exp.toInt = e at *
  have hsigned : ∀ r : Int, 0 ≤ r → -2 ^ 31 ≤ e - r → signed 32 (e - r) = e - r := fun r h0 hr =>
    signed_of_fits (by omega) (by omega)
  have htmod : e.tmod 4 = e % 4 ∨ (e.tmod 4 = e % 4 - 4 ∧ e % 4 ≠ 0) := by
    rw [Int.tmod_eq_emod]
    split <;> omega
  dsimp only
  split
  · rw [show e % 4 = 1 by omega, hsigned 1 (by omega) (by omega)]
    rfl
  split
  · rw [show e % 4 = 2 by omega, hsigned 2 (by omega) (by omega)]
    rfl
  split
  · rw [show e % 4 = 3 by omega, hsigned 3 (by omega) (by omega)]
    rfl
  · rw [show e % 4 = 0 by omega]
    simp

theorem tdiv_aligned (n : Numeric) : n.aligned.2.tdiv 4 = n.aligned.2 / 4 := by
  rw [aligned_eq]
  exact Int.tdiv_eq_ediv_of_dvd (by omega)

/-- The groups behind the point -/
theorem fracCount_eq (n : Numeric) :
    (n.aligned.2 < 0 → (n.fracCount : Int) * 4 = -n.aligned.2) ∧
    (0 ≤ n.aligned.2 → n.fracCount = 0) := by
  unfold fracCount
  rw [aligned_eq]
  omega

/-- The exponent and the realigned exponent are negative together. -/
theorem aligned_neg_iff (n : Numeric) : n.aligned.2 < 0 ↔ n.exp.toInt < 0 := by
  rw [aligned_eq]
  omega

variable {n : Numeric}

theorem parts_of_nonneg (h : 0 ≤ n.aligned.2) : n.parts = (n.aligned.1, 0) := by
  unfold parts
  dsimp only
  rw [if_neg (by omega)]

theorem parts_of_neg (h : n.aligned.2 < 0) (hs : n.scale ≤ 32767) :
    n.parts = (n.aligned.1 / nbase ^ n.fracCount,
      n.aligned.1 % nbase ^ n.fracCount + nbase ^ n.fracCount) := by
  have hneg := (aligned_neg_iff n).mp h
  have hfrac := (fracCount_eq n).1 h
  have hdiv : 10 ^ (signed 32 (-n.aligned.2)).toNat = nbase ^ n.fracCount := by
    unfold scale at hs
    rw [aligned_eq] at hfrac ⊢
    rw [signed_of_fits (by omega) (by omega), ← hfrac, show nbase = 10 ^ 4 from rfl, ← pow_mul,
      Nat.mul_comm 4]
    rfl
  unfold parts
  dsimp only
  rw [if_pos h, hdiv]

def sign (n : Numeric) : Int := if n.int.getD 0 < 0 then 16384 else 0

/-- The header and the digits, most significant first. -/
def image (n : Numeric) (ds : List Nat) : Bytes :=
  bigEndian 2 (unsigned 16 (n.wholeCount + n.fracCount)) ++ (bigEndian 2 (unsigned 16 n.weight) ++
    (bigEndian 2 (unsigned 16 n.sign) ++ (bigEndian 2 (unsigned 16 n.scale) ++
      ds.flatMap fun d : Nat => bigEndian 2 (unsigned 16 d))))

theorem foldl_appendInt16 (ds : List Nat) (buf : Bytes) :
    ds.foldl (fun buf (d : Nat) => appendInt16 buf d) buf = buf ++ ds.flatMap fun d : Nat =>
      bigEndian 2 (unsigned 16 d) := by
  induction ds generalizing buf with
  | nil => simp
  | cons d ds ih => rw [foldl_cons, ih, flatMap_cons, appendInt16, append_assoc]

/-- The digits of both parts are those of the realigned integer. -/
theorem encode_spends (hvalid : n.valid = true) (hnan : n.nan = false)
    (hfin : n.infinityModifier = .finite) (hs : n.scale ≤ 32767) (buf : Bytes) :
    ∃ k ds, Budget.Spends (encodeNumericBinary n buf) k (some (buf ++ n.image ds)) ∧
      ds.length = n.wholeCount + n.fracCount ∧ (∀ d ∈ ds, d < nbase) ∧
      Radix.value nbase ds = n.aligned.1 := by
  obtain ⟨k, hwhole⟩ := nbaseDigits_whole n.parts.1
  have hlt : ∀ d ∈ Nat.digits nbase n.parts.1, d < nbase :=
    fun d hd => Nat.digits_lt_base (by decide) hd
  have hfrac : ∃ l fs, Budget.Spends (fracNbaseDigits n.parts.2) l fs ∧
      fs.length = n.fracCount ∧ (∀ d ∈ fs, d < nbase) ∧
      n.parts.1 * nbase ^ n.fracCount + Radix.value nbase fs.reverse = n.aligned.1 := by
    by_cases he : n.aligned.2 < 0
    · have hpos : 0 < nbase ^ n.fracCount := Nat.pow_pos (by decide)
      obtain ⟨fs, hfs, hlen, hdigit, hvalue⟩ :=
        nbaseDigits_frac n.fracCount (n.aligned.1 % nbase ^ n.fracCount) (Nat.mod_lt _ hpos)
      refine ⟨n.fracCount, fs, ?_, hlen, hdigit, ?_⟩
      · unfold fracNbaseDigits
        rw [parts_of_neg he hs, if_pos (by dsimp only; omega)]
        exact hfs
      · rw [parts_of_neg he hs, hvalue]
        exact Nat.div_add_mod' ..
    · rw [parts_of_nonneg (by omega), (fracCount_eq n).2 (by omega)]
      exact ⟨0, [], .pure _, rfl, nofun, by simp⟩
  obtain ⟨l, fs, hfs, hlen, hdigit, hvalue⟩ := hfrac
  refine ⟨k + l, (Nat.digits nbase n.parts.1).reverse ++ fs.reverse, ?_, ?_, ?_, ?_⟩
  · unfold encodeNumericBinary
    simp only [hvalid, hnan, hfin, Bool.not_true, Bool.false_eq_true, if_false]
    refine hwhole.bind (hfs.bind_zero ?_)
    rw [foldl_appendInt16, foldl_appendInt16]
    simp only [appendInt16, append_assoc, hlen]
    unfold image
    rw [flatMap_append]
    exact .pure _
  · rw [length_append, length_reverse, length_reverse, hlen]
    rfl
  · intro d hd
    rcases mem_append.mp hd with hd | hd
    · exact hlt d (mem_reverse.mp hd)
    · exact hdigit d (mem_reverse.mp hd)
  · rw [Radix.value_append, value_reverse_digits, length_reverse, hlen, hvalue]

/-! ## Decoding the encoding -/

theorem fromBigEndian_field (x : Int) (rest : Bytes) :
    fromBigEndian ((bigEndian 2 (unsigned 16 x) ++ rest).take 2) = unsigned 16 x := by
  rw [take_left' (bigEndian_length ..)]
  exact fromBigEndian_bigEndian_of_lt (unsigned_lt 16 x)

theorem drop_field (x : Int) (k : Nat) (rest : Bytes) :
    (bigEndian 2 (unsigned 16 x) ++ rest).drop (k + 2) = rest.drop k := by
  rw [Nat.add_comm, ← drop_drop, drop_left' (bigEndian_length ..)]

theorem unsigned_of_fits {x : Int} (hlow : 0 ≤ x) (hhigh : x < 2 ^ 16) :
    (unsigned 16 x : Int) = x := by
  unfold unsigned
  omega

theorem header_image (h : n.Fits) (ds : List Nat) : header (n.image ds) =
      { ndigits := n.wholeCount + n.fracCount, weight := n.weight, sign := n.sign.toNat,
        dscale := n.scale } := by
  have hcount := h.digitCount
  have hscale := h.scale
  have hsign : n.sign = 16384 ∨ n.sign = 0 := by
    unfold sign
    split <;> simp
  have hnonneg : 0 ≤ n.scale := by
    unfold Numeric.scale
    split <;> omega
  unfold header image
  simp only [drop_field _ 0, drop_field _ 2, drop_field _ 4, drop_zero, fromBigEndian_field,
    signed_unsigned]
  rw [signed_of_fits (by have := h.weightLow; omega) (by have := h.weightHigh; omega),
    signed_of_fits (by omega) (by omega)]
  congr 1
  · zify
    rw [unsigned_of_fits (by omega) (by omega)]
  · zify
    rw [unsigned_of_fits (by omega) (by omega)]
    omega

variable {ds : List Nat}

theorem words_flatMap (h : ∀ d ∈ ds, d < 2 ^ 16) :
    words (ds.flatMap fun d : Nat => bigEndian 2 (unsigned 16 d)) = ds := by
  induction ds with
  | nil => rfl
  | cons d ds ih =>
    have hd : d < 2 ^ 16 := h d (.head _)
    have hfield : unsigned 16 (d : Int) = d := by
      zify
      exact unsigned_of_fits (by omega) (by omega)
    have htwo : bigEndian 2 d = [UInt8.ofNat (d / 256), UInt8.ofNat d] := by
      simp [bigEndian, range_succ]
    rw [flatMap_cons, hfield, htwo]
    simp only [cons_append, nil_append, words, UInt8.toNat_ofNat']
    rw [ih fun x hx => h x (.tail _ hx)]
    congr 1
    omega

theorem words_image (h : ∀ d ∈ ds, d < nbase) : words ((n.image ds).drop 8) = ds := by
  unfold image
  apply words_flatMap
  intro d hd
  have := h d hd
  unfold nbase at this
  omega

theorem image_length (n : Numeric) (ds : List Nat) : (n.image ds).length = 8 + 2 * ds.length := by
  have hflat : (ds.flatMap fun d : Nat => bigEndian 2 (unsigned 16 d)).length = 2 * ds.length := by
    simp [bigEndian_length, Nat.mul_comm]
  unfold image
  simp only [length_append, bigEndian_length, hflat]
  omega

theorem header_image_sign (h : n.Fits) (ds : List Nat) :
    (header (n.image ds)).sign ≠ pgNumericNaNSign ∧ (header (n.image ds)).sign ≠ pgNumericPosInfSign ∧
      (header (n.image ds)).sign ≠ pgNumericNegInfSign := by
  rw [header_image h]
  dsimp only
  unfold sign
  split <;> decide

section Decoded

variable {n : Numeric} {ds : List Nat} (h : n.Fits) (hlen : ds.length = n.wholeCount + n.fracCount)
  (hlt : ∀ d ∈ ds, d < nbase)
include h hlen

theorem image_digital (hpos : 0 < ds.length) : Digital (n.image ds) := by
  obtain ⟨h1, h2, h3⟩ := header_image_sign h ds
  refine ⟨?_, h1, h2, h3, ?_, ?_⟩
  · rw [image_length]
    omega
  · rw [header_image h]
    dsimp only
    omega
  · rw [header_image h, image_length]
    dsimp only
    omega

include hlt

theorem covered_image (hpos : 0 < ds.length) : covered (n.image ds) = ds := by
  have hexact : Exact (n.image ds) := by
    have hcount := h.digitCount
    unfold Exact
    rw [header_image h, image_length]
    dsimp only
    omega
  rcases covered_cases (image_digital h hlen hpos) with ⟨-, heq⟩ | ⟨hnot, -⟩ | ⟨hnot, -⟩
  · rw [heq, stated, header_image h, words_image hlt, ← hlen, take_length]
  · exact absurd hexact hnot
  · exact absurd hexact hnot

end Decoded

theorem fracDecimalDigits_image (h : n.Fits) (ds : List Nat) (he : n.aligned.2 < 0) :
    (header (n.image ds)).fracDecimalDigits = -n.aligned.2 := by
  have hfrac := (fracCount_eq n).1 he
  unfold Header.fracDecimalDigits
  rw [header_image h]
  unfold weight
  rw [tdiv_aligned]
  split
  · push_cast
    omega
  · push_cast
    omega

theorem decode_fraction (h : n.Fits) (hlen : ds.length = n.wholeCount + n.fracCount)
    (hlt : ∀ d ∈ ds, d < nbase) (hvalue : Radix.value nbase ds = n.aligned.1) (he : n.exp.toInt < 0) :
    ∃ l, Budget.Spends (scanNumericBinary (some (n.image ds))) l
      (.ok { int := some (n.int.getD 0), exp := n.exp, valid := true }) := by
  have hneg := (aligned_neg_iff n).mpr he
  have hfrac := (fracCount_eq n).1 hneg
  have hpos : 0 < ds.length := by omega
  have hscale : n.scale = -n.exp.toInt := if_pos he
  have hdscale : (header (n.image ds)).dscale = -n.exp.toInt := by rw [header_image h, ← hscale]
  have hexp : (header (n.image ds)).unitExp = n.exp.toInt := by
    unfold Header.unitExp
    rw [hdscale, if_pos (by omega), Int.neg_neg]
  have hunits : (header (n.image ds)).units n.aligned.1 = (n.int.getD 0).natAbs := by
    unfold Header.units
    rw [hdscale, if_pos (by omega), fracDecimalDigits_image h ds hneg, aligned_eq]
    unfold shift10
    generalize n.exp.toInt = e
    have hk : -e - -(e - e % 4) = -(e % 4) := by omega
    rw [hk]
    split
    · have h0 : e % 4 = 0 := by omega
      rw [h0]
      simp
    · rw [Int.neg_neg]
      exact Nat.mul_div_cancel _ (Nat.pow_pos (by omega))
  obtain ⟨k, -, hspends⟩ := scan_fraction (image_digital h hlen hpos) (by rw [hexp]; exact he)
  rw [covered_image h hlen hlt hpos, hvalue, hunits, hexp, Int32.ofInt_toInt] at hspends
  have hint : (if (header (n.image ds)).sign ≠ 0 then -((n.int.getD 0).natAbs : Int) else
      (n.int.getD 0).natAbs) =
      n.int.getD 0 := by
    rw [header_image h]
    unfold sign
    dsimp only
    split <;> split at * <;> omega
  rw [hint] at hspends
  exact ⟨k, hspends⟩

theorem aligned_value (n : Numeric) :
    (n.aligned.1 : ℚ) * 10 ^ n.aligned.2 = (n.int.getD 0).natAbs * 10 ^ n.exp.toInt := by
  have hten : (10 : ℚ) ≠ 0 := by norm_num
  obtain ⟨r, hr⟩ := Int.eq_ofNat_of_zero_le (show 0 ≤ n.exp.toInt % 4 by omega)
  rw [aligned_eq]
  rw [hr, Int.toNat_natCast, Nat.cast_mul, Nat.cast_pow, Nat.cast_ofNat, mul_assoc, ← zpow_natCast,
    ← zpow_add₀ hten, show (r : Int) + (n.exp.toInt - r) = n.exp.toInt by omega]

theorem sign_mul_natAbs (n : Numeric) :
    (if n.sign.toNat ≠ 0 then -1 else 1) * ((n.int.getD 0).natAbs : ℚ) = n.int.getD 0 := by
  unfold sign
  by_cases hneg : n.int.getD 0 < 0
  · rw [if_pos hneg, Nat.cast_natAbs, abs_of_neg hneg]
    norm_num
  · rw [if_neg hneg, Nat.cast_natAbs, abs_of_nonneg (by omega)]
    norm_num

theorem unitExp_image (h : n.Fits) (ds : List Nat) (he : 0 ≤ n.exp.toInt) (hw : 0 < n.wholeCount) :
    (header (n.image ds)).unitExp = n.aligned.2 := by
  have hnonneg := (aligned_neg_iff n).not.mpr (by omega)
  have hfrac := (fracCount_eq n).2 (by omega)
  have hdvd : n.aligned.2 % 4 = 0 := by
    rw [aligned_eq]
    omega
  unfold Header.unitExp Header.exp
  rw [header_image h]
  dsimp only
  unfold weight scale
  rw [if_neg (show ¬ n.exp.toInt < 0 by omega), if_neg (by omega), if_pos hw, tdiv_aligned]
  split <;> omega

theorem decode_whole (h : n.Fits) (hlen : ds.length = n.wholeCount + n.fracCount)
    (hlt : ∀ d ∈ ds, d < nbase) (hvalue : Radix.value nbase ds = n.aligned.1) (he : 0 ≤ n.exp.toInt) :
    ∃ l m, Budget.Spends (scanNumericBinary (some (n.image ds))) l (.ok m) ∧
      m.value = .finite (n.int.getD 0 * 10 ^ n.exp.toInt) := by
  have hnonneg : 0 ≤ n.aligned.2 := Int.not_lt.mp ((aligned_neg_iff n).not.mpr (by omega))
  have hfrac := (fracCount_eq n).2 hnonneg
  by_cases hpos : 0 < ds.length
  · have hcovered := covered_image h hlen hlt hpos
    have hlive : ¬ Endless (n.image ds) := by
      rintro ⟨-, -, hzero⟩
      rw [hcovered, hvalue] at hzero
      have hcount : n.wholeCount = 0 := by
        unfold wholeCount
        rw [parts_of_nonneg hnonneg, hzero]
        simp
      omega
    have hunits : (header (n.image ds)).units n.aligned.1 = n.aligned.1 := by
      unfold Header.units
      rw [header_image h]
      unfold scale
      rw [if_neg (show ¬ n.exp.toInt < 0 by omega), if_neg (lt_irrefl 0)]
    obtain ⟨k, -, m, hspends, -, hm⟩ := scan_value (image_digital h hlen hpos) hlive
    refine ⟨k, m, hspends, ?_⟩
    rw [hm, hcovered, hvalue, hunits, unitExp_image h ds he (by omega), aligned_value,
      header_image h, ← mul_assoc, sign_mul_natAbs]
  · have hzero : n.int.getD 0 = 0 := by
      obtain rfl : ds = [] := eq_nil_of_length_eq_zero (by omega)
      rw [Radix.value_nil, aligned_eq] at hvalue
      rcases Nat.mul_eq_zero.mp hvalue.symm with h0 | h0
      · omega
      · exact absurd h0 (Nat.pow_pos (by omega)).ne'
    obtain ⟨h1, h2, h3⟩ := header_image_sign h ds
    refine ⟨0, _, scan_noDigits (by rw [image_length]; omega) h1 h2 h3 ?_, ?_⟩
    · rw [header_image h]
      dsimp only
      omega
    · rw [hzero]
      simp [Numeric.value]

theorem decode_encode (hvalid : n.valid = true) (hnan : n.nan = false)
    (hfin : n.infinityModifier = .finite) (h : n.Fits) (buf : Bytes) :
    ∃ k out, Budget.Spends (encodeNumericBinary n buf) k (some (buf ++ out)) ∧
      ∃ l m, Budget.Spends (scanNumericBinary (some out)) l (.ok m) ∧ m.value = n.value ∧
        (n.exp.toInt < 0 → m.int = some (n.int.getD 0) ∧ m.exp = n.exp) := by
  obtain ⟨k, ds, hspends, hlen, hlt, hvalue⟩ := encode_spends hvalid hnan hfin h.scale buf
  have hn : n.value = .finite (n.int.getD 0 * 10 ^ n.exp.toInt) := by
    simp [Numeric.value, hvalid, hnan, hfin]
  refine ⟨k, n.image ds, hspends, ?_⟩
  rw [hn]
  by_cases he : n.exp.toInt < 0
  · obtain ⟨l, hl⟩ := decode_fraction h hlen hlt hvalue he
    exact ⟨l, _, hl, rfl, fun _ => ⟨rfl, rfl⟩⟩
  · obtain ⟨l, m, hl, hm⟩ := decode_whole h hlen hlt hvalue (by omega)
    exact ⟨l, m, hl, hm, fun h' => absurd h' he⟩

end Numeric

/-! ## Text -/

def IsDigits (bs : Bytes) : Prop := ∀ c ∈ bs, 48 ≤ c ∧ c ≤ 57

def decimal (bs : Bytes) : Nat := Radix.value 10 (bs.map fun c => c.toNat - 48)

theorem decimal_append (xs ys : Bytes) : decimal (xs ++ ys) = decimal xs * 10 ^ ys.length +
    decimal ys := by
  unfold decimal
  rw [map_append, value_append, length_map]

theorem decimal_zeros (k : Nat) : decimal (replicate k 48) = 0 := by
  unfold decimal
  rw [map_replicate]
  exact value_replicate_zero k

theorem isDigits_zeros (k : Nat) : IsDigits (replicate k 48) := by
  intro c hc
  rw [eq_of_mem_replicate hc]
  decide

theorem IsDigits.append {xs ys : Bytes} (hx : IsDigits xs) (hy : IsDigits ys) :
    IsDigits (xs ++ ys) := by
  intro c hc
  rcases mem_append.mp hc with h | h
  · exact hx c h
  · exact hy c h

theorem isDigits_formatUint (n : Nat) : IsDigits (asciiText (formatUint n)) := by
  intro b hb
  obtain ⟨c, hc, rfl⟩ := mem_map.mp hb
  have hdigit : 48 ≤ c.toNat ∧ c.toNat ≤ 57 := by
    have h := isDigit_of_mem_formatUint hc
    simp only [isDigit, Bool.and_eq_true, decide_eq_true_eq] at h
    exact ⟨UInt32.le_iff_toNat_le.mp h.1, UInt32.le_iff_toNat_le.mp h.2⟩
  rw [UInt8.le_iff_toNat_le, UInt8.le_iff_toNat_le, UInt8.toNat_ofNat']
  have hmod : c.toNat % 2 ^ 8 = c.toNat := Nat.mod_eq_of_lt (by omega)
  rw [hmod]
  exact hdigit

theorem formatUint_ne_nil (n : Nat) : asciiText (formatUint n) ≠ [] := by
  have h : 0 < (formatUint n).length := Nat.length_toDigits_pos
  intro hnil
  rw [asciiText, map_eq_nil_iff] at hnil
  rw [hnil] at h
  exact Nat.lt_irrefl 0 h

theorem decimal_formatUint (n : Nat) : decimal (asciiText (formatUint n)) = n := by
  have hmap : (asciiText (formatUint n)).map (fun c => c.toNat - 48) = (formatUint n).map fun c =>
    c.toNat - 48 := by
    unfold asciiText
    rw [map_map]
    apply map_congr_left
    intro c hc
    have h := isDigit_of_mem_formatUint hc
    simp only [isDigit, Bool.and_eq_true, decide_eq_true_eq] at h
    have hle : c.toNat ≤ 57 := UInt32.le_iff_toNat_le.mp h.2
    simp only [Function.comp_apply, UInt8.toNat_ofNat']
    omega
  unfold decimal
  rw [hmap]
  unfold value
  rw [foldl_map]
  have hread := Nat.ofDigitChars_toDigits (b := 10) (n := n) (by omega) (by omega)
  unfold Nat.ofDigitChars at hread
  simp only [Nat.mul_comm 10] at hread
  exact hread

theorem natOfDigits_eq {bs : Bytes} (h : IsDigits bs) (v : Nat) :
    natOfDigits v bs = some (v * 10 ^ bs.length + decimal bs) := by
  induction bs generalizing v with
  | nil => simp [natOfDigits, decimal]
  | cons c bs ih =>
    have hc := h c (.head _)
    have hnot : ¬ (c < 48 ∨ 57 < c) := by
      rintro (hlt | hlt)
      · exact absurd hc.1 (UInt8.not_le.mpr hlt)
      · exact absurd hc.2 (UInt8.not_le.mpr hlt)
    rw [natOfDigits, if_neg hnot, ih fun x hx => h x (.tail _ hx)]
    unfold decimal
    rw [map_cons, value_cons, length_cons, length_map]
    congr 1
    ring

variable {ds : Bytes}

theorem setString_digits (h : IsDigits ds) (hne : ds ≠ []) (neg : Bool) :
    setString (minus neg ++ ds) =
      some (if neg then -(decimal ds : Int) else decimal ds) := by
  obtain ⟨c, cs, rfl⟩ := exists_cons_of_ne_nil hne
  have hc := h c (.head _)
  have hsign : splitSign (minus neg ++ c :: cs) = (neg, c :: cs) := by
    cases neg with
    | true => rfl
    | false =>
      unfold splitSign
      split
      · rename_i heq
        obtain ⟨rfl, -⟩ := cons.inj heq
        exact absurd hc.1 (by decide)
      · rename_i heq
        obtain ⟨rfl, -⟩ := cons.inj heq
        exact absurd hc.1 (by decide)
      · rfl
  unfold setString
  rw [hsign]
  simp only [natOfDigits_eq h, Option.map_some, Nat.zero_mul, Nat.zero_add]

theorem trimZeros_ne {c : UInt8} (h : c ≠ 48) (cs : Bytes) (e : Nat) :
    trimZeros (c :: cs) e = (c :: cs, e) := by
  unfold trimZeros
  split
  · rename_i heq
    exact absurd (cons.inj heq).1 h
  · rfl

theorem trimZeros_digits (ds : Bytes) (h : IsDigits ds) (hne : ds ≠ []) {sign : Bytes}
    (hsign : sign = [] ∨ sign = [45]) (e : Nat) : ∃ ds' j, ds = replicate j 48 ++ ds' ∧
      (ds' = [48] ∨ ∃ c cs, ds' = c :: cs ∧ c ≠ 48) ∧
        trimZeros (ds ++ sign) e = (ds' ++ sign, e + j) := by
  induction ds generalizing e with
  | nil => exact absurd rfl hne
  | cons x xs ih =>
    by_cases hx : x = 48
    · subst hx
      cases xs with
      | nil =>
        refine ⟨[48], 0, rfl, .inl rfl, ?_⟩
        rcases hsign with rfl | rfl <;> rfl
      | cons y ys =>
        have hy : y ≠ 45 := by
          rintro rfl
          exact absurd (h 45 (by simp)).1 (by decide)
        obtain ⟨ds', j, heq, hfirst, htrim⟩ := ih (fun c hc => h c (.tail _ hc)) nofun (e + 1)
        refine ⟨ds', j + 1, ?_, hfirst, ?_⟩
        · rw [replicate_succ, cons_append, ← heq]
        · rw [cons_append, cons_append, trimZeros, if_pos hy]
          rw [cons_append] at htrim
          rw [htrim, Nat.add_assoc, Nat.add_comm 1]
    · exact ⟨x :: xs, 0, rfl, .inr ⟨x, xs, rfl, hx⟩, trimZeros_ne hx _ e⟩

theorem no_point (h : IsDigits ds) (neg : Bool) : (46 : UInt8) ∉ minus neg ++ ds := by
  intro hmem
  rcases mem_append.mp hmem with hs | hd
  · cases neg with
    | true => exact absurd hs (by decide)
    | false => exact nomatch hs
  · exact absurd (h 46 hd).1 (by decide)

theorem trimZeros_le (bs : Bytes) (e : Nat) : (trimZeros bs e).2 ≤ e + bs.length := by
  fun_induction trimZeros bs e with
  | case1 c cs e hc ih =>
    rw [length_cons]
    omega
  | case2 => exact Nat.le_add_right ..
  | case3 => exact Nat.le_add_right ..

/-- How many zeros are taken off the end of a number without a point. -/
def strippedZeros (str : Bytes) : Nat := (trimZeros str.reverse 0).2

theorem strippedZeros_le (str : Bytes) : strippedZeros str ≤ str.length := by
  have h := trimZeros_le str.reverse 0
  rwa [Nat.zero_add, length_reverse] at h

/-- Behind the zeros that are taken off there is a digit that is none, unless the number is zero. -/
theorem trimmed_digits (h : IsDigits ds) (hne : ds ≠ []) (neg : Bool) :
    ∃ rs, trimZeros (minus neg ++ ds).reverse 0 =
        ((minus neg ++ rs).reverse, strippedZeros (minus neg ++ ds)) ∧
      ds = rs ++ replicate (strippedZeros (minus neg ++ ds)) 48 ∧ rs ≠ [] ∧
        (decimal ds ≠ 0 → ¬ 10 ∣ decimal rs) := by
  have hsign : (minus neg).reverse = [] ∨ (minus neg).reverse = [45] := by
    cases neg with
    | true => exact .inr rfl
    | false => exact .inl rfl
  obtain ⟨rs, j, heq, hfirst, htrim⟩ := trimZeros_digits ds.reverse
    (fun c hc => h c (mem_reverse.mp hc)) (by simpa using hne) hsign 0
  have hsplit : ds = rs.reverse ++ replicate j 48 := by
    have hrev := congrArg reverse heq
    rwa [reverse_reverse, reverse_append, reverse_replicate] at hrev
  rw [Nat.zero_add, ← reverse_append] at htrim
  have hzeros : strippedZeros (minus neg ++ ds) = j := congrArg Prod.snd htrim
  rw [hzeros]
  refine ⟨rs.reverse, by rw [htrim, reverse_append, reverse_reverse], hsplit, ?_, fun hnonzero => ?_⟩
  · rcases hfirst with rfl | ⟨c, cs, rfl, -⟩ <;> simp
  · rcases hfirst with rfl | ⟨c, cs, rfl, hc⟩
    · have hzero : decimal [48].reverse = 0 := rfl
      rw [hsplit, decimal_append, decimal_zeros, hzero, Nat.zero_mul] at hnonzero
      exact absurd rfl hnonzero
    · have hdigit := h c (by rw [hsplit]; simp)
      have hlow : c.toNat ≠ 48 := fun heq => hc (UInt8.toNat_inj.mp heq)
      have hlast : decimal [c] = c.toNat - 48 := by simp [decimal, Radix.value]
      rw [reverse_cons, decimal_append, hlast, length_singleton, pow_one]
      have hbounds := UInt8.le_iff_toNat_le.mp hdigit.1
      have hbounds' := UInt8.le_iff_toNat_le.mp hdigit.2
      simp only [UInt8.reduceToNat] at hbounds hbounds'
      omega

/-- A number without a point, as it is read. The exponent counts the zeros in 32 bits. -/
theorem parse_whole (h : IsDigits ds) (hne : ds ≠ []) (neg : Bool) :
    ∃ i, parseNumericString (minus neg ++ ds) = .ok
      (i, Int32.ofInt (strippedZeros (minus neg ++ ds))) ∧
      (i : ℚ) * 10 ^ strippedZeros (minus neg ++ ds) = (if neg then -1 else 1) *
      (decimal ds : ℚ) := by
  obtain ⟨rs, htrim, hsplit, hrs, -⟩ := trimmed_digits h hne neg
  have hdigits : IsDigits rs := fun c hc => h c (by rw [hsplit]; exact mem_append_left _ hc)
  refine ⟨if neg then -(decimal rs : Int) else decimal rs, ?_, ?_⟩
  · unfold parseNumericString
    rw [indexByte_eq_none (no_point h neg), htrim]
    simp only [reverse_reverse]
    rw [setString_digits hdigits hrs]
  · have hdecimal : decimal ds = decimal rs * 10 ^ strippedZeros (minus neg ++ ds) := by
      conv_lhs => rw [hsplit, decimal_append, decimal_zeros, length_replicate]
      rfl
    rw [hdecimal]
    split <;> (push_cast; ring_nf)

/-- The zeros at the end of a number are those that its digits end in and those of the exponent. -/
theorem strippedZeros_lt_iff (h : IsDigits ds) (hne : ds ≠ []) (hnonzero : decimal ds ≠ 0) (neg : Bool)
    {e : Nat} {k : Nat} (hk : e ≤ k) :
    strippedZeros (minus neg ++ (ds ++ replicate e 48)) < k ↔ ¬ 10 ^ (k - e) ∣ decimal ds := by
  have hdecimal : decimal (ds ++ replicate e 48) = decimal ds * 10 ^ e := by
    rw [decimal_append, decimal_zeros, length_replicate]
    rfl
  obtain ⟨rs, -, hsplit, -, hlast⟩ :=
    trimmed_digits (h.append (isDigits_zeros e)) (append_ne_nil_of_left_ne_nil hne _) neg
  generalize strippedZeros (minus neg ++ (ds ++ replicate e 48)) = z at hsplit ⊢
  have hvalue : decimal ds * 10 ^ e = decimal rs * 10 ^ z := by
    rw [← hdecimal, hsplit, decimal_append, decimal_zeros, length_replicate]
    rfl
  have hten : ¬ 10 ∣ decimal rs := hlast (by rw [hdecimal]; positivity)
  have hscale : 10 ^ (k - e) ∣ decimal ds ↔ 10 ^ k ∣ decimal rs * 10 ^ z := by
    rw [← hvalue, ← Nat.mul_dvd_mul_iff_right (by positivity : 0 < 10 ^ e), ← pow_add, Nat.sub_add_cancel hk]
  rw [hscale]
  constructor
  · intro hlt hdvd
    have hsub : 10 ^ (k - z) ∣ decimal rs := by
      rw [← Nat.mul_dvd_mul_iff_right (by positivity : 0 < 10 ^ z), ← pow_add, Nat.sub_add_cancel hlt.le]
      exact hdvd
    exact hten ((dvd_pow_self 10 (by omega)).trans hsub)
  · intro hno
    by_contra hge
    exact hno ((pow_dvd_pow 10 (by omega)).trans (dvd_mul_left _ _))

/-- A count of zeros that is no int32 wraps to another exponent. -/
theorem wrapped_exp_iff (i : Int) (j : Nat) :
    (i : ℚ) * 10 ^ (Int32.ofInt j).toInt = i * 10 ^ j ↔ i = 0 ∨ j < 2 ^ 31 := by
  rw [← zpow_natCast, mul_eq_mul_left_iff, Int.cast_eq_zero, or_comm]
  refine or_congr_right ⟨fun h => ?_, fun h => ?_⟩
  · have hsame := zpow_right_injective₀ (a := (10 : ℚ)) (by norm_num) (by norm_num) h
    have hlt := (Int32.ofInt j).toInt_lt
    omega
  · rw [Int32.toInt_ofInt_of_le (by omega) (by omega)]

/-- A number with a point: the digits behind it are its scale. -/
theorem parse_fraction (xs ys : Bytes) (hx : IsDigits xs) (hy : IsDigits ys)
    (hne : xs ++ ys ≠ []) (neg : Bool)
    (hlen : ys.length ≤ 2 ^ 31) : ∃ i e, parseNumericString
      (minus neg ++ xs ++ 46 :: ys) = .ok (i, e) ∧
      (i : ℚ) * 10 ^ e.toInt = (if neg then -1 else 1) *
        (decimal (xs ++ ys) * 10 ^ (-ys.length : Int)) := by
  refine ⟨if neg then -(decimal (xs ++ ys) : Int) else decimal (xs ++ ys),
    Int32.ofInt (-ys.length), ?_, ?_⟩
  · have hexp : -(((minus neg ++ xs ++ 46 :: ys).length : Int) - (minus neg ++ xs).length - 1) =
        -ys.length := by
      simp only [length_append, length_cons]
      push_cast
      ring
    have htail : (minus neg ++ xs ++ 46 :: ys).drop ((minus neg ++ xs).length + 1) = ys := by
      rw [← drop_drop, drop_left]
      rfl
    unfold parseNumericString
    rw [indexByte_append (no_point hx neg)]
    simp only [take_left, htail, hexp]
    rw [append_assoc, setString_digits (hx.append hy) hne]
  · rw [Int32.toInt_ofInt_of_le (by omega) (by omega)]
    split <;> (push_cast; ring_nf)

theorem zpow_toNat {e : Int} (h : 0 ≤ e) : (10 : ℚ) ^ e = 10 ^ e.toNat := by
  rw [← zpow_natCast, Int.toNat_of_nonneg h]

theorem magnitude_of_nonneg (ds : Bytes) {e : Int} (h : 0 ≤ e) :
    magnitude ds e = ds ++ replicate e.toNat 48 := by
  unfold magnitude
  split
  · rfl
  · obtain rfl : e = 0 := by omega
    simp

theorem parse_magnitude (h : IsDigits ds) (hne : ds ≠ []) (neg : Bool) {e : Int} (he : -2 ^ 31 ≤ e) :
    ∃ i x, parseNumericString (minus neg ++ magnitude ds e) = .ok (i, x) ∧
      ((i : ℚ) * 10 ^ x.toInt = (if neg then -1 else 1) * (decimal ds * 10 ^ e) ↔
        e < 0 ∨ decimal ds = 0 ∨ strippedZeros (minus neg ++ magnitude ds e) < 2 ^ 31) := by
  by_cases hneg : e < 0
  · have hsigned : ∃ i x, parseNumericString (minus neg ++ magnitude ds e) = .ok (i, x) ∧
        (i : ℚ) * 10 ^ x.toInt = (if neg then -1 else 1) * (decimal ds * 10 ^ e) := by
      unfold magnitude
      rw [if_neg (by omega), if_pos hneg]
      by_cases hshort : (ds.length : Int) ≤ -e
      · rw [if_pos hshort]
        have htail : ((replicate (-e - ds.length).toNat 48 ++ ds).length : Int) = -e := by
          rw [length_append, length_replicate]
          push_cast
          omega
        obtain ⟨i, x, hparse, hvalue⟩ := parse_fraction [48]
          (replicate (-e - ds.length).toNat 48 ++ ds) (isDigits_zeros 1) ((isDigits_zeros _).append h)
          nofun neg (by omega)
        refine ⟨i, x, ?_, ?_⟩
        · rw [← hparse, append_assoc, append_assoc]
          rfl
        · rw [hvalue, htail, Int.neg_neg, decimal_append, decimal_append, decimal_zeros,
            show decimal [48] = 0 from rfl]
          push_cast
          ring
      · rw [if_neg hshort]
        have htail : ((ds.drop (ds.length + e).toNat).length : Int) = -e := by
          rw [length_drop]
          omega
        obtain ⟨i, x, hparse, hvalue⟩ :=
          parse_fraction (ds.take (ds.length + e).toNat) (ds.drop (ds.length + e).toNat)
          (fun c hc => h c (mem_of_mem_take hc)) (fun c hc => h c (mem_of_mem_drop hc))
          (by rw [take_append_drop]; exact hne) neg (by omega)
        refine ⟨i, x, ?_, ?_⟩
        · rw [← hparse, append_assoc, append_assoc]
          rfl
        · rw [hvalue, htail, Int.neg_neg, take_append_drop]
    obtain ⟨i, x, hparse, hvalue⟩ := hsigned
    exact ⟨i, x, hparse, iff_of_true hvalue (.inl hneg)⟩
  · rw [magnitude_of_nonneg ds (by omega)]
    obtain ⟨i, hparse, hvalue⟩ := parse_whole (h.append (isDigits_zeros e.toNat))
      (append_ne_nil_of_left_ne_nil hne _) neg
    refine ⟨i, _, hparse, ?_⟩
    have htext : (if neg then -1 else 1) * ((decimal ds : ℚ) * 10 ^ e) =
        i * 10 ^ strippedZeros (minus neg ++ (ds ++ replicate e.toNat 48)) := by
      rw [hvalue, decimal_append, decimal_zeros, length_replicate, zpow_toNat (by omega)]
      push_cast
      ring
    have hten : (10 : ℚ) ≠ 0 := by norm_num
    have hzero : i = 0 ↔ decimal ds = 0 := by
      have hsign : (if neg = true then -1 else 1 : ℚ) ≠ 0 := by split <;> norm_num
      rw [← Int.cast_eq_zero (α := ℚ), ← mul_eq_zero_iff_right (pow_ne_zero _ hten), ← htext,
        mul_eq_zero_iff_left hsign, mul_eq_zero_iff_right (zpow_ne_zero _ hten), Nat.cast_eq_zero]
    rw [htext, wrapped_exp_iff, hzero, or_iff_right hneg]

namespace Numeric

/-- The text of a number is read back as its value, unless more zeros than an int32 counts are at
its end. -/
theorem parse_numberTextBytes (n : Numeric) :
    ∃ i x, parseNumericString n.numberTextBytes = .ok (i, x) ∧
      ((i : ℚ) * 10 ^ x.toInt = n.int.getD 0 * 10 ^ n.exp.toInt ↔
        n.exp.toInt < 0 ∨ n.int.getD 0 = 0 ∨ strippedZeros n.numberTextBytes < 2 ^ 31) := by
  unfold numberTextBytes
  cases n.int with
  | none => exact ⟨0, 0, rfl, iff_of_true (by simp) (.inr (.inl rfl))⟩
  | some int =>
    obtain ⟨i, x, hparse, hvalue⟩ := parse_magnitude (isDigits_formatUint int.natAbs)
      (formatUint_ne_nil int.natAbs) (int < 0) n.exp.le_toInt
    have habs : (if decide (int < 0) = true then -1 else 1) * (int.natAbs : ℚ) = int := by
      simp only [decide_eq_true_eq, Nat.cast_natAbs]
      split
      · rw [abs_of_neg ‹_›]
        push_cast
        ring
      · rw [abs_of_nonneg (by omega), one_mul]
    refine ⟨i, x, hparse, ?_⟩
    rwa [decimal_formatUint, ← mul_assoc, habs, Int.natAbs_eq_zero] at hvalue

/-- Fewer zeros than an int32 counts are at the end of the text, said of the integer. -/
theorem zeros_lt_iff {n : Numeric} (hexp : 0 ≤ n.exp.toInt) (hint : n.int.getD 0 ≠ 0) :
    strippedZeros n.numberTextBytes < 2 ^ 31 ↔
      ¬ (10 : Int) ^ (2 ^ 31 - n.exp.toInt.toNat) ∣ n.int.getD 0 := by
  have hlt := n.exp.toInt_lt
  obtain ⟨int, hn⟩ : ∃ int, n.int = some int := by
    cases hn : n.int with
    | none =>
      rw [hn] at hint
      exact absurd rfl hint
    | some int => exact ⟨int, rfl⟩
  rw [hn] at hint
  have hint' : decimal (asciiText (formatUint int.natAbs)) ≠ 0 := by
    rw [decimal_formatUint]
    exact Int.natAbs_ne_zero.mpr hint
  have hzeros := strippedZeros_lt_iff (isDigits_formatUint int.natAbs) (formatUint_ne_nil int.natAbs)
    hint' (int < 0) (by omega : n.exp.toInt.toNat ≤ 2 ^ 31)
  rw [decimal_formatUint, ← Int.natCast_dvd] at hzeros
  simp only [numberTextBytes, hn, magnitude_of_nonneg _ hexp, Option.getD_some]
  exact_mod_cast hzeros

end Numeric

/-- Encoded and decoded, in binary and in text, a finite numeric keeps its value. -/
theorem numeric_roundTrip (n : Numeric) (hvalid : n.valid = true) (hnan : n.nan = false)
    (hfin : n.infinityModifier = .finite) :
    (n.Fits → ∀ buf, ∃ k out, Budget.Spends (encodeNumericBinary n buf) k (some (buf ++ out)) ∧
      ∃ l m, Budget.Spends (scanNumericBinary (some out)) l (.ok m) ∧ m.value = n.value ∧
        (n.exp.toInt < 0 → m.int = some (n.int.getD 0) ∧ m.exp = n.exp)) ∧
    (n.numberTextBytes.length < 2 ^ 31 → ∃ i x, parseNumericString n.numberTextBytes = .ok (i, x) ∧
      ({ int := some i, exp := x, valid := true } : Numeric).value = n.value) := by
  refine ⟨fun h => Numeric.decode_encode hvalid hnan hfin h, fun hlen => ?_⟩
  obtain ⟨i, x, hparse, hvalue⟩ := n.parse_numberTextBytes
  have hzeros := hvalue.mpr (.inr (.inr ((strippedZeros_le _).trans_lt hlen)))
  refine ⟨i, x, hparse, ?_⟩
  simp [Numeric.value, hvalid, hnan, hfin, hzeros]

def fractionSample : Numeric := { int := some (-1234567), exp := -3, valid := true }

/-- In binary the exponent is kept as well. -/
theorem numeric_roundTrip_sample :
    (∃ k out, Budget.Spends (encodeNumericBinary fractionSample []) k (some out) ∧
      ∃ l m, Budget.Spends (scanNumericBinary (some out)) l (.ok m) ∧
      m.int = some (-1234567) ∧ m.exp = -3) ∧
    ∃ i x, parseNumericString (ascii "-1234.567") = .ok (i, x) ∧
      ({ int := some i, exp := x, valid := true } : Numeric).value = fractionSample.value := by
  obtain ⟨hbinary, htext⟩ := numeric_roundTrip fractionSample rfl rfl rfl
  constructor
  · have hfits : fractionSample.Fits := by
      constructor <;> decide +kernel
    obtain ⟨k, out, hencode, l, m, hdecode, -, hsame⟩ := hbinary hfits []
    exact ⟨k, out, hencode, l, m, hdecode, hsame (by decide)⟩
  · exact htext (by decide +kernel)

namespace Numeric

/-- Also where the negated exponent wraps, the fraction is split off by a power of the base. -/
theorem parts_split {n : Numeric} (h : n.aligned.2 < 0) :
    ∃ k, n.parts = (n.aligned.1 / nbase ^ k, n.aligned.1 % nbase ^ k + nbase ^ k) := by
  have hlow := n.exp.le_toInt
  have hfrac := (fracCount_eq n).1 h
  have hbound : -2 ^ 31 ≤ n.aligned.2 := by
    rw [aligned_eq]
    omega
  have hdivisor : ∃ k, 10 ^ (signed 32 (-n.aligned.2)).toNat = nbase ^ k := by
    rcases hbound.eq_or_lt with heq | hlt
    · refine ⟨0, ?_⟩
      rw [← heq]
      rfl
    · refine ⟨n.fracCount, ?_⟩
      rw [signed_of_fits (by omega) (by omega), ← hfrac, show nbase = 10 ^ 4 from rfl, ← pow_mul,
        Nat.mul_comm 4]
      rfl
  obtain ⟨k, hk⟩ := hdivisor
  refine ⟨k, ?_⟩
  unfold parts
  dsimp only
  rw [if_pos h, hk]

theorem fracNbaseDigits_returns (n : Numeric) :
    ∃ l fs, Budget.Spends (fracNbaseDigits n.parts.2) l fs := by
  by_cases h : n.aligned.2 < 0
  · obtain ⟨k, hk⟩ := parts_split h
    have hpos : 0 < nbase ^ k := Nat.pow_pos (by decide)
    obtain ⟨fs, hfs, -⟩ := nbaseDigits_frac k (n.aligned.1 % nbase ^ k) (Nat.mod_lt _ hpos)
    refine ⟨k, fs, ?_⟩
    unfold fracNbaseDigits
    rw [hk, if_pos (Nat.ne_of_gt (Nat.add_pos_right _ hpos))]
    exact hfs
  · rw [parts_of_nonneg (by omega)]
    exact ⟨0, [], .pure _⟩

theorem encode_returns {n : Numeric} (hvalid : n.valid = true) (hnan : n.nan = false)
    (hfin : n.infinityModifier = .finite) (buf : Bytes) :
    ∃ k out, Budget.Spends (encodeNumericBinary n buf) k (some out) := by
  obtain ⟨k, hwhole⟩ := nbaseDigits_whole n.parts.1
  obtain ⟨l, fs, hfs⟩ := n.fracNbaseDigits_returns
  unfold encodeNumericBinary
  simp only [hvalid, hnan, hfin, Bool.not_true, Bool.false_eq_true, if_false]
  exact ⟨k + l, _, hwhole.bind (hfs.bind_zero (.pure _))⟩

end Numeric

/-- A finite numeric that does not fit the fields of the binary format is never rejected: no bytes
are kept back only where nothing was to be rejected. -/
theorem encodeNumericBinary_rejects_iff (n : Numeric) (hvalid : n.valid = true) (hnan : n.nan = false)
    (hfin : n.infinityModifier = .finite) (buf : Bytes) :
    (¬ n.Fits → ¬ ∃ k out, Budget.Spends (encodeNumericBinary n buf) k (some out)) ↔ n.Fits := by
  constructor
  · intro h
    by_contra hfits
    exact h hfits (Numeric.encode_returns hvalid hnan hfin buf)
  · exact fun hfits h => absurd hfits h

def heavySample : Numeric := { int := some 1, exp := 131072, valid := true }

/-- Nothing is to be rejected. -/
theorem encodeNumericBinary_rejects_fraction : fractionSample.Fits ∧ (¬ fractionSample.Fits →
      ¬ ∃ k out, Budget.Spends (encodeNumericBinary fractionSample []) k (some out)) := by
  have hfits : fractionSample.Fits := by
    constructor <;> decide +kernel
  exact ⟨hfits, (encodeNumericBinary_rejects_iff fractionSample rfl rfl rfl []).mpr hfits⟩

/-- The weight 32768 is written as -32768. -/
theorem heavySample_denotes_another :
    ¬ heavySample.Fits ∧ ∃ k out, Budget.Spends (encodeNumericBinary heavySample []) k (some out) ∧
      denoted out ≠ heavySample.value := by
  have hwhole : Budget.Spends (nbaseDigits 0 heavySample.parts.1) 1 [1] :=
    .loop_step rfl (.loop_done rfl)
  refine ⟨fun h => absurd h.weightHigh (by decide +kernel), 1, [0, 1, 128, 0, 0, 0, 0, 0, 0, 1],
    hwhole.bind_zero (.pure _), ?_⟩
  have hheader : header [0, 1, 128, 0, 0, 0, 0, 0, 0, 1] = ⟨1, -32768, 0, 0⟩ := by decide
  have hvalue : heavySample.value = .finite (1 * 10 ^ (131072 : Int)) := rfl
  have hdigits : Radix.value nbase (stated [0, 1, 128, 0, 0, 0, 0, 0, 0, 1]) = 1 := by decide +kernel
  have hsmall : shown [0, 1, 128, 0, 0, 0, 0, 0, 0, 1] ≤ 1 := by
    refine (shown_le _).trans ?_
    rw [positional, hdigits, hheader, Nat.cast_one, one_mul]
    exact zpow_le_one_of_nonpos₀ (by norm_num [nbase]) (by norm_num)
  have hlarge : (1 : ℚ) < 10 ^ (131072 : Int) := one_lt_zpow₀ (by norm_num) (by norm_num)
  rw [denoted_eq (by decide) (by decide) (by decide), hvalue, Ne, Value.finite.injEq, hheader,
    if_neg (by decide), one_mul, one_mul]
  exact (hsmall.trans_lt hlarge).ne

end Pgx.Pgtype
