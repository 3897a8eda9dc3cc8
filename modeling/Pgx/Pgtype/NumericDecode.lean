import Pgx.Pgtype.Numeric

/-!
# The binary numeric decoder

What `scanNumericBinary` returns, and in how many rounds, for every byte string. The
digits are read four at a time, as many groups as the 16-bit count says; the value
of the digits read is then rescaled to the display scale, and trailing zeros are
dropped from a number without a fraction. That last loop never ends on zero.
-/
namespace Pgx.Pgtype

open Pgx.Go Pgx.Effect List Header

/-- The 16-bit digits of a byte string; an odd byte at its end is none. -/
def words : Bytes → List Nat
  | a :: b :: bs => (a.toNat * 256 + b.toNat) :: words bs
  | _ => []

theorem words_length : ∀ bs : Bytes, (words bs).length = bs.length / 2
  | [] => rfl
  | [_] => by simp [words]
  | _ :: _ :: bs => by
    rw [words, length_cons, words_length bs, length_cons, length_cons]
    omega

theorem words_drop : ∀ (bs : Bytes) (i : Nat), words (bs.drop (2 * i)) = (words bs).drop i
  | bs, 0 => rfl
  | [], _ + 1 => by simp [words]
  | [_], i + 1 => by simp [words, show 2 * (i + 1) = 2 * i + 1 + 1 by omega]
  | _ :: _ :: bs, i + 1 => words_drop bs i

theorem words_lt : ∀ {bs : Bytes} {d : Nat}, d ∈ words bs → d < 2 ^ 16
  | [], _, h => by cases h
  | [_], _, h => by cases h
  | a :: b :: bs, _, h => by
    rcases mem_cons.mp h with rfl | h
    · have ha := a.toNat_lt
      have hb := b.toNat_lt
      omega
    · exact words_lt h

theorem words_getElem? (bs : Bytes) (i : Nat) (hi : i < bs.length / 2) :
    (words bs)[i]? = some (fromBigEndian ((bs.drop (2 * i)).take 2)) := by
  rw [← head?_drop, ← words_drop]
  have hlen : 2 ≤ (bs.drop (2 * i)).length := by
    rw [length_drop]
    omega
  match bs.drop (2 * i), hlen with
  | a :: b :: rest, _ => simp [words, fromBigEndian]

theorem nbaseDigitsToInt64_eq (src : Bytes) : nbaseDigitsToInt64 src =
      (Radix.value nbase ((words src).take 4), 2 * min (src.length / 2) 4,
        min (src.length / 2) 4) := by
  have hfold : ∀ k ≤ min (src.length / 2) 4, (range k).foldl (fun (p : Nat × Nat) i =>
          ((if 0 < i then p.1 * nbase else p.1) + fromBigEndian
            ((src.drop p.2).take 2), p.2 + 2)) (0, 0) =
      (Radix.value nbase ((words src).take k), 2 * k) := by
    intro k
    induction k with
    | zero =>
      intro _
      simp
    | succ k ih =>
      intro hk
      rw [range_succ, foldl_append, ih (by omega), take_add_one, words_getElem? _ k (by omega),
        Option.toList_some, Radix.value_concat]
      simp only [foldl_cons, foldl_nil]
      congr 1
      cases k with
      | zero => simp
      | succ k => simp
  have htake : (words src).take 4 = (words src).take (min (src.length / 2) 4) := by
    rw [← words_length, Nat.min_comm, take_eq_take_min]
  unfold nbaseDigitsToInt64
  simp only
  rw [hfold _ (le_refl _), htake]

variable {src : Bytes}

/-- Reading so many groups takes one round each, and gives the value of their digits. -/
theorem readGroups_spends {groups : Nat} (h : groups = 0 ∨ 4 * (groups - 1) < (src.length - 8) / 2) :
    Budget.Spends (readGroups groups src) groups
      (.ok (Radix.value nbase ((words (src.drop 8)).take (4 * groups)))) := by
  -- after `i` groups the value of the first `4 * i` digits is read, and `j` groups are left
  have hfrom : ∀ j i rp, i + j = groups → (i < groups → rp = 8 + 8 * i) →
      Budget.Spends (.loop (groupRound groups src)
        (i, rp, Radix.value nbase ((words (src.drop 8)).take (4 * i)))) j
        (.ok (Radix.value nbase ((words (src.drop 8)).take (4 * groups)))) := by
    intro j
    induction j with
    | zero =>
      intro i rp hi _
      obtain rfl : i = groups := hi
      exact .loop_done (if_neg (lt_irrefl i))
    | succ j ih =>
      intro i rp hi hrp
      have hlt : i < groups := by omega
      obtain rfl := hrp hlt
      have hdrop : words (src.drop (8 + 8 * i)) = (words (src.drop 8)).drop (4 * i) := by
        rw [← words_drop, drop_drop]
        congr 2
        omega
      have hread : min ((src.drop (8 + 8 * i)).length / 2) 4 =
          ((words (src.drop 8)).drop (4 * i) |>.take 4).length := by
        rw [length_take, ← hdrop, words_length, Nat.min_comm]
      have hsome : groupMul (min ((src.drop (8 + 8 * i)).length / 2) 4) =
          some (nbase ^ min ((src.drop (8 + 8 * i)).length / 2) 4) := by
        have hpos : 0 < min ((src.drop (8 + 8 * i)).length / 2) 4 := by
          rw [length_drop]
          omega
        have hle : min ((src.drop (8 + 8 * i)).length / 2) 4 ≤ 4 := Nat.min_le_right ..
        generalize min ((src.drop (8 + 8 * i)).length / 2) 4 = k at hpos hle
        obtain rfl | rfl | rfl | rfl : k = 1 ∨ k = 2 ∨ k = 3 ∨ k = 4 := by omega
        all_goals rfl
      have hvalue : Radix.value nbase ((words (src.drop 8)).take (4 * (i + 1))) =
          Radix.value nbase ((words (src.drop 8)).take (4 * i)) * nbase ^ min
            ((src.drop (8 + 8 * i)).length / 2) 4 +
            Radix.value nbase ((words (src.drop (8 + 8 * i))).take 4) := by
        rw [show 4 * (i + 1) = 4 * i + 4 by omega, take_add, Radix.value_append, hread, hdrop]
      have hround : groupRound groups src
          (i, 8 + 8 * i, Radix.value nbase ((words (src.drop 8)).take (4 * i))) =
          .inl (i + 1, 8 + 8 * i + 2 * min ((src.drop (8 + 8 * i)).length / 2) 4,
            Radix.value nbase ((words (src.drop 8)).take (4 * (i + 1)))) := by
        rw [hvalue, groupRound, if_pos hlt, nbaseDigitsToInt64_eq]
        simp only [hsome]
        by_cases h0 : 0 < i
        · rw [if_pos h0]
        · obtain rfl : i = 0 := by omega
          simp
      refine .loop_step hround (ih (i + 1) _ (by omega) fun hnext => ?_)
      rw [length_drop]
      omega
  exact hfrom groups 0 8 (Nat.zero_add _) fun _ => rfl

/-- A number times a power of ten, cut to an integer. -/
def shift10 (k : Int) (v : Nat) : Nat := if 0 ≤ k then v * 10 ^ k.toNat else v / 10 ^ (-k).toNat

namespace Header

/-- The digits' value in units of the last decimal that is kept: a positive scale keeps that
many decimals, and without one the digits stand as they are. -/
def units (h : Header) (v : Nat) : Nat :=
  if 0 < h.dscale then shift10 (h.dscale - h.fracDecimalDigits) v else v

def unitExp (h : Header) : Int := if 0 < h.dscale then -h.dscale else h.exp

end Header

theorem iterate_mul10 (k accum : Nat) (exp : Int) :
    (fun p : Nat × Int => (p.1 * 10, p.2 - 1))^[k] (accum, exp) = (accum * 10 ^ k, exp - k) := by
  induction k generalizing accum exp with
  | zero => simp
  | succ k ih =>
    rw [Function.iterate_succ_apply, ih, Nat.mul_assoc, ← pow_succ']
    congr 1
    omega

theorem iterate_div10 (k accum : Nat) (exp : Int) :
    (fun p : Nat × Int => (p.1 / 10, p.2 + 1))^[k] (accum, exp) = (accum / 10 ^ k, exp + k) := by
  induction k generalizing accum exp with
  | zero => simp
  | succ k ih =>
    rw [Function.iterate_succ_apply, ih, Nat.div_div_eq_div_mul, ← pow_succ']
    congr 1
    omega

theorem rescale_spends (h : Header) (v : Nat) : ∃ k ≤ (h.dscale - h.fracDecimalDigits).natAbs,
      Budget.Spends (rescale h v) k (h.units v, h.unitExp) := by
  have hexp : h.exp = -h.fracDecimalDigits := by
    unfold Header.exp fracDecimalDigits
    ring
  unfold rescale Header.units Header.unitExp shift10
  by_cases hd : 0 < h.dscale
  · simp only [if_pos hd]
    by_cases hmul : h.fracDecimalDigits < h.dscale
    · have hk := Budget.Spends.forRange (h.dscale - h.fracDecimalDigits).toNat
        (fun p : Nat × Int => (p.1 * 10, p.2 - 1)) (v, h.exp)
      rw [iterate_mul10, show h.exp - ((h.dscale - h.fracDecimalDigits).toNat : Int) =
        -h.dscale by omega] at hk
      rw [if_pos hmul, if_pos (by omega)]
      exact ⟨_, by omega, hk⟩
    · rw [if_neg hmul]
      by_cases hdiv : h.dscale < h.fracDecimalDigits
      · have hk := Budget.Spends.forRange (h.fracDecimalDigits - h.dscale).toNat
          (fun p : Nat × Int => (p.1 / 10, p.2 + 1)) (v, h.exp)
        rw [iterate_div10, show h.exp + ((h.fracDecimalDigits - h.dscale).toNat : Int) =
          -h.dscale by omega] at hk
        rw [if_pos hdiv, if_neg (by omega), show -(h.dscale - h.fracDecimalDigits) =
          h.fracDecimalDigits - h.dscale by omega]
        exact ⟨_, by omega, hk⟩
      · rw [if_neg hdiv, if_pos (by omega), show h.dscale - h.fracDecimalDigits = 0 by omega,
          show h.exp = -h.dscale by omega]
        refine ⟨0, Nat.zero_le _, ?_⟩
        simpa using Budget.Spends.pure (v, -h.dscale)
  · simp only [if_neg hd]
    exact ⟨0, Nat.zero_le _, .pure _⟩

/-- A number that is not zero loses its trailing zeros, one in each round. -/
theorem reduce_spends (v : Nat) (exp : Int) (hv : v ≠ 0) :
    ∃ t v', v = v' * 10 ^ t ∧ v' % 10 ≠ 0 ∧ Budget.Spends (reduce v exp) t (v', exp + t) := by
  induction v using Nat.strong_induction_on generalizing exp with
  | _ v ih =>
    by_cases hmod : v % 10 = 0
    · obtain ⟨t, v', hdiv, hlast, hrest⟩ := ih (v / 10) (by omega) (exp + 1) (by omega)
      refine ⟨t + 1, v', ?_, hlast, ?_⟩
      · rw [pow_succ, ← Nat.mul_assoc]
        omega
      · have hround : reduceRound (v, exp) = .inl (v / 10, exp + 1) := if_neg (not_not.mpr hmod)
        have hstep := Budget.Spends.loop_step hround hrest
        rwa [show exp + 1 + (t : Int) = exp + (t + 1 : Nat) by push_cast; ring] at hstep
    · refine ⟨0, v, by simp, hmod, ?_⟩
      have hround : reduceRound (v, exp) = .inr (v, exp) := if_pos hmod
      rw [Nat.cast_zero, add_zero]
      exact Budget.Spends.loop_done hround

def stated (src : Bytes) : List Nat := (words (src.drop 8)).take (header src).ndigits

def covered (src : Bytes) : List Nat := (words (src.drop 8)).take (4 * (header src).groups)

structure Digital (src : Bytes) : Prop where
  prelude : 8 ≤ src.length
  notNaN : (header src).sign ≠ pgNumericNaNSign
  notPosInf : (header src).sign ≠ pgNumericPosInfSign
  notNegInf : (header src).sign ≠ pgNumericNegInfSign
  digits : (header src).ndigits ≠ 0
  complete : (header src).ndigits * 2 ≤ src.length - 8

/-- A bound on the rounds, from the length and the header. -/
def roundBound (length : Nat) (h : Header) : Nat :=
  h.ndigits + (h.dscale - h.fracDecimalDigits).natAbs + 3 * length

theorem header_ndigits_lt (src : Bytes) : (header src).ndigits < 2 ^ 16 := by
  have hlt := fromBigEndian_lt (src.take 2)
  have hlen : (src.take 2).length ≤ 2 := length_take_le ..
  calc (header src).ndigits < 256 ^ (src.take 2).length := hlt
    _ ≤ 256 ^ 2 := Nat.pow_le_pow_right (by omega) hlen

theorem Header.groups_eq (h : Header) (hlt : h.ndigits < 2 ^ 16) :
    h.groups = if h.ndigits ≤ 65532 then (h.ndigits + 3) / 4 else 0 := by
  unfold Header.groups
  split <;> omega

namespace Digital

variable {src : Bytes} (d : Digital src)
include d

theorem readGroups_spends : Budget.Spends (readGroups (header src).groups src) (header src).groups
      (.ok (Radix.value nbase (covered src))) := by
  apply Pgtype.readGroups_spends
  have hcomplete := d.complete
  have hdigits := d.digits
  rw [groups_eq _ (header_ndigits_lt src)]
  split
  · right
    omega
  · left
    rfl

/-- The loops over the digits end; what is left to do is to drop trailing zeros. -/
theorem scan_eq :
    ∃ k ≤ (header src).ndigits + ((header src).dscale - (header src).fracDecimalDigits).natAbs,
    (∀ l r, Budget.Spends (finish (header src)
      ((header src).units (Radix.value nbase (covered src))) (header src).unitExp) l r →
      Budget.Spends (scanNumericBinary (some src)) (k + l) r) ∧
    (Budget.Stuck (finish (header src) ((header src).units (Radix.value nbase (covered src)))
      (header src).unitExp) →
      Budget.Stuck (scanNumericBinary (some src))) := by
  obtain ⟨k, hk, hrescale⟩ := rescale_spends (header src) (Radix.value nbase (covered src))
  have hgroups : (header src).groups ≤ (header src).ndigits := by
    rw [groups_eq _ (header_ndigits_lt src)]
    split <;> omega
  unfold scanNumericBinary
  simp only [if_neg (Nat.not_lt.mpr d.prelude), if_neg d.notNaN, if_neg d.notPosInf,
    if_neg d.notNegInf, if_neg d.digits, if_neg (Nat.not_lt.mpr d.complete)]
  refine ⟨(header src).groups + k, by omega, fun l r hl => ?_, fun hstuck => ?_⟩
  · rw [Nat.add_assoc]
    refine d.readGroups_spends.bind ?_
    refine hrescale.bind ?_
    dsimp only
    exact hl
  · refine d.readGroups_spends.bind_stuck ?_
    refine hrescale.bind_stuck ?_
    dsimp only
    exact hstuck

end Digital

/-- The sum of the stated digits at their places. -/
def positional (src : Bytes) : ℚ :=
  Radix.value nbase (stated src) * (nbase : ℚ) ^ ((header src).weight - (header src).ndigits + 1)

/-- The digits up to the last decimal that the scale shows. -/
def shown (src : Bytes) : ℚ :=
  (⌊positional src * 10 ^ (header src).dscale⌋ : ℚ) / 10 ^ (header src).dscale

/-- `NUMERIC_NEG` of the server -/
def numericNeg : Nat := 0x4000

/-- The value of a binary numeric by its header and digits, as `numeric_recv` of the server reads
it: what the scale hides is cut off. -/
def denoted (src : Bytes) : Value :=
  let h := header src
  if h.sign = pgNumericNaNSign then .nan
  else if h.sign = pgNumericPosInfSign then .infinity
  else if h.sign = pgNumericNegInfSign then .negativeInfinity
  else .finite ((if h.sign = numericNeg then -1 else 1) * shown src)

theorem floor_shift10 (k : Int) (v : Nat) : ⌊(v : ℚ) * 10 ^ k⌋ = (shift10 k v : Int) := by
  unfold shift10
  split
  · obtain ⟨n, rfl⟩ := Int.eq_ofNat_of_zero_le ‹0 ≤ k›
    have hcast : (v : ℚ) * 10 ^ (n : Int) = ((v * 10 ^ n : Nat) : Int) := by
      push_cast
      rw [zpow_natCast]
    rw [hcast, Int.floor_intCast, Int.toNat_natCast]
  · obtain ⟨n, hn⟩ := Int.eq_ofNat_of_zero_le (show 0 ≤ -k by omega)
    have hcast : (v : ℚ) * 10 ^ k = (v : ℚ) / ((10 ^ n : Nat) : ℚ) := by
      rw [show k = -(n : Int) by omega, zpow_neg]
      push_cast
      rfl
    rw [hcast, Rat.floor_natCast_div_natCast, hn]
    push_cast
    rfl

theorem positional_eq (src : Bytes) :
    positional src = Radix.value nbase (stated src) * 10 ^ (header src).exp := by
  have hbase : (nbase : ℚ) = 10 ^ (4 : Int) := by norm_num [nbase]
  unfold positional Header.exp
  rw [hbase, ← zpow_mul, mul_comm (4 : Int)]

/-- `v` units of the last digit, in units of the last decimal that the scale shows -/
def Header.cut (h : Header) (v : Nat) : Nat := shift10 (h.dscale - h.fracDecimalDigits) v

theorem shown_eq (src : Bytes) :
    shown src = (header src).cut (Radix.value nbase (stated src)) * 10 ^ (-(header src).dscale) := by
  unfold shown
  rw [positional_eq, mul_assoc (Radix.value nbase (stated src) : ℚ), ← zpow_add₀ (by norm_num),
    show (header src).exp + (header src).dscale = (header src).dscale -
        (header src).fracDecimalDigits by
      unfold Header.exp fracDecimalDigits
      ring,
    floor_shift10, zpow_neg, div_eq_mul_inv]
  push_cast
  rfl

theorem denoted_eq (h1 : (header src).sign ≠ pgNumericNaNSign)
    (h2 : (header src).sign ≠ pgNumericPosInfSign) (h3 : (header src).sign ≠ pgNumericNegInfSign) :
    denoted src = .finite ((if (header src).sign = numericNeg then -1 else 1) * shown src) := by
  unfold denoted
  simp only [if_neg h1, if_neg h2, if_neg h3]

/-! ## When the decoder returns the denoted value -/

/-- The groups cover exactly the stated digits: their count does not wrap, and no word behind
the digits fills up the last group. -/
def Exact (src : Bytes) : Prop :=
  (header src).ndigits ≤ 65532 ∧
    (4 ∣ (header src).ndigits ∨ (src.length - 8) / 2 = (header src).ndigits)

/-- The scale is one that the decoder cuts at, or it hides nothing. -/
def Visible (src : Bytes) : Prop :=
  0 < (header src).dscale ∨
    (⌊positional src * 10 ^ (header src).dscale⌋ : ℚ) = positional src * 10 ^ (header src).dscale

/-- The stated digits are worth nothing at the scale, and so are those that are read. -/
def Worthless (src : Bytes) : Prop :=
  (header src).units (Radix.value nbase (covered src)) = 0 ∧ shown src = 0

/-- The sign is one that the server knows, or it does not matter. -/
def Signed (src : Bytes) : Prop :=
  (header src).sign = 0 ∨ (header src).sign = numericNeg ∨ shown src = 0

/-- Trailing zeros of zero are to be dropped: there is no scale, the last digit stands before
the decimal point, and all digits read are zero. -/
def Endless (src : Bytes) : Prop :=
  (header src).dscale ≤ 0 ∧ (header src).ndigits ≤ (header src).weight + 1 ∧
    Radix.value nbase (covered src) = 0

def Faithful (src : Bytes) : Prop :=
  Digital src → ((Exact src ∧ Visible src) ∨ Worthless src) ∧ Signed src ∧ ¬ Endless src

theorem shift10_mul_ten (k : Int) (v : Nat) : 10 * shift10 k v ≤ shift10 k (10 * v) := by
  unfold shift10
  split
  · rw [Nat.mul_assoc]
  · exact Nat.mul_div_le_mul_div_assoc 10 v _

theorem shift10_mono (k : Int) {v w : Nat} (h : v ≤ w) : shift10 k v ≤ shift10 k w := by
  unfold shift10
  split
  · exact Nat.mul_le_mul_right _ h
  · exact Nat.div_le_div_right h

namespace Header

theorem units_mul_ten (h : Header) (v : Nat) : 10 * h.units v ≤ h.units (10 * v) := by
  unfold units
  split
  · exact shift10_mul_ten _ v
  · exact le_refl _

theorem units_mono (h : Header) {v w : Nat} (hle : v ≤ w) : h.units v ≤ h.units w := by
  unfold units
  split
  · exact shift10_mono _ hle
  · exact hle

theorem units_zero (h : Header) : h.units 0 = 0 := by
  unfold units shift10
  split
  · split <;> simp
  · rfl

end Header

/-- The groups leave the stated digits, or add some, or read none at all. -/
theorem covered_cases (d : Digital src) : (Exact src ∧ covered src = stated src) ∨
    (¬ Exact src ∧ covered src = []) ∨
    (¬ Exact src ∧ ∃ more, more ≠ [] ∧ covered src = stated src ++ more) := by
  have hcomplete := d.complete
  have hdigits := d.digits
  have hlen : (words (src.drop 8)).length = (src.length - 8) / 2 := by
    rw [words_length, length_drop]
  unfold covered stated Exact
  rw [groups_eq _ (header_ndigits_lt src)]
  generalize (header src).ndigits = n at *
  generalize words (src.drop 8) = ws at *
  by_cases hwrap : n ≤ 65532
  · rw [if_pos hwrap]
    have hsplit : ws.take (4 * ((n + 3) / 4)) = ws.take n ++ (ws.drop n).take
        (4 * ((n + 3) / 4) - n) := by
      rw [← take_add, Nat.add_sub_cancel' (by omega)]
    by_cases hexact : 4 ∣ n ∨ (src.length - 8) / 2 = n
    · refine .inl ⟨⟨hwrap, hexact⟩, ?_⟩
      rw [hsplit]
      rcases hexact with ⟨m, rfl⟩ | hend
      · rw [show 4 * ((4 * m + 3) / 4) - 4 * m = 0 by omega, take_zero, append_nil]
      · rw [drop_of_length_le (by omega), take_nil, append_nil]
    · refine .inr (.inr ⟨fun h => hexact h.2, _, ?_, hsplit⟩)
      apply ne_nil_of_length_pos
      rw [length_take, length_drop]
      omega
  · rw [if_neg hwrap]
    exact .inr (.inl ⟨fun h => hwrap h.1, rfl⟩)

theorem units_append (h : Header) (ds : List Nat) {more : List Nat} (hne : more ≠ []) :
    10 * h.units (Radix.value nbase ds) ≤ h.units (Radix.value nbase (ds ++ more)) := by
  refine le_trans (h.units_mul_ten _) (h.units_mono ?_)
  have hpow : 10 ≤ nbase ^ more.length := by
    calc 10 ≤ nbase ^ 1 := by decide
      _ ≤ nbase ^ more.length := Nat.pow_le_pow_right (by decide) (length_pos_iff.mpr hne)
  rw [Radix.value_append, Nat.mul_comm 10]
  exact Nat.le_add_right_of_le (Nat.mul_le_mul_left _ hpow)

theorem units_covered_eq_iff (d : Digital src) :
    (header src).units (Radix.value nbase (covered src)) = (header src).units
      (Radix.value nbase (stated src)) ↔
      Exact src ∨ ((header src).units (Radix.value nbase (covered src)) = 0 ∧
        (header src).units (Radix.value nbase (stated src)) = 0) := by
  rcases covered_cases d with ⟨hexact, heq⟩ | ⟨hexact, heq⟩ | ⟨hexact, more, hne, heq⟩
  · simp [hexact, heq]
  · simp [hexact, heq, Header.units_zero, eq_comm]
  · have hle := units_append (header src) (stated src) hne
    rw [← heq] at hle
    simp only [hexact, false_or]
    constructor
    · intro h
      omega
    · rintro ⟨h1, h2⟩
      rw [h1, h2]

theorem shown_le (src : Bytes) : shown src ≤ positional src := by
  have hpow : (0 : ℚ) < 10 ^ (header src).dscale := zpow_pos (by norm_num) _
  rw [shown, div_le_iff₀ hpow]
  exact Int.floor_le _

theorem positional_eq_shown_iff (src : Bytes) : positional src = shown src ↔
    (⌊positional src * 10 ^ (header src).dscale⌋ : ℚ) = positional src * 10 ^
      (header src).dscale := by
  have hpow : (10 : ℚ) ^ (header src).dscale ≠ 0 := zpow_ne_zero _ (by norm_num)
  rw [shown, eq_div_iff hpow, eq_comm]

/-- Where the decoder does not cut, digits that the scale hides are kept. -/
theorem covered_eq_shown_iff (d : Digital src) (hd : ¬ 0 < (header src).dscale) :
    (Radix.value nbase (covered src) : ℚ) * 10 ^ (header src).exp = shown src ↔
      (Exact src ∧ Visible src) ∨ (Radix.value nbase (covered src) = 0 ∧ shown src = 0) := by
  have hpow : (0 : ℚ) < 10 ^ (header src).exp := zpow_pos (by norm_num) _
  have hunits (v : Nat) : (header src).units v = v := if_neg hd
  unfold Visible
  rw [← positional_eq_shown_iff]
  rcases covered_cases d with ⟨hexact, heq⟩ | ⟨hexact, heq⟩ | ⟨hexact, more, hne, heq⟩
  · rw [heq, ← positional_eq]
    simp only [hexact, true_and, hd, false_or]
    refine ⟨.inl, fun h => h.elim id fun ⟨hv, hs⟩ => ?_⟩
    rw [hs, positional_eq, hv, Nat.cast_zero, zero_mul]
  · simp [hexact, heq, eq_comm]
  · have hle := units_append (header src) (stated src) hne
    rw [← heq, hunits, hunits] at hle
    simp only [hexact, false_and, false_or]
    constructor
    · intro h
      have hsmall := shown_le src
      rw [← h, positional_eq, mul_le_mul_iff_left₀ hpow, Nat.cast_le] at hsmall
      have hzero : Radix.value nbase (covered src) = 0 := by omega
      exact ⟨hzero, by rw [← h, hzero, Nat.cast_zero, zero_mul]⟩
    · rintro ⟨h1, h2⟩
      rw [h1, h2, Nat.cast_zero, zero_mul]

theorem units_eq_shown_iff (d : Digital src) :
    ((header src).units (Radix.value nbase (covered src)) : ℚ) * 10 ^
      (header src).unitExp = shown src ↔
      (Exact src ∧ Visible src) ∨ Worthless src := by
  by_cases hd : 0 < (header src).dscale
  · have hpow : (10 : ℚ) ^ (-(header src).dscale) ≠ 0 := zpow_ne_zero _ (by norm_num)
    have hunits : (header src).units (Radix.value nbase (stated src)) =
        (header src).cut (Radix.value nbase (stated src)) := if_pos hd
    rw [Worthless, shown_eq, Header.unitExp, if_pos hd, mul_left_inj' hpow, Nat.cast_inj, ← hunits,
      units_covered_eq_iff d]
    have hvisible : Visible src := .inl hd
    rw [and_iff_left hvisible, mul_eq_zero, or_iff_left hpow, Nat.cast_eq_zero]
  · have hunits : (header src).units (Radix.value nbase (covered src)) = Radix.value nbase
        (covered src) := if_neg hd
    rw [Worthless, Header.unitExp, if_neg hd, hunits]
    exact covered_eq_shown_iff d hd

theorem units_nonneg (v : Nat) (e : Int) : (0 : ℚ) ≤ v * 10 ^ e :=
  mul_nonneg v.cast_nonneg (zpow_nonneg (by norm_num) e)

theorem shown_nonneg (src : Bytes) : 0 ≤ shown src := by
  rw [shown_eq]
  exact units_nonneg _ _

/-- Two magnitudes with a sign each. -/
theorem signed_eq_iff {p q : Prop} [Decidable p] [Decidable q] {x y : ℚ} (hx : 0 ≤ x) (hy : 0 ≤ y) :
    (if p then -1 else 1) * x = (if q then -1 else 1) * y ↔ x = y ∧ ((p ↔ q) ∨ y = 0) := by
  by_cases hp : p <;> by_cases hq : q <;> simp only [hp, hq, if_true, if_false]
  · simp
  · constructor
    · intro h
      exact ⟨by linarith, .inr (by linarith)⟩
    · rintro ⟨rfl, h | h⟩
      · simp at h
      · rw [h]
        norm_num
  · constructor
    · intro h
      exact ⟨by linarith, .inr (by linarith)⟩
    · rintro ⟨rfl, h | h⟩
      · simp at h
      · rw [h]
        norm_num
  · simp

/-- What the decoder makes of the digits it read, against what the string denotes. -/
theorem value_eq_denoted_iff (d : Digital src) :
    Value.finite ((if (header src).sign ≠ 0 then -1 else 1) *
        ((header src).units (Radix.value nbase (covered src)) * 10 ^
          (header src).unitExp)) = denoted src ↔
      ((Exact src ∧ Visible src) ∨ Worthless src) ∧ Signed src := by
  have hknown : ((header src).sign ≠ 0 ↔ (header src).sign = numericNeg) ↔
      (header src).sign = 0 ∨ (header src).sign = numericNeg := by
    have hneg : numericNeg ≠ 0 := by decide
    constructor
    · intro h
      by_cases h0 : (header src).sign = 0
      · exact .inl h0
      · exact .inr (h.mp h0)
    · rintro (h | h) <;> simp [h, hneg, hneg.symm]
  rw [denoted_eq d.notNaN d.notPosInf d.notNegInf, Value.finite.injEq,
    signed_eq_iff (units_nonneg _ _) (shown_nonneg src), units_eq_shown_iff d,
    hknown, Signed, or_assoc]

theorem unitExp_range (src : Bytes) : -393212 ≤ (header src).unitExp ∧
    (header src).unitExp ≤ 131072 := by
  have hweight := signed16_range (fromBigEndian ((src.drop 2).take 2))
  have hscale := signed16_range (fromBigEndian ((src.drop 6).take 2))
  have hdigits := header_ndigits_lt src
  have hw : (header src).weight = signed 16 (fromBigEndian ((src.drop 2).take 2)) := by
    simp only [header]
  have hs : (header src).dscale = signed 16 (fromBigEndian ((src.drop 6).take 2)) := by
    simp only [header]
  unfold Header.unitExp Header.exp
  split <;> omega

theorem Header.unitExp_nonneg_iff (h : Header) :
    0 ≤ h.unitExp ↔ h.dscale ≤ 0 ∧ h.ndigits ≤ h.weight + 1 := by
  unfold Header.unitExp Header.exp
  split <;> omega

theorem covered_length_le (src : Bytes) : (covered src).length ≤ src.length / 2 ∧
    (covered src).length ≤ 65536 := by
  have hlen : (words (src.drop 8)).length = (src.length - 8) / 2 := by
    rw [words_length, length_drop]
  have hgroups : (header src).groups ≤ 16384 := by
    unfold Header.groups
    omega
  unfold covered
  rw [length_take]
  omega

/-- There are at most as many trailing zeros as decimal places in the words read. -/
theorem trailing_zeros_le {t v : Nat} (hv : v ≠ 0)
    (h : Radix.value nbase (covered src) = v * 10 ^ t) : t ≤ 5 * (covered src).length := by
  have hlt : Radix.value nbase (covered src) < (10 ^ 5) ^ (covered src).length := by
    apply Radix.value_lt_pow (by decide)
    intro d hd
    have := words_lt (mem_of_mem_take hd)
    omega
  rw [h, ← pow_mul] at hlt
  have hpow : 10 ^ t < 10 ^ (5 * (covered src).length) :=
    lt_of_le_of_lt (Nat.le_mul_of_pos_left _ (Nat.pos_of_ne_zero hv)) hlt
  exact le_of_lt ((Nat.pow_lt_pow_iff_right (by omega)).mp hpow)

theorem value_ofInt (i : Int) {e : Int} (hlow : -2 ^ 31 ≤ e) (hhigh : e < 2 ^ 31) :
    ({ int := some i, exp := Int32.ofInt e, valid := true } : Numeric).value = .finite
      (i * 10 ^ e) := by
  simp only [Numeric.value, Option.getD_some, Int32.toInt_ofInt_of_le hlow hhigh]
  rfl

/-- A number with a fraction is returned in units of its last decimal. -/
theorem scan_fraction (d : Digital src) (he : (header src).unitExp < 0) :
    ∃ k ≤ roundBound src.length (header src), Budget.Spends (scanNumericBinary (some src)) k
      (.ok { int := some (if (header src).sign ≠ 0 then
                -((header src).units (Radix.value nbase (covered src)) : Int)
              else (header src).units (Radix.value nbase (covered src))),
             exp := Int32.ofInt (header src).unitExp, valid := true }) := by
  obtain ⟨k, hk, hspends, -⟩ := d.scan_eq
  refine ⟨k + 0, by unfold roundBound; omega, hspends 0 _ ?_⟩
  unfold finish
  rw [if_neg (by omega)]
  exact (Budget.Spends.pure _).bind (.pure _)

/-- A number without a fraction is returned without its trailing zeros. -/
theorem scan_whole (d : Digital src) (he : 0 ≤ (header src).unitExp)
    (hv : Radix.value nbase (covered src) ≠ 0) :
    ∃ k ≤ roundBound src.length (header src), ∃ t v, Radix.value nbase (covered src) = v * 10 ^ t ∧
      t ≤ 5 * (covered src).length ∧ Budget.Spends (scanNumericBinary (some src)) k
      (.ok { int := some (if (header src).sign ≠ 0 then -(v : Int) else v),
             exp := Int32.ofInt ((header src).unitExp + t), valid := true }) := by
  obtain ⟨k, hk, hspends, -⟩ := d.scan_eq
  have hunits : (header src).units (Radix.value nbase (covered src)) = Radix.value nbase
      (covered src) :=
    if_neg (by have := (unitExp_nonneg_iff _).mp he; omega)
  rw [hunits] at hspends
  obtain ⟨t, v, heq, hlast, hreduce⟩ := reduce_spends _ (header src).unitExp hv
  have ht := trailing_zeros_le (by rintro rfl; simp at hlast) heq
  have hlen := covered_length_le src
  refine ⟨k + t, by unfold roundBound; omega, t, v, heq, ht, hspends t _ ?_⟩
  unfold finish
  rw [if_pos he]
  exact hreduce.bind_zero (.pure _)

structure Numeric.Ordinary (n : Numeric) : Prop where
  valid : n.valid = true
  number : n.nan = false
  finite : n.infinityModifier = .finite
  hasInt : n.int ≠ none
  exponent : -2 ^ 31 < n.exp.toInt

theorem ordinary_ofInt (i : Int) {e : Int} (hlow : -2 ^ 31 < e) (hhigh : e < 2 ^ 31) :
    ({ int := some i, exp := Int32.ofInt e, valid := true } : Numeric).Ordinary where
  valid := rfl
  number := rfl
  finite := rfl
  hasInt := Option.some_ne_none i
  exponent := by rwa [Int32.toInt_ofInt_of_le (le_of_lt hlow) hhigh]

/-- Unless it runs forever, the decoder returns the value of the digits it read. -/
theorem scan_value (d : Digital src) (h : ¬ Endless src) :
    ∃ k ≤ roundBound src.length (header src), ∃ n,
    Budget.Spends (scanNumericBinary (some src)) k (.ok n) ∧
      n.Ordinary ∧ n.value = .finite ((if (header src).sign ≠ 0 then -1 else 1) *
        ((header src).units (Radix.value nbase (covered src)) * 10 ^ (header src).unitExp)) := by
  have hrange := unitExp_range src
  by_cases he : 0 ≤ (header src).unitExp
  · have hscale := (unitExp_nonneg_iff _).mp he
    have hv : Radix.value nbase (covered src) ≠ 0 := fun h0 => h ⟨hscale.1, hscale.2, h0⟩
    obtain ⟨k, hk, t, v, heq, ht, hspends⟩ := scan_whole d he hv
    have hlen := covered_length_le src
    have hunits : (header src).units (Radix.value nbase (covered src)) = v * 10 ^ t := by
      rw [← heq]
      exact if_neg (by omega)
    refine ⟨k, hk, _, hspends, ordinary_ofInt _ (by omega) (by omega), ?_⟩
    rw [value_ofInt _ (by omega) (by omega), hunits, zpow_add₀ (by norm_num), zpow_natCast]
    split <;> (push_cast; ring_nf)
  · obtain ⟨k, hk, hspends⟩ := scan_fraction d (by omega)
    refine ⟨k, hk, _, hspends, ordinary_ofInt _ (by omega) (by omega), ?_⟩
    rw [value_ofInt _ (by omega) (by omega)]
    split <;> (push_cast; ring_nf)

theorem scan_endless (d : Digital src) (h : Endless src) :
    Budget.Stuck (scanNumericBinary (some src)) := by
  obtain ⟨hscale, hweight, hzero⟩ := h
  have he : 0 ≤ (header src).unitExp := (unitExp_nonneg_iff _).mpr ⟨hscale, hweight⟩
  obtain ⟨k, hk, -, hstuck⟩ := d.scan_eq
  apply hstuck
  rw [hzero, Header.units_zero]
  unfold finish
  rw [if_pos he]
  -- Zero has no last digit that is not zero.
  refine Budget.Stuck.bind (Budget.loop_stuck (I := fun p => p.1 = 0) ?_ rfl) _
  rintro ⟨v, e⟩ hv
  obtain rfl : v = 0 := hv
  exact ⟨(0, e + 1), rfl, rfl⟩

theorem scan_noDigits (hlen : 8 ≤ src.length) (h1 : (header src).sign ≠ pgNumericNaNSign)
    (h2 : (header src).sign ≠ pgNumericPosInfSign) (h3 : (header src).sign ≠ pgNumericNegInfSign)
    (h4 : (header src).ndigits = 0) :
    Budget.Spends (scanNumericBinary (some src)) 0 (.ok { int := some 0, valid := true }) := by
  unfold scanNumericBinary
  simp only [if_neg (Nat.not_lt.mpr hlen), if_neg h1, if_neg h2, if_neg h3, if_pos h4]
  exact .pure _

theorem shown_noDigits (h : (header src).ndigits = 0) : shown src = 0 := by
  simp [shown, positional, stated, h]

/-- Strings that do not reach the digit loop are decoded or refused at once. -/
theorem scan_short (h : ¬ Digital src) :
    ∃ r, Budget.Spends (scanNumericBinary (some src)) 0 r ∧ ∀ n, r = .ok n →
    n.value = denoted src := by
  by_cases hlen : src.length < 8
  · simp only [scanNumericBinary, if_pos hlen]
    exact ⟨_, .pure _, fun _ hn => by cases hn⟩
  by_cases h1 : (header src).sign = pgNumericNaNSign
  · simp only [scanNumericBinary, if_neg hlen, if_pos h1]
    refine ⟨_, .pure _, fun n hn => ?_⟩
    obtain rfl := Except.ok.inj hn
    simp [Numeric.value, denoted, h1]
  by_cases h2 : (header src).sign = pgNumericPosInfSign
  · simp only [scanNumericBinary, if_neg hlen, if_neg h1, if_pos h2]
    refine ⟨_, .pure _, fun n hn => ?_⟩
    obtain rfl := Except.ok.inj hn
    simp only [Numeric.value, denoted, if_neg h1, if_pos h2]
    rfl
  by_cases h3 : (header src).sign = pgNumericNegInfSign
  · simp only [scanNumericBinary, if_neg hlen, if_neg h1, if_neg h2, if_pos h3]
    refine ⟨_, .pure _, fun n hn => ?_⟩
    obtain rfl := Except.ok.inj hn
    simp only [Numeric.value, denoted, if_neg h1, if_neg h2, if_pos h3]
    rfl
  by_cases h4 : (header src).ndigits = 0
  · refine ⟨_, scan_noDigits (Nat.not_lt.mp hlen) h1 h2 h3 h4, fun n hn => ?_⟩
    obtain rfl := Except.ok.inj hn
    rw [denoted_eq h1 h2 h3, shown_noDigits h4]
    simp [Numeric.value]
  by_cases h5 : src.length - 8 < (header src).ndigits * 2
  · simp only [scanNumericBinary, if_neg hlen, if_neg h1, if_neg h2, if_neg h3, if_neg h4, if_pos h5]
    exact ⟨_, .pure _, fun _ hn => by cases hn⟩
  · exact absurd ⟨by omega, h1, h2, h3, h4, by omega⟩ h

/-- Within a bound that the length and the header give, the decoder returns an error or the
denoted value, exactly for the strings that are faithful. -/
theorem scanNumericBinary_denoted_iff (src : Bytes) :
    (∃ r left, scanNumericBinary (some src) (roundBound src.length (header src)) = some (r, left) ∧
      ∀ n, r = .ok n → n.value = denoted src) ↔ Faithful src := by
  by_cases d : Digital src
  · by_cases h : Endless src
    · rw [scan_endless d h]
      constructor
      · rintro ⟨r, left, hnone, -⟩
        exact nomatch hnone
      · intro hf
        exact absurd h (hf d).2.2
    · obtain ⟨k, hk, n, hspends, -, hvalue⟩ := scan_value d h
      rw [hspends.exists_iff hk]
      have hsame := value_eq_denoted_iff d
      rw [← hvalue] at hsame
      constructor
      · intro hn _
        obtain ⟨hdigits, hsign⟩ := hsame.mp (hn n rfl)
        exact ⟨hdigits, hsign, h⟩
      · rintro hf m hm
        obtain rfl := Except.ok.inj hm
        exact hsame.mpr ⟨(hf d).1, (hf d).2.1⟩
  · obtain ⟨r, hspends, hr⟩ := scan_short d
    rw [hspends.exists_iff (Nat.zero_le _)]
    exact ⟨fun _ hd => absurd hd d, fun _ => hr⟩

def zeroDigit : Bytes := [0, 1, 0, 0, 0, 0, 0, 0, 0, 0]

/-- No budget is enough for it. -/
theorem scanNumericBinary_zeroDigit : ¬ ∃ n r, scanNumericBinary (some zeroDigit) n = some r := by
  have d : Digital zeroDigit := by constructor <;> decide
  rintro ⟨n, r, h⟩
  rw [scan_endless d (by refine ⟨?_, ?_, ?_⟩ <;> decide) n] at h
  cases h

end Pgx.Pgtype
