import Pgx.Pgtype.Array

/-!
# Slices of slices

A nested slice cuts the flat slice of the elements into slices, one for each innermost row, and
makes a slice of slice headers for every row above. The cuts are in range exactly if the last one
is. Each row starts at the length of the next dimension times its index, so that rows overlap if
more than one row of more than one element is nested in the next dimension.
-/
namespace Pgx.Pgtype

open Pgx.Go List

variable {dims : List ArrayDimension} {p : Platform}

/-- A nested slice: what it shows of the flat slice -/
inductive View where
  | leaf (start len : Nat)
  | node (subs : List View)

mutual

/-- The slice headers that were made for the slices of slices -/
def View.headers : View → Nat
  | .leaf _ _ => 0
  | .node subs => subs.length + headersOf subs

def headersOf : List View → Nat
  | [] => 0
  | v :: vs => v.headers + headersOf vs

end

mutual

/-- The places of the flat slice that are seen through the nested one, in order -/
def View.positions : View → List Nat
  | .leaf start len => range' start len
  | .node subs => positionsOf subs

def positionsOf : List View → List Nat
  | [] => []
  | v :: vs => v.positions ++ positionsOf vs

end

/-- `anyMultiDimSliceArray.Dimensions` -/
def View.dimensions : View → List ArrayDimension
  | .leaf _ len => [⟨Int32.ofNat len, 1⟩]
  | .node [] => [⟨0, 1⟩]
  | .node (v :: vs) => ⟨Int32.ofNat (vs.length + 1), 1⟩ :: v.dimensions

/-- `for i := range n` with an assignment to the element `i`; `none` is a panic in one of the
rounds. -/
def eachIndex {β : Type} (body : Nat → Option β) : Nat → Option (List β)
  | 0 => some []
  | n + 1 =>
    match eachIndex body n, body n with
    | some bs, some b => some (bs ++ [b])
    | _, _ => none

/-- The rounds in order -/
theorem eachIndex_some {β : Type} {body : Nat → Option β} : ∀ {n : Nat} {bs : List β},
    eachIndex body n = some bs → bs.length = n ∧ ∀ i, i < n → body i = bs[i]?
  | 0, bs, h => by
    cases h
    exact ⟨rfl, fun i hi => by omega⟩
  | n + 1, bs, h => by
    unfold eachIndex at h
    cases hbs : eachIndex body n with
    | none => simp [hbs] at h
    | some bs' =>
      cases hb : body n with
      | none => simp [hbs, hb] at h
      | some b =>
        rw [hbs, hb] at h
        cases h
        obtain ⟨hlen, hget⟩ := eachIndex_some hbs
        refine ⟨by simp [hlen], fun i hi => ?_⟩
        by_cases hlast : i = n
        · rw [hlast, hb, ← hlen]
          simp
        · rw [hget i (by omega), getElem?_append_left (by omega)]

theorem eachIndex_isSome {β : Type} (body : Nat → Option β) :
    ∀ n, (eachIndex body n).isSome ↔ ∀ i, i < n → (body i).isSome
  | 0 => by simp [eachIndex]
  | n + 1 => by
    have ih := eachIndex_isSome body n
    unfold eachIndex
    constructor
    · intro h i hi
      cases hbs : eachIndex body n with
      | none => simp [hbs] at h
      | some bs =>
        cases hb : body n with
        | none => simp [hbs, hb] at h
        | some b =>
          by_cases hlast : i = n
          · simp [hlast, hb]
          · exact ih.mp (by simp [hbs]) i (by omega)
    · intro h
      obtain ⟨bs, hbs⟩ := Option.isSome_iff_exists.mp (ih.mpr fun i hi => h i (by omega))
      obtain ⟨b, hb⟩ := Option.isSome_iff_exists.mp (h n (by omega))
      simp [hbs, hb]

/-- `Slice3` panics unless the cut lies in the flat slice, and `MakeSlice` for a negative length.
The cut of a row starts at the length of the next dimension times the row's index. -/
def makeMultidimensionalSlice (p : Platform) (flatLen : Nat) : List ArrayDimension → Int → Option View
  | [], _ => none
  | [d], flatSliceIdx =>
    let endIdx := p.int (flatSliceIdx + d.len)
    if 0 ≤ flatSliceIdx ∧ flatSliceIdx ≤ endIdx ∧ endIdx ≤ flatLen then
      some (.leaf flatSliceIdx.toNat (endIdx - flatSliceIdx).toNat)
    else none
  | d :: d' :: ds, flatSliceIdx =>
    if d.len < 0 then none
    else
      (eachIndex
        (fun i => makeMultidimensionalSlice p flatLen (d' :: ds)
          (p.int (flatSliceIdx + p.int (i * d'.len))))
        d.len.toNat).map View.node

/-- Every cut lies in the flat slice, and no length of a slice of slices is negative. -/
def Cuts (p : Platform) (flatLen : Nat) : List ArrayDimension → Int → Prop
  | [], _ => False
  | [d], idx => 0 ≤ idx ∧ idx ≤ p.int (idx + d.len) ∧ p.int (idx + d.len) ≤ flatLen
  | d :: d' :: ds, idx =>
    0 ≤ d.len ∧ ∀ i : Nat, i < d.len.toNat → Cuts p flatLen (d' :: ds)
      (p.int (idx + p.int (i * d'.len)))

theorem makeMultidimensionalSlice_isSome (p : Platform) (flatLen : Nat) :
    ∀ (dims : List ArrayDimension) (idx : Int),
      (makeMultidimensionalSlice p flatLen dims idx).isSome ↔ Cuts p flatLen dims idx
  | [], _ => by simp [makeMultidimensionalSlice, Cuts]
  | [d], idx => by
    simp only [makeMultidimensionalSlice, Cuts]
    split <;> simp_all
  | d :: d' :: ds, idx => by
    have ih := makeMultidimensionalSlice_isSome p flatLen (d' :: ds)
    simp only [makeMultidimensionalSlice, Cuts]
    by_cases hneg : d.len < 0
    · simp [hneg]
    · rw [if_neg hneg, Option.isSome_map, eachIndex_isSome]
      simp only [ih]
      exact ⟨fun h => ⟨by omega, h⟩, fun h => h.2⟩

theorem prod_lengths_pos (h : ∀ d ∈ dims, 1 ≤ d.len) : 1 ≤ (lengths dims).prod := by
  refine Int.add_one_le_of_lt (prod_pos fun n hn => ?_)
  obtain ⟨d, hd, rfl⟩ := mem_map.mp hn
  have := h d hd
  omega

/-- A row of positive lengths ends in time, since it starts no later than it should. -/
theorem row_le {n : Int} {d d' : ArrayDimension} {ds : List ArrayDimension}
    (hpos : ∀ e ∈ d :: d' :: ds, 1 ≤ e.len)
    {idx : Int} (hle : idx + (lengths (d :: d' :: ds)).prod ≤ n) {i : Nat} (hi : i < d.len.toNat) :
    idx + i * d'.len + (lengths (d' :: ds)).prod ≤ n := by
  have hd := hpos d (by simp)
  have hd' := hpos d' (by simp)
  have hprod : (lengths (d :: d' :: ds)).prod = d.len * (lengths (d' :: ds)).prod := prod_cons
  have hprod' : (lengths (d' :: ds)).prod = d'.len * (lengths ds).prod := prod_cons
  have hrest : 1 ≤ (lengths ds).prod := prod_lengths_pos fun e he => hpos e (by simp [he])
  have hi' : (i : Int) ≤ d.len - 1 := by omega
  have hstart : i * d'.len ≤ (d.len - 1) * (d'.len * (lengths ds).prod) := by
    calc (i : Int) * d'.len ≤ (d.len - 1) * d'.len := by gcongr
      _ ≤ (d.len - 1) * (d'.len * (lengths ds).prod) := by
        have : d'.len ≤ d'.len * (lengths ds).prod := le_mul_of_one_le_right (by omega) hrest
        gcongr
  rw [hprod, hprod'] at hle
  rw [hprod']
  linarith

theorem int_row {flatLen : Nat} (hfits : Fits p flatLen) {d' : ArrayDimension}
    {ds : List ArrayDimension}
    (hpos : ∀ e ∈ d' :: ds, 1 ≤ e.len) {idx : Int} (h0 : 0 ≤ idx) {i : Nat}
    (hle : idx + i * d'.len + (lengths (d' :: ds)).prod ≤ flatLen) :
    p.int (idx + p.int (i * d'.len)) = idx + i * d'.len := by
  have hd' := hpos d' (by simp)
  have hrow := prod_lengths_pos hpos
  have hmul0 : (0 : Int) ≤ i * d'.len := by positivity
  have hint : p.int (i * d'.len) = i * d'.len := fits_of_between hmul0 (by omega) hfits
  rw [hint]
  exact fits_of_between (by omega) (by omega) hfits

/-- The rows of positive lengths lie in the flat slice, although each starts too early. -/
theorem cuts_of_pos {flatLen : Nat} (hfits : Fits p flatLen) :
    ∀ {dims : List ArrayDimension} {idx : Int}, dims ≠ [] → (∀ d ∈ dims, 1 ≤ d.len) → 0 ≤ idx →
      idx + (lengths dims).prod ≤ flatLen → Cuts p flatLen dims idx
  | [], _, hne, _, _, _ => absurd rfl hne
  | [d], idx, _, hpos, h0, hle => by
    have hd := hpos d (by simp)
    have hprod : (lengths [d]).prod = d.len := by simp [lengths]
    rw [hprod] at hle
    have hend : p.int (idx + d.len) = idx + d.len := fits_of_between (by omega) hle hfits
    simp only [Cuts, hend]
    omega
  | d :: d' :: ds, idx, _, hpos, h0, hle => by
    have hd := hpos d (by simp)
    have hd' := hpos d' (by simp)
    have hpos' : ∀ e ∈ d' :: ds, 1 ≤ e.len := fun e he => hpos e (.tail _ he)
    refine ⟨by omega, fun i hi => ?_⟩
    have hrow := row_le hpos hle hi
    rw [int_row hfits hpos' h0 hrow]
    exact cuts_of_pos hfits (by simp) hpos' (by positivity) hrow

theorem int_zero (p : Platform) : p.int 0 = 0 := int_of_fits p (by omega) (by omega)

/-- If every cut lies in the flat slice and no length is zero, all are positive. -/
theorem pos_of_cuts {flatLen : Nat} : ∀ {dims : List ArrayDimension}, Cuts p flatLen dims 0 →
    (∀ d ∈ dims, d.len ≠ 0) → ∀ d ∈ dims, 1 ≤ d.len
  | [], _, _ => by simp
  | [d], hcuts, hne => by
    have hd := hne d (by simp)
    obtain ⟨-, hle, -⟩ := hcuts
    rw [zero_add, fits_len] at hle
    intro e he
    rw [mem_singleton.mp he]
    omega
  | d :: d' :: ds, hcuts, hne => by
    have hd := hne d (by simp)
    obtain ⟨h0, hrows⟩ := hcuts
    have hfirst := hrows 0 (by omega)
    rw [Nat.cast_zero, zero_mul, int_zero, add_zero, int_zero] at hfirst
    intro e he
    rcases mem_cons.mp he with rfl | he
    · omega
    · exact pos_of_cuts hfirst (fun e' he' => hne e' (.tail _ he')) e he

/-- Where the last of the innermost rows ends -/
def reach : List ArrayDimension → Int
  | [] => 0
  | [d] => d.len
  | d :: d' :: ds => (d.len - 1) * d'.len + reach (d' :: ds)

/-- A sum that an `int` may not hold is negative after wrapping, for a start that lies in a slice of
bytes. -/
theorem int_eq_of_nonneg {flatLen : Nat} (hflat : Fits p (4 * flatLen)) {idx n : Int} (h0 : 0 ≤ idx)
    (hidx : idx ≤ flatLen) (hn : 0 ≤ n) (hn' : n < 2 ^ 31) (h : 0 ≤ p.int (idx + n)) :
    p.int (idx + n) = idx + n := by
  rw [fits_iff] at hflat
  cases p with
  | bits64 =>
    simp only [Platform.bits] at hflat
    exact (fits_iff .bits64 _).mpr
      ⟨by simp only [Platform.bits]; omega, by simp only [Platform.bits]; omega⟩
  | bits32 =>
    simp only [Platform.bits] at hflat
    refine (fits_iff .bits32 _).mpr ⟨by simp only [Platform.bits]; omega, ?_⟩
    by_contra hbig
    have hwrap : Platform.bits32.int (idx + n) = idx + n - 2 ^ 32 := by
      show Int.bmod (idx + n) 4294967296 = _
      simp only [Platform.bits] at hbig
      rw [Int.bmod_def]
      split <;> omega
    rw [hwrap] at h
    simp only [Platform.bits] at hbig
    omega

theorem len_lt (d : ArrayDimension) : d.len < 2 ^ 31 := d.length.toInt_lt

theorem reach_nonneg : ∀ {dims : List ArrayDimension}, (∀ d ∈ dims.dropLast, 1 ≤ d.len) →
    (∀ d ∈ dims, 0 ≤ d.len) →
    0 ≤ reach dims
  | [], _, _ => le_refl _
  | [d], _, h0 => h0 d (by simp)
  | d :: d' :: ds, hpos, h0 => by
    have hd := hpos d (by simp)
    have hd' := h0 d' (by simp)
    have hrest : 0 ≤ reach (d' :: ds) :=
      reach_nonneg (fun e he => hpos e (.tail _ he)) fun e he => h0 e (.tail _ he)
    have hmul : 0 ≤ (d.len - 1) * d'.len := mul_nonneg (by omega) hd'
    show 0 ≤ (d.len - 1) * d'.len + reach (d' :: ds)
    omega

theorem int_add_int (p : Platform) (m n : Int) : p.int (m + p.int n) = p.int (m + n) :=
    Int.add_bmod_bmod

/-- If the starts of all rows lie in the flat slice after wrapping, none of them has wrapped. -/
theorem starts_le {flatLen : Nat} (hflat : Fits p (4 * flatLen)) {idx : Int} (h0 : 0 ≤ idx)
    {d' : ArrayDimension} (hd' : 0 ≤ d'.len) : ∀ {i : Nat},
    (∀ j : Nat, j ≤ i → 0 ≤ p.int (idx + j * d'.len) ∧ p.int (idx + j * d'.len) ≤ flatLen) →
      idx ≤ flatLen → p.int (idx + i * d'.len) = idx + i * d'.len
  | 0, h, hle => by
    rw [Nat.cast_zero, zero_mul, add_zero]
    exact fits_of_between h0 (by omega : idx ≤ 4 * flatLen) hflat
  | i + 1, h, hle => by
    have ih := starts_le hflat h0 hd' (i := i) (fun j hj => h j (by omega)) hle
    have hi := h i (by omega)
    have hnext := h (i + 1) (le_refl _)
    rw [ih] at hi
    have hsum : idx + ((i + 1 : Nat) : Int) * d'.len = idx + i * d'.len + d'.len := by push_cast; ring
    rw [hsum] at hnext ⊢
    exact int_eq_of_nonneg hflat hi.1 hi.2 hd' (len_lt d') hnext.1

/-- Without an empty slice of slices, every cut lies in the flat slice if the last one does. -/
theorem cuts_iff_reach {flatLen : Nat} (hflat : Fits p (4 * flatLen)) :
    ∀ {dims : List ArrayDimension} {idx : Int},
    dims ≠ [] → (∀ d ∈ dims.dropLast, 1 ≤ d.len) → (∀ d ∈ dims, 0 ≤ d.len) → Fits p idx →
      (Cuts p flatLen dims idx ↔ 0 ≤ idx ∧ idx + reach dims ≤ flatLen)
  | [], _, hne, _, _, _ => absurd rfl hne
  | [d], idx, _, _, h0, _ => by
    have hd := h0 d (by simp)
    simp only [Cuts, reach]
    constructor
    · rintro ⟨hidx, hle, hend⟩
      have hint := int_eq_of_nonneg hflat hidx (by omega) hd (len_lt d) (by omega)
      omega
    · rintro ⟨hidx, hle⟩
      have hint : p.int (idx + d.len) = idx + d.len :=
        fits_of_between (by omega) (by omega : _ ≤ 4 * (flatLen : Int)) hflat
      omega
  | d :: d' :: ds, idx, _, hpos, h0, hfits => by
    have hd := hpos d (by simp)
    have hd' := h0 d' (by simp)
    have hpos' : ∀ e ∈ (d' :: ds).dropLast, 1 ≤ e.len := fun e he => hpos e (.tail _ he)
    have h0' : ∀ e ∈ d' :: ds, 0 ≤ e.len := fun e he => h0 e (.tail _ he)
    have hrest := reach_nonneg hpos' h0'
    have ih : ∀ i : Int, Cuts p flatLen (d' :: ds) (p.int (idx + i)) ↔
        0 ≤ p.int (idx + i) ∧ p.int (idx + i) + reach (d' :: ds) ≤ flatLen :=
      fun i => cuts_iff_reach hflat (by simp) hpos' h0' (Platform.int_fits p _)
    simp only [Cuts, int_add_int, ih, reach]
    constructor
    · rintro ⟨-, hrows⟩
      have hfirst := hrows 0 (by omega)
      rw [Nat.cast_zero, zero_mul, add_zero, hfits] at hfirst
      have hlast : ((d.len.toNat - 1 : Nat) : Int) = d.len - 1 := by omega
      have hstart := starts_le hflat hfirst.1 hd' (i := d.len.toNat - 1)
        (fun j hj => ⟨(hrows j (by omega)).1, by linarith [(hrows j (by omega)).2]⟩) (by omega)
      have hend := (hrows (d.len.toNat - 1) (by omega)).2
      rw [hstart, hlast] at hend
      exact ⟨hfirst.1, by linarith⟩
    · rintro ⟨hidx, hle⟩
      refine ⟨by omega, fun i hi => ?_⟩
      have hstart : (i : Int) * d'.len ≤ (d.len - 1) * d'.len := by
        gcongr
        omega
      have hmul0 : (0 : Int) ≤ i * d'.len := by positivity
      have hint : p.int (idx + i * d'.len) = idx + i * d'.len :=
        fits_of_between (by omega) (by linarith : _ ≤ 4 * (flatLen : Int)) hflat
      rw [hint]
      exact ⟨by omega, by linarith⟩

/-- Below an empty slice of slices nothing is cut. -/
theorem cuts_of_outer_zero {flatLen : Nat} : ∀ {dims : List ArrayDimension} {idx : Int},
    (∀ d ∈ dims, 0 ≤ d.len) → (∃ d ∈ dims.dropLast, d.len = 0) → Cuts p flatLen dims idx
  | [], _, _, hzero => by simp at hzero
  | [_], _, _, hzero => by simp at hzero
  | d :: d' :: ds, idx, h0, ⟨e, he, hzero⟩ => by
    refine ⟨h0 d (by simp), fun i hi => ?_⟩
    rcases mem_cons.mp he with rfl | he
    · omega
    · exact cuts_of_outer_zero (fun e he => h0 e (.tail _ he)) ⟨e, he, hzero⟩

/-- The cuts are in range if nothing is cut or the last one is. -/
theorem cuts_iff {flatLen : Nat} (hflat : Fits p (4 * flatLen)) (hne : dims ≠ [])
    (h0 : ∀ d ∈ dims, 0 ≤ d.len) :
    Cuts p flatLen dims 0 ↔ (∃ d ∈ dims.dropLast, d.len = 0) ∨ reach dims ≤ flatLen := by
  by_cases hzero : ∃ d ∈ dims.dropLast, d.len = 0
  · exact ⟨fun _ => .inl hzero, fun _ => cuts_of_outer_zero h0 hzero⟩
  · have hpos : ∀ d ∈ dims.dropLast, 1 ≤ d.len := by
      intro d hd
      have h0d := h0 d ((dropLast_sublist dims).subset hd)
      have hned : d.len ≠ 0 := fun h => hzero ⟨d, hd, h⟩
      omega
    rw [cuts_iff_reach hflat hne hpos h0 (int_zero p), zero_add]
    exact ⟨fun h => .inr h.2, fun h => ⟨le_refl _, h.resolve_left hzero⟩⟩

/-- The rows of a slice of slices whose lengths are positive, and where they start -/
theorem makeMultidimensionalSlice_rows {flatLen : Nat} (hfits : Fits p flatLen)
    {d d' : ArrayDimension}
    {ds : List ArrayDimension} {idx : Int} {v : View}
    (hpos : ∀ e ∈ d :: d' :: ds, 1 ≤ e.len) (h0 : 0 ≤ idx)
    (hle : idx + (lengths (d :: d' :: ds)).prod ≤ flatLen)
    (hv : makeMultidimensionalSlice p flatLen (d :: d' :: ds) idx = some v) :
    ∃ subs, v = .node subs ∧ subs.length = d.len.toNat ∧ ∀ (i : Nat) (w : View), subs[i]? = some w →
      idx + i * d'.len + (lengths (d' :: ds)).prod ≤ flatLen ∧
        makeMultidimensionalSlice p flatLen (d' :: ds) (idx + i * d'.len) = some w := by
  have hd := hpos d (by simp)
  simp only [makeMultidimensionalSlice] at hv
  rw [if_neg (by omega)] at hv
  obtain ⟨subs, hsubs, rfl⟩ := Option.map_eq_some_iff.mp hv
  obtain ⟨hlen, hget⟩ := eachIndex_some hsubs
  refine ⟨subs, rfl, hlen, fun i w hw => ?_⟩
  have hi : i < d.len.toNat := hlen ▸ (List.getElem?_eq_some_iff.mp hw).1
  have hrow := row_le hpos hle hi
  have hbody := (hget i hi).trans hw
  rw [int_row hfits (fun e he => hpos e (.tail _ he)) h0 hrow] at hbody
  exact ⟨hrow, hbody⟩

/-- The rows of a nested slice do not overlap: each starts at the length of the next dimension times
its index, which is where it should start if there is one row, or nothing is nested in the next
dimension but single rows. -/
def Spaced : List ArrayDimension → Prop
  | d :: d' :: ds => (1 < d.len → (lengths ds).prod = 1) ∧ Spaced (d' :: ds)
  | _ => True

instance decidableSpaced : (dims : List ArrayDimension) → Decidable (Spaced dims)
  | [] => .isTrue trivial
  | [_] => .isTrue trivial
  | _ :: d' :: ds => @instDecidableAnd _ _ inferInstance (decidableSpaced (d' :: ds))

theorem positionsOf_eq {vs : List View} {start k : Nat}
    (h : ∀ (i : Nat) (v : View), vs[i]? = some v → v.positions = range' (start + i * k) k) :
    positionsOf vs = range' start (vs.length * k) := by
  induction vs generalizing start with
  | nil => simp [positionsOf]
  | cons v vs ih =>
    have hv := h 0 v rfl
    have hvs : positionsOf vs = range' (start + k) (vs.length * k) := ih fun i w hw => by
      rw [h (i + 1) w hw]
      ring_nf
    rw [Nat.zero_mul, Nat.add_zero] at hv
    rw [positionsOf, hv, hvs, length_cons, range'_append_1]
    ring_nf

theorem ofNat_len {d : ArrayDimension} (h0 : 0 ≤ d.len) (hlow : d.lowerBound = 1) :
    (⟨Int32.ofNat d.len.toNat, 1⟩ : ArrayDimension) = d := by
  have hlen : Int32.ofNat d.len.toNat = d.length := by
    rw [← Int32.ofInt_eq_ofNat, Int.toNat_of_nonneg h0]
    exact Int32.ofInt_toInt _
  rw [hlen, ← hlow]

theorem leaf_of_fits {flatLen : Nat} (hfits : Fits p flatLen) {d : ArrayDimension} (hd : 1 ≤ d.len)
    {idx : Int} {v : View} (h0 : 0 ≤ idx) (hle : idx + d.len ≤ flatLen)
    (hv : makeMultidimensionalSlice p flatLen [d] idx = some v) :
    v = .leaf idx.toNat d.len.toNat := by
  have hend : p.int (idx + d.len) = idx + d.len := fits_of_between (by omega) hle hfits
  simp only [makeMultidimensionalSlice, hend] at hv
  rw [if_pos (by omega), add_sub_cancel_left] at hv
  exact (Option.some.inj hv).symm

/-- Through slices whose rows do not overlap every element is seen once, in order. -/
theorem spaced_positions {flatLen : Nat} (hfits : Fits p flatLen) :
    ∀ {dims : List ArrayDimension} {idx : Int} {v : View},
    (∀ d ∈ dims, 1 ≤ d.len) → Spaced dims → 0 ≤ idx → idx + (lengths dims).prod ≤ flatLen →
      makeMultidimensionalSlice p flatLen dims idx = some v →
        v.positions = range' idx.toNat (lengths dims).prod.toNat
  | [], _, _, _, _, _, _, hv => nomatch hv
  | [d], idx, v, hpos, _, h0, hle, hv => by
    have hd := hpos d (by simp)
    have hprod : (lengths [d]).prod = d.len := by simp [lengths]
    rw [hprod] at hle ⊢
    rw [leaf_of_fits hfits hd h0 hle hv]
    rfl
  | d :: d' :: ds, idx, v, hpos, hspaced, h0, hle, hv => by
    have hd := hpos d (by simp)
    have hd' := hpos d' (by simp)
    have hpos' : ∀ e ∈ d' :: ds, 1 ≤ e.len := fun e he => hpos e (.tail _ he)
    have hprod : (lengths (d :: d' :: ds)).prod = d.len * (lengths (d' :: ds)).prod := prod_cons
    have hprod' : (lengths (d' :: ds)).prod = d'.len * (lengths ds).prod := prod_cons
    have hrow := prod_lengths_pos hpos'
    obtain ⟨subs, rfl, hlen, hrows⟩ := makeMultidimensionalSlice_rows hfits hpos h0 hle hv
    have hplaces : ∀ (i : Nat) (w : View), subs[i]? = some w →
        w.positions = range' (idx.toNat + i * (lengths (d' :: ds)).prod.toNat)
          (lengths (d' :: ds)).prod.toNat := by
      intro i w hw
      have hi : i < subs.length := (List.getElem?_eq_some_iff.mp hw).1
      -- the row starts where it should
      have hstart : (i : Int) * d'.len = i * (lengths (d' :: ds)).prod := by
        rcases Nat.eq_zero_or_pos i with rfl | hi0
        · simp
        · rw [hprod', hspaced.1 (by omega), mul_one]
      have hmul0 : (0 : Int) ≤ i * (lengths (d' :: ds)).prod := by positivity
      obtain ⟨hend, hbody⟩ := hrows i w hw
      rw [hstart] at hend hbody
      rw [spaced_positions hfits hpos' hspaced.2 (by omega) hend hbody, Int.toNat_add h0 hmul0,
        Int.toNat_mul (by omega) (by omega), Int.toNat_natCast]
    rw [View.positions, positionsOf_eq hplaces, hlen, hprod, Int.toNat_mul (by omega) (by omega)]

/-- The dimensions are read off the first row of each slice. -/
theorem dimensions_eq {flatLen : Nat} (hfits : Fits p flatLen) :
    ∀ {dims : List ArrayDimension} {idx : Int} {v : View},
    (∀ d ∈ dims, 1 ≤ d.len ∧ d.lowerBound = 1) → 0 ≤ idx → idx + (lengths dims).prod ≤ flatLen →
      makeMultidimensionalSlice p flatLen dims idx = some v → v.dimensions = dims
  | [], _, _, _, _, _, hv => nomatch hv
  | [d], idx, v, hpos, h0, hle, hv => by
    obtain ⟨hd, hlow⟩ := hpos d (by simp)
    have hprod : (lengths [d]).prod = d.len := by simp [lengths]
    rw [hprod] at hle
    rw [leaf_of_fits hfits hd h0 hle hv]
    exact congrArg (fun e => [e]) (ofNat_len (by omega) hlow)
  | d :: d' :: ds, idx, v, hpos, h0, hle, hv => by
    obtain ⟨hd, hlow⟩ := hpos d (by simp)
    obtain ⟨subs, rfl, hlen, hrows⟩ :=
      makeMultidimensionalSlice_rows hfits (fun e he => (hpos e he).1) h0 hle hv
    obtain ⟨w, ws, rfl⟩ := exists_cons_of_length_pos (by omega : 0 < subs.length)
    obtain ⟨hend, hbody⟩ := hrows 0 w rfl
    rw [Nat.cast_zero, zero_mul, add_zero] at hend hbody
    rw [View.dimensions, dimensions_eq hfits (fun e he => hpos e (.tail _ he)) h0 hend hbody,
      ← length_cons (a := w), hlen, ofNat_len (by omega) hlow]

theorem positionsOf_length {vs : List View} {k : Nat} (h : ∀ v ∈ vs, v.positions.length = k) :
    (positionsOf vs).length = vs.length * k := by
  induction vs with
  | nil => simp [positionsOf]
  | cons v vs ih =>
    rw [positionsOf, length_append, h v (by simp), ih fun w hw => h w (.tail _ hw), length_cons]
    ring

/-- As many places are seen as the lengths say, the first one at the start. -/
theorem positions_shape {flatLen : Nat} (hfits : Fits p flatLen) :
    ∀ {dims : List ArrayDimension} {idx : Int} {v : View},
    (∀ d ∈ dims, 1 ≤ d.len) → 0 ≤ idx → idx + (lengths dims).prod ≤ flatLen →
      makeMultidimensionalSlice p flatLen dims idx = some v →
        v.positions.length = (lengths dims).prod.toNat ∧ v.positions.head? = some idx.toNat
  | [], _, _, _, _, _, hv => nomatch hv
  | [d], idx, v, hpos, h0, hle, hv => by
    have hd := hpos d (by simp)
    have hprod : (lengths [d]).prod = d.len := by simp [lengths]
    rw [hprod] at hle ⊢
    rw [leaf_of_fits hfits hd h0 hle hv, View.positions, head?_range', if_neg (by omega)]
    exact ⟨length_range', rfl⟩
  | d :: d' :: ds, idx, v, hpos, h0, hle, hv => by
    have hd := hpos d (by simp)
    have hd' := hpos d' (by simp)
    have hpos' : ∀ e ∈ d' :: ds, 1 ≤ e.len := fun e he => hpos e (.tail _ he)
    have hprod : (lengths (d :: d' :: ds)).prod = d.len * (lengths (d' :: ds)).prod := prod_cons
    have hrow := prod_lengths_pos hpos'
    obtain ⟨subs, rfl, hlen, hrows⟩ := makeMultidimensionalSlice_rows hfits hpos h0 hle hv
    have hshape : ∀ (i : Nat) (w : View), subs[i]? = some w →
        w.positions.length = (lengths (d' :: ds)).prod.toNat ∧
        w.positions.head? = some (idx + i * d'.len).toNat := by
      intro i w hw
      obtain ⟨hle', hw'⟩ := hrows i w hw
      exact positions_shape hfits hpos' (by positivity) hle' hw'
    have hall : ∀ w ∈ subs, w.positions.length = (lengths (d' :: ds)).prod.toNat := by
      intro w hw
      obtain ⟨i, hi⟩ := mem_iff_getElem?.mp hw
      exact (hshape i w hi).1
    refine ⟨?_, ?_⟩
    · rw [View.positions, positionsOf_length hall, hlen, hprod, Int.toNat_mul (by omega) (by omega)]
    · cases subs with
      | nil => simp only [length_nil] at hlen; omega
      | cons w ws =>
        rw [View.positions, positionsOf, head?_append, (hshape 0 w rfl).2]
        simp

/-- If every element is seen once, in order, the rows do not overlap. -/
theorem spaced_of_positions {flatLen : Nat} (hfits : Fits p flatLen) :
    ∀ {dims : List ArrayDimension} {idx : Int} {v : View},
    (∀ d ∈ dims, 1 ≤ d.len) → 0 ≤ idx → idx + (lengths dims).prod ≤ flatLen →
      makeMultidimensionalSlice p flatLen dims idx = some v →
        v.positions = range' idx.toNat (lengths dims).prod.toNat → Spaced dims
  | [], _, _, _, _, _, _, _ => trivial
  | [_], _, _, _, _, _, _, _ => trivial
  | d :: d' :: ds, idx, v, hpos, h0, hle, hv, hall => by
    have hd := hpos d (by simp)
    have hd' := hpos d' (by simp)
    have hpos' : ∀ e ∈ d' :: ds, 1 ≤ e.len := fun e he => hpos e (.tail _ he)
    have hprod : (lengths (d :: d' :: ds)).prod = d.len * (lengths (d' :: ds)).prod := prod_cons
    have hprod' : (lengths (d' :: ds)).prod = d'.len * (lengths ds).prod := prod_cons
    have hrow := prod_lengths_pos hpos'
    obtain ⟨subs, rfl, hlen, hrows⟩ := makeMultidimensionalSlice_rows hfits hpos h0 hle hv
    obtain ⟨w, ws, rfl⟩ := exists_cons_of_length_pos (by omega : 0 < subs.length)
    obtain ⟨hle0, hw⟩ := hrows 0 w rfl
    rw [Nat.cast_zero, zero_mul, add_zero] at hle0 hw
    have hshape := (positions_shape hfits hpos' h0 hle0 hw).1
    -- the places of the first row, and those of the others
    have hsplit : (lengths (d :: d' :: ds)).prod.toNat =
        (lengths (d' :: ds)).prod.toNat + ws.length * (lengths (d' :: ds)).prod.toNat := by
      rw [hprod, Int.toNat_mul (by omega) (by omega), ← hlen, length_cons]
      ring
    rw [View.positions, positionsOf, hsplit, ← range'_append_1] at hall
    obtain ⟨hfirst, hothers⟩ := append_inj hall (by rw [hshape, length_range'])
    refine ⟨fun hd1 => ?_, spaced_of_positions hfits hpos' h0 hle0 hw hfirst⟩
    rw [length_cons] at hlen
    obtain ⟨w', ws', rfl⟩ := exists_cons_of_length_pos (by omega : 0 < ws.length)
    obtain ⟨hle1, hw'⟩ := hrows 1 w' rfl
    rw [Nat.cast_one, one_mul] at hle1 hw'
    have hstart := (positions_shape hfits hpos' (by omega) hle1 hw').2
    have hhead := congrArg head? hothers
    rw [positionsOf, head?_append, hstart, head?_range', if_neg (by simp; omega)] at hhead
    have heq : d'.len * (lengths ds).prod = d'.len * 1 := by
      simp only [Option.some_or, Option.some.injEq] at hhead
      omega
    exact mul_left_cancel₀ (by omega) heq

theorem mem_positionsOf {vs : List View} {n : Nat} (h : n ∈ positionsOf vs) :
    ∃ v ∈ vs, n ∈ v.positions := by
  induction vs with
  | nil => simp [positionsOf] at h
  | cons v vs ih =>
    rcases mem_append.mp h with h | h
    · exact ⟨v, by simp, h⟩
    · obtain ⟨w, hw, hn⟩ := ih h
      exact ⟨w, .tail _ hw, hn⟩

/-- No place outside of the flat slice is seen. -/
theorem positions_lt {flatLen : Nat} : ∀ {dims : List ArrayDimension} {idx : Int} {v : View},
    makeMultidimensionalSlice p flatLen dims idx = some v → ∀ n ∈ v.positions, n < flatLen
  | [], _, _, hv => nomatch hv
  | [d], idx, v, hv => by
    simp only [makeMultidimensionalSlice] at hv
    split at hv
    · cases hv
      intro n hn
      rw [View.positions, mem_range'_1] at hn
      omega
    · cases hv
  | d :: d' :: ds, idx, v, hv => by
    simp only [makeMultidimensionalSlice] at hv
    split at hv
    · cases hv
    · obtain ⟨subs, hsubs, rfl⟩ := Option.map_eq_some_iff.mp hv
      obtain ⟨hlen, hget⟩ := eachIndex_some hsubs
      intro n hn
      obtain ⟨w, hw, hn⟩ := mem_positionsOf hn
      obtain ⟨i, hi⟩ := mem_iff_getElem?.mp hw
      have hlt : i < d.len.toNat := hlen ▸ (List.getElem?_eq_some_iff.mp hi).1
      exact positions_lt ((hget i hlt).trans hi) n hn

/-- The caller sees every element once, in order, exactly if there are none or the rows do not
overlap. -/
theorem positions_eq_range_iff {flatLen : Nat} (hfits : Fits p flatLen) {v : View}
    (h0 : ∀ d ∈ dims, 0 ≤ d.len)
    (hprod : (lengths dims).prod = flatLen) (hv :
    makeMultidimensionalSlice p flatLen dims 0 = some v) :
    v.positions = range flatLen ↔ (∃ d ∈ dims, d.len = 0) ∨ Spaced dims := by
  by_cases hzero : ∃ d ∈ dims, d.len = 0
  · obtain ⟨d, hd, hd0⟩ := hzero
    have hnone : flatLen = 0 := by
      have hmem : (0 : Int) ∈ lengths dims := hd0 ▸ mem_map_of_mem hd
      rw [prod_eq_zero hmem] at hprod
      omega
    have hempty : v.positions = [] := eq_nil_iff_forall_not_mem.mpr fun n hn => by
      have := positions_lt hv n hn
      omega
    rw [hempty, hnone]
    exact ⟨fun _ => .inl ⟨d, hd, hd0⟩, fun _ => rfl⟩
  · have hpos : ∀ d ∈ dims, 1 ≤ d.len := by
      intro d hd
      have hd0 := h0 d hd
      have hne : d.len ≠ 0 := fun h => hzero ⟨d, hd, h⟩
      omega
    have hrange : range flatLen = range' (0 : Int).toNat (lengths dims).prod.toNat := by
      rw [hprod, Int.toNat_natCast, range_eq_range']
      rfl
    rw [hrange, or_iff_right hzero]
    exact ⟨spaced_of_positions hfits hpos (le_refl _) (by omega) hv,
      fun h => spaced_positions hfits hpos h (le_refl _) (by omega) hv⟩

/-- The headers of the slices of slices: the rows of the first dimension, those of the first two,
and so on, without the last dimension -/
def rowHeaders : List ArrayDimension → Nat
  | [] => 0
  | [_] => 0
  | d :: d' :: ds => d.len.toNat + d.len.toNat * rowHeaders (d' :: ds)

theorem headersOf_eq {vs : List View} {h : Nat}
    (hall : ∀ (i : Nat) (v : View), vs[i]? = some v → v.headers = h) :
    headersOf vs = vs.length * h := by
  induction vs with
  | nil => simp [headersOf]
  | cons v vs ih =>
    have hv := hall 0 v rfl
    have hvs := ih fun i w hw => hall (i + 1) w hw
    rw [headersOf, hv, hvs, length_cons]
    ring

theorem makeMultidimensionalSlice_headers (p : Platform) (flatLen : Nat) :
    ∀ (dims : List ArrayDimension) (idx : Int) (v : View),
      makeMultidimensionalSlice p flatLen dims idx = some v → v.headers = rowHeaders dims
  | [], _, _, h => nomatch h
  | [d], idx, v, h => by
    simp only [makeMultidimensionalSlice] at h
    split at h
    · cases h
      rfl
    · cases h
  | d :: d' :: ds, idx, v, h => by
    have ih := makeMultidimensionalSlice_headers p flatLen (d' :: ds)
    simp only [makeMultidimensionalSlice] at h
    split at h
    · cases h
    · obtain ⟨subs, hsubs, rfl⟩ := Option.map_eq_some_iff.mp h
      obtain ⟨hlen, hget⟩ := eachIndex_some hsubs
      have hall : ∀ (i : Nat) (w : View), subs[i]? = some w → w.headers = rowHeaders (d' :: ds) := by
        intro i w hw
        have hi : i < d.len.toNat := by
          rw [← hlen]
          exact (List.getElem?_eq_some_iff.mp hw).1
        exact ih _ w ((hget i hi).trans hw)
      rw [View.headers, headersOf_eq hall, hlen, rowHeaders]

end Pgx.Pgtype
