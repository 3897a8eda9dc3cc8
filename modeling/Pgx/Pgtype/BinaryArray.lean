import Pgx.Pgtype.ArrayTarget

/-!
# Arrays in binary

The header gives the number of dimensions, whether there are NULLs, the type of the elements, and
for each dimension its length and lower bound. Every element follows with its length, which is -1
for NULL. How an element is scanned is a parameter.
-/
namespace Pgx.Pgtype

open Pgx.Go Pgx.Go.Cursor List

variable {body src : Bytes} {dims : List ArrayDimension} {p : Platform}

structure ArrayHeader where
  containsNull : Bool
  elementOID : UInt32
  dimensions : List ArrayDimension
  deriving DecidableEq

section Decode

variable {ε α : Type}

def decodeDimension : Cursor (ArrayError ε) ArrayDimension := do
  let length ← int32
  let lowerBound ← int32
  pure ⟨length, lowerBound⟩

/-- `arrayHeader.DecodeBinary` -/
def ArrayHeader.decodeBinary (p : Platform) : Cursor (ArrayError ε) ArrayHeader := do
  let src ← rest
  failIf (src.length < 12) (.errorf "array header too short: %d" [src.length])
  let n ← uint 4
  failIf (6 < p.int n) (.errorf "array has too many dimensions: %d" [p.int n])
  let containsNull ← uint32
  let elementOID ← uint32
  failIf ((src.length : Int) < p.int (12 + p.int (p.int n * 8)))
    (.errorf "array header too short for %d dimensions: %d" [p.int n, src.length])
  make (p.int n)
  let dimensions ← fill (p.int n).toNat decodeDimension (p.int n).toNat 0
  pure ⟨containsNull == 1, elementOID, dimensions⟩

/-- `array.ScanIndex(i)`: the element's address in the flat slice -/
def scanIndex (flatLen i : Nat) : Cursor (ArrayError ε) Unit := if i < flatLen then pure () else panic

def elementTooLong (i : Nat) (elemLen : Int) (remaining : Nat) : ArrayError ε :=
  .errorf "array element %d length %d exceeds remaining %d bytes" [i, elemLen, remaining]

def scanElement (flatLen : Nat) (scan : Option Bytes → Checked ε α) (i : Nat) :
    Cursor (ArrayError ε) α := do
  require 4 (.errorf "array body truncated at element %d" [i])
  scanIndex flatLen i
  let elemSrc ← sizedField (elementTooLong i)
  lift (.element i) (scan elemSrc)

/-- `for i := range elementCount` -/
def scanElements (flatLen : Nat) (scan : Option Bytes → Checked ε α) :
    (count i : Nat) → Cursor (ArrayError ε) (List α)
  | 0, _ => pure []
  | count + 1, i => do
    let a ← scanElement flatLen scan i
    let as ← scanElements flatLen scan count (i + 1)
    pure (a :: as)

/-- The elements that were scanned, in the order of the flat slice -/
structure Decoded (α : Type) where
  layout : Layout
  elements : List α

/-- The elements that a target has made room for, and the slice headers -/
structure ArrayRun (ε α : Type) where
  allocated : Nat
  result : Checked (ArrayError ε) (Decoded α)

/-- The places of the flat slice that the caller sees, in order -/
def Decoded.places (r : Decoded α) : List Nat :=
  match r.layout with
  | .nested view => view.positions
  | _ => range r.elements.length

/-- The elements behind the header. The plan for them is chosen for `array.ScanIndex(0)`. -/
def scanBody (flatLen : Nat) (scan : Option Bytes → Checked ε α) : Cursor (ArrayError ε) (List α) :=
  if flatLen = 0 then pure []
  else do
    scanIndex flatLen 0
    scanElements flatLen scan flatLen 0

def decodeBinaryBody (p : Platform) (t : ArrayTarget) (scan : Option Bytes → Checked ε α)
    (dims : List ArrayDimension) (body : Bytes) : ArrayRun ε α :=
  let elementCount := cardinality p dims
  if (body.length / 4 : Nat) < elementCount then
    ⟨0, .error (.returned
      (.errorf "array claims %d elements but only %d bytes remain" [elementCount, body.length]))⟩
  else
    match setDimensions p dims t with
    | .error e => ⟨0, .error e⟩
    | .ok layout =>
      ⟨elementCount.toNat + layout.headers, .mk layout <$>
        (scanBody elementCount.toNat scan).run' body⟩

/-- `ArrayCodec.decodeBinary` -/
def decodeBinary (p : Platform) (t : ArrayTarget) (scan : Option Bytes → Checked ε α)
    (src : Bytes) : ArrayRun ε α :=
  match ArrayHeader.decodeBinary p src with
  | .error e => ⟨0, .error e⟩
  | .ok (header, body) => decodeBinaryBody p t scan header.dimensions body

/-- A number of dimensions that is negative as an `int` is told by a length that does not suffice
for it. -/
def HeaderFits (p : Platform) (src : Bytes) : Prop :=
  let numDims := p.int (fromBigEndian (src.take 4))
  12 ≤ src.length → numDims < 0 → (src.length : Int) < p.int (12 + p.int (numDims * 8))

instance (p : Platform) (src : Bytes) : Decidable (HeaderFits p src) := by
  unfold HeaderFits
  infer_instance

theorem header_int_eq (p : Platform) {n : Int} (h0 : 0 ≤ n) (h6 : n ≤ 6) :
    p.int (12 + p.int (n * 8)) = 12 + n * 8 := by
  have hmul : p.int (n * 8) = n * 8 := int_of_fits p (by omega) (by omega)
  rw [hmul]
  exact int_of_fits p (by omega) (by omega)

theorem wp_decodeDimension {Q : ArrayDimension → Bytes → Prop} (hlen : 8 ≤ src.length)
    (hQ : ∀ d, Q d (src.drop 8)) :
    wp (decodeDimension : Cursor (ArrayError ε) ArrayDimension) Q src := by
  simp only [decodeDimension, int32, uint32, wp_bind, wp_map, wp_uint, wp_pure,
    length_drop, drop_drop]
  exact ⟨by omega, by omega, hQ _⟩

/-- It reads no more than there is, and leaves the rest of the slice. -/
theorem ArrayHeader.wp_decodeBinary (p : Platform) {Q : ArrayHeader → Bytes → Prop}
    (hQ : ∀ header body, body.length ≤ src.length → Q header body) :
    wp (ArrayHeader.decodeBinary p : Cursor (ArrayError ε) ArrayHeader) Q src ↔ HeaderFits p src := by
  simp only [ArrayHeader.decodeBinary, HeaderFits, uint32, wp_bind, wp_rest, wp_failIf, wp_uint,
    wp_map, wp_make, wp_pure, length_drop, drop_drop]
  generalize hnum : p.int (fromBigEndian (take 4 src)) = numDims
  constructor
  · intro h h12 hneg
    by_contra hlen
    have := (h (by omega)).2 (by omega)
    have := (this.2.2 hlen).1
    omega
  · intro h h12
    refine ⟨by omega, fun h6 => ⟨by omega, by omega, fun hlen => ?_⟩⟩
    have h0 : 0 ≤ numDims := by
      by_contra hneg
      exact hlen (h (by omega) (by omega))
    refine ⟨h0, ?_⟩
    rw [header_int_eq p h0 (by omega)] at hlen
    -- eight bytes for every dimension that is left
    refine wp_mono (wp_fill (fun k b => 8 * k ≤ b.length ∧ b.length ≤ src.length) ?_ ?_ (by omega))
      fun _ b hb => hQ _ _ hb.2
    · intro k b hb
      refine wp_decodeDimension (by omega) fun d => ?_
      rw [length_drop]
      omega
    · rw [length_drop]
      omega

theorem ArrayHeader.decodeBinary_noPanic_iff (ε : Type) (p : Platform) (src : Bytes) :
    NoPanic (ArrayHeader.decodeBinary p src : Checked (ArrayError ε) _) ↔ HeaderFits p src :=
  noPanic_iff_wp.trans (ArrayHeader.wp_decodeBinary p fun _ _ _ => trivial)

theorem ArrayHeader.decodeBinary_rest {header : ArrayHeader}
    (h : ArrayHeader.decodeBinary p src = (.ok (header, body) : Checked (ArrayError ε) _)) :
    body.length ≤ src.length := by
  have hfits := (ArrayHeader.decodeBinary_noPanic_iff ε p src).mp (by rw [h]; exact noPanic_ok _)
  exact of_wp (Q := fun _ b => b.length ≤ src.length)
    ((ArrayHeader.wp_decodeBinary p fun _ _ hle => hle).mpr hfits) h

variable {scan : Option Bytes → Checked ε α}

/-- An element is read and scanned, if it is there. -/
theorem wp_scanElement {flatLen i : Nat} (hi : i < flatLen) {Q : α → Bytes → Prop} (src : Bytes) :
    wp (scanElement flatLen scan i) Q src ↔
      ∀ b left, nextSized src = some (b, left) → NoPanic (scan b) ∧
      ∀ a, scan b = .ok a → Q a left := by
  simp only [scanElement, scanIndex, if_pos hi, wp_bind, wp_require, wp_pure]
  exact wp_sizedScan ..

/-- The body holds this many elements, and each can be scanned. -/
structure Readable (scan : Option Bytes → Checked ε α) (count : Nat) (body : Bytes) : Prop where
  length : (sizedFields count body).length = count
  scans : ∀ b ∈ sizedFields count body, ∃ a, scan b = .ok a

theorem readable_zero (body : Bytes) : Readable scan 0 body := ⟨rfl, nofun⟩

theorem readable_succ_iff {count : Nat} : Readable scan (count + 1) body ↔
    ∃ b left, nextSized body = some (b, left) ∧ (∃ a, scan b = .ok a) ∧ Readable scan count left := by
  constructor
  · rintro ⟨hlen, hscans⟩
    rw [sizedFields] at hlen hscans
    cases hnext : nextSized body with
    | none => simp [hnext] at hlen
    | some r =>
      rw [hnext] at hlen hscans
      exact ⟨r.1, r.2, rfl, hscans _ (.head _), Nat.succ.inj hlen, fun b hb => hscans b (.tail _ hb)⟩
  · rintro ⟨b, left, hnext, ha, hrest⟩
    constructor
    · rw [sizedFields, hnext]
      exact congrArg Nat.succ hrest.length
    · rw [sizedFields, hnext]
      intro b' hb'
      rcases mem_cons.mp hb' with rfl | hb'
      · exact ha
      · exact hrest.scans b' hb'

/-- The loop panics only if the scan of an element does. -/
theorem wp_scanElements {flatLen : Nat} : ∀ (count i : Nat) (src : Bytes), i + count ≤ flatLen →
    (wp (scanElements flatLen scan count i) (fun _ _ => True) src ↔
      ¬ Trips scan (sizedFields count src))
  | 0, _, _, _ => by simp [scanElements, sizedFields, Trips]
  | count + 1, i, src, hle => by
    have hle' : i + 1 + count ≤ flatLen := by omega
    have ih := fun left => wp_scanElements count (i + 1) left hle'
    rw [scanElements, wp_bind, wp_scanElement (by omega), sizedFields]
    simp only [wp_bind, wp_pure, ih]
    cases hnext : nextSized src with
    | none => simp [Trips]
    | some r => simpa [not_trips_cons] using
      ⟨fun h => h r.1 r.2 rfl, fun h b left hr => by cases hr; exact h⟩

/-- It comes to its end only for a body that can be read. -/
theorem wp_scanElements_readable {flatLen : Nat} :
    ∀ (count i : Nat) (src : Bytes), i + count ≤ flatLen →
    ¬ Trips scan (sizedFields count src) →
      wp (scanElements flatLen scan count i) (fun as _ => as.length = count ∧
        Readable scan count src) src
  | 0, _, src, _, _ => ⟨rfl, readable_zero src⟩
  | count + 1, i, src, hle, hquiet => by
    rw [scanElements, wp_bind, wp_scanElement (by omega)]
    intro b left hnext
    rw [sizedFields, hnext, not_trips_cons] at hquiet
    refine ⟨hquiet.1, fun a ha => ?_⟩
    rw [wp_bind]
    have hle' : i + 1 + count ≤ flatLen := by omega
    refine wp_mono (wp_scanElements_readable count (i + 1) left hle' (hquiet.2 a ha))
      fun as _ has => ?_
    exact ⟨congrArg Nat.succ has.1, readable_succ_iff.mpr ⟨b, left, hnext, ⟨a, ha⟩, has.2⟩⟩

theorem Readable.runs {flatLen : Nat} : ∀ {count i : Nat} {src : Bytes}, i + count ≤ flatLen →
    Readable scan count src →
    ∃ as left, Runs (scanElements flatLen scan count i) src as left
  | 0, _, src, _, _ => ⟨[], src, rfl⟩
  | count + 1, i, src, hle, h => by
    obtain ⟨b, left, hnext, ⟨a, ha⟩, hrest⟩ := readable_succ_iff.mp h
    have hle' : i + 1 + count ≤ flatLen := by omega
    obtain ⟨as, left', has⟩ := hrest.runs hle'
    have hi : scanIndex flatLen i = (pure () : Cursor (ArrayError ε) Unit) := if_pos (by omega)
    have helem : Runs (scanElement flatLen scan i) src a left := by
      refine .bind (.require _ (length_of_nextSized hnext)) ?_
      rw [hi]
      exact .bind (.pure _) (.bind (.sizedField _ hnext) (.lift _ ha))
    exact ⟨a :: as, left', .bind helem (.bind has (.pure _))⟩

theorem scanBody_eq (count : Nat) (scan : Option Bytes → Checked ε α) :
    scanBody count scan = scanElements count scan count 0 := by
  unfold scanBody
  by_cases h0 : count = 0
  · rw [if_pos h0, h0]
    rfl
  · rw [if_neg h0, scanIndex, if_pos (by omega)]
    rfl

/-- The loop over the elements, as `decodeBinary` returns its result. -/
theorem scanBody_result {count : Nat} {layout : Layout} {result : Checked (ArrayError ε) (Decoded α)}
    (hresult : result = .mk layout <$> (scanBody count scan).run' body) :
    (NoPanic result ↔ ¬ Trips scan (sizedFields count body)) ∧
      (∀ r, result = .ok r → r.layout = layout ∧ r.elements.length = count ∧
        Readable scan count body) ∧
      (Readable scan count body → ∃ r, result = .ok r) := by
  have hle : 0 + count ≤ count := by omega
  have hpanic : NoPanic (scanElements count scan count 0 body) ↔
      ¬ Trips scan (sizedFields count body) :=
    noPanic_iff_wp.trans (wp_scanElements count 0 body hle)
  have hresult' : result = .mk layout <$> Prod.fst <$> scanElements count scan count 0 body := by
    rw [hresult, scanBody_eq]
    rfl
  refine ⟨?_, ?_, fun h => ?_⟩
  · rw [← hpanic, hresult']
    cases scanElements count scan count 0 body with
    | ok r => exact ⟨fun _ => noPanic_ok _, fun _ => noPanic_ok _⟩
    | error e => exact ⟨fun h he => h (by cases he; rfl), fun h he => h (by cases he; rfl)⟩
  · intro r hr
    cases hd : scanElements count scan count 0 body with
    | ok r' =>
      rw [hd] at hpanic
      rw [hresult', hd] at hr
      cases hr
      obtain ⟨hlen, hreadable⟩ :=
        of_wp (wp_scanElements_readable count 0 body hle (hpanic.mp (noPanic_ok _))) hd
      exact ⟨rfl, hlen, hreadable⟩
    | error e =>
      rw [hresult', hd] at hr
      cases hr
  · obtain ⟨as, left, has⟩ := h.runs hle
    have has' : scanElements count scan count 0 body = .ok (as, left) := has
    exact ⟨⟨layout, as⟩, by rw [hresult', has']; rfl⟩

/-- The number of elements that the header claims: the product of the lengths as an `int`, and none
if that is negative -/
def claimed (p : Platform) (dims : List ArrayDimension) : Nat := (p.int (volume dims)).toNat

theorem cardinality_eq_claimed (p : Platform) (dims : List ArrayDimension) :
    cardinality p dims = claimed p dims := by
  rw [cardinality_eq, claimed]
  omega

/-- Decoding does not panic, makes no more elements and slice headers than there are bytes, and
delivers as many elements as the dimensions say, each of them once and in order. -/
structure Safe (p : Platform) (src : Bytes) (run : ArrayRun ε α) : Prop where
  noPanic : NoPanic run.result
  allocated : run.allocated ≤ src.length
  delivers : ∀ r header body, run.result = .ok r →
    ArrayHeader.decodeBinary p src = (.ok (header, body) : Checked (ArrayError ε) _) →
      (∀ d ∈ header.dimensions, 0 ≤ d.len) ∧ (r.places.length : Int) = volume header.dimensions ∧
        r.places = range r.elements.length

/-- The slices of a nested target can be made: no length is negative, the last row ends in the flat
slice unless nothing is cut, and there are not more elements and headers than bytes. -/
structure RowsFit (p : Platform) (src : Bytes) (dims : List ArrayDimension) : Prop where
  nonneg : ∀ d ∈ dims, 0 ≤ d.len
  ends : (∃ d ∈ dims.dropLast, d.len = 0) ∨ reach dims ≤ claimed p dims
  headers : claimed p dims + rowHeaders dims ≤ src.length

/-- The lengths are those of an array: none is negative, their product is an `int`, and the rows of
a nested target do not overlap. -/
structure ExactLengths (p : Platform) (t : ArrayTarget) (dims : List ArrayDimension) : Prop where
  nonneg : ∀ d ∈ dims, 0 ≤ d.len
  product : Fits p (volume dims)
  spaced : t.Nests dims → (∃ d ∈ dims, d.len = 0) ∨ Spaced dims

/-- What must hold of the lengths and of the elements behind the header -/
structure Proportioned (p : Platform) (t : ArrayTarget) (scan : Option Bytes → Checked ε α)
    (src body : Bytes) (dims : List ArrayDimension) : Prop where
  rows : t.Nests dims → RowsFit p src dims
  quiet : ¬ Trips scan (sizedFields (claimed p dims) body)
  exact : Readable scan (claimed p dims) body → ExactLengths p t dims

theorem volume_nonneg (h : ∀ d ∈ dims, 0 ≤ d.len) : 0 ≤ volume dims := by
  unfold volume
  split
  · exact le_refl _
  · refine prod_nonneg fun n hn => ?_
    obtain ⟨d, hd, rfl⟩ := mem_map.mp hn
    exact h d hd

theorem claimed_eq_iff (h : ∀ d ∈ dims, 0 ≤ d.len) :
    (claimed p dims : Int) = volume dims ↔ Fits p (volume dims) := by
  have h0 := volume_nonneg h
  unfold claimed Fits
  refine ⟨fun heq => ?_, fun heq => by omega⟩
  by_cases hneg : p.int (volume dims) < 0
  · have hzero : volume dims = 0 := by omega
    rw [hzero, int_zero]
  · omega

theorem fits_claimed (hlen : Fits p src.length) (hbody : body.length ≤ src.length)
    (hcount : claimed p dims ≤ body.length / 4) : Fits p (4 * claimed p dims) :=
  fits_of_between (by positivity) (by omega) hlen

theorem ArrayTarget.Nests.volume_eq {t : ArrayTarget} (h : t.Nests dims) :
    dims ≠ [] ∧ volume dims = (lengths dims).prod := by
  have hne : dims ≠ [] := fun hnil => by
    have := h.1
    simp [hnil] at this
  exact ⟨hne, if_neg hne⟩

/-- A negative length next to cuts that succeed goes with a length of zero, so that nothing is
claimed. -/
theorem claimed_eq_zero_of_cuts {flatLen : Nat} (hcuts : Cuts p flatLen dims 0)
    (hneg : ¬ ∀ d ∈ dims, 0 ≤ d.len)
    (hvol : volume dims = (lengths dims).prod) : claimed p dims = 0 := by
  have hzero : ∃ d ∈ dims, d.len = 0 := by
    by_contra hno
    refine hneg fun d hd => ?_
    have := pos_of_cuts hcuts (fun e he h => hno ⟨e, he, h⟩) d hd
    omega
  obtain ⟨d, hd, h0⟩ := hzero
  have hmem : (0 : Int) ∈ lengths dims := h0 ▸ mem_map_of_mem hd
  rw [claimed, hvol, prod_eq_zero hmem, int_zero]
  rfl

section Body

variable {t : ArrayTarget} {header : ArrayHeader} (hlen : Fits p src.length)
    (hbody : body.length ≤ src.length)
  (hheader : ArrayHeader.decodeBinary p src = (.ok (header, body) : Checked (ArrayError ε) _))
  (hcount : claimed p header.dimensions ≤ body.length / 4)

include hlen hbody hheader hcount

theorem nested_safe_iff (hnests : t.Nests header.dimensions) {view : View}
    (hview : makeMultidimensionalSlice p (claimed p header.dimensions)
      header.dimensions 0 = some view)
    {result : Checked (ArrayError ε) (Decoded α)}
    (hresult : result = .mk (.nested view) <$>
      (scanBody (claimed p header.dimensions) scan).run' body) :
    Safe p src ⟨claimed p header.dimensions + view.headers, result⟩ ↔
      Proportioned p t scan src body header.dimensions := by
  obtain ⟨hne, hvol⟩ := hnests.volume_eq
  have hflat := fits_claimed hlen hbody hcount
  have hfits : Fits p (claimed p header.dimensions) :=
    fits_of_between (by positivity) (by omega) hflat
  have hheaders := makeMultidimensionalSlice_headers p _ _ 0 view hview
  have hcuts := (makeMultidimensionalSlice_isSome p _ _ 0).mp (by rw [hview]; rfl)
  obtain ⟨hpanic, hok, hread⟩ := scanBody_result hresult
  constructor
  · rintro ⟨hnp, halloc, hdel⟩
    have hnonneg : ∀ d ∈ header.dimensions, 0 ≤ d.len := by
      by_contra hneg
      have h0 := claimed_eq_zero_of_cuts hcuts hneg hvol
      obtain ⟨r, hr⟩ := hread (by rw [h0]; exact readable_zero body)
      exact hneg (hdel r header body hr hheader).1
    refine ⟨fun _ => ⟨hnonneg, (cuts_iff hflat hne hnonneg).mp hcuts, hheaders ▸ halloc⟩,
      hpanic.mp hnp, fun hreadable => ?_⟩
    obtain ⟨r, hr⟩ := hread hreadable
    obtain ⟨hlayout, helems, -⟩ := hok r hr
    obtain ⟨-, hplaces, hrange⟩ := hdel r header body hr hheader
    rw [hrange, length_range, helems] at hplaces
    rw [Decoded.places, hlayout, helems] at hrange
    exact ⟨hnonneg, (claimed_eq_iff hnonneg).mp hplaces,
      fun _ => (positions_eq_range_iff hfits hnonneg (hvol ▸ hplaces.symm) hview).mp hrange⟩
  · rintro ⟨hrows, hquiet, hexact⟩
    refine ⟨hpanic.mpr hquiet, hheaders ▸ (hrows hnests).headers,
      fun r header' body' hr hheader' => ?_⟩
    cases hheader.symm.trans hheader'
    obtain ⟨hlayout, helems, hreadable⟩ := hok r hr
    obtain ⟨hnonneg, hproduct, hspaced⟩ := hexact hreadable
    have hprod := (claimed_eq_iff hnonneg).mpr hproduct
    have hplaces : r.places = range r.elements.length := by
      rw [Decoded.places, hlayout, helems]
      exact (positions_eq_range_iff hfits hnonneg (hvol ▸ hprod.symm) hview).mpr (hspaced hnests)
    refine ⟨hnonneg, ?_, hplaces⟩
    rw [hplaces, length_range, helems, hprod]

omit hlen in
theorem plain_safe_iff (hnests : ¬ t.Nests header.dimensions) {layout : Layout}
    (hplain : ∀ view, layout ≠ .nested view) {result : Checked (ArrayError ε) (Decoded α)}
    (hresult : result = .mk layout <$> (scanBody (claimed p header.dimensions) scan).run' body) :
    Safe p src ⟨claimed p header.dimensions + layout.headers, result⟩ ↔
      Proportioned p t scan src body header.dimensions := by
  obtain ⟨hpanic, hok, hread⟩ := scanBody_result hresult
  have hplaces : ∀ r, result = .ok r → r.places = range (claimed p header.dimensions) := by
    intro r hr
    obtain ⟨hlayout, helems, -⟩ := hok r hr
    unfold Decoded.places
    rw [hlayout, helems]
    cases layout with
    | dims _ => rfl
    | flat => rfl
    | nested view => exact absurd rfl (hplain view)
  constructor
  · rintro ⟨hnp, -, hdel⟩
    refine ⟨fun h => absurd h hnests, hpanic.mp hnp, fun hreadable => ?_⟩
    obtain ⟨r, hr⟩ := hread hreadable
    obtain ⟨hnonneg, hvol, -⟩ := hdel r header body hr hheader
    rw [hplaces r hr, length_range] at hvol
    exact ⟨hnonneg, (claimed_eq_iff hnonneg).mp hvol, fun h => absurd h hnests⟩
  · rintro ⟨-, hquiet, hexact⟩
    refine ⟨hpanic.mpr hquiet, ?_, fun r header' body' hr hheader' => ?_⟩
    · show _ + layout.headers ≤ _
      rw [Layout.headers_eq_zero hplain]
      omega
    · cases hheader.symm.trans hheader'
      obtain ⟨-, helems, hreadable⟩ := hok r hr
      obtain ⟨hnonneg, hproduct, -⟩ := hexact hreadable
      rw [hplaces r hr, helems, length_range]
      exact ⟨hnonneg, (claimed_eq_iff hnonneg).mpr hproduct, rfl⟩

end Body

theorem safe_of_returned (err : ArrayError ε) :
    Safe p src (⟨0, .error (.returned err)⟩ : ArrayRun ε α) :=
  ⟨noPanic_returned err, Nat.zero_le _, nofun⟩

theorem decodeBinaryBody_safe_iff {t : ArrayTarget} {header : ArrayHeader} (hlen : Fits p src.length)
    (hbody : body.length ≤ src.length)
    (hheader : ArrayHeader.decodeBinary p src = (.ok (header, body) : Checked (ArrayError ε) _)) :
    Safe p src (decodeBinaryBody p t scan header.dimensions body) ↔
      (claimed p header.dimensions ≤ body.length / 4 → t.Takes header.dimensions →
        Proportioned p t scan src body header.dimensions) := by
  have hcard := cardinality_eq_claimed p header.dimensions
  unfold decodeBinaryBody
  by_cases hcount : claimed p header.dimensions ≤ body.length / 4
  swap
  · rw [if_pos (by omega)]
    exact ⟨fun _ hle => absurd hle hcount, fun _ => safe_of_returned _⟩
  rw [if_neg (by omega)]
  simp only [hcard, Int.toNat_natCast]
  by_cases hnests : t.Nests header.dimensions
  · rw [setDimensions_nests hnests, hcard, Int.toNat_natCast]
    cases hview : makeMultidimensionalSlice p (claimed p header.dimensions) header.dimensions 0 with
    | none =>
      refine ⟨fun h => absurd rfl h.noPanic, fun h => ?_⟩
      have hrows := (h hcount hnests.takes).rows hnests
      have hcuts := (cuts_iff (fits_claimed hlen hbody hcount) hnests.volume_eq.1
          hrows.nonneg).mpr hrows.ends
      have hsome := (makeMultidimensionalSlice_isSome p _ _ 0).mpr hcuts
      rw [hview] at hsome
      exact absurd hsome (by simp)
    | some view =>
      exact (nested_safe_iff hlen hbody hheader hcount hnests hview rfl).trans
        ⟨fun h _ _ => h, fun h => h hcount hnests.takes⟩
  · rcases setDimensions_other (ε := ε) p hnests with ⟨htakes, layout, hset, hplain⟩
      | ⟨hno, err, hset⟩
    · rw [hset]
      exact (plain_safe_iff hbody hheader hcount hnests hplain rfl).trans
        ⟨fun h _ _ => h, fun h => h hcount htakes⟩
    · rw [hset]
      exact ⟨fun _ _ htakes => absurd htakes hno, fun _ => safe_of_returned err⟩

/-- Decoding keeps its promises exactly for a header whose lengths are as they should be, with
elements whose scan does not panic. The length of a slice is an `int`. -/
theorem decodeBinary_safe_iff (p : Platform) (t : ArrayTarget) (scan : Option Bytes → Checked ε α)
    (src : Bytes) (hlen : Fits p src.length) :
    Safe p src (decodeBinary p t scan src) ↔
      HeaderFits p src ∧
        ∀ header body, ArrayHeader.decodeBinary p src =
          (.ok (header, body) : Checked (ArrayError ε) _) →
          claimed p header.dimensions ≤ body.length / 4 → t.Takes header.dimensions →
            Proportioned p t scan src body header.dimensions := by
  rw [← ArrayHeader.decodeBinary_noPanic_iff ε p src]
  unfold decodeBinary
  cases hheader : (ArrayHeader.decodeBinary p src : Checked (ArrayError ε) _) with
  | error e =>
    constructor
    · intro h
      exact ⟨fun he => h.noPanic (by cases he; rfl), nofun⟩
    · rintro ⟨hnp, -⟩
      exact ⟨fun he => hnp (by cases he; rfl), Nat.zero_le _, nofun⟩
  | ok r =>
    obtain ⟨header, body⟩ := r
    have hbody := ArrayHeader.decodeBinary_rest hheader
    refine (decodeBinaryBody_safe_iff hlen hbody hheader).trans
      ⟨fun h => ⟨noPanic_ok _, ?_⟩, fun h => h.2 _ _ rfl⟩
    intro header' body' hok
    cases hok
    exact h

end Decode

/-- An array with these lengths and lower bounds 1, and these bytes behind the header -/
def arrayOf (lengths : List Int) (body : Bytes) : Bytes :=
  bigEndian 4 lengths.length ++ bigEndian 4 0 ++ bigEndian 4 25 ++
    lengths.flatMap (fun n => bigEndian 4 (unsigned 32 n) ++ bigEndian 4 1) ++ body

def keepBytes (b : Option Bytes) : Checked Empty (Option Bytes) := .ok b

theorem keepBytes_noPanic (b : Option Bytes) : NoPanic (keepBytes b) := noPanic_ok b

/-- One row of two elements, of which the second is NULL -/
theorem decodeBinary_safe_pair :
    Safe .bits64 (arrayOf [1, 2] (bigEndian 4 1 ++ [104] ++ [255, 255, 255, 255]))
      (decodeBinary .bits64 (.slices 2) keepBytes
        (arrayOf [1, 2] (bigEndian 4 1 ++ [104] ++ [255, 255, 255, 255]))) := by
  refine (decodeBinary_safe_iff .bits64 (.slices 2) keepBytes _ (by decide +kernel)).mpr
    ⟨by decide, ?_⟩
  intro header body hok _ _
  have hheader : ArrayHeader.decodeBinary .bits64
      (arrayOf [1, 2] (bigEndian 4 1 ++ [104] ++ [255, 255, 255, 255])) =
      (.ok (⟨false, 25, [⟨1, 1⟩, ⟨2, 1⟩]⟩, bigEndian 4 1 ++ [104] ++ [255, 255, 255, 255]) :
        Checked (ArrayError Empty) _) := by
    decide +kernel
  cases hheader.symm.trans hok
  refine ⟨fun _ => ⟨by decide, .inr (by decide +kernel), by decide +kernel⟩, ?_, fun _ => ?_⟩
  · exact not_trips_of_noPanic keepBytes_noPanic _
  · exact ⟨by decide, by decide +kernel, fun _ => .inr (by decide)⟩

/-- The places that the caller sees, by evaluation -/
theorem Safe.places {ε α : Type} {run : ArrayRun ε α} (h : Safe p src run) (header : ArrayHeader)
    (body : Bytes) (places : List Nat) (hrun : run.result.toOption.map Decoded.places = some places)
    (hheader : ArrayHeader.decodeBinary p src = (.ok (header, body) : Checked (ArrayError ε) _)) :
    (∀ d ∈ header.dimensions, 0 ≤ d.len) ∧ (places.length : Int) = volume header.dimensions ∧
      places = range places.length := by
  cases hresult : run.result with
  | error e => simp [hresult, Except.toOption] at hrun
  | ok r =>
    rw [hresult] at hrun
    cases hrun
    obtain ⟨hnonneg, hvol, hrange⟩ := h.delivers r header body hresult hheader
    refine ⟨hnonneg, hvol, ?_⟩
    rw [hrange, length_range]

/-- 2^64 elements count as none. Two negative lengths make one element. The slices of an empty array
with two rows of three do not fit into it. Forty rows without elements take more headers than there
are bytes. Of two slices with two rows of two the second slice starts in the first. -/
theorem lengths_unchecked : ¬ Safe .bits64 (arrayOf [65536, 65536, 65536, 65536] [])
      (decodeBinary .bits64 .flatArray keepBytes (arrayOf [65536, 65536, 65536, 65536] [])) ∧
    ¬ Safe .bits64 (arrayOf [-1, -1] [255, 255, 255, 255])
      (decodeBinary .bits64 .array keepBytes (arrayOf [-1, -1] [255, 255, 255, 255])) ∧
    ¬ NoPanic (decodeBinary .bits64 (.slices 3) keepBytes (arrayOf [2, 3, 0] [])).result ∧
    (arrayOf [40, 0] []).length <
      (decodeBinary .bits64 (.slices 2) keepBytes (arrayOf [40, 0] [])).allocated ∧
    ¬ Safe .bits64 (arrayOf [2, 2, 2] (replicate 32 255))
      (decodeBinary .bits64 (.slices 3) keepBytes (arrayOf [2, 2, 2] (replicate 32 255))) := by
  refine ⟨fun h => ?_, fun h => ?_, by decide +kernel, by decide +kernel, fun h => ?_⟩
  · have hlen := (h.places ⟨false, 25, replicate 4 ⟨65536, 1⟩⟩ [] [] (by decide +kernel)
        (by decide +kernel)).2.1
    revert hlen
    decide +kernel
  · have hlow := (h.places ⟨false, 25, replicate 2 ⟨-1, 1⟩⟩ [255, 255, 255, 255] [0]
      (by decide +kernel) (by decide +kernel)).1
    revert hlow
    decide +kernel
  · have hrange :=
      (h.places ⟨false, 25, replicate 3 ⟨2, 1⟩⟩ (replicate 32 255) [0, 1, 2, 3, 2, 3, 4, 5]
      (by decide +kernel) (by decide +kernel)).2.2
    revert hrange
    decide +kernel

end Pgx.Pgtype
