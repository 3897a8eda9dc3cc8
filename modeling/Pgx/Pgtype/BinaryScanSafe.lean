import Pgx.Pgtype.BinaryScan

/-!
# Binary scanners and untrusted bytes

Hstores and text search vectors are scanned without a panic whatever the bytes are, and ranges
unless the scan of a bound panics. The others rely on a count or on the number of fields;
`binaryScanner_safe_iff` says for which bytes they are safe.
-/
namespace Pgx.Pgtype

open Pgx.Go Pgx.Go.Cursor List

variable {src : Bytes} {p : Platform}

section Safe

variable {ε α : Type}

theorem returnsOnly_noPanic {β : Type} {x : Checked (ScanError ε) β} :
    NoPanic (returnsOnly x) ↔ NoPanic x := by
  constructor
  · intro h hx
    rw [hx] at h
    exact h rfl
  · exact noPanic_map _

/-- `make` can be called for that many elements. -/
def Admits (mk : Make ε) (limit : Nat) : Prop := ∀ n : Int, 0 ≤ n → n ≤ limit → mk n = pure ()

theorem admits_make (limit : Nat) : Admits (make : Make ε) limit := fun n h0 _ => if_neg (by omega)

theorem wp_noTrailing (format : String) {Q : Unit → Bytes → Prop} (hQ : Q () src) :
    wp (noTrailing format : Cursor (ScanError ε) Unit) Q src := by
  simp only [noTrailing, wp_bind, wp_rest, wp_failIf]
  exact fun _ => hQ

theorem wp_rangeValue (p : Platform) (format : String) {Q : Bytes → Bytes → Prop}
    (hQ : ∀ b left, Q b left) :
    wp (rangeValue p format : Cursor (ScanError ε) Bytes) Q src := by
  simp only [rangeValue, wp_bind, wp_require, wp_uint, wp_rest, wp_failIf, wp_slice, wp_advance,
    wp_pure, not_or]
  exact fun h4 => ⟨h4, fun h => ⟨by omega, by omega, hQ _ _⟩⟩

theorem wp_rangeBounds (p : Platform) (lowerType upperType : BoundType)
    {Q : UntypedBinaryRange → Bytes → Prop} (hQ : ∀ r left, Q r left) :
    wp (rangeBounds p lowerType upperType : Cursor (ScanError ε) UntypedBinaryRange) Q src := by
  simp only [rangeBounds, wp_ite, wp_bind]
  refine ⟨fun _ => wp_noTrailing _ (hQ _ _), fun _ => wp_rangeValue p _ fun val left =>
    ⟨fun _ => ?_, fun _ => ?_⟩⟩
  · simp only [rangeUpper, wp_ite, wp_bind]
    exact ⟨fun _ => wp_rangeValue p _ fun _ _ => wp_noTrailing _ (hQ _ _), fun _ =>
      wp_noTrailing _ (hQ _ _)⟩
  · exact wp_noTrailing _ (hQ _ _)

theorem wp_iff {β : Type} {d : Cursor (ScanError ε) β} {Q : β → Bytes → Prop}
    (h : wp d (fun _ _ => True) src) :
    wp d Q src ↔ ∀ b left, d src = .ok (b, left) → Q b left := by
  refine ⟨fun hq b left hd => of_wp hq hd, fun hq => ?_⟩
  unfold wp at h ⊢
  cases hd : d src with
  | ok r => exact hq r.1 r.2 hd
  | error e =>
    rw [hd] at h
    cases e <;> exact h

variable {scan : Option Bytes → Checked ε α}

/-- The bounds that are scanned. -/
def UntypedBinaryRange.scanned (r : UntypedBinaryRange) : List (Option Bytes) :=
  if r.lowerType = .empty then []
  else (if r.lowerType = .inclusive ∨ r.lowerType = .exclusive then [r.lower] else []) ++
    if r.upperType = .inclusive ∨ r.upperType = .exclusive then [r.upper] else []

theorem wp_scanBound (boundType : BoundType) (b : Option Bytes) (bs : List (Option Bytes))
    {β : Type} {k : Option α → Cursor (ScanError ε) β}
    (hk : ∀ a src, wp (k a) (fun _ _ => True) src ↔ ¬ Trips scan bs) :
    wp (scanBound scan boundType b >>= k) (fun _ _ => True) src ↔
      ¬ Trips scan ((if boundType = .inclusive ∨ boundType = .exclusive then [b] else []) ++ bs) := by
  unfold scanBound
  by_cases h : boundType = .inclusive ∨ boundType = .exclusive
  · simp only [if_pos h, wp_bind, wp_map, wp_lift, hk, singleton_append, not_trips_cons]
  · simp only [if_neg h, wp_bind, wp_pure, hk, nil_append]

theorem wp_parseUntypedBinaryRange (p : Platform) (src : Bytes) :
    wp (parseUntypedBinaryRange p : Cursor (ScanError ε) UntypedBinaryRange)
      (fun _ _ => True) src := by
  simp only [parseUntypedBinaryRange, wp_bind, wp_rest, wp_failIf, wp_index,
    wp_advance, wp_ite, wp_pure]
  intro hne
  obtain ⟨c, src', rfl⟩ := exists_cons_of_length_pos (by omega : 0 < src.length)
  exact ⟨c, rfl, by simp, fun _ => wp_noTrailing _ trivial, fun _ => wp_rangeBounds p _ _ fun _ _ => trivial⟩

/-- The bounds of a range that is well formed are scanned without a panic. -/
def RangeGuard (p : Platform) (scan : Option Bytes → Checked ε α) (src : Bytes) : Prop :=
  ∀ (r : UntypedBinaryRange) (left : Bytes),
    (parseUntypedBinaryRange p : Cursor (ScanError ε) UntypedBinaryRange) src = .ok (r, left) →
    ¬ Trips scan r.scanned

theorem wp_scanRange (p : Platform) (src : Bytes) :
    wp (scanRange p scan) (fun _ _ => True) src ↔ RangeGuard p scan src := by
  rw [scanRange, wp_bind, wp_iff (wp_parseUntypedBinaryRange p src)]
  refine forall_congr' fun r => forall_congr' fun left => imp_congr_right fun _ => ?_
  unfold UntypedBinaryRange.scanned
  by_cases h : r.lowerType = .empty
  · simp [h, Trips]
  · rw [if_neg h, if_neg h]
    refine wp_scanBound _ _ _ fun lower left => ?_
    rw [wp_scanBound r.upperType r.upper [] fun upper left => by simp [Trips], append_nil]

theorem wp_multirangeElement (i : Nat) {Q : α → Bytes → Prop} (src : Bytes) :
    wp (multirangeElement scan i) Q src ↔
      ∀ b left, nextSized src = some (b, left) → NoPanic (scan b) ∧
      ∀ a, scan b = .ok a → Q a left := by
  simp only [multirangeElement, multirangeBody, wp_bind, wp_require]
  exact wp_sizedScan ..

theorem wp_multirangeElements : ∀ (count i : Nat) (src : Bytes),
    wp (multirangeElements scan count i) (fun _ _ => True) src ↔ ¬ Trips scan (sizedFields count src)
  | 0, _, _ => by simp [multirangeElements, sizedFields, Trips]
  | count + 1, i, src => by
    have ih := wp_multirangeElements count (i + 1)
    rw [multirangeElements, wp_bind, wp_multirangeElement, sizedFields]
    simp only [wp_bind, wp_pure, ih]
    cases hnext : nextSized src with
    | none => simp [Trips]
    | some r => simpa [not_trips_cons] using
      ⟨fun h => h r.1 r.2 rfl, fun h b left hr => by cases hr; exact h⟩

/-- The number of elements can be read, and is not negative as an `int`. If it is believed, the
elements are scanned without a panic. -/
structure MultirangeGuard (p : Platform) (scan : Option Bytes → Checked ε α)
    (src : Bytes) : Prop where
  length : 4 ≤ src.length
  count : 0 ≤ p.int (fromBigEndian (src.take 4))
  elements : p.int (fromBigEndian (src.take 4)) ≤ (src.length / 4 : Nat) →
    ¬ Trips scan (sizedFields (p.int (fromBigEndian (src.take 4))).toNat (src.drop 4))

variable {mk : Make ε}

theorem wp_hstorePair {Q : Bytes × Option Bytes → Bytes → Prop} (hQ : ∀ w left, Q w left) :
    wp (hstorePair : Cursor (ScanError ε) (Bytes × Option Bytes)) Q src := by
  simp only [hstorePair, hstoreKey, sizedField, int32, uint32, wp_bind, wp_require, wp_map, wp_uint,
    wp_failIf, wp_slice, wp_advance, wp_pure, wp_takeSized]
  exact fun h4 =>
    ⟨h4, fun _ hlen => ⟨hlen, hlen, fun h4' => ⟨h4', fun _ => hQ _ _, fun _ _ => hQ _ _⟩⟩⟩

theorem wp_scanHstore (hmk : Admits mk src.length) : wp (scanHstore mk) (fun _ _ => True) src := by
  simp only [scanHstore, int32, uint32, wp_bind, wp_require, wp_map, wp_uint,
    wp_failIf, wp_rest, length_drop]
  intro h4
  refine ⟨h4, fun hneg hcount => ?_⟩
  rw [hmk _ (by omega) (by omega)]
  simp only [wp_pure]
  exact wp_mono (wp_fill (fun _ _ => True)
    (fun _ _ _ => wp_hstorePair fun _ _ => trivial) trivial (by omega))
    fun _ _ _ => trivial

theorem wp_tsvectorWord {Q : Bytes → Bytes → Prop}
    (hQ : ∀ w left, left.length ≤ src.length → Q w left) :
    wp (tsvectorWord : Cursor (ScanError ε) Bytes) Q src := by
  simp only [tsvectorWord, wp_bind, wp_rest]
  cases h : indexByte 0 src with
  | none => trivial
  | some nullIndex =>
    have hlt : nullIndex < src.length := by
      have hlen := congrArg length (indexByte_some h).2
      simp only [length_append, length_take, length_cons, length_drop] at hlen
      omega
    simp only [wp_bind, wp_slice, wp_advance, wp_pure]
    exact ⟨by omega, by omega, hQ _ _ (by simp)⟩

theorem wp_tsvectorLexeme {limit : Nat} (hmk : Admits mk limit) {Q : TSVectorLexeme → Bytes → Prop}
    (hsrc : src.length ≤ limit) (hQ : ∀ l left, left.length ≤ limit → Q l left) :
    wp (tsvectorLexeme mk) Q src := by
  simp only [tsvectorLexeme, wp_bind]
  refine wp_tsvectorWord fun word left hleft => ?_
  simp only [wp_require, wp_uint, length_drop]
  refine fun h2 => ⟨h2, fun hpos => ?_⟩
  rw [hmk _ (by omega) (by omega)]
  simp only [wp_pure]
  refine wp_mono (wp_fill (fun k b => 2 * k ≤ b.length ∧ b.length ≤ limit) ?_ ?_ (by omega))
    fun _ b hb => hQ _ _ hb.2
  · intro k b hb
    simp only [tsvectorPosition, uint16, wp_bind, wp_map, wp_uint, wp_pure, length_drop]
    omega
  · rw [length_drop]
    omega

theorem wp_scanTSVector (hmk : Admits mk src.length) :
    wp (scanTSVector mk) (fun _ _ => True) src := by
  simp only [scanTSVector, int32, uint32, wp_bind, wp_require, wp_map, wp_uint,
    wp_failIf, wp_rest, length_drop]
  intro h4
  refine ⟨h4, fun hneg hcount => ?_⟩
  rw [hmk _ (by omega) (by omega)]
  simp only [wp_pure]
  refine wp_mono (wp_fill (fun _ b => b.length ≤ src.length)
    (fun k b hb => wp_tsvectorLexeme hmk hb fun _ _ h => h)
    ?_ (by omega)) fun _ _ _ => trivial
  simp

/-! ## Composites and records -/

/-- A field is reached for which the target has no place, or whose scan panics: all before it are
scanned. -/
def Overruns (t : CompositeTarget) (scan : ScanField ε α) : (i : Nat) → List CompositeField → Prop
  | _, [] => False
  | i, f :: fs => ¬ t.Has i ∨ scan i f.oid f.bytes = .error .panic ∨
      (∃ a, scan i f.oid f.bytes = .ok a) ∧ Overruns t scan (i + 1) fs

/-- The field itself is scanned before its place is looked for. -/
def OverrunsAfter (t : CompositeTarget) (scan : ScanField ε α) :
    (i : Nat) → List CompositeField → Prop
  | _, [] => False
  | i, f :: fs => scan i f.oid f.bytes = .error .panic ∨
      (∃ a, scan i f.oid f.bytes = .ok a) ∧ (¬ t.Has i ∨ OverrunsAfter t scan (i + 1) fs)

theorem wp_scanIndex (t : CompositeTarget) (i : Nat) {Q : Unit → Bytes → Prop} :
    wp (t.scanIndex i : Cursor (ScanError ε) Unit) Q src ↔ t.Has i ∧ Q () src := by
  unfold CompositeTarget.scanIndex
  by_cases h : t.Has i <;> simp [h]

theorem wp_errOrNil (err : Option (ScanError ε)) (src : Bytes) :
    wp (errOrNil err : Cursor (ScanError ε) (List α)) (fun _ _ => True) src := by
  cases err <;> trivial

section Fields

variable {t : CompositeTarget} {scan : ScanField ε α}

theorem wp_scanCompositeFields : ∀ (count i : Nat) (fs : List CompositeField) (src : Bytes),
    wp (scanCompositeFields t scan count i fs) (fun _ _ => True) src ↔
    ¬ Overruns t scan i (fs.take count)
  | 0, _, _, _ => by simp [scanCompositeFields, Overruns]
  | _ + 1, _, [], _ => by simp [scanCompositeFields, Overruns]
  | count + 1, i, f :: fs, src => by
    have ih := wp_scanCompositeFields count (i + 1) fs
    simp only [scanCompositeFields, wp_bind, wp_scanIndex, wp_lift, wp_pure, ih, take_succ_cons,
      Overruns, not_or, not_not, not_and, forall_exists_index]
    rfl

theorem wp_scanRecordFields (err : Option (ScanError ε)) :
    ∀ (i : Nat) (fs : List CompositeField) (src : Bytes),
    wp (scanRecordFields t scan err i fs) (fun _ _ => True) src ↔ ¬ Overruns t scan i fs
  | _, [], src => by simpa [scanRecordFields, Overruns] using wp_errOrNil err src
  | i, f :: fs, src => by
    have ih := wp_scanRecordFields err (i + 1) fs
    simp only [scanRecordFields, wp_bind, wp_scanIndex, wp_lift, wp_pure, ih, Overruns, not_or,
      not_not, not_and, forall_exists_index]
    rfl

theorem wp_decodeRecordFields (len : Nat) (err : Option (ScanError ε)) :
    ∀ (i : Nat) (fs : List CompositeField) (src : Bytes),
      wp (decodeRecordFields len scan err i fs) (fun _ _ => True) src ↔
      ¬ OverrunsAfter (.compositeFields len) scan i fs
  | _, [], src => by simpa [decodeRecordFields, OverrunsAfter] using wp_errOrNil err src
  | i, f :: fs, src => by
    have ih := wp_decodeRecordFields len err (i + 1) fs
    simp only [decodeRecordFields, wp_bind, wp_scanIndex, wp_lift, wp_pure, ih, OverrunsAfter,
      not_or, not_not, not_and, forall_exists_index]
    rfl

end Fields

/-- What `NewCompositeBinaryScanner` and `Next` read -/
def compositeScan (ε : Type) (src : Bytes) : CompositeScan ε :=
  match newCompositeBinaryScanner src with
  | .ok scanner => scanner
  | .error _ => ⟨0, [], none⟩

theorem wp_openComposite (src : Bytes) {Q : CompositeScan ε → Bytes → Prop} :
    wp openComposite Q src ↔ Q (compositeScan ε src) src := by
  have hnp : NoPanic (newCompositeBinaryScanner src : Checked Empty (CompositeScan ε)) := by
    unfold newCompositeBinaryScanner
    split
    · exact noPanic_ok _
    · exact noPanic_map _ (readFields_noPanic _)
  obtain ⟨scanner, h⟩ := ok_of_noPanic hnp
  simp only [openComposite, wp_bind, wp_rest, wp_lift, compositeScan, h]
  exact ⟨fun h => h.2 _ rfl, fun h => ⟨noPanic_ok _, fun a ha => by cases ha; exact h⟩⟩

theorem compositeScan_fieldCount (h : 4 ≤ src.length) :
    (compositeScan ε src).fieldCount = signed 32 (fromBigEndian (src.take 4)) := by
  obtain ⟨r, hr⟩ := ok_of_noPanic (readFields_noPanic (ε := ε) (src.drop 4))
  unfold compositeScan newCompositeBinaryScanner
  rw [if_neg (by omega), hr]
  simp only [Functor.map, Except.map]

/-- The number of fields is one that can be made, and there are no more fields. -/
structure RecordGuard (scan : ScanField ε α) (src : Bytes) : Prop where
  nonneg : 0 ≤ (compositeScan ε src).fieldCount
  le : (compositeScan ε src).fieldCount ≤ src.length
  fields : ¬ OverrunsAfter (.compositeFields (compositeScan ε src).fieldCount.toNat) scan 0
    (compositeScan ε src).fields

variable {scan : ScanField ε α}

/-- The scanner returns, and makes no more elements at once than the input has bytes. -/
def BinaryScanner.Safe (p : Platform) (scan : ScanField ε α) (s : BinaryScanner)
    (src : Option Bytes) : Prop :=
  NoPanic (s.run p make scan src) ∧ NoPanic (s.run p (makeAtMost (src.getD []).length) scan src)

def BinaryScanner.Guarded (p : Platform) (scan : ScanField ε α) : BinaryScanner → Option Bytes → Prop
  | .ltree, src => src.getD [] ≠ []
  | .multirange, some src => MultirangeGuard p (scan 0 0) src
  | .range, some src => RangeGuard p (scan 0 0) src
  | .composite count t, some src => ¬ Overruns t scan 0 ((compositeScan ε src).fields.take count)
  | .record t, some src => ¬ Overruns t scan 0 (compositeScan ε src).fields
  | .recordValue, some src => RecordGuard scan src
  | _, _ => True

theorem scanLtree_noPanic_iff (src : Option Bytes) :
    NoPanic (scanLtree src : Checked (ScanError ε) Bytes) ↔ src.getD [] ≠ [] := by
  unfold scanLtree
  cases src.getD [] with
  | nil => simp [NoPanic]
  | cons version rest =>
    simp only [ne_eq, reduceCtorEq, not_false_eq_true, iff_true]
    split
    · exact noPanic_returned _
    · exact noPanic_ok _

theorem BinaryScanner.run_noPanic {s : BinaryScanner} {src : Option Bytes}
    (hmk : Admits mk (src.getD []).length) (h : s.Guarded p scan src) :
    NoPanic (s.run p mk scan src) := by
  cases src with
  | none =>
    cases s with
    | ltree => exact returnsOnly_noPanic.mpr ((scanLtree_noPanic_iff none).mpr h)
    | _ => exact noPanic_ok _
  | some src =>
    cases s <;> refine returnsOnly_noPanic.mpr ?_
    case ltree => exact (scanLtree_noPanic_iff src).mpr h
    case multirange =>
      refine noPanic_iff_wp.mpr ?_
      simp only [scanMultirange, wp_bind, wp_rest, wp_uint, wp_failIf]
      refine ⟨h.length, fun hcount => ?_⟩
      rw [hmk _ h.count (by rw [Option.getD_some]; omega)]
      exact (wp_multirangeElements _ _ _).mpr (h.elements (by omega))
    case range => exact noPanic_of_wp ((wp_scanRange p src).mpr h)
    case hstore => exact noPanic_of_wp (wp_scanHstore hmk)
    case tsvector => exact noPanic_of_wp (wp_scanTSVector hmk)
    case composite =>
      refine noPanic_iff_wp.mpr ?_
      simp only [scanComposite, wp_bind, wp_rest, wp_openComposite, wp_failIf, wp_pure, implies_true]
      exact (wp_scanCompositeFields _ _ _ _).mpr h
    case record =>
      refine noPanic_iff_wp.mpr ?_
      simp only [scanRecord, wp_bind, wp_openComposite]
      exact (wp_scanRecordFields _ _ _ _).mpr h
    case recordValue =>
      refine noPanic_iff_wp.mpr ?_
      simp only [decodeRecord, wp_bind, wp_openComposite]
      rw [hmk _ h.nonneg h.le]
      exact (wp_decodeRecordFields _ _ _ _ _).mpr h.fields

theorem BinaryScanner.Safe.guarded {s : BinaryScanner} {src : Option Bytes}
    (h : s.Safe p scan src) : s.Guarded p scan src := by
  obtain ⟨hmake, hlimit⟩ := h
  cases src with
  | none =>
    cases s with
    | ltree => exact (scanLtree_noPanic_iff none).mp (returnsOnly_noPanic.mp hmake)
    | _ => trivial
  | some src =>
    cases s with
    | ltree => exact (scanLtree_noPanic_iff src).mp (returnsOnly_noPanic.mp hmake)
    | multirange =>
      have hwp := noPanic_iff_wp.mp (returnsOnly_noPanic.mp hmake)
      simp only [scanMultirange, wp_bind, wp_rest, wp_uint, wp_failIf, wp_make] at hwp
      refine ⟨hwp.1, ?_, fun hcount => ?_⟩
      · by_contra hneg
        exact hneg (hwp.2 (by omega)).1
      · exact (wp_multirangeElements _ _ _).mp (hwp.2 (by omega)).2
    | range => exact (wp_scanRange p src).mp (noPanic_iff_wp.mp (returnsOnly_noPanic.mp hmake))
    | hstore | tsvector => trivial
    | composite count t =>
      have hwp := noPanic_iff_wp.mp (returnsOnly_noPanic.mp hmake)
      simp only [scanComposite, wp_bind, wp_rest, wp_openComposite, wp_failIf, wp_pure,
        implies_true] at hwp
      exact (wp_scanCompositeFields _ _ _ _).mp hwp
    | record t =>
      have hwp := noPanic_iff_wp.mp (returnsOnly_noPanic.mp hmake)
      simp only [scanRecord, wp_bind, wp_openComposite] at hwp
      exact (wp_scanRecordFields _ _ _ _).mp hwp
    | recordValue =>
      have hwp := noPanic_iff_wp.mp (returnsOnly_noPanic.mp hlimit)
      simp only [decodeRecord, wp_bind, wp_openComposite, wp_makeAtMost] at hwp
      exact ⟨hwp.1.1, hwp.1.2, (wp_decodeRecordFields _ _ _ _ _).mp hwp.2⟩

/-- A scanner is safe exactly for the bytes that its counts and fields can be trusted in, and whose
elements and fields are scanned without a panic as far as they are reached. -/
theorem binaryScanner_safe_iff (p : Platform) (scan : ScanField ε α) (s : BinaryScanner)
    (src : Option Bytes) :
    s.Safe p scan src ↔ s.Guarded p scan src :=
  ⟨fun h => h.guarded, fun h =>
    ⟨BinaryScanner.run_noPanic (admits_make _) h,
      BinaryScanner.run_noPanic (fun n h0 hle => if_neg (by omega)) h⟩⟩

end Safe

def keepField : ScanField Empty (Option Bytes) := fun _ _ b => .ok b

/-- Two elements, of which the second is NULL. -/
theorem pairMultirange_safe :
    BinaryScanner.multirange.Safe .bits64 keepField
      (some [0, 0, 0, 2, 0, 0, 0, 1, 7, 255, 255, 255, 255]) := by
  have hcount : (Platform.bits64.int (fromBigEndian [0, 0, 0, 2])).toNat = 2 := by decide
  have hbodies : sizedFields 2 [0, 0, 0, 1, 7, 255, 255, 255, 255] = [some [7], none] := by decide
  refine (binaryScanner_safe_iff .bits64 keepField .multirange _).mpr
    ⟨by decide, by decide, fun _ => ?_⟩
  rw [take_succ_cons, take_succ_cons, take_succ_cons, take_succ_cons, take_zero, hcount,
    drop_succ_cons, drop_succ_cons, drop_succ_cons, drop_succ_cons, drop_zero, hbodies]
  simp [Trips, keepField]

/-- A multirange without bytes and a label tree that is NULL are indexed out of range. A record with
-1 fields, and one with 2^31-1 fields in four bytes, are taken at their word. -/
theorem counts_trusted : ¬ NoPanic (BinaryScanner.multirange.run .bits64 make keepField (some [])) ∧
    ¬ NoPanic (BinaryScanner.ltree.run .bits64 make keepField none) ∧
    ¬ BinaryScanner.recordValue.Safe .bits64 keepField (some [255, 255, 255, 255]) ∧
    ¬ BinaryScanner.recordValue.Safe .bits64 keepField (some [127, 255, 255, 255]) := by
  refine ⟨by decide, by decide, fun h => ?_, fun h => ?_⟩
  · have hguard : RecordGuard keepField [255, 255, 255, 255] := h.guarded
    have h0 := hguard.nonneg
    rw [compositeScan_fieldCount (by decide)] at h0
    revert h0
    decide
  · have hguard : RecordGuard keepField [127, 255, 255, 255] := h.guarded
    have hle := hguard.le
    rw [compositeScan_fieldCount (by decide)] at hle
    revert hle
    decide

end Pgx.Pgtype
