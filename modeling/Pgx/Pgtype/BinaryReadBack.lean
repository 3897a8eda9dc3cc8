import Pgx.Pgtype.BinaryEncode

/-!
# Containers are read back

What each container appends is read by its scanner, if the scan of every element gives its value and
no element has 2^31 bytes or more: a length is written as 32 bits and read as a signed number.
-/
namespace Pgx.Pgtype

open Pgx.Go Pgx.Go.Cursor List

variable {bs : List (Option Bytes)} {fs : List CompositeField}

/-- The length of the bytes is read as it was written. -/
def Small (b : Option Bytes) : Prop := ∀ bs, b = some bs → bs.length < 2 ^ 31

theorem small_none : Small none := nofun

/-- Bytes that are small, with the value that they are scanned to -/
def ScansTo {ε β : Type} (scan : Option Bytes → Checked ε β) (b : Option Bytes) (v : β) : Prop :=
    Small b ∧ scan b = .ok v

section Scanners

variable {ε α β : Type} {scan : Option Bytes → Checked ε β}

theorem four_le_bigEndian (n : Nat) (src : Bytes) : 4 ≤ (bigEndian 4 n ++ src).length := by
  rw [length_bigEndian_append]
  omega

theorem four_le_sizedWritten (b : Option Bytes) (src : Bytes) :
    4 ≤ (sizedWritten b ++ src).length := by
  cases b with
  | none => exact four_le_bigEndian _ src
  | some bs =>
    exact four_le_bigEndian _ _

theorem length_sizedWritten (bs : List (Option Bytes)) :
    4 * bs.length ≤ (bs.flatMap sizedWritten).length := by
  induction bs with
  | nil => simp
  | cons b bs ih =>
    have hb := four_le_sizedWritten b []
    rw [append_nil] at hb
    rw [flatMap_cons, length_append, length_cons]
    omega

theorem reads_decodeDimension (d : ArrayDimension) :
    Reads (decodeDimension : Cursor (ArrayError ε) ArrayDimension) (dimensionBytes d) d := by
  intro src
  exact .bind (reads_int32 _ _) (.bind (reads_int32 _ _) (.pure _))

theorem length_dimensions (dims : List ArrayDimension) :
    (dims.flatMap dimensionBytes).length = 8 * dims.length := by
  induction dims with
  | nil => rfl
  | cons d ds ih =>
    have hd : (dimensionBytes d).length = 8 := by
      rw [dimensionBytes, length_append, bigEndian_length, bigEndian_length]
    rw [flatMap_cons, length_append, length_cons]
    omega

theorem runs_arrayHeader (p : Platform) {dims : List ArrayDimension} (hdims : dims.length ≤ 6)
    (flag : Bool) (oid : UInt32)
    (body : Bytes) : Runs (ArrayHeader.decodeBinary p : Cursor (ArrayError ε) ArrayHeader)
      (bigEndian 4 dims.length ++
        (bigEndian 4 flag.toNat ++ (bigEndian 4 oid.toNat ++ dims.flatMap dimensionBytes ++ body)))
      ⟨flag, oid, dims⟩ body := by
  have hint : p.int (dims.length : Nat) = (dims.length : Int) := int_of_fits p (by omega) (by omega)
  have hlen : (bigEndian 4 dims.length ++ (bigEndian 4 flag.toNat ++
      (bigEndian 4 oid.toNat ++ dims.flatMap dimensionBytes ++ body))).length = 12 + 8 *
        dims.length + body.length := by
    simp only [length_append, bigEndian_length, length_dimensions]
    omega
  have hflag : Reads (uint32 : Cursor (ArrayError ε) UInt32) (bigEndian 4 flag.toNat)
      (UInt32.ofNat flag.toNat) := by
    have h := reads_uint32 (ε := ArrayError ε) (UInt32.ofNat flag.toNat)
    rwa [show (UInt32.ofNat flag.toNat).toNat = flag.toNat by cases flag <;> rfl] at h
  have hset : (UInt32.ofNat flag.toNat == 1) = flag := by
    cases flag <;> rfl
  refine .bind .rest (.bind (.failIf _ (by omega)) (.bind (reads_uint 4 (by omega) _) ?_))
  rw [hint]
  refine .bind (.failIf _ (by omega)) (.bind (hflag _) ?_)
  rw [append_assoc]
  refine .bind (reads_uint32 oid _) (.bind (.failIf _ ?_) (.bind (.make (by omega)) ?_))
  · rw [← append_assoc (bigEndian 4 oid.toNat), hlen, header_int_eq p (by omega) (by omega)]
    omega
  · have hfill := Reads.fill (ε := ArrayError ε) dims (fun d _ => reads_decodeDimension d) (i := 0)
      (Nat.le_of_eq (Nat.zero_add dims.length)) body
    refine .bind hfill ?_
    rw [hset]
    exact .pure _

variable {vs : List β}

theorem reads_scanElements {flatLen : Nat} (h : Forall₂ (ScansTo scan) bs vs) :
    ∀ {i : Nat}, i + bs.length ≤ flatLen →
      Reads (scanElements flatLen scan bs.length i) (bs.flatMap sizedWritten) vs := by
  induction h with
  | nil => exact fun _ src => .pure []
  | @cons b v bs vs hb _ ih =>
    intro i hlen src
    rw [length_cons] at hlen
    have hindex : Runs (scanIndex flatLen i : Cursor (ArrayError ε) Unit)
        (sizedWritten b ++ (bs.flatMap sizedWritten ++ src)) ()
        (sizedWritten b ++ (bs.flatMap sizedWritten ++ src)) := by
      unfold scanIndex
      rw [if_pos (by omega)]
      exact .pure _
    rw [flatMap_cons, append_assoc]
    exact .bind (.bind (.require _ (four_le_sizedWritten b _))
      (.bind hindex (.bind (reads_sizedField _ hb.1 _) (.lift _ hb.2))))
      (.bind (ih (by omega) src) (.pure _))

/-- An array's bytes are decoded to its dimensions, in the layout of the target, and to the
elements. Bytes behind them are not looked at. -/
theorem decodeBinary_arrayBytes {p : Platform} {t : ArrayTarget} (oid : UInt32)
    {dims : List ArrayDimension} {layout : Layout} (hdims : dims.length ≤ 6)
    (hcount : cardinality p dims = bs.length)
    (hset : setDimensions p dims t = (.ok layout : Checked (ArrayError ε) Layout))
    (h : Forall₂ (ScansTo scan) bs vs) (src : Bytes) :
    (decodeBinary p t scan (arrayBytes oid dims bs ++ src)).result = .ok ⟨layout, vs⟩ := by
  have hheader :=
    runs_arrayHeader (ε := ε) p hdims (bs.any Option.isNone) oid (bs.flatMap sizedWritten ++ src)
  have hroom : ¬ (((bs.flatMap sizedWritten ++ src).length / 4 : Nat) : Int) <
      cardinality p dims := by
    have := length_sizedWritten bs
    rw [hcount, length_append]
    omega
  have hbody : Runs (scanBody bs.length scan) (bs.flatMap sizedWritten ++ src) vs src := by
    unfold scanBody
    split
    · rename_i hnil
      rw [length_eq_zero_iff.mp hnil] at h ⊢
      cases h
      exact .pure []
    · have hindex : Runs (scanIndex bs.length 0 : Cursor (ArrayError ε) Unit)
          (bs.flatMap sizedWritten ++ src) ()
          (bs.flatMap sizedWritten ++ src) := by
        unfold scanIndex
        rw [if_pos (by omega)]
        exact .pure _
      exact .bind hindex (reads_scanElements h (Nat.le_of_eq (Nat.zero_add _)) src)
  unfold decodeBinary arrayBytes
  rw [append_assoc, append_assoc, append_assoc, hheader]
  simp only [decodeBinaryBody, if_neg hroom, hset]
  rw [hcount, Int.toNat_natCast, hbody.run']
  rfl

theorem reads_rangeValue (p : Platform) (format : String) {bs : Bytes} (h : bs.length < 2 ^ 31) :
    Reads (rangeValue p format : Cursor (ScanError ε) Bytes) (sizedWritten (some bs)) bs := by
  intro src
  have hn : unsigned 32 bs.length = bs.length := unsigned_natCast (by omega)
  have hint : p.int (bs.length : Nat) = (bs.length : Int) := int_of_fits p (by omega) (by omega)
  have hle : bs.length ≤ (bs ++ src).length := by simp
  have hslice := Runs.slice hle (ε := ScanError ε)
  have hdrop := Runs.advance hle (ε := ScanError ε)
  rw [take_left] at hslice
  rw [drop_left] at hdrop
  rw [sizedWritten, append_assoc, hn]
  refine .bind (.require _ (four_le_bigEndian _ _))
    (.bind (reads_uint 4 (by omega) _) (.bind .rest ?_))
  rw [hint]
  exact .bind (.failIf _ (by simp)) (.bind hslice (.bind hdrop (.pure _)))

theorem runs_noTrailing (format : String) : Runs
    (noTrailing format : Cursor (ScanError ε) Unit) [] () [] :=
  .bind .rest (.failIf _ (by simp))

theorem boundTypes_of_masks (lowerType upperType : BoundType) (hl : lowerType ≠ .empty)
    (hu : upperType ≠ .empty) :
    lowerTypeOf (lowerMask lowerType ||| upperMask upperType) = lowerType ∧
      upperTypeOf (lowerMask lowerType ||| upperMask upperType) = upperType ∧
        ¬ (lowerMask lowerType ||| upperMask upperType) &&& 1 > 0 := by
  cases lowerType <;> cases upperType <;> simp_all <;> decide

variable {f : α → Bytes}

theorem runs_rangeBounds (p : Platform) {r : RangeValue α} (hvalid : r.Valid)
    (hl : r.lowerType ≠ .empty)
    (hsmall : ∀ a, r.lower = some a ∨ r.upper = some a → (f a).length < 2 ^ 31) :
    Runs (rangeBounds p r.lowerType r.upperType : Cursor (ScanError ε) UntypedBinaryRange)
      (boundBytes f r.lower ++ boundBytes f r.upper)
        ⟨r.lower.map f, r.upper.map f, r.lowerType, r.upperType⟩ [] := by
  obtain ⟨lower, upper, lowerType, upperType⟩ := r
  have hu : upperType ≠ .empty := fun h => hl (hvalid.empty_iff.mpr h)
  have hlower := hvalid.lower
  have hupper := hvalid.upper
  simp only at hl hu hlower hupper hsmall ⊢
  have hlt : lowerType = .unbounded ↔ lower = none := by cases lowerType <;> cases lower <;> simp_all
  have hut : upperType = .unbounded ↔ upper = none := by cases upperType <;> cases upper <;> simp_all
  unfold rangeBounds
  cases lower with
  | none =>
    obtain rfl := hlt.mpr rfl
    cases upper with
    | none =>
      obtain rfl := hut.mpr rfl
      exact .bind (runs_noTrailing _) (.pure _)
    | some b =>
      rw [if_neg (fun h => nomatch hut.mp h.2)]
      refine .bind (reads_rangeValue p _ (hsmall b (.inr rfl))).all ?_
      exact .bind (runs_noTrailing _) (.pure _)
  | some a =>
    rw [if_neg (fun h => nomatch hlt.mp h.1)]
    refine .bind (reads_rangeValue p _ (hsmall a (.inl rfl)) _) ?_
    rw [if_pos (fun h => nomatch hlt.mp h)]
    unfold rangeUpper
    cases upper with
    | none =>
      obtain rfl := hut.mpr rfl
      exact .bind (runs_noTrailing _) (.pure _)
    | some b =>
      rw [if_pos (fun h => nomatch hut.mp h)]
      exact .bind (reads_rangeValue p _ (hsmall b (.inr rfl))).all
        (.bind (runs_noTrailing _) (.pure _))

theorem runs_scanBound {g : α → β} {boundType : BoundType} {bound : Option α} {src : Bytes}
    (hsome : bound.isSome ↔ boundType = .inclusive ∨ boundType = .exclusive)
    (hscan : ∀ a, bound = some a → scan (some (f a)) = .ok (g a)) :
    Runs (scanBound scan boundType (bound.map f)) src (bound.map g) src := by
  unfold scanBound
  cases bound with
  | none =>
    rw [if_neg (fun h => nomatch hsome.mpr h)]
    exact .pure _
  | some a =>
    rw [if_pos (hsome.mp rfl)]
    exact .map _ (.lift _ (hscan a rfl))

theorem runs_scanRange (p : Platform) {g : α → β} {r : RangeValue α} (hvalid : r.Valid)
    (hscan : ∀ a, r.lower = some a ∨ r.upper = some a → ScansTo scan (some (f a)) (g a)) :
    Runs (scanRange p scan) (rangeBytes f r) ⟨r.lower.map g, r.upper.map g, r.lowerType,
      r.upperType⟩ [] := by
  unfold rangeBytes
  by_cases hempty : r.lowerType = .empty
  · have hupper := hvalid.empty_iff.mp hempty
    have hl : r.lower = none := by
      have := hvalid.lower
      cases h : r.lower <;> simp_all
    have hu : r.upper = none := by
      have := hvalid.upper
      cases h : r.upper <;> simp_all
    have hparse : Runs (parseUntypedBinaryRange p : Cursor (ScanError ε) UntypedBinaryRange) [1]
        ⟨none, none, .empty, .empty⟩ [] :=
      .bind .rest (.bind (.failIf _ (by simp)) (.bind (.index rfl) (.bind (.advance (by simp))
        (.bind (runs_noTrailing _) (.pure _)))))
    rw [if_pos hempty, hl, hu, hempty, hupper]
    exact .bind hparse (.pure _)
  · have hu : r.upperType ≠ .empty := fun h => hempty (hvalid.empty_iff.mpr h)
    obtain ⟨hlt, hut, hflag⟩ := boundTypes_of_masks r.lowerType r.upperType hempty hu
    have hbounds := runs_rangeBounds (ε := ε) p hvalid hempty fun a ha => (hscan a ha).1 _ rfl
    have hparse : Runs (parseUntypedBinaryRange p : Cursor (ScanError ε) UntypedBinaryRange)
        ((lowerMask r.lowerType ||| upperMask r.upperType) ::
          (boundBytes f r.lower ++ boundBytes f r.upper))
        ⟨r.lower.map f, r.upper.map f, r.lowerType, r.upperType⟩ [] := by
      refine .bind .rest
        (.bind (.failIf _ (by simp)) (.bind (.index rfl) (.bind (.advance (by simp)) ?_)))
      rw [if_neg hflag, hlt, hut]
      exact hbounds
    rw [if_neg hempty]
    refine .bind hparse ?_
    rw [if_neg hempty]
    exact .bind (runs_scanBound hvalid.lower fun a ha => (hscan a (.inl ha)).2)
      (.bind (runs_scanBound hvalid.upper fun a ha => (hscan a (.inr ha)).2) (.pure _))

theorem reads_multirangeElements (h : Forall₂ (ScansTo scan) bs vs) :
    ∀ i : Nat, Reads (multirangeElements scan bs.length i) (bs.flatMap sizedWritten) vs := by
  induction h with
  | nil => exact fun _ src => .pure []
  | @cons b v bs vs hb _ ih =>
    intro i src
    rw [flatMap_cons, append_assoc]
    exact .bind (.bind (.bind (.require _ (four_le_sizedWritten b _)) (reads_sizedField _ hb.1 _))
      (.lift _ hb.2))
      (.bind (ih (i + 1) src) (.pure _))

theorem runs_scanMultirange (p : Platform) (hcount : bs.length < 2 ^ 31)
    (h : Forall₂ (ScansTo scan) bs vs) : Runs (scanMultirange p make scan)
      (multirangeBytes bs) vs [] := by
  have hn : unsigned 32 bs.length = bs.length := unsigned_natCast (by omega)
  have hint : p.int (bs.length : Nat) = (bs.length : Int) := int_of_fits p (by omega) (by omega)
  have hlen := length_sizedWritten bs
  unfold multirangeBytes
  rw [hn]
  refine .bind .rest (.bind (reads_uint 4 (by omega) _) ?_)
  rw [hint]
  refine .bind (.failIf _ ?_) (.bind (.make (by omega)) (reads_multirangeElements h 0).all)
  simp only [length_append, bigEndian_length]
  omega

theorem reads_nextField {f : CompositeField} (h : Small f.bytes) :
    Reads (nextField : Cursor Empty (NextField ε)) (fieldBytes f) (.field f) := by
  intro src
  obtain ⟨oid, bytes⟩ := f
  have hlen : 8 ≤ (fieldBytes ⟨oid, bytes⟩ ++ src).length := by
    have := four_le_sizedWritten bytes src
    show 8 ≤ ((bigEndian 4 oid.toNat ++ sizedWritten bytes) ++ src).length
    rw [append_assoc, length_bigEndian_append]
    omega
  refine .bind .rest ?_
  rw [if_neg (fun h => by simp [h] at hlen), if_neg (by omega)]
  rw [fieldBytes, append_assoc]
  refine .bind (reads_uint32 oid _) ?_
  cases bytes with
  | none =>
    refine .bind (reads_int32_ofInt src) (.bind .rest ?_)
    exact .pure _
  | some bs =>
    have hbs := h bs rfl
    have hn : (Int32.ofInt bs.length).toInt = bs.length :=
      Int32.toInt_ofInt_of_le (by omega) (by omega)
    have hle : bs.length ≤ (bs ++ src).length := by simp
    have hslice := Runs.slice hle (ε := Empty)
    have hdrop := Runs.advance hle (ε := Empty)
    rw [take_left] at hslice
    rw [drop_left] at hdrop
    refine .bind (reads_int32_ofInt _) (.bind .rest ?_)
    rw [hn, Int.toNat_natCast, if_neg (by omega), if_neg (by simp)]
    exact .bind hslice (.bind hdrop (.pure _))

theorem readFields_fieldBytes (h : ∀ f ∈ fs, Small f.bytes) :
    readFields (fs.flatMap fieldBytes) = (.ok (fs, none) :
    Checked Empty (List CompositeField × Option (ScanError ε))) := by
  induction fs with
  | nil =>
    have hend : nextField ([] : Bytes) = (.ok (.atEnd, []) : Checked Empty (NextField ε × Bytes)) :=
      rfl
    rw [flatMap_nil, readFields]
    split <;> simp_all
  | cons f fs ih =>
    have hnext : nextField (fieldBytes f ++ fs.flatMap fieldBytes) =
        (.ok (.field f, fs.flatMap fieldBytes) : Checked Empty (NextField ε × Bytes)) :=
      reads_nextField (h f (.head _)) _
    have hrest := ih fun g hg => h g (mem_cons_of_mem f hg)
    rw [flatMap_cons, readFields]
    split <;> simp_all

theorem runs_openComposite (h : ∀ f ∈ fs, Small f.bytes) :
    ∃ n, Runs (openComposite : Cursor (ScanError ε) (CompositeScan ε)) (compositeBytes fs)
      ⟨n, fs, none⟩ (compositeBytes fs) := by
  have hlen : ¬ (compositeBytes fs).length < 4 := Nat.not_lt.mpr (four_le_bigEndian _ _)
  have hdrop : (compositeBytes fs).drop 4 = fs.flatMap fieldBytes := drop_bigEndian 4 _ _
  refine ⟨signed 32 (fromBigEndian ((compositeBytes fs).take 4)), .bind .rest (.lift _ ?_)⟩
  unfold newCompositeBinaryScanner
  rw [if_neg hlen, hdrop, readFields_fieldBytes h]
  rfl

def fieldScan (decs : List (Option Bytes → Checked ε β)) : ScanField ε β := fun i _ b =>
  match decs[i]? with
  | some dec => dec b
  | none => .error .panic

theorem runs_scanCompositeFields {all : List (Option Bytes → Checked ε β)} (src : Bytes) :
    ∀ (decs : List (Option Bytes → Checked ε β)) (fs : List CompositeField) (vs : List β) (i : Nat),
    all.drop i = decs →
      Forall₂ (fun df v => ScansTo df.1 df.2.bytes v) (decs.zip fs) vs → decs.length = fs.length →
        Runs (scanCompositeFields (.compositeFields all.length)
          (fieldScan all) fs.length i fs) src vs src
  | [], [], [], _, _, _, _ => .pure []
  | dec :: decs, f :: fs, v :: vs, i, hdrop, .cons hf hfs, hlen => by
    have hget : all[i]? = some dec := by
      rw [← head?_drop, hdrop]
      rfl
    have hnext : all.drop (i + 1) = decs := by
      rw [← tail_drop, hdrop]
      rfl
    have hindex : Runs ((CompositeTarget.compositeFields all.length).scanIndex i :
        Cursor (ScanError ε) Unit) src () src :=
      congrFun (if_pos (List.getElem?_eq_some_iff.mp hget).1) src
    have hscan : fieldScan all i f.oid f.bytes = .ok v := by
      unfold fieldScan
      rw [hget]
      exact hf.2
    exact .bind hindex (.bind (.lift _ hscan)
      (.bind (runs_scanCompositeFields src decs fs vs (i + 1) hnext hfs
        (by simpa using hlen)) (.pure _)))

/-- The fields of a composite are scanned by the plans for their types. -/
theorem runs_scanComposite {decs : List (Option Bytes → Checked ε β)}
    (hlen : decs.length = fs.length)
    (h : Forall₂ (fun df v => ScansTo df.1 df.2.bytes v) (decs.zip fs) vs)
    (hsmall : ∀ f ∈ fs, Small f.bytes) :
    Runs (scanComposite decs.length (.compositeFields decs.length) (fieldScan decs))
      (compositeBytes fs) vs (compositeBytes fs) := by
  obtain ⟨n, hopen⟩ := runs_openComposite (ε := ε) hsmall
  have hfields := runs_scanCompositeFields (compositeBytes fs) decs fs vs 0 rfl h hlen
  rw [← hlen] at hfields
  have hlong : ¬ (compositeBytes fs).length < 4 := by simp [compositeBytes, bigEndian_length]
  exact .bind .rest (.bind hopen (.bind hfields (.bind (.failIf _ hlong) (.pure _))))

theorem reads_hstorePair {kv : Bytes × Option Bytes} (hk : kv.1.length < 2 ^ 31) (hv : Small kv.2) :
    Reads (hstorePair : Cursor (ScanError ε) _) (pairBytes kv) kv := by
  intro src
  obtain ⟨k, v⟩ := kv
  simp only at hk hv
  have hn : (Int32.ofInt k.length).toInt = k.length := Int32.toInt_ofInt_of_le (by omega) (by omega)
  have hle : k.length ≤ (k ++ (sizedWritten v ++ src)).length := by simp
  have hslice := Runs.slice hle (ε := ScanError ε)
  have hdrop := Runs.advance hle (ε := ScanError ε)
  rw [take_left] at hslice
  rw [drop_left] at hdrop
  have hkey : Runs (hstoreKey : Cursor (ScanError ε) Bytes) (pairBytes (k, v) ++ src) k
      (sizedWritten v ++ src) := by
    rw [pairBytes, sizedWritten, append_assoc]
    refine .bind (.require _ (four_le_bigEndian _ _)) (.bind (reads_int32_ofInt _) ?_)
    rw [hn]
    exact .bind (.failIf _ (by omega)) (.bind (.require _ hle) (.bind hslice (.bind hdrop (.pure _))))
  exact .bind hkey
    (.bind (.require _ (four_le_sizedWritten v src)) (.bind (reads_sizedField _ hv src) (.pure _)))

theorem length_pairs (pairs : List (Bytes × Option Bytes)) :
    8 * pairs.length ≤ (pairs.flatMap pairBytes).length := by
  induction pairs with
  | nil => simp
  | cons kv pairs ih =>
    have hpair : 8 ≤ (pairBytes kv).length := by
      have := length_sizedWritten [some kv.1, kv.2]
      simp [pairBytes] at this ⊢
      omega
    rw [flatMap_cons, length_append, length_cons]
    omega

theorem runs_scanHstore {pairs : List (Bytes × Option Bytes)} (hcount : pairs.length < 2 ^ 31)
    (hsmall : ∀ kv ∈ pairs, kv.1.length < 2 ^ 31 ∧ Small kv.2) :
    Runs (scanHstore make : Cursor (ScanError ε) Hstore) (hstoreBytes pairs) (hstoreOf pairs) [] := by
  have hn : (Int32.ofInt pairs.length).toInt = pairs.length :=
    Int32.toInt_ofInt_of_le (by omega) (by omega)
  have hlen := length_pairs pairs
  have hfill := Reads.fill (ε := ScanError ε) pairs
      (fun kv hkv => reads_hstorePair (hsmall kv hkv).1 (hsmall kv hkv).2) (i := 0)
    (Nat.le_of_eq (Nat.zero_add pairs.length))
  refine .bind (.require _ (four_le_bigEndian _ _)) (.bind (reads_int32_ofInt _) ?_)
  rw [hn]
  refine .bind (.failIf _ (by omega)) (.bind .rest (.bind (.failIf _ (by omega)) ?_))
  exact .bind (.make (by omega)) (.bind (.make (by omega)) (.bind hfill.all (.pure _)))

theorem toFinmap_hstoreOf {h : HstoreValue} {kvs : List (Sigma fun _ : Bytes => Option Bytes)}
    (hkvs : ↑kvs = h.entries) :
    (hstoreOf (kvs.map fun kv => (kv.1, kv.2))).toFinmap = h := by
  have hmem : ∀ k v, (k, v) ∈ (kvs.map fun kv => (kv.1, kv.2)) ↔ v ∈ h.lookup k := by
    intro k v
    rw [Finmap.mem_lookup_iff, ← hkvs]
    simp
  refine Finmap.ext_lookup fun k => ?_
  rw [Finmap.lookup_toFinmap, hstoreOf, lookup_foldl_insert]
  ext v
  rw [← Option.mem_def (a := v) (b := h.lookup k), ← hmem]
  constructor
  · exact mem_of_lastWrite
  · intro hkv
    obtain ⟨u, hu⟩ := exists_lastWrite hkv
    have hboth := (hmem k u).mp (mem_of_lastWrite hu)
    rw [hu, Option.mem_unique hboth ((hmem k v).mp hkv)]

end Scanners

end Pgx.Pgtype
