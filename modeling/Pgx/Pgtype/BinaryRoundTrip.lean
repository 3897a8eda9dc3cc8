import Pgx.Pgtype.BinaryReadBack

/-!
# Nested containers in binary

Types are nested freely over one element type. A type's encoder calls the encoders of the types
inside it, and its decoder their decoders. If the element's decoder inverts its encoder, so does
every type's, for values of which no part has 2^31 bytes or more, and in which no rows of a nested
slice overlap.
-/
namespace Pgx.Pgtype

open Pgx.Go Pgx.Go.Cursor

mutual

inductive BinaryType where
  | elem
  /-- An array, with the Go type it is kept in and the OID of its elements -/
  | array (target : ArrayTarget) (oid : UInt32) (t : BinaryType)
  | range (t : BinaryType)
  | multirange (t : BinaryType)
  | composite (fields : BinaryFields)
  | hstore

/-- The types of a composite's fields, with their OIDs -/
inductive BinaryFields where
  | nil
  | cons (oid : UInt32) (t : BinaryType) (fields : BinaryFields)

end

inductive BinaryValue (α : Type) where
  | elem (a : α)
  | array (a : ArrayValue (BinaryValue α))
  | range (r : RangeValue (BinaryValue α))
  | multirange (elems : List (Option (BinaryValue α)))
  | composite (fields : List (Option (BinaryValue α)))
  | hstore (h : HstoreValue)

inductive DecodeError (ε : Type) where
  | element (err : ε)
  | array (err : ArrayError (DecodeError ε))
  | container (err : ScanError (DecodeError ε))

section Codec

variable {ε α : Type}

def unableToEncode : Checked (EncodeError ε) (Option Bytes) :=
    .error (.returned (.errorf "unable to encode %v"))

def onElem (enc : Encoder ε α) : Encoder ε (BinaryValue α)
  | .elem a, buf => enc a buf
  | _, _ => unableToEncode

def onArray (enc : Encoder ε (ArrayValue (BinaryValue α))) : Encoder ε (BinaryValue α)
  | .array a, buf => enc a buf
  | _, _ => unableToEncode

def onRange (enc : Encoder ε (RangeValue (BinaryValue α))) : Encoder ε (BinaryValue α)
  | .range r, buf => enc r buf
  | _, _ => unableToEncode

def onMultirange (enc : Encoder ε (List (Option (BinaryValue α)))) : Encoder ε (BinaryValue α)
  | .multirange elems, buf => enc elems buf
  | _, _ => unableToEncode

def onComposite (enc : Encoder ε (List (Option (BinaryValue α)))) : Encoder ε (BinaryValue α)
  | .composite fields, buf => enc fields buf
  | _, _ => unableToEncode

def onHstore (enc : Encoder ε HstoreValue) : Encoder ε (BinaryValue α)
  | .hstore h, buf => enc h buf
  | _, _ => unableToEncode

/-- What the codecs of a map share: the platform, the order in which `range` goes through a Go map,
and the codec of the elements -/
structure ElementCodec (ε α : Type) where
  platform : Platform
  order : HstoreValue → List (Sigma fun _ : Bytes => Option Bytes)
  encode : Encoder ε α
  decode : Bytes → Checked ε α

mutual

def BinaryType.encode (c : ElementCodec ε α) : BinaryType → Encoder ε (BinaryValue α)
  | .elem => onElem c.encode
  | .array _ oid t => onArray (encodeBinaryArray c.platform oid (t.encode c))
  | .range t => onRange (encodeRange (t.encode c))
  | .multirange t => onMultirange (encodeMultirange (t.encode c))
  | .composite fields => onComposite (encodeComposite (fields.encoders c))
  | .hstore => onHstore (encodeHstore c.order)

def BinaryFields.encoders (c : ElementCodec ε α) :
    BinaryFields → List (UInt32 × Encoder ε (BinaryValue α))
  | .nil => []
  | .cons oid t fields => (oid, t.encode c) :: fields.encoders c

end

def decoded {β : Type} (f : β → BinaryValue α) (d : Cursor (ScanError (DecodeError ε)) β) :
    Option Bytes → Checked (DecodeError ε) (Option (BinaryValue α))
  | none => .ok none
  | some src => (fun b => some (f b)) <$> Checked.wrap .container (d.run' src)

def decodedElem (dec : Bytes → Checked ε α) :
    Option Bytes → Checked (DecodeError ε) (Option (BinaryValue α))
  | none => .ok none
  | some src => (fun a => some (.elem a)) <$> (dec src).wrap .element

/-- What the caller finds in the target: an `Array[T]` keeps the dimensions, a nested slice shows
the elements through its rows. -/
def Layout.value {β : Type} (elements : List (Option β)) : Layout → ArrayValue β
  | .dims ds => ⟨ds, elements⟩
  | .flat => ⟨[⟨Int32.ofNat elements.length, 1⟩], elements⟩
  | .nested view => ⟨view.dimensions, view.positions.filterMap (elements[·]?)⟩

def decodedArray (p : Platform) (target : ArrayTarget)
    (scan : Option Bytes → Checked (DecodeError ε) (Option (BinaryValue α))) :
    Option Bytes → Checked (DecodeError ε) (Option (BinaryValue α))
  | none => .ok none
  | some src =>
    (fun d => some (.array (d.layout.value d.elements))) <$>
      (decodeBinary p target scan src).result.wrap .array

def rangeOf (r : RangeValue (Option (BinaryValue α))) : BinaryValue α :=
  .range ⟨r.lower.join, r.upper.join, r.lowerType, r.upperType⟩

mutual

def BinaryType.decode (c : ElementCodec ε α) :
    BinaryType → Option Bytes → Checked (DecodeError ε) (Option (BinaryValue α))
  | .elem => decodedElem c.decode
  | .array target _ t => decodedArray c.platform target (t.decode c)
  | .range t => decoded rangeOf (scanRange c.platform (t.decode c))
  | .multirange t => decoded .multirange (scanMultirange c.platform make (t.decode c))
  | .composite fields =>
    decoded .composite
      (scanComposite (fields.decoders c).length (.compositeFields (fields.decoders c).length)
      (fieldScan (fields.decoders c)))
  | .hstore => decoded (fun h => .hstore h.toFinmap) (scanHstore make)

def BinaryFields.decoders (c : ElementCodec ε α) :
    BinaryFields → List (Option Bytes → Checked (DecodeError ε) (Option (BinaryValue α)))
  | .nil => []
  | .cons _ t fields => t.decode c :: fields.decoders c

end

/-- The arrays that a Go type can hold: one dimension in a flat slice, and in a nested slice as many
as it is deep, none of them empty. -/
def ArrayTarget.Holds (p : Platform) (dims : List ArrayDimension) (count : Nat) : ArrayTarget → Prop
  | .array => True
  | .flatArray => ∃ d, dims = [d] ∧ d.lowerBound = 1 ∧ 0 ≤ d.len
  | .slices depth => dims ≠ [] ∧ dims.length = depth ∧ (∀ d ∈ dims, 1 ≤ d.len ∧ d.lowerBound = 1) ∧
      volume dims = count ∧ Fits p count

mutual

/-- The value has the type. The sizes of its parts are not looked at. -/
def BinaryType.Has (p : Platform) : BinaryType → BinaryValue α → Prop
  | .elem, .elem _ => True
  | .array target _ t, .array a =>
    a.dims.length ≤ 6 ∧ cardinality p a.dims = a.elements.length ∧
    target.Holds p a.dims a.elements.length ∧
      ∀ v, some v ∈ a.elements → t.Has p v
  | .range t, .range r => r.Valid ∧ ∀ v, r.lower = some v ∨ r.upper = some v → t.Has p v
  | .multirange t, .multirange elems => none ∉ elems ∧ ∀ v, some v ∈ elems → t.Has p v
  | .composite fields, .composite values => fields.Have p values
  | .hstore, .hstore _ => True
  | _, _ => False

def BinaryFields.Have (p : Platform) : BinaryFields → List (Option (BinaryValue α)) → Prop
  | .nil, [] => True
  | .cons _ t fields, v :: values => (∀ a, v = some a → t.Has p a) ∧ fields.Have p values
  | _, _ => False

end

/-- What the value is encoded to, behind an empty buffer -/
def encodedBytes (enc : Encoder ε α) (a : α) : Bytes :=
  match enc a [] with
  | .ok (some bs) => bs
  | _ => []

/-- The encoding of the part has fewer than 2^31 bytes. -/
def SmallPart (enc : Encoder ε α) (a : α) : Prop := (encodedBytes enc a).length < 2 ^ 31

mutual

/-- Every length and count inside the value is less than 2^31, and no rows of a nested slice
overlap. -/
def BinaryType.Kept (c : ElementCodec ε α) : BinaryType → BinaryValue α → Prop
  | .elem, _ => True
  | .array target _ t, .array a => (∀ depth, target = .slices depth → Spaced a.dims) ∧
      ∀ v, some v ∈ a.elements → SmallPart (t.encode c) v ∧ t.Kept c v
  | .range t, .range r =>
    ∀ v, r.lower = some v ∨ r.upper = some v → SmallPart (t.encode c) v ∧ t.Kept c v
  | .multirange t, .multirange elems =>
    elems.length < 2 ^ 31 ∧ ∀ v, some v ∈ elems → SmallPart (t.encode c) v ∧ t.Kept c v
  | .composite fields, .composite values => fields.Kept c values
  | .hstore, .hstore h =>
    h.entries.card < 2 ^ 31 ∧ ∀ kv ∈ h.entries, kv.1.length < 2 ^ 31 ∧ Small kv.2
  | _, _ => True

def BinaryFields.Kept (c : ElementCodec ε α) : BinaryFields → List (Option (BinaryValue α)) → Prop
  | .cons _ t fields, v :: values =>
    (∀ a, v = some a → SmallPart (t.encode c) a ∧ t.Kept c a) ∧ fields.Kept c values
  | _, _ => True

end

/-! ## The round trip -/

/-- The element's encoder appends bytes, and its decoder reads them back; a Go map is gone through
once. -/
structure ElementCodec.Lawful (c : ElementCodec ε α) : Prop where
  order : ∀ h, (c.order h : Multiset _) = h.entries
  appends : ∀ a, AppendsTo c.encode a (encodedBytes c.encode a)
  inverts : ∀ a, c.decode (encodedBytes c.encode a) = .ok a

/-- The value's bytes are appended and decoded to the value. -/
structure RoundTrips (enc : Encoder ε (BinaryValue α))
    (dec : Option Bytes → Checked (DecodeError ε) (Option (BinaryValue α)))
    (v : BinaryValue α) : Prop where
  appends : AppendsTo enc v (encodedBytes enc v)
  decodes : dec (some (encodedBytes enc v)) = .ok (some v)

variable {enc : Encoder ε (BinaryValue α)}

theorem roundTrips_of {dec : Option Bytes → Checked (DecodeError ε) (Option (BinaryValue α))}
    {v : BinaryValue α} {bs : Bytes} (happ : AppendsTo enc v bs)
    (hdec : dec (some bs) = .ok (some v)) : RoundTrips enc dec v := by
  have heq : encodedBytes enc v = bs := by rw [encodedBytes, happ []]; rfl
  exact ⟨heq ▸ happ, heq ▸ hdec⟩

theorem decoded_of_runs {β : Type} {f : β → BinaryValue α}
    {d : Cursor (ScanError (DecodeError ε)) β} {src left : Bytes} {b : β}
    (h : Runs d src b left) : decoded f d (some src) = .ok (some (f b)) := by
  simp only [decoded, h.run']
  rfl

section

variable {dec : Option Bytes → Checked (DecodeError ε) (Option (BinaryValue α))}
    (hnull : dec none = .ok none)

include hnull

theorem scansTo_part {v : Option (BinaryValue α)}
    (h : ∀ a, v = some a → RoundTrips enc dec a ∧ SmallPart enc a) :
    ScansTo dec (v.map (encodedBytes enc)) v := by
  cases v with
  | none => exact ⟨small_none, hnull⟩
  | some a =>
    obtain ⟨htrip, hsmall⟩ := h a rfl
    exact ⟨fun bs hbs => Option.some.inj hbs ▸ hsmall, htrip.decodes⟩

theorem forall₂_parts {vs : List (Option (BinaryValue α))}
    (h : ∀ a, some a ∈ vs → RoundTrips enc dec a ∧ SmallPart enc a) :
    List.Forall₂ (ScansTo dec) (vs.map (Option.map (encodedBytes enc))) vs := by
  rw [List.forall₂_map_left_iff]
  refine List.forall₂_same.mpr fun v hv => scansTo_part hnull fun a ha => h a (ha ▸ hv)

end

theorem BinaryType.decode_none (c : ElementCodec ε α) (t : BinaryType) :
    t.decode c none = .ok none := by
  cases t <;> rfl

theorem BinaryFields.length_encoders (c : ElementCodec ε α) {p : Platform} : ∀ (fields : BinaryFields)
    {values : List (Option (BinaryValue α))}, fields.Have p values →
      (fields.encoders c).length = values.length ∧ (fields.decoders c).length = values.length
  | .nil, [], _ => ⟨rfl, rfl⟩
  | .cons _ _ fields, _ :: values, h => by
    have ih := fields.length_encoders c h.2
    exact ⟨congrArg (· + 1) ih.1, congrArg (· + 1) ih.2⟩

theorem filterMap_getElem?_range {β : Type} (l : List β) :
    (List.range' 0 l.length).filterMap (l[·]?) = l := by
  induction l using List.reverseRecOn with
  | nil => rfl
  | append_singleton l a ih =>
    have hsame : (List.range' 0 l.length).filterMap
        ((l ++ [a])[·]?) = (List.range' 0 l.length).filterMap (l[·]?) := by
      refine List.filterMap_congr fun i hi => List.getElem?_append_left ?_
      simpa using hi
    rw [List.length_append, List.length_singleton, List.range'_1_concat,
      List.filterMap_append, hsame, ih]
    simp

/-- What is decoded into a target that can hold the array is the array. -/
theorem ArrayTarget.Holds.value {target : ArrayTarget} {p : Platform} {dims : List ArrayDimension}
    {β : Type} {elements : List (Option β)} (h : target.Holds p dims elements.length)
    (hcount : cardinality p dims = elements.length)
    (hspaced : ∀ depth, target = .slices depth → Spaced dims) :
    ∃ layout, setDimensions p dims target = (.ok layout : Checked (ArrayError ε) Layout) ∧
      layout.value elements = ⟨dims, elements⟩ := by
  have hflat : ∀ d : ArrayDimension, dims = [d] → d.lowerBound = 1 → 0 ≤ d.len →
      Layout.flat.value elements = ⟨dims, elements⟩ := by
    rintro d rfl hlow h0
    have hlen : elements.length = d.len.toNat := by
      rw [cardinality, List.foldl_nil, if_neg (by omega)] at hcount
      omega
    rw [Layout.value, hlen, ofNat_len h0 hlow]
  cases target with
  | array => exact ⟨_, rfl, rfl⟩
  | flatArray =>
    obtain ⟨d, hd, hlow, h0⟩ := h
    exact ⟨_, rfl, hflat d hd hlow h0⟩
  | slices depth =>
    obtain ⟨hne, hdepth, hpos, hvol, hfits⟩ := h
    obtain ⟨d, ds, rfl⟩ := List.exists_cons_of_ne_nil hne
    cases ds with
    | nil =>
      obtain ⟨hd, hlow⟩ := hpos d (by simp)
      exact ⟨_, rfl, hflat d rfl hlow (by omega)⟩
    | cons d' ds =>
      have hprod : (lengths (d :: d' :: ds)).prod = elements.length := by
        rw [← hvol, volume, if_neg (by simp)]
      have hnests : (ArrayTarget.slices depth).Nests (d :: d' :: ds) := ⟨by simp, by rw [hdepth]⟩
      have hsome : (makeMultidimensionalSlice p elements.length (d :: d' :: ds) 0).isSome := by
        rw [makeMultidimensionalSlice_isSome]
        exact cuts_of_pos hfits (by simp) (fun e he => (hpos e he).1) (le_refl _) (by omega)
      obtain ⟨v, hv⟩ := Option.isSome_iff_exists.mp hsome
      have hpositions := spaced_positions hfits (fun e he => (hpos e he).1) (hspaced depth rfl)
          (le_refl _) (by omega) hv
      have hdims := dimensions_eq hfits hpos (le_refl _) (by omega) hv
      refine ⟨.nested v, ?_, ?_⟩
      · rw [setDimensions_nests hnests, hcount, Int.toNat_natCast, hv]
      · rw [Layout.value, hpositions, hdims, hprod, Int.toNat_natCast]
        exact congrArg (ArrayValue.mk _) (filterMap_getElem?_range elements)

mutual

theorem BinaryType.roundTrips {c : ElementCodec ε α} (hc : c.Lawful) :
    ∀ (t : BinaryType) (v : BinaryValue α),
    t.Has c.platform v → t.Kept c v → RoundTrips (t.encode c) (t.decode c) v
  | .elem, .elem a, _, _ => by
    refine roundTrips_of (hc.appends a) ?_
    show decodedElem c.decode (some _) = _
    simp only [decodedElem, hc.inverts]
    rfl
  | .array target oid t, .array a, ⟨hdims, hcount, hholds, helems⟩, ⟨hspaced, hsized⟩ => by
    have hparts : ∀ v, some v ∈ a.elements → RoundTrips (t.encode c) (t.decode c) v ∧
        SmallPart (t.encode c) v :=
      fun v hv => ⟨t.roundTrips hc v (helems v hv) (hsized v hv).2, (hsized v hv).1⟩
    have happ : AppendsTo (encodeBinaryArray c.platform oid (t.encode c)) a _ :=
      encodeBinaryArray_appends (by omega) hcount fun v hv => (hparts v hv).1.appends
    refine roundTrips_of happ ?_
    show decodedArray c.platform target (t.decode c) (some _) = _
    obtain ⟨layout, hset, hvalue⟩ := hholds.value hcount hspaced
    have hdec := decodeBinary_arrayBytes (t := target) oid hdims (by simpa using hcount) hset
      (forall₂_parts (t.decode_none c) hparts) []
    rw [List.append_nil] at hdec
    simp only [decodedArray, hdec]
    show Except.ok (some (BinaryValue.array (layout.value a.elements))) = _
    rw [hvalue]
  | .range t, .range r, ⟨hvalid, hbounds⟩, hsized => by
    have hparts : ∀ v, r.lower = some v ∨ r.upper = some v →
        RoundTrips (t.encode c) (t.decode c) v ∧ SmallPart (t.encode c) v :=
      fun v hv => ⟨t.roundTrips hc v (hbounds v hv) (hsized v hv).2, (hsized v hv).1⟩
    have happ : AppendsTo (encodeRange (t.encode c)) r _ :=
      encodeRange_appends hvalid fun v hv => (hparts v hv).1.appends
    refine roundTrips_of happ ?_
    have hscan : ∀ v, r.lower = some v ∨ r.upper = some v →
        ScansTo (t.decode c) (some (encodedBytes (t.encode c) v)) (some v) :=
      fun v hv => scansTo_part (t.decode_none c) (v := some v) fun a ha =>
        Option.some.inj ha ▸ hparts v hv
    refine (decoded_of_runs (runs_scanRange c.platform hvalid hscan)).trans ?_
    obtain ⟨lower, upper, lowerType, upperType⟩ := r
    cases lower <;> cases upper <;> rfl
  | .multirange t, .multirange elems, ⟨hnull, helems⟩, ⟨hcount, hsized⟩ => by
    have hparts : ∀ v, some v ∈ elems → RoundTrips (t.encode c) (t.decode c) v ∧
        SmallPart (t.encode c) v :=
      fun v hv => ⟨t.roundTrips hc v (helems v hv) (hsized v hv).2, (hsized v hv).1⟩
    have happ : AppendsTo (encodeMultirange (t.encode c)) elems _ :=
      encodeMultirange_appends hnull fun v hv => (hparts v hv).1.appends
    refine roundTrips_of happ ?_
    exact decoded_of_runs (runs_scanMultirange c.platform (by simpa using hcount)
      (forall₂_parts (t.decode_none c) hparts))
  | .composite fields, .composite values, hhas, hsized => by
    obtain ⟨hencs, hdecs⟩ := fields.length_encoders c hhas
    obtain ⟨fs, hfs, happ, hscan, hsmall⟩ := fields.roundTrips hc values hhas hsized
    refine roundTrips_of (encodeComposite_appends hencs happ) ?_
    exact decoded_of_runs (runs_scanComposite (hdecs.trans hfs.symm) hscan hsmall)
  | .hstore, .hstore h, _, ⟨hcount, hsized⟩ => by
    have hlen : (c.order h).length < 2 ^ 31 := by
      rw [← Multiset.coe_card, hc.order h]
      exact hcount
    have hpairs : ∀ kv ∈ (c.order h).map (fun kv => (kv.1, kv.2)), kv.1.length < 2 ^ 31 ∧
        Small kv.2 := by
      intro kv hkv
      obtain ⟨e, he, rfl⟩ := List.mem_map.mp hkv
      exact hsized e (hc.order h ▸ Multiset.mem_coe.mpr he)
    refine roundTrips_of (encodeHstore_appends c.order h) ?_
    refine (decoded_of_runs (runs_scanHstore (by simpa using hlen) hpairs)).trans ?_
    rw [toFinmap_hstoreOf (hc.order h)]

theorem BinaryFields.roundTrips {c : ElementCodec ε α} (hc : c.Lawful) : ∀ (fields : BinaryFields)
    (values : List (Option (BinaryValue α))), fields.Have c.platform values → fields.Kept c values →
      ∃ fs : List CompositeField, fs.length = values.length ∧
        List.Forall₂ (fun fv f => FieldAppends fv.1 fv.2 f) ((fields.encoders c).zip values) fs ∧
        List.Forall₂ (fun df v => ScansTo df.1 df.2.bytes v) ((fields.decoders c).zip fs) values ∧
        ∀ f ∈ fs, Small f.bytes
  | .nil, [], _, _ => ⟨[], rfl, .nil, .nil, nofun⟩
  | .cons oid t fields, v :: values, ⟨hhas, hrest⟩, ⟨hsized, hsrest⟩ => by
    obtain ⟨fs, hlen, happ, hscan, hsmall⟩ := fields.roundTrips hc values hrest hsrest
    have hpart : ∀ a, v = some a → RoundTrips (t.encode c) (t.decode c) a ∧
        SmallPart (t.encode c) a :=
      fun a ha => ⟨t.roundTrips hc a (hhas a ha) (hsized a ha).2, (hsized a ha).1⟩
    have hv := scansTo_part (t.decode_none c) hpart
    have hfield : FieldAppends (oid, t.encode c) v ⟨oid, v.map (encodedBytes (t.encode c))⟩ := by
      refine ⟨rfl, ?_⟩
      cases v with
      | none => rfl
      | some a => exact ⟨_, rfl, (hpart a rfl).1.appends⟩
    refine ⟨⟨oid, v.map (encodedBytes (t.encode c))⟩ :: fs, congrArg (· + 1) hlen,
      .cons hfield happ, .cons hv hscan, ?_⟩
    intro f hf
    rcases List.mem_cons.mp hf with rfl | hf
    · exact hv.1
    · exact hsmall f hf

end

end Codec

/-- A `bytea` is its bytes. -/
noncomputable def byteaCodec : ElementCodec Empty Bytes where
  platform := .bits64
  order h := h.entries.toList
  encode a buf := .ok (some (buf ++ a))
  decode b := .ok b

theorem byteaCodec_lawful : byteaCodec.Lawful where
  order _ := Multiset.coe_toList _
  appends _ _ := rfl
  inverts _ := rfl

/-- Two rows, of a range without an upper bound and of a NULL -/
def rangeAndNull : BinaryValue Bytes :=
  .array ⟨[⟨2, 1⟩, ⟨1, 1⟩], [some (.range ⟨some (.elem [7]), none, .inclusive, .unbounded⟩), none]⟩

/-- Two by two by two one-byte elements -/
def cube (bs : Bytes) : ArrayValue (BinaryValue Bytes) :=
  ⟨[⟨2, 1⟩, ⟨2, 1⟩, ⟨2, 1⟩], bs.map fun b => some (.elem [b])⟩

end Pgx.Pgtype
