import Pgx.Pgtype.BinaryArray
import Pgx.Pgtype.BinaryScan
import Mathlib.Data.Finmap

/-!
# Encoding containers in binary

Every container appends to the buffer that it is given. A length is written as -1 first and set when
the bytes behind it are known; the element appends to the same buffer in between. What an element's
plan does with the buffer is a parameter: it may return nil for NULL, or an error.

For elements that append their bytes, each container appends its own (`…_appends`).
-/
namespace Pgx.Pgtype

open Pgx.Go Pgx.Go.Cursor List

inductive EncodeError (ε : Type) where
  | errorf (format : String)
  | element (err : ε)
  | wrapped (format : String) (err : EncodeError ε)
  deriving DecidableEq

/-- `EncodePlan.Encode`; `none` is a nil buffer, for NULL. -/
abbrev Encoder (ε α : Type) : Type := α → Bytes → Checked (EncodeError ε) (Option Bytes)

/-- The value is encoded by appending these bytes, whatever is in the buffer. -/
def AppendsTo {ε α : Type} (enc : Encoder ε α) (a : α) (bs : Bytes) : Prop :=
    ∀ buf, enc a buf = .ok (some (buf ++ bs))

section Encoders

variable {ε α : Type}

/-- `pgio.SetInt32(buf[pos:], n)` -/
def setInt32 (buf : Bytes) (pos : Nat) (n : Int) : Checked (EncodeError ε) Bytes :=
  if pos + 4 ≤ buf.length then .ok
    (buf.take pos ++ (bigEndian 4 (unsigned 32 n) ++ buf.drop (pos + 4)))
  else .error .panic

/-- `pgio.SetInt32(buf[sp:], int32(len(buf[sp:])-4))` -/
def setLength (buf : Bytes) (sp : Nat) : Checked (EncodeError ε) Bytes :=
  setInt32 buf sp ((buf.length : Int) - sp - 4)

theorem setInt32_eq (a b : Bytes) {x : Bytes} (hx : x.length = 4) (n : Int) :
    setInt32 (a ++ (x ++ b)) a.length n = (.ok (a ++ (bigEndian 4 (unsigned 32 n) ++ b)) :
    Checked (EncodeError ε) Bytes) := by
  have hdrop : (a ++ (x ++ b)).drop (a.length + 4) = b := by
    rw [← append_assoc, drop_left' (by simp [hx])]
  unfold setInt32
  rw [if_pos (by simp [hx]), take_left, hdrop]

theorem setLength_eq (buf bs : Bytes) :
    setLength (appendInt32 buf (-1) ++ bs) buf.length =
      (.ok (buf ++ sizedWritten (some bs)) : Checked (EncodeError ε) Bytes) := by
  have hlen : (((appendInt32 buf (-1) ++ bs).length : Nat) : Int) - buf.length - 4 = bs.length := by
    simp only [appendInt32, length_append, bigEndian_length]
    push_cast
    omega
  unfold setLength
  rw [hlen, appendInt32, append_assoc]
  exact setInt32_eq buf bs (bigEndian_length 4 _) _

/-! ## Arrays -/

/-- `arrayHeader.EncodeBinary` -/
def ArrayHeader.encodeBinary (h : ArrayHeader) (buf : Bytes) : Bytes :=
  h.dimensions.foldl (fun buf d => appendInt32 (appendInt32 buf d.length.toInt) d.lowerBound.toInt)
    (appendInt32 (appendInt32 (appendInt32 buf h.dimensions.length)
      (if h.containsNull then 1 else 0)) h.elementOID.toNat)

/-- `nil` is not encoded at all. -/
def encodeOption (enc : Encoder ε α) : Option α → Bytes → Checked (EncodeError ε) (Option Bytes)
  | none, _ => .ok none
  | some a, buf => enc a buf

def encodeArrayElement (enc : Encoder ε α) (containsNullIndex : Nat) (elem : Option α) (buf : Bytes) :
    Checked (EncodeError ε) Bytes := do
  let elemBuf ← encodeOption enc elem (appendInt32 buf (-1))
  match elemBuf with
  | none => setInt32 (appendInt32 buf (-1)) containsNullIndex 1
  | some elemBuf => setLength elemBuf buf.length

/-- `for i := range elementCount`; `array.Index(i)` panics behind the last element. -/
def encodeArrayElements (enc : Encoder ε α) (containsNullIndex : Nat) (elems : List (Option α)) :
    (count i : Nat) → Bytes → Checked (EncodeError ε) Bytes
  | 0, _, buf => .ok buf
  | count + 1, i, buf =>
    match elems[i]? with
    | none => .error .panic
    | some elem => do
      let buf ← encodeArrayElement enc containsNullIndex elem buf
      encodeArrayElements enc containsNullIndex elems count (i + 1) buf

structure ArrayValue (α : Type) where
  dims : List ArrayDimension
  elements : List (Option α)
  deriving DecidableEq

/-- `encodePlanArrayCodecBinary.Encode` for dimensions that are not nil -/
def encodeBinaryArray (p : Platform) (oid : UInt32) (enc : Encoder ε α) :
    Encoder ε (ArrayValue α) := fun a buf =>
  some <$> encodeArrayElements enc (buf.length + 4) a.elements (cardinality p a.dims).toNat 0
    ((ArrayHeader.mk false oid a.dims).encodeBinary buf)

def dimensionBytes (d : ArrayDimension) : Bytes :=
  bigEndian 4 d.length.toUInt32.toNat ++ bigEndian 4 d.lowerBound.toUInt32.toNat

def arrayBytes (oid : UInt32) (dims : List ArrayDimension) (elems : List (Option Bytes)) : Bytes :=
  bigEndian 4 dims.length ++ (bigEndian 4 (elems.any Option.isNone).toNat ++
    (bigEndian 4 oid.toNat ++ dims.flatMap dimensionBytes ++ elems.flatMap sizedWritten))

theorem unsigned_natCast {n : Nat} (h : n < 2 ^ 32) : unsigned 32 n = n := by
  unfold unsigned
  omega

theorem foldl_dimensions (dims : List ArrayDimension) : ∀ buf : Bytes,
    dims.foldl (fun buf d => appendInt32 (appendInt32 buf d.length.toInt) d.lowerBound.toInt) buf =
      buf ++ dims.flatMap dimensionBytes := by
  induction dims with
  | nil => simp
  | cons d ds ih =>
    intro buf
    rw [foldl_cons, ih]
    simp [appendInt32, dimensionBytes, ← toNat_toUInt32_ofInt]

variable {enc : Encoder ε α}

variable {f : α → Bytes}

theorem encodeArrayElements_appends {all : List (Option α)} (pre mid : Bytes) :
    ∀ (elems : List (Option α)) (i : Nat) (flag : Bool) (done : Bytes), all.drop i = elems →
      (∀ a, some a ∈ elems → AppendsTo enc a (f a)) →
        encodeArrayElements enc pre.length all elems.length i
          (pre ++ (bigEndian 4 flag.toNat ++ (mid ++ done))) =
          .ok (pre ++ (bigEndian 4 (flag || elems.any Option.isNone).toNat ++
            (mid ++ (done ++ (elems.map (Option.map f)).flatMap sizedWritten)))) := by
  intro elems
  induction elems with
  | nil =>
    intro i flag done _ _
    simp [encodeArrayElements]
  | cons e es ih =>
    intro i flag done hdrop happ
    have hget : all[i]? = some e := by
      rw [← head?_drop, hdrop]
      rfl
    have hnext : all.drop (i + 1) = es := by
      rw [← tail_drop, hdrop]
      rfl
    have happ' : ∀ a, some a ∈ es → AppendsTo enc a (f a) := fun a ha => happ a (.tail _ ha)
    rw [length_cons, encodeArrayElements, hget]
    cases e with
    | none =>
      have hset := setInt32_eq (ε := ε) pre (mid ++ (done ++ sizedWritten none))
          (bigEndian_length 4 flag.toNat) 1
      have hloop := ih (i + 1) true (done ++ sizedWritten none) hnext happ'
      have hnull : appendInt32 (pre ++ (bigEndian 4 flag.toNat ++ (mid ++ done))) (-1) =
          pre ++ (bigEndian 4 flag.toNat ++ (mid ++ (done ++ sizedWritten none))) := by
        simp [appendInt32, sizedWritten]
      simp only [encodeArrayElement, encodeOption, bind, Except.bind, hnull, hset,
        show unsigned 32 1 = 1 by decide]
      simpa using hloop
    | some a =>
      have hloop := ih (i + 1) flag (done ++ sizedWritten (some (f a))) hnext happ'
      simp only [encodeArrayElement, encodeOption, happ a (.head _) _, bind,
        Except.bind, setLength_eq]
      simpa using hloop

theorem encodeBinaryArray_appends {p : Platform} {oid : UInt32} {a : ArrayValue α}
    (hdims : a.dims.length < 2 ^ 32) (hcount : cardinality p a.dims = a.elements.length)
    (happ : ∀ x, some x ∈ a.elements → AppendsTo enc x (f x)) :
    AppendsTo (encodeBinaryArray p oid enc) a
      (arrayBytes oid a.dims (a.elements.map (Option.map f))) := by
  intro buf
  have hloop := encodeArrayElements_appends (buf ++ bigEndian 4 a.dims.length)
    (bigEndian 4 oid.toNat ++ a.dims.flatMap dimensionBytes) a.elements 0 false [] rfl happ
  have hheader : (ArrayHeader.mk false oid a.dims).encodeBinary buf =
      (buf ++ bigEndian 4 a.dims.length) ++
      (bigEndian 4 false.toNat ++
        ((bigEndian 4 oid.toNat ++ a.dims.flatMap dimensionBytes) ++ [])) := by
    unfold ArrayHeader.encodeBinary
    rw [foldl_dimensions]
    simp [appendInt32, unsigned_natCast hdims, unsigned_natCast oid.toNat_lt,
      show unsigned 32 0 = 0 by decide]
  have hlen : (buf ++ bigEndian 4 a.dims.length).length = buf.length + 4 := by
    rw [length_append, bigEndian_length]
  rw [hlen, ← hheader] at hloop
  unfold encodeBinaryArray
  rw [hcount, Int.toNat_natCast, hloop]
  simp [arrayBytes, any_map, Function.comp_def, Functor.map, Except.map]

def lowerMask : BoundType → UInt8
  | .inclusive => 2
  | .unbounded => 8
  | _ => 0

def upperMask : BoundType → UInt8
  | .inclusive => 4
  | .unbounded => 16
  | _ => 0

/-- A bound of a type other than `Unbounded`, which is not NULL. -/
def encodeBound (enc : Encoder ε α) (null : String) (boundType : BoundType) (bound : Option α)
    (buf : Bytes) :
    Checked (EncodeError ε) Bytes :=
  if boundType = .unbounded then .ok buf
  else
    match bound with
    | none => .error (.returned (.errorf null))
    | some a => do
      let elemBuf ← (enc a (appendInt32 buf (-1))).wrap
          (.wrapped "failed to encode %v as element of range: %w")
      match elemBuf with
      | none => .error (.returned (.errorf null))
      | some elemBuf => setLength elemBuf buf.length

/-- `encodePlanRangeCodecRangeValuerToBinary.Encode` for a range that is not NULL -/
def encodeRange (enc : Encoder ε α) : Encoder ε (RangeValue α) := fun r buf =>
  if r.lowerType = .empty then .ok (some (buf ++ [1]))
  else if r.upperType = .empty then .error (.returned (.errorf "unknown UpperType: %v"))
  else do
    let buf := buf ++ [lowerMask r.lowerType ||| upperMask r.upperType]
    let buf ← encodeBound enc "Lower cannot be NULL unless LowerType is Unbounded"
        r.lowerType r.lower buf
    let buf ← encodeBound enc "Upper cannot be NULL unless UpperType is Unbounded"
        r.upperType r.upper buf
    pure (some buf)

/-- A bound is there if it has a value, and empty ranges have none. -/
structure RangeValue.Valid (r : RangeValue α) : Prop where
  empty_iff : r.lowerType = .empty ↔ r.upperType = .empty
  lower : r.lower.isSome ↔ r.lowerType = .inclusive ∨ r.lowerType = .exclusive
  upper : r.upper.isSome ↔ r.upperType = .inclusive ∨ r.upperType = .exclusive

def boundBytes (f : α → Bytes) : Option α → Bytes
  | none => []
  | some a => sizedWritten (some (f a))

def rangeBytes (f : α → Bytes) (r : RangeValue α) : Bytes :=
  if r.lowerType = .empty then [1]
  else (lowerMask r.lowerType ||| upperMask r.upperType) ::
    (boundBytes f r.lower ++ boundBytes f r.upper)

theorem encodeBound_appends {null : String} {boundType : BoundType} {bound : Option α}
    (hne : boundType ≠ .empty)
    (hsome : bound.isSome ↔ boundType = .inclusive ∨ boundType = .exclusive)
    (happ : ∀ a, bound = some a → AppendsTo enc a (f a)) (buf : Bytes) :
    encodeBound enc null boundType bound buf = .ok (buf ++ boundBytes f bound) := by
  unfold encodeBound
  cases bound with
  | none =>
    have hunbounded : boundType = .unbounded := by
      cases boundType <;> simp_all
    simp [hunbounded, boundBytes]
  | some a =>
    have hbounded : boundType ≠ .unbounded := by
      rcases hsome.mp rfl with h | h <;> simp [h]
    simp only [if_neg hbounded, happ a rfl _, Checked.wrap, bind, Except.bind,
      setLength_eq, boundBytes]

theorem encodeRange_appends {r : RangeValue α} (hvalid : r.Valid)
    (happ : ∀ a, r.lower = some a ∨ r.upper = some a → AppendsTo enc a (f a)) :
    AppendsTo (encodeRange enc) r (rangeBytes f r) := by
  intro buf
  unfold encodeRange rangeBytes
  by_cases hempty : r.lowerType = .empty
  · simp [hempty]
  · have hupper : r.upperType ≠ .empty := fun h => hempty (hvalid.empty_iff.mpr h)
    simp [hempty, hupper, bind, Except.bind, pure, Except.pure,
      encodeBound_appends hempty hvalid.lower (fun a ha => happ a (.inl ha)),
      encodeBound_appends hupper hvalid.upper (fun a ha => happ a (.inr ha))]

def encodeMultirangeElement (enc : Encoder ε α) (elem : Option α) (buf : Bytes) :
    Checked (EncodeError ε) Bytes := do
  let elemBuf ← encodeOption enc elem (appendInt32 buf (-1))
  match elemBuf with
  | none => .error (.returned (.errorf "multirange cannot contain NULL element"))
  | some elemBuf => setLength elemBuf buf.length

def encodeMultirangeElements (enc : Encoder ε α) :
    List (Option α) → Bytes → Checked (EncodeError ε) Bytes
  | [], buf => .ok buf
  | elem :: elems, buf => do
    let buf ← encodeMultirangeElement enc elem buf
    encodeMultirangeElements enc elems buf

/-- `encodePlanMultirangeCodecBinary.Encode` for a multirange that is not NULL -/
def encodeMultirange (enc : Encoder ε α) : Encoder ε (List (Option α)) := fun elems buf =>
  some <$> encodeMultirangeElements enc elems (appendInt32 buf elems.length)

def multirangeBytes (elems : List (Option Bytes)) : Bytes :=
  bigEndian 4 (unsigned 32 elems.length) ++ elems.flatMap sizedWritten

theorem encodeMultirangeElements_appends :
    ∀ (elems : List (Option α)) (buf : Bytes), none ∉ elems →
    (∀ a, some a ∈ elems → AppendsTo enc a (f a)) →
      encodeMultirangeElements enc elems buf = .ok
        (buf ++ (elems.map (Option.map f)).flatMap sizedWritten)
  | [], buf, _, _ => by simp [encodeMultirangeElements]
  | none :: _, _, hnull, _ => absurd (.head _) hnull
  | some a :: elems, buf, hnull, happ => by
    have ih := encodeMultirangeElements_appends elems (buf ++ sizedWritten (some (f a)))
      (fun h => hnull (.tail _ h)) (fun a ha => happ a (.tail _ ha))
    simp only [encodeMultirangeElements, encodeMultirangeElement, encodeOption,
      happ a (.head _) _, bind, Except.bind, setLength_eq]
    simpa using ih

theorem encodeMultirange_appends {elems : List (Option α)} (hnull : none ∉ elems)
    (happ : ∀ a, some a ∈ elems → AppendsTo enc a (f a)) :
    AppendsTo (encodeMultirange enc) elems (multirangeBytes (elems.map (Option.map f))) := by
  intro buf
  unfold encodeMultirange
  rw [encodeMultirangeElements_appends elems _ hnull happ]
  simp [multirangeBytes, appendInt32, Functor.map, Except.map]

/-! ## Composites -/

structure CompositeBinaryBuilder (ε : Type) where
  buf : Bytes
  startIdx : Nat
  fieldCount : UInt32
  err : Option (EncodeError ε)

def newCompositeBinaryBuilder (buf : Bytes) : CompositeBinaryBuilder ε :=
    ⟨buf ++ [0, 0, 0, 0], buf.length, 0, none⟩

/-- The plan's error is kept for `Finish`. -/
def CompositeBinaryBuilder.appendEncoded (b : CompositeBinaryBuilder ε) (lengthPos : Nat) :
    Checked (EncodeError ε) (Option Bytes) → Checked (EncodeError ε) (CompositeBinaryBuilder ε)
  | .error .panic => .error .panic
  | .error (.returned err) => .ok { b with err := some err }
  | .ok none => .ok { b with fieldCount := b.fieldCount + 1 }
  | .ok (some fieldBuf) => do
    let fieldBuf ← setInt32 fieldBuf lengthPos ((fieldBuf.length : Int) - b.buf.length)
    pure { b with buf := fieldBuf, fieldCount := b.fieldCount + 1 }

/-- `CompositeBinaryBuilder.AppendValue` -/
def CompositeBinaryBuilder.appendValue (b : CompositeBinaryBuilder ε) (oid : UInt32)
    (enc : Encoder ε α) (field : Option α) : Checked (EncodeError ε) (CompositeBinaryBuilder ε) :=
  if b.err.isSome then .ok b
  else
    let buf := appendInt32 b.buf oid.toNat
    { b with buf := appendInt32 buf (-1) }.appendEncoded buf.length
      (encodeOption enc field (appendInt32 buf (-1)))

/-- `CompositeBinaryBuilder.Finish` -/
def CompositeBinaryBuilder.finish (b : CompositeBinaryBuilder ε) :
    Checked (EncodeError ε) (Option Bytes) :=
  match b.err with
  | some err => .error (.returned err)
  | none => some <$> setInt32 b.buf b.startIdx b.fieldCount.toNat

/-- The loop over the codec's fields; `getter.Index(i)` panics behind the last value. -/
def appendFields (values : List (Option α)) :
    (fields : List (UInt32 × Encoder ε α)) → (i : Nat) → CompositeBinaryBuilder ε →
      Checked (EncodeError ε) (CompositeBinaryBuilder ε)
  | [], _, b => .ok b
  | (oid, enc) :: fields, i, b =>
    match values[i]? with
    | none => .error .panic
    | some v => do
      let b ← b.appendValue oid enc v
      appendFields values fields (i + 1) b

/-- `encodePlanCompositeCodecCompositeIndexGetterToBinary.Encode` for a value that is not NULL -/
def encodeComposite (fields : List (UInt32 × Encoder ε α)) : Encoder ε (List (Option α)) :=
    fun values buf => do
  let b ← appendFields values fields 0 (newCompositeBinaryBuilder buf)
  b.finish

def fieldBytes (f : CompositeField) : Bytes := bigEndian 4 f.oid.toNat ++ sizedWritten f.bytes

def compositeBytes (fields : List CompositeField) : Bytes :=
  bigEndian 4 (UInt32.ofNat fields.length).toNat ++ fields.flatMap fieldBytes

/-- The field is NULL, or its encoder appends these bytes. -/
def FieldAppends (field : UInt32 × Encoder ε α) (v : Option α) (f : CompositeField) : Prop :=
  f.oid = field.1 ∧
    match v with
    | none => f.bytes = none
    | some a => ∃ bs, f.bytes = some bs ∧ AppendsTo field.2 a bs

theorem appendValue_eq {b : CompositeBinaryBuilder ε} (herr : b.err = none)
    {field : UInt32 × Encoder ε α} {v : Option α}
    {f : CompositeField} (h : FieldAppends field v f) :
    b.appendValue field.1 field.2 v = .ok
      { b with buf := b.buf ++ fieldBytes f, fieldCount := b.fieldCount + 1 } := by
  obtain ⟨hoid, hv⟩ := h
  have hoidBytes : unsigned 32 (field.1.toNat : Int) = f.oid.toNat := by
    rw [hoid, unsigned_natCast field.1.toNat_lt]
  unfold CompositeBinaryBuilder.appendValue
  simp only [herr, Option.isSome_none, Bool.false_eq_true, if_false]
  cases v with
  | none =>
    simp [encodeOption, CompositeBinaryBuilder.appendEncoded, fieldBytes, hv, sizedWritten,
      appendInt32, hoidBytes]
  | some a =>
    obtain ⟨bs, hbs, happ⟩ := hv
    have hpatch := setLength_eq (ε := ε) (appendInt32 b.buf field.1.toNat) bs
    have hlen : ((appendInt32 (appendInt32 b.buf field.1.toNat) (-1) ++ bs).length : Int) -
        (appendInt32 (appendInt32 b.buf field.1.toNat) (-1)).length =
          ((appendInt32 (appendInt32 b.buf field.1.toNat) (-1) ++ bs).length : Int) -
            (appendInt32 b.buf field.1.toNat).length - 4 := by
      simp only [appendInt32, length_append, bigEndian_length]
      push_cast
      omega
    unfold setLength at hpatch
    simp only [encodeOption, happ _, CompositeBinaryBuilder.appendEncoded, hlen, hpatch, bind,
      Except.bind, pure, Except.pure]
    simp [fieldBytes, hbs, appendInt32, hoidBytes]

theorem appendFields_eq {all : List (Option α)} :
    ∀ (fields : List (UInt32 × Encoder ε α)) (values : List (Option α))
      (fs : List CompositeField) (i : Nat)
      (b : CompositeBinaryBuilder ε), b.err = none → all.drop i = values →
        Forall₂ (fun fv f => FieldAppends fv.1 fv.2 f) (fields.zip values) fs →
        fields.length = values.length →
          appendFields all fields i b =
            .ok { b with
              buf := b.buf ++ fs.flatMap fieldBytes
              fieldCount := b.fieldCount + UInt32.ofNat fs.length }
  | [], [], [], i, b, _, _, _, _ => by simp [appendFields]
  | field :: fields, v :: values, f :: fs, i, b, herr, hdrop, .cons hf hfs, hlen => by
    have hget : all[i]? = some v := by
      rw [← head?_drop, hdrop]
      rfl
    have hnext : all.drop (i + 1) = values := by
      rw [← tail_drop, hdrop]
      rfl
    have ih := appendFields_eq fields values fs (i + 1)
      { b with buf := b.buf ++ fieldBytes f, fieldCount := b.fieldCount + 1 } herr hnext hfs
        (by simpa using hlen)
    have hcount : b.fieldCount + 1 + UInt32.ofNat fs.length = b.fieldCount +
        UInt32.ofNat (fs.length + 1) := by
      rw [UInt32.ofNat_add, UInt32.add_assoc, UInt32.add_comm (UInt32.ofNat fs.length)]
      rfl
    rw [appendFields, hget]
    simp only [appendValue_eq herr hf, bind, Except.bind, ih, hcount]
    simp

/-- A composite appends the number of its fields, and each field with its type. -/
theorem encodeComposite_appends {fields : List (UInt32 × Encoder ε α)} {values : List (Option α)}
    {fs : List CompositeField} (hlen : fields.length = values.length)
    (hfields : Forall₂ (fun fv f => FieldAppends fv.1 fv.2 f) (fields.zip values) fs) :
    AppendsTo (encodeComposite fields) values (compositeBytes fs) := by
  intro buf
  have hloop := appendFields_eq fields values fs 0
      (newCompositeBinaryBuilder buf) rfl rfl hfields hlen
  unfold encodeComposite
  rw [hloop]
  simp only [bind, Except.bind, CompositeBinaryBuilder.finish,
    newCompositeBinaryBuilder, append_assoc]
  rw [setInt32_eq buf _ rfl, unsigned_natCast (UInt32.toNat_lt _)]
  simp [compositeBytes, Functor.map, Except.map]

abbrev HstoreValue : Type := Finmap fun _ : Bytes => Option Bytes

def encodePair (buf : Bytes) (kv : Sigma fun _ : Bytes => Option Bytes) : Bytes :=
  match kv.2 with
  | none => appendInt32 (appendInt32 buf kv.1.length ++ kv.1) (-1)
  | some v => appendInt32 (appendInt32 buf kv.1.length ++ kv.1) v.length ++ v

/-- `encodePlanHstoreCodecBinary.Encode`: `range` goes through the map in some order. -/
def encodeHstore (order : HstoreValue → List (Sigma fun _ : Bytes => Option Bytes)) :
    Encoder ε HstoreValue := fun h buf =>
  .ok (some ((order h).foldl encodePair (appendInt32 buf (order h).length)))

def pairBytes (kv : Bytes × Option Bytes) : Bytes := sizedWritten (some kv.1) ++ sizedWritten kv.2

def hstoreBytes (pairs : List (Bytes × Option Bytes)) : Bytes :=
  bigEndian 4 (unsigned 32 pairs.length) ++ pairs.flatMap pairBytes

theorem encodePair_eq (buf : Bytes) (kv : Sigma fun _ : Bytes => Option Bytes) :
    encodePair buf kv = buf ++ pairBytes (kv.1, kv.2) := by
  obtain ⟨k, v⟩ := kv
  cases v <;> simp [encodePair, pairBytes, sizedWritten, appendInt32]

theorem encodeHstore_appends (order : HstoreValue → List (Sigma fun _ : Bytes => Option Bytes))
    (h : HstoreValue) :
    AppendsTo (encodeHstore order : Encoder ε HstoreValue) h
      (hstoreBytes ((order h).map fun kv => (kv.1, kv.2))) := by
  intro buf
  have hloop : ∀ (kvs : List (Sigma fun _ : Bytes => Option Bytes)) (buf : Bytes),
      kvs.foldl encodePair buf = buf ++ kvs.flatMap fun kv => pairBytes (kv.1, kv.2) := by
    intro kvs
    induction kvs with
    | nil => simp
    | cons kv kvs ih => simp [ih, encodePair_eq]
  simp [encodeHstore, hloop, hstoreBytes, appendInt32, flatMap_map]

end Encoders

end Pgx.Pgtype
