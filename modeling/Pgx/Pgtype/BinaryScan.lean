import Pgx.Go.Cursor
import Pgx.Go.Map
import Pgx.Go.Platform

/-!
# Scanning containers in binary

Ranges, multiranges, hstores, text search vectors, composites, records and label trees. The bytes
come from the server. How an element or a field is scanned is a parameter. So is `make`: with
`makeAtMost` a scanner that makes more elements than its input has bytes counts as one that panics.
-/
namespace Pgx.Pgtype

open Pgx.Go Pgx.Go.Cursor

inductive ScanError (ε : Type) where
  | errorf (format : String) (args : List Int)
  /-- "failed to scan multirange element %d: %w" -/
  | element (i : Nat) (err : ε)
  /-- "cannot scan into %v from range element: %w" -/
  | bound (err : ε)
  /-- The error of a field's scan plan, as it is -/
  | field (err : ε)
  deriving DecidableEq

abbrev Make (ε : Type) : Type := Int → Cursor (ScanError ε) Unit

section Scanners

variable {ε α : Type}

/-! ## Ranges -/

inductive BoundType where
  | inclusive
  | exclusive
  | unbounded
  | empty
  deriving DecidableEq

structure UntypedBinaryRange where
  lower : Option Bytes
  upper : Option Bytes
  lowerType : BoundType
  upperType : BoundType

def noTrailing (format : String) : Cursor (ScanError ε) Unit := do
  let b ← rest
  failIf (0 < b.length) (.errorf format [b.length])

/-- The bytes of a bound. The length is an `int` made from 32 bits without a sign. -/
def rangeValue (p : Platform) (format : String) : Cursor (ScanError ε) Bytes := do
  require 4 (.errorf "too few bytes for size: %v" [])
  let n ← uint 4
  let b ← rest
  failIf (p.int n < 0 ∨ (b.length : Int) < p.int n) (.errorf format [p.int n, b.length])
  let val ← slice (p.int n).toNat
  advance (p.int n).toNat
  pure val

def lowerTypeOf (rangeType : UInt8) : BoundType :=
  if rangeType &&& 2 > 0 then .inclusive else if rangeType &&& 8 > 0 then .unbounded else .exclusive

def upperTypeOf (rangeType : UInt8) : BoundType :=
  if rangeType &&& 4 > 0 then .inclusive else if rangeType &&& 16 > 0 then .unbounded else .exclusive

def rangeUpper (p : Platform) (lower : Bytes) (lowerType upperType : BoundType) :
    Cursor (ScanError ε) UntypedBinaryRange :=
  if upperType ≠ .unbounded then do
    let upper ← rangeValue p "range upper bound length %d exceeds remaining %d bytes"
    noTrailing "unexpected trailing bytes parsing range: %v"
    pure ⟨some lower, some upper, lowerType, upperType⟩
  else do
    noTrailing "unexpected trailing bytes parsing range: %v"
    pure ⟨some lower, none, lowerType, upperType⟩

def rangeBounds (p : Platform) (lowerType upperType : BoundType) :
    Cursor (ScanError ε) UntypedBinaryRange :=
  if lowerType = .unbounded ∧ upperType = .unbounded then do
    noTrailing "unexpected trailing bytes parsing unbounded range: %v"
    pure ⟨none, none, lowerType, upperType⟩
  else do
    let val ← rangeValue p "range lower bound length %d exceeds remaining %d bytes"
    if lowerType ≠ .unbounded then rangeUpper p val lowerType upperType
    else do
      noTrailing "unexpected trailing bytes parsing range: %v"
      pure ⟨none, some val, lowerType, upperType⟩

def parseUntypedBinaryRange (p : Platform) : Cursor (ScanError ε) UntypedBinaryRange := do
  let src ← rest
  failIf (src.length = 0) (.errorf "range too short: %v" [src.length])
  let rangeType ← index src 0
  advance 1
  if rangeType &&& 1 > 0 then do
    noTrailing "unexpected trailing bytes parsing empty range: %v"
    pure ⟨none, none, .empty, .empty⟩
  else rangeBounds p (lowerTypeOf rangeType) (upperTypeOf rangeType)

/-- `Range[T]`; a bound that was not set is `none`. -/
structure RangeValue (α : Type) where
  lower : Option α
  upper : Option α
  lowerType : BoundType
  upperType : BoundType
  deriving DecidableEq

def scanBound (scan : Option Bytes → Checked ε α) (boundType : BoundType) (b : Option Bytes) :
    Cursor (ScanError ε) (Option α) :=
  if boundType = .inclusive ∨ boundType = .exclusive then some <$> lift .bound (scan b) else pure none

/-- `scanPlanBinaryRangeToRangeScanner.Scan` -/
def scanRange (p : Platform) (scan : Option Bytes → Checked ε α) :
    Cursor (ScanError ε) (RangeValue α) := do
  let ubr ← parseUntypedBinaryRange p
  if ubr.lowerType = .empty then pure ⟨none, none, ubr.lowerType, ubr.upperType⟩
  else do
    let lower ← scanBound scan ubr.lowerType ubr.lower
    let upper ← scanBound scan ubr.upperType ubr.upper
    pure ⟨lower, upper, ubr.lowerType, ubr.upperType⟩

def multirangeBody (i : Nat) : Cursor (ScanError ε) (Option Bytes) := do
  require 4 (.errorf "multirange body truncated at element %d" [i])
  sizedField fun elemLen remaining =>
    .errorf "multirange element %d length %d exceeds remaining %d bytes" [i, elemLen, remaining]

def multirangeElement (scan : Option Bytes → Checked ε α) (i : Nat) : Cursor (ScanError ε) α := do
  let elemSrc ← multirangeBody i
  lift (.element i) (scan elemSrc)

/-- `for i := range elementCount`; `multirange.ScanIndex(i)` is in range of what `SetLen` has made.
-/
def multirangeElements (scan : Option Bytes → Checked ε α) :
    (count i : Nat) → Cursor (ScanError ε) (List α)
  | 0, _ => pure []
  | count + 1, i => do
    let a ← multirangeElement scan i
    let as ← multirangeElements scan count (i + 1)
    pure (a :: as)

/-- `MultirangeCodec.decodeBinary`: the count is read without looking at the length. -/
def scanMultirange (p : Platform) (mk : Make ε) (scan : Option Bytes → Checked ε α) :
    Cursor (ScanError ε) (List α) := do
  let src ← rest
  let n ← uint 4
  failIf ((src.length / 4 : Nat) < p.int n)
    (.errorf "multirange element count %d exceeds available data" [p.int n])
  mk (p.int n)
  multirangeElements scan (p.int n).toNat 0

def hstoreKey : Cursor (ScanError ε) Bytes := do
  require 4 (.errorf "hstore incomplete %v" [])
  let keyLen ← int32
  failIf (keyLen.toInt < 0) (.errorf "hstore invalid key length: %d" [keyLen.toInt])
  require keyLen.toInt.toNat (.errorf "hstore incomplete %v" [])
  let key ← slice keyLen.toInt.toNat
  advance keyLen.toInt.toNat
  pure key

def hstorePair : Cursor (ScanError ε) (Bytes × Option Bytes) := do
  let key ← hstoreKey
  require 4 (.errorf "hstore incomplete %v" [])
  let value ← sizedField fun _ _ => .errorf "hstore incomplete %v" []
  pure (key, value)

abbrev Hstore : Type := Go.Map Bytes (Option Bytes)

def hstoreOf (pairs : List (Bytes × Option Bytes)) : Hstore :=
    pairs.foldl (fun m w => AList.insert w.1 w.2 m) ∅

/-- `scanPlanBinaryHstoreToHstoreScanner.Scan`; the strings of the values are made at once. -/
def scanHstore (mk : Make ε) : Cursor (ScanError ε) Hstore := do
  require 4 (.errorf "hstore incomplete %v" [])
  let pairCount ← int32
  failIf (pairCount.toInt < 0) (.errorf "hstore invalid pair count: %d" [pairCount.toInt])
  let b ← rest
  failIf ((b.length / 8 : Nat) < pairCount.toInt)
    (.errorf "hstore invalid pair count %d for %d remaining bytes" [pairCount.toInt, b.length])
  mk pairCount.toInt
  mk pairCount.toInt
  let pairs ← fill pairCount.toInt.toNat hstorePair pairCount.toInt.toNat 0
  pure (hstoreOf pairs)

inductive TSVectorWeight where
  | a
  | b
  | c
  | d
  deriving DecidableEq

def tsvectorWeightFromBinary (b : UInt16) : TSVectorWeight :=
  if b = 3 then .a else if b = 2 then .b else if b = 1 then .c else .d

structure TSVectorPosition where
  position : UInt16
  weight : TSVectorWeight
  deriving DecidableEq

structure TSVectorLexeme where
  word : Bytes
  positions : List TSVectorPosition
  deriving DecidableEq

def tsvectorPosition : Cursor (ScanError ε) TSVectorPosition := do
  let packed ← uint16
  pure ⟨packed &&& 0x3FFF, tsvectorWeightFromBinary (packed >>> 14)⟩

def tsvectorWord : Cursor (ScanError ε) Bytes := do
  let b ← rest
  match indexByte 0 b with
  | none => fail (.errorf "invalid tsvector binary format: missing null terminator" [])
  | some nullIndex => do
    let word ← slice nullIndex
    advance (nullIndex + 1)
    pure word

def tsvectorLexeme (mk : Make ε) : Cursor (ScanError ε) TSVectorLexeme := do
  let word ← tsvectorWord
  require 2 (.errorf "invalid tsvector binary format: incomplete position count" [])
  let numPositions ← uint 2
  require (numPositions * 2) (.errorf "invalid tsvector binary format: incomplete positions" [])
  mk numPositions
  let positions ← fill numPositions tsvectorPosition numPositions 0
  pure ⟨word, positions⟩

/-- `scanPlanBinaryTSVectorToTSVectorScanner.Scan` -/
def scanTSVector (mk : Make ε) : Cursor (ScanError ε) (List TSVectorLexeme) := do
  require 4 (.errorf "tsvector incomplete %v" [])
  let entryCount ← int32
  failIf (entryCount.toInt < 0) (.errorf "tsvector invalid lexeme count: %d" [entryCount.toInt])
  let b ← rest
  failIf ((b.length / 3 : Nat) < entryCount.toInt)
    (.errorf "tsvector invalid lexeme count %d for %d remaining bytes" [entryCount.toInt, b.length])
  mk entryCount.toInt
  fill entryCount.toInt.toNat (tsvectorLexeme mk) entryCount.toInt.toNat 0

/-! ## Composites and records -/

structure CompositeField where
  oid : UInt32
  bytes : Option Bytes
  deriving DecidableEq

/-- What `Next` finds: a field, the end, or an error that `Err` gives -/
inductive NextField (ε : Type) where
  | field (f : CompositeField)
  | atEnd
  | failed (err : ScanError ε)

def nextFieldBody : Cursor Empty (NextField ε) := do
  let oid ← uint32
  let fieldLen ← int32
  let b ← rest
  if fieldLen.toInt < 0 then pure (.field ⟨oid, none⟩)
  else if (b.length : Int) < fieldLen.toInt then pure (.failed (.errorf "Record incomplete rp=%d src=%v" []))
  else do
    let fieldBytes ← slice fieldLen.toInt.toNat
    advance fieldLen.toInt.toNat
    pure (.field ⟨oid, some fieldBytes⟩)

/-- `CompositeBinaryScanner.Next` -/
def nextField : Cursor Empty (NextField ε) := do
  let b ← rest
  if b = [] then pure .atEnd
  else if b.length < 8 then pure (.failed (.errorf "Record incomplete %v" []))
  else nextFieldBody

theorem wp_nextField (src : Bytes) :
    wp (nextField : Cursor Empty (NextField ε))
      (fun r left => ∀ f, r = .field f → left.length + 8 ≤ src.length) src := by
  simp only [nextField, nextFieldBody, int32, uint32, wp_bind, wp_rest, wp_ite, wp_pure, wp_map,
    wp_uint, wp_slice, wp_advance, List.length_drop, List.drop_drop, reduceCtorEq, false_imp_iff,
    implies_true, true_and, NextField.field.injEq]
  intro _ hlen
  refine ⟨by omega, by omega, fun _ _ _ => by omega, fun hneg hle => ?_⟩
  exact ⟨by omega, by omega, fun _ _ => by omega⟩

/-- The fields that `Next` goes through, and the error that it stops at -/
def readFields (src : Bytes) : Checked Empty (List CompositeField × Option (ScanError ε)) :=
  match _h : nextField src with
  | .error e => .error e
  | .ok (.atEnd, _) => .ok ([], none)
  | .ok (.failed err, _) => .ok ([], some err)
  | .ok (.field f, left) =>
    match readFields left with
    | .error e => .error e
    | .ok (fs, err) => .ok (f :: fs, err)
termination_by src.length
decreasing_by
  have := of_wp (wp_nextField _) _h _ rfl
  omega

theorem readFields_noPanic (src : Bytes) :
    NoPanic (readFields src : Checked Empty (List CompositeField × Option (ScanError ε))) := by
  fun_induction readFields (ε := ε) src with
  | case1 src e he =>
    have hnp := noPanic_of_wp (wp_nextField (ε := ε) src)
    rw [he] at hnp
    exact fun h => hnp (by cases h; rfl)
  | case2 => exact noPanic_ok _
  | case3 => exact noPanic_ok _
  | case4 src f left hf e he ih =>
    rw [he] at ih
    exact fun h => ih (by cases h; rfl)
  | case5 => exact noPanic_ok _

/-- The scanner that `NewCompositeBinaryScanner` gives, with what `Next` will find -/
structure CompositeScan (ε : Type) where
  fieldCount : Int
  fields : List CompositeField
  err : Option (ScanError ε)

def newCompositeBinaryScanner (src : Bytes) : Checked Empty (CompositeScan ε) :=
  if src.length < 4 then .ok ⟨0, [], some (.errorf "Record incomplete %v" [])⟩
  else (fun r => ⟨signed 32 (fromBigEndian (src.take 4)), r.1, r.2⟩) <$> readFields (src.drop 4)

def openComposite : Cursor (ScanError ε) (CompositeScan ε) := do
  let src ← rest
  lift Empty.elim (newCompositeBinaryScanner src)

inductive CompositeTarget where
  /-- `CompositeFields` of this length -/
  | compositeFields (len : Nat)
  /-- A pointer to a struct: a field it does not have is an error of the scan plan. -/
  | pointer
  deriving DecidableEq

def CompositeTarget.Has : CompositeTarget → Nat → Prop
  | .compositeFields len, i => i < len
  | .pointer, _ => True

instance (t : CompositeTarget) (i : Nat) : Decidable (t.Has i) := by
  cases t <;> unfold CompositeTarget.Has <;> infer_instance

def CompositeTarget.scanIndex (t : CompositeTarget) (i : Nat) : Cursor (ScanError ε) Unit :=
  if t.Has i then pure () else panic

/-- The plan for the target's field, or for the OID, and its `Scan` -/
abbrev ScanField (ε α : Type) : Type := (i : Nat) → (oid : UInt32) → Option Bytes → Checked ε α

def scanCompositeFields (t : CompositeTarget) (scan : ScanField ε α) :
    (count i : Nat) → List CompositeField → Cursor (ScanError ε) (List α)
  | 0, _, _ => pure []
  | _ + 1, _, [] => fail (.errorf "read past end of composite" [])
  | count + 1, i, f :: fs => do
    t.scanIndex i
    let a ← lift .field (scan i f.oid f.bytes)
    let as ← scanCompositeFields t scan count (i + 1) fs
    pure (a :: as)

/-- `scanPlanBinaryCompositeToCompositeIndexScanner.Scan` for a codec with this many fields -/
def scanComposite (count : Nat) (t : CompositeTarget) (scan : ScanField ε α) :
    Cursor (ScanError ε) (List α) := do
  let src ← rest
  let scanner ← openComposite
  let as ← scanCompositeFields t scan count 0 scanner.fields
  -- Every `Next` found a field, so that `Err` gives what the constructor found.
  failIf (src.length < 4) (.errorf "Record incomplete %v" [])
  pure as

def errOrNil (err : Option (ScanError ε)) : Cursor (ScanError ε) (List α) :=
  match err with
  | some err => fail err
  | none => pure []

def scanRecordFields (t : CompositeTarget) (scan : ScanField ε α) (err : Option (ScanError ε)) :
    (i : Nat) → List CompositeField → Cursor (ScanError ε) (List α)
  | _, [] => errOrNil err
  | i, f :: fs => do
    t.scanIndex i
    let a ← lift .field (scan i f.oid f.bytes)
    let as ← scanRecordFields t scan err (i + 1) fs
    pure (a :: as)

/-- `scanPlanBinaryRecordToCompositeIndexScanner.Scan` -/
def scanRecord (t : CompositeTarget) (scan : ScanField ε α) : Cursor (ScanError ε) (List α) := do
  let scanner ← openComposite
  scanRecordFields t scan scanner.err 0 scanner.fields

/-- `values[i] = v` comes after the field was scanned. -/
def decodeRecordFields (len : Nat) (scan : ScanField ε α) (err : Option (ScanError ε)) :
    (i : Nat) → List CompositeField → Cursor (ScanError ε) (List α)
  | _, [] => errOrNil err
  | i, f :: fs => do
    let a ← lift .field (scan i f.oid f.bytes)
    (CompositeTarget.compositeFields len).scanIndex i
    let as ← decodeRecordFields len scan err (i + 1) fs
    pure (a :: as)

/-- `RecordCodec.DecodeValue` -/
def decodeRecord (mk : Make ε) (scan : ScanField ε α) : Cursor (ScanError ε) (List α) := do
  let scanner ← openComposite
  mk scanner.fieldCount
  decodeRecordFields scanner.fieldCount.toNat scan scanner.err 0 scanner.fields

/-- `scanPlanBinaryLtreeToString.Scan`, and the one for a `TextScanner`: nil is indexed like an
empty slice. -/
def scanLtree (src : Option Bytes) : Checked (ScanError ε) Bytes :=
  match src.getD [] with
  | [] => .error .panic
  | version :: rest =>
    if version ≠ 1 then .error
      (.returned (.errorf "unsupported ltree version %d" [version.toNat])) else .ok rest

inductive BinaryScanner where
  | multirange
  | range
  | hstore
  | tsvector
  | composite (count : Nat) (t : CompositeTarget)
  | record (t : CompositeTarget)
  | recordValue
  | ltree
  deriving DecidableEq

/-- `ScanNull`, or the scan function that is called with nil -/
def returnsOnly {β : Type} (x : Checked (ScanError ε) β) : Checked (ScanError ε) Unit :=
    (fun _ => ()) <$> x

/-- The scanner's `Scan`; NULL is nil, which every scanner but the one for label trees tests first.
-/
def BinaryScanner.run (p : Platform) (mk : Make ε) (scan : ScanField ε α) :
    BinaryScanner → Option Bytes → Checked (ScanError ε) Unit
  | .ltree, src => returnsOnly (scanLtree src)
  | _, none => .ok ()
  | .multirange, some src => returnsOnly (scanMultirange p mk (scan 0 0) src)
  | .range, some src => returnsOnly (scanRange p (scan 0 0) src)
  | .hstore, some src => returnsOnly (scanHstore mk src)
  | .tsvector, some src => returnsOnly (scanTSVector mk src)
  | .composite count t, some src => returnsOnly (scanComposite count t scan src)
  | .record t, some src => returnsOnly (scanRecord t scan src)
  | .recordValue, some src => returnsOnly (decodeRecord mk scan src)

end Scanners

end Pgx.Pgtype
