import Mathlib.Data.List.Sort
import Pgx.Go.Map
import Pgx.Wire.Messages

/-!
# Struct types and their columns

A struct type as `reflect` shows it to `rows.go`, and the functions there that find
a column for each of its fields. Structs that are embedded by value are expanded; the
guard against a type that embeds itself is left out, since no such type exists in Go.
-/
namespace Pgx.Rows

open Pgx.Go Pgx.Wire

/-- The functions of package strings by which names are compared. -/
structure Strings where
  toLower : Bytes → Bytes
  equalFold : Bytes → Bytes → Bool

inductive Kind where
  | ptr (toStruct : Bool)
  | interface
  | map
  | slice
  /-- With or without a field `Valid` of kind bool. -/
  | struct (validBool : Bool)
  | other
  deriving DecidableEq, Repr

namespace Kind

def isStruct : Kind → Bool
  | struct _ => true
  | _ => false

/-- `isNullableType` -/
def isNullableType : Kind → Bool
  | ptr _ => true
  | interface => true
  | map => true
  | slice => true
  | struct validBool => validBool
  | other => false

end Kind

/-- A field that is not a struct embedded by value. -/
structure Field where
  name : Bytes
  /-- Whether `PkgPath` is empty. -/
  exported : Bool
  anonymous : Bool
  /-- The value of the `db` tag. -/
  dbTag : Option Bytes
  kind : Kind
  /-- Whether a pointer to the field is a `RowScanner`. -/
  rowScanner : Bool
  notEmbedded : (anonymous && kind.isStruct) = false
  deriving DecidableEq

/-- The fields of a struct type in order; an embedded struct has the name of its type, and may
have a `db` tag, which the functions below do not read. -/
inductive Struct where
  | nil
  | field (f : Field) (rest : Struct)
  | embedded (name : Bytes) (dbTag : Option Bytes) (sub rest : Struct)

/-- `strings.ReplaceAll(s, "_", "")` -/
def withoutUnderscores (s : Bytes) : Bytes := s.filter (· ≠ 95)

/-- The `db` tag up to its first comma. -/
def tagName (dbTag : Option Bytes) : Option Bytes := dbTag.map fun t => t.takeWhile (· ≠ comma)

namespace Field

def tag (f : Field) : Option Bytes := tagName f.dbTag

def ignored (f : Field) : Bool := f.tag == some (ascii "-")

def colName (f : Field) : Bytes := f.tag.getD f.name

/-- Underscores count only in a name given by a tag. -/
def normalize (f : Field) : Bool := f.tag.isNone

def isAnonymousStruct (f : Field) : Bool := f.anonymous && f.kind == .ptr true

/-- An unexported field, unless it is embedded, is skipped. -/
def skipped (f : Field) : Bool := !f.exported && !f.anonymous

end Field

/-! ## RowsToStructs -/

def fieldPosByNameCaseInsensitive (S : Strings) (fldDescs : List FieldDescription) (field : Bytes)
    (normalize : Bool) : Option Nat :=
  let field := if normalize then withoutUnderscores field else field
  let fieldLower := S.toLower field
  fldDescs.findIdx? fun desc =>
    S.toLower (if normalize then withoutUnderscores desc.name else desc.name) == fieldLower

/-- `strictStructRowField`; the position -1 is `none`. -/
structure StrictStructRowField where
  path : List Nat
  columnIndex : Option Nat
  field : Field
  deriving DecidableEq

namespace StrictStructRowField

def nullable (sf : StrictStructRowField) : Bool := sf.field.kind.isNullableType

def column (sf : StrictStructRowField) : Nat := sf.columnIndex.getD 0

def depth (sf : StrictStructRowField) : Nat := sf.path.length

end StrictStructRowField

section Strict

variable (S : Strings) (fldDescs : List FieldDescription)

def fieldKey (f : Field) : Bytes :=
  if f.normalize then S.toLower (withoutUnderscores f.colName) else S.toLower f.colName

/-- What a field of a struct writes to the map, if anything. -/
def write (path : List Nat) (f : Field) : List (Bytes × StrictStructRowField) :=
  if f.skipped || f.isAnonymousStruct || f.ignored then []
  else
    [(fieldKey S f,
      { path := path, field := f,
        columnIndex := fieldPosByNameCaseInsensitive S fldDescs f.colName f.normalize })]

/-- What the second loop over a struct's fields writes, from the `i`-th field on. -/
def ownWrites (stack : List Nat) (i : Nat) : Struct → List (Bytes × StrictStructRowField)
  | .nil => []
  | .field f rest => write S fldDescs (stack ++ [i]) f ++ ownWrites stack (i + 1) rest
  | .embedded _ _ _ rest => ownWrites stack (i + 1) rest

/-- What the first loop, over the embedded structs, writes: each struct its embedded ones first. -/
def embeddedWrites (stack : List Nat) (i : Nat) : Struct → List (Bytes × StrictStructRowField)
  | .nil => []
  | .field _ rest => embeddedWrites stack (i + 1) rest
  | .embedded _ _ sub rest =>
    (embeddedWrites (stack ++ [i]) 0 sub ++ ownWrites S fldDescs (stack ++ [i]) 0 sub) ++
      embeddedWrites stack (i + 1) rest

/-- All writes to `fieldsByName`, in order. -/
def writes (t : Struct) : List (Bytes × StrictStructRowField) :=
  embeddedWrites S fldDescs [] 0 t ++ ownWrites S fldDescs [] 0 t

def fieldsByName (t : Struct) : Map Bytes StrictStructRowField :=
  (writes S fldDescs t).foldl (fun m w => m.insert w.1 w.2) ∅

end Strict

/-- The part of a struct at an index: a field, or an embedded struct with its name. -/
def Struct.at : Struct → Nat → Option (Field ⊕ (Bytes × Struct))
  | .nil, _ => none
  | .field f _, 0 => some (.inl f)
  | .embedded name _ sub _, 0 => some (.inr (name, sub))
  | .field _ rest, i + 1 => rest.at i
  | .embedded _ _ _ rest, i + 1 => rest.at i

/-- `fieldNameFromPath`, before the parts are joined by dots. -/
def fieldNameFromPath : List Nat → Struct → List Bytes
  | [], _ => []
  | i :: path, t =>
    match t.at i with
    | some (.inr (name, sub)) => name :: fieldNameFromPath path sub
    | some (.inl f) => [f.name]
    | none => []

/-- `struct field %s has no corresponding column in result set (expected column %q)` -/
structure NoColumnError where
  fieldName : Bytes
  expected : List Bytes
  deriving DecidableEq, Repr

/-- The loop over the map: one field for each column. -/
def oneForEachColumn (t : Struct) (seenColumns : List Nat) (result : List StrictStructRowField) :
    List StrictStructRowField → Except NoColumnError (List StrictStructRowField)
  | [] => .ok result
  | sf :: rest =>
    match sf.columnIndex with
    | none => .error { fieldName := sf.field.name, expected := fieldNameFromPath sf.path t }
    | some c =>
      if c ∈ seenColumns then oneForEachColumn t seenColumns result rest
      else oneForEachColumn t (c :: seenColumns) (result ++ [sf]) rest

/-- `sort.Slice` by column index. -/
def sortByColumn (result : List StrictStructRowField) : List StrictStructRowField :=
  result.insertionSort fun a b => a.column ≤ b.column

/-- The mapping for a struct type, with the order in which the map is ranged over. -/
def computeStrictNamedStructFields (S : Strings) (ord : RangeOrder)
    (fldDescs : List FieldDescription) (t : Struct) :
    Except NoColumnError (List StrictStructRowField) :=
  match oneForEachColumn t [] [] ((ord.order (fieldsByName S fldDescs t).entries).map Sigma.snd) with
  | .error e => .error e
  | .ok result => .ok (sortByColumn result)

def fieldPosByName (S : Strings) (fldDescs : List FieldDescription) (field : Bytes)
    (normalize : Bool) : Option Nat :=
  let field := if normalize then withoutUnderscores field else field
  fldDescs.findIdx? fun desc =>
    if normalize then S.equalFold (withoutUnderscores desc.name) field else desc.name == field

/-- A field that is not ignored, with its place in the struct. -/
structure NamedField where
  path : List Nat
  field : Field
  deriving DecidableEq

/-- The fields that `computeNamedStructFields` looks up, in the order it visits them. -/
def namedFields (stack : List Nat) (i : Nat) : Struct → List NamedField
  | .nil => []
  | .field f rest =>
    (if f.skipped || f.ignored then [] else [{ path := stack ++ [i], field := f }]) ++
      namedFields stack (i + 1) rest
  | .embedded _ _ sub rest => namedFields (stack ++ [i]) 0 sub ++ namedFields stack (i + 1) rest

/-- The state of the walk: a place for each column, and the first missing field. -/
structure NamedStructFields where
  fields : List (Option NamedField)
  missingField : Bytes
  deriving DecidableEq

def NamedStructFields.visit (S : Strings) (fldDescs : List FieldDescription) (st : NamedStructFields)
    (nf : NamedField) : NamedStructFields :=
  match fieldPosByName S fldDescs nf.field.colName nf.field.normalize with
  | none => if st.missingField = [] then { st with missingField := nf.field.colName } else st
  | some fpos => { st with fields := st.fields.set fpos (some nf) }

def computeNamedStructFields (S : Strings) (fldDescs : List FieldDescription) (t : Struct) :
    NamedStructFields :=
  (namedFields [] 0 t).foldl (.visit S fldDescs)
    { fields := fldDescs.map fun _ => none, missingField := [] }

end Pgx.Rows
