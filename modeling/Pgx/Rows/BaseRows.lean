import Pgx.Rows.StructType

/-!
# Rows

`baseRows`, the rows that `Conn.Query` and `BatchResults.Query` return, and the functions that
scan them into structs. What a scan plan makes of a value, and what the `ScanRow` of a
field's own type does, are parameters.
-/
namespace Pgx.Rows

open Pgx.Go Pgx.Wire

/-- The values of a row; NULL is `none`. -/
abbrev Row := List (Option Bytes)

structure Scanner (V : Type) where
  /-- The plan for a column and a target of the field's type, and its `Scan`. -/
  scan : FieldDescription → Field → Option Bytes → Except Error V
  /-- The `ScanRow` of a field whose pointer is a `RowScanner`. -/
  scanRow : List FieldDescription → Row → Field → Except Error V

inductive RowsError where
  | query (err : Error)
  /-- `number of field descriptions must equal number of values, got %d and %d` -/
  | values (fieldDescriptions values : Nat)
  /-- `number of field descriptions must equal number of destinations, got %d and %d` -/
  | destinations (fieldDescriptions dest : Nat)
  | rowScanner (err : Error)
  | scanArg (columnIndex : Nat) (fieldName : Bytes) (err : Error)
  deriving DecidableEq

/-- What a result reader still gives: its rows, and the error of its `Close`. -/
structure ResultStream where
  fieldDescriptions : List FieldDescription
  rows : List Row
  closeErr : Option Error

structure BaseRows where
  resultReader : Option ResultStream
  /-- The error of closing the `MultiResultReader`, if there is one. -/
  multiResultReader : Option (Option Error)
  values : Row
  err : Option RowsError
  closed : Bool

/-- `errRows` of pgxpool, for a pool that gave no connection: to its callers it is closed rows
without a column. -/
def errRows (err : Error) : BaseRows where
  resultReader := some { fieldDescriptions := [], rows := [], closeErr := none }
  multiResultReader := none
  values := []
  err := some (.query err)
  closed := true

namespace BaseRows

/-- The first error that closing the readers gives. -/
def closeErr (rows : BaseRows) : Option RowsError :=
  ((rows.resultReader.bind ResultStream.closeErr).or rows.multiResultReader.join).map .query

def close (rows : BaseRows) : BaseRows :=
  if rows.closed then rows
  else { rows with closed := true, values := [], err := rows.err.or rows.closeErr }

def fatal (rows : BaseRows) (err : RowsError) : BaseRows :=
  match rows.err with
  | some _ => rows
  | none => { rows with err := some err }.close

/-- `Next` when there is a row. -/
def advance (rows : BaseRows) (row : Row) (pending : List Row) : BaseRows :=
  { rows with
    resultReader := rows.resultReader.map fun rr => { rr with rows := pending }
    values := row }

@[simp] theorem close_closed (rows : BaseRows) : rows.close.closed = true := by
  rw [close]
  split
  · assumption
  · rfl

@[simp] theorem advance_close_err (rows : BaseRows) (row : Row) (pending : List Row) :
    (rows.advance row pending).close.err = rows.close.err := by
  have h : (rows.advance row pending).closeErr = rows.closeErr := by
    cases hr : rows.resultReader with
    | none => simp [closeErr, advance, hr]
    | some rr => simp [closeErr, advance, hr]
  cases hc : rows.closed with
  | true => simp [close, hc, advance]
  | false =>
    simp_all [close, advance]

end BaseRows

section Scan

variable {V : Type} (env : Scanner V)

/-- The loop over the destinations, from the `i`-th on. -/
def scanAll (i : Nat) : List FieldDescription → Row → List NamedField →
    Except RowsError (List (List Nat × V))
  | fd :: fds, v :: vs, d :: ds =>
    match env.scan fd d.field v with
    | .error e => .error (.scanArg i fd.name e)
    | .ok x =>
      match scanAll (i + 1) fds vs ds with
      | .error e => .error e
      | .ok s => .ok ((d.path, x) :: s)
  | _, _, _ => .ok []

/-- A single destination that is a `RowScanner`. -/
def soleRowScanner : List NamedField → Option NamedField
  | [d] => if d.field.rowScanner then some d else none
  | _ => none

/-- `baseRows.Scan` into fields of a struct: the value of each field that was set. -/
def scan (fldDescs : List FieldDescription) (values : Row) (dest : List NamedField) :
    Except RowsError (List (List Nat × V)) :=
  if fldDescs.length ≠ values.length then .error (.values fldDescs.length values.length)
  else
    match soleRowScanner dest with
    | some d =>
      match env.scanRow fldDescs values d.field with
      | .error e => .error (.rowScanner e)
      | .ok x => .ok [(d.path, x)]
    | none =>
      if fldDescs.length ≠ dest.length then .error (.destinations fldDescs.length dest.length)
      else scanAll env 0 fldDescs values dest

end Scan

/-- The type parameter of `RowsToStructs`, by the kind of its zero value's type. -/
inductive TypeParam where
  | struct (t : Struct)
  /-- The zero value is nil and has no `reflect.Type`. -/
  | interface
  | other (kind : Bytes)

inductive StructsError where
  /-- `RowsToStructs: T must be a struct, got %s` -/
  | notStruct (kind : Bytes)
  | noColumn (err : NoColumnError)
  /-- `RowsToStructs: cannot scan NULL into non-nullable field %s (type %s); column: %s` -/
  | null (field : Field) (column : Option Bytes)
  | rows (err : RowsError)
  deriving DecidableEq

/-- Reported for a row, not for the query or the mapping. -/
def StructsError.ofRow : StructsError → Bool
  | notStruct _ => false
  | noColumn _ => false
  | null _ _ => true
  | rows (.query _) => false
  | rows _ => true

inductive RowOutcome (V : Type) where
  | panic
  | null (field : Field) (column : Option Bytes)
  | failed (err : RowsError)
  | scanned (value : List (List Nat × V))

/-- How `RowsToStructs` ends, with the rows as its deferred `Close` leaves them. -/
inductive StructsOutcome (V : Type) where
  | panic (rows : BaseRows)
  | returned (result : List (List (List Nat × V))) (err : Option StructsError) (rows : BaseRows)

namespace StrictStructRowField

def target (sf : StrictStructRowField) : NamedField := { path := sf.path, field := sf.field }

/-- `Addr().Interface()` panics for a field that is not exported. -/
def settable (sf : StrictStructRowField) : Bool := sf.field.exported

end StrictStructRowField

section Structs

variable {V : Type} (env : Scanner V)

/-- The loop that looks for NULL; an index that is out of range panics. -/
def checkNulls (fldDescs : List FieldDescription) (rawValues : Row) :
    List StrictStructRowField → Option (RowOutcome V)
  | [] => none
  | sf :: rest =>
    match sf.columnIndex with
    | none => checkNulls fldDescs rawValues rest
    | some c =>
      match rawValues[c]? with
      | none => some .panic
      | some none =>
        if sf.nullable then checkNulls fldDescs rawValues rest
        else some (.null sf.field (fldDescs[c]?.map FieldDescription.name))
      | some (some _) => checkNulls fldDescs rawValues rest

def structRow (fldDescs : List FieldDescription) (fields : List StrictStructRowField)
    (values : Row) : RowOutcome V :=
  if fields.all StrictStructRowField.settable then
    match checkNulls fldDescs values fields with
    | some outcome => outcome
    | none =>
      match scan env fldDescs values (fields.map StrictStructRowField.target) with
      | .error e => .failed e
      | .ok value => .scanned value
  else .panic

def structsLoop (fldDescs : List FieldDescription) (fields : List StrictStructRowField)
    (rows : BaseRows) (result : List (List (List Nat × V))) : List Row → StructsOutcome V
  | [] => .returned result (rows.close.err.map .rows) rows.close
  | row :: pending =>
    match structRow env fldDescs fields row with
    | .panic => .panic (rows.advance row pending).close
    | .null field column =>
      .returned result (some (.null field column)) (rows.advance row pending).close
    | .failed e => .returned result (some (.rows e)) ((rows.advance row pending).fatal e).close
    | .scanned value =>
      structsLoop fldDescs fields (rows.advance row pending) (result ++ [value]) pending

/-- `RowsToStructs` -/
def rowsToStructs (S : Strings) (ord : RangeOrder) (T : TypeParam) (rows : BaseRows) :
    StructsOutcome V :=
  match T with
  | .interface => .panic rows.close
  | .other kind => .returned [] (some (.notStruct kind)) rows.close
  | .struct t =>
    match rows.resultReader with
    -- `FieldDescriptions` dereferences the reader.
    | none => .panic rows.close
    | some reader =>
      match computeStrictNamedStructFields S ord reader.fieldDescriptions t with
      | .error e => .returned [] (some (.noColumn e)) rows.close
      | .ok fields =>
        if rows.closed then .returned [] (rows.err.map .rows) rows
        else structsLoop env reader.fieldDescriptions fields rows [] reader.rows

end Structs

inductive ByNameError where
  /-- `struct doesn't have corresponding row field %s` -/
  | noField (column : Bytes)
  /-- `cannot find field %s in returned row` -/
  | missingField (field : Bytes)
  | rows (err : RowsError)
  deriving DecidableEq

inductive ByNameOutcome (V : Type) where
  | panic
  | failed (err : ByNameError)
  | scanned (value : List (List Nat × V))

/-- The first column that no field was found for. -/
def firstUnused : List (Option NamedField) → List FieldDescription → Option Bytes
  | none :: _, fd :: _ => some fd.name
  | some _ :: fields, _ :: fds => firstUnused fields fds
  | _, _ => none

/-- `namedStructRowScanner.ScanRow`, with `lax` or without. -/
def rowToStructByName {V : Type} (env : Scanner V) (S : Strings) (lax : Bool) (t : Struct)
    (fldDescs : List FieldDescription) (values : Row) : ByNameOutcome V :=
  let named := computeNamedStructFields S fldDescs t
  match firstUnused named.fields fldDescs with
  | some column => .failed (.noField column)
  | none =>
    if !lax && named.missingField ≠ [] then .failed (.missingField named.missingField)
    else if (named.fields.filterMap id).all fun nf => nf.field.exported then
      match scan env fldDescs values (named.fields.filterMap id) with
      | .error e => .failed (.rows e)
      | .ok value => .scanned value
    else .panic

end Pgx.Rows
