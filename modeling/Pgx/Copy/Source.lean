import Pgx.Go.BigEndian
import Pgx.Wire.Messages

/-!
# Rows that are copied

`Conn.CopyFrom` encodes the rows of a source in a goroutine and writes them to a pipe, from
which `PgConn.CopyFrom` reads. This is the goroutine and the pipe. What the type map makes of a
value is a parameter.
-/
namespace Pgx.Copy

open Pgx.Go Pgx.Wire List

/-- `io.EOF` -/
def ioEOF : Error := .io "EOF"

/-- What a source says when `Next` has returned true: `Values`, and after it `Err`. -/
structure Item (A : Type) where
  values : Except Error (List A)
  err : Option Error

/-- A `CopyFromSource`: the rows, and `Err` when `Next` has returned false. -/
structure Source (A : Type) where
  items : List (Item A)
  err : Option Error

/-- `CopyFromRows` -/
def copyFromRows {A : Type} (rows : List (List A)) : Source A where
  items := rows.map fun row => { values := .ok row, err := none }
  err := none

/-- `CopyFromFunc`, with what the calls of `nxtf` return; the last of them returns nil and nil. -/
def copyFromFunc {A : Type} : List (Except Error (List A)) → Source A
  | [] => { items := [], err := none }
  | .error e :: _ => { items := [], err := some e }
  | .ok row :: calls =>
    let s := copyFromFunc calls
    { s with items := { values := .ok row, err := none } :: s.items }

/-- The part of `copyFrom` that the goroutine uses. -/
structure CopyFrom (A : Type) where
  columnNames : List Bytes
  /-- The binary encoding for a column, `none` for NULL. -/
  encode : Nat → A → Except Error (Option Bytes)

namespace CopyFrom

variable {A : Type} (ct : CopyFrom A)

def encodeCopyValue (buf : Bytes) (i : Nat) (val : A) : Except Error Bytes :=
  match ct.encode i val with
  | .error e => .error e
  | .ok none => .ok (appendInt32 buf (-1))
  | .ok (some argBuf) => .ok (appendInt32 buf argBuf.length ++ argBuf)

/-- The loop over the values of a row, from the `i`-th on. -/
def encodeValues (buf : Bytes) (i : Nat) : List A → Except Error Bytes
  | [] => .ok buf
  | val :: vals =>
    match ct.encodeCopyValue buf i val with
    | .error e => .error e
    | .ok buf => encodeValues buf (i + 1) vals

def appendRow (buf : Bytes) (item : Item A) : Except Error Bytes :=
  match item.values with
  | .error e => .error e
  | .ok values =>
    if values.length ≠ ct.columnNames.length then
      .error (.errorf "expected %d values, got %d values"
        [toString ct.columnNames.length, toString values.length])
    else ct.encodeValues (appendInt16 buf ct.columnNames.length) 0 values

def sendBufSize : Nat := 65536 - 5

/-- What `buildCopyBuf` returns, with `Err` as it is asked afterwards, and the rows that are left.
-/
inductive Built (A : Type) where
  | failed (err : Error)
  | more (buf : Bytes) (err : Option Error) (rest : List (Item A))
  | last (buf : Bytes)

def buildCopyBuf (buf : Bytes) (largestRowLen : Nat) : List (Item A) → Built A
  | [] => .last buf
  | item :: rest =>
    match ct.appendRow buf item with
    | .error e => .failed e
    | .ok next =>
      let largest := max largestRowLen (next.length - buf.length)
      -- `len(buf) > sendBufSize-largestRowLen`, where the difference may be negative
      if next.length + largest > sendBufSize then .more next item.err rest
      else buildCopyBuf next largest rest

/-- Every call takes a row. -/
theorem buildCopyBuf_rest {buf : Bytes} {largest : Nat} {items rest : List (Item A)} {next : Bytes}
    {err : Option Error}
    (h : ct.buildCopyBuf buf largest items = .more next err rest) : rest.length < items.length := by
  induction items generalizing buf largest with
  | nil => cases h
  | cons item items ih =>
    rw [buildCopyBuf] at h
    split at h
    · cases h
    · dsimp only at h
      split at h
      · cases h
        exact Nat.lt_succ_self _
      · exact Nat.lt_succ_of_lt (ih h)

/-- What a goroutine writes to a pipe, and the error it closes the pipe with; `none` is `Close`. -/
structure Written where
  writes : List Bytes
  closed : Option Error
  deriving DecidableEq

/-- `w.Write`, unless the buffer is empty. -/
def Written.write (buf : Bytes) (w : Written) : Written :=
  if buf.length > 0 then { w with writes := buf :: w.writes } else w

def produce (s : Source A) (buf : Bytes) (items : List (Item A)) : Written :=
  match h : ct.buildCopyBuf buf 0 items with
  | .failed e => { writes := [], closed := some e }
  | .last buf =>
    match s.err with
    | some e => { writes := [], closed := some e }
    | none => .write buf { writes := [], closed := none }
  | .more buf err rest =>
    match err with
    | some e => { writes := [], closed := some e }
    | none =>
      have := ct.buildCopyBuf_rest h
      Written.write buf (produce s [] rest)
termination_by items.length

/-- `PGCOPY\n\377\r\n\000`, the flags and the length of the extension. -/
def header : Bytes :=
  appendInt32 (appendInt32 (ascii "PGCOPY" ++ [10, 255, 13, 10, 0]) 0) 0

/-- The goroutine; the write buffer of the connection is empty. -/
def producer (s : Source A) : Written := ct.produce s header s.items

end CopyFrom

def readsOfWrite (buf : Bytes) : List Bytes :=
  if h : buf = [] then []
  else
    have : (buf.drop CopyFrom.sendBufSize).length < buf.length := by
      have := length_pos_iff.mpr h
      rw [length_drop, CopyFrom.sendBufSize]
      omega
    buf.take CopyFrom.sendBufSize :: readsOfWrite (buf.drop CopyFrom.sendBufSize)
termination_by buf.length
decreasing_by exact this

def pipeReads (writes : List Bytes) : List Bytes := writes.flatMap readsOfWrite

theorem readsOfWrite_flatten (buf : Bytes) : (readsOfWrite buf).flatten = buf := by
  fun_induction readsOfWrite buf with
  | case1 => rfl
  | case2 buf h this ih => rw [flatten_cons, ih, take_append_drop]

theorem pipeReads_flatten (writes : List Bytes) : (pipeReads writes).flatten = writes.flatten := by
  induction writes with
  | nil => rfl
  | cons w writes ih =>
    rw [pipeReads, flatMap_cons, flatten_append, readsOfWrite_flatten]
    exact congrArg (w ++ ·) ih

/-! ## What is written -/

namespace CopyFrom

variable {A : Type} (ct : CopyFrom A)

def rowBytes (item : Item A) : Except Error Bytes := ct.appendRow [] item

theorem encodeCopyValue_append (buf : Bytes) (i : Nat) (val : A) :
    ct.encodeCopyValue buf i val = (ct.encodeCopyValue [] i val).map (buf ++ ·) := by
  rw [encodeCopyValue, encodeCopyValue]
  cases ct.encode i val with
  | error e => rfl
  | ok b =>
    cases b with
    | none => simp [appendInt32, Except.map]
    | some argBuf => simp [appendInt32, Except.map]

theorem encodeValues_append (buf more : Bytes) (i : Nat) (vals : List A) :
    ct.encodeValues (buf ++ more) i vals = (ct.encodeValues more i vals).map (buf ++ ·) := by
  induction vals generalizing more i with
  | nil => rfl
  | cons val vals ih =>
    rw [encodeValues, encodeValues, encodeCopyValue_append, ct.encodeCopyValue_append more]
    cases ct.encodeCopyValue [] i val with
    | error e => rfl
    | ok b =>
      simp only [Except.map]
      rw [append_assoc]
      exact ih _ _

/-- A row is encoded in the same way wherever it stands in the buffer. -/
theorem appendRow_eq (buf : Bytes) (item : Item A) :
    ct.appendRow buf item = (ct.rowBytes item).map (buf ++ ·) := by
  rw [rowBytes, appendRow, appendRow]
  cases item.values with
  | error e => rfl
  | ok values =>
    dsimp only
    split
    · rfl
    · rw [appendInt16, encodeValues_append, appendInt16, nil_append]

/-- The rows of the source and nothing else: no call reports an error, and each row can be encoded.
-/
structure Clean (s : Source A) (rows : List Bytes) : Prop where
  encoded : Forall₂ (fun item row => ct.rowBytes item = .ok row ∧ item.err = none) s.items rows
  err : s.err = none

/-- Some row is refused, or the source has ended with an error. -/
def Fails (s : Source A) : Prop := (∃ item ∈ s.items, ∃ e, ct.rowBytes item = .error e) ∨
    ∃ e, s.err = some e

/-- The errors that a source reports, up to the first row that is refused; `last` is `Err` when
`Next` has returned false. -/
def errorsOf (last : Option Error) : List (Item A) → List Error
  | [] => last.toList
  | item :: rest =>
    match ct.rowBytes item with
    | .error e => [e]
    | .ok _ => item.err.toList ++ errorsOf last rest

def reported (s : Source A) : List Error := ct.errorsOf s.err s.items

theorem write_closed (buf : Bytes) (w : Written) : (w.write buf).closed = w.closed := by
  rw [Written.write]
  split <;> rfl

theorem write_flatten (buf : Bytes) (w : Written) :
    (w.write buf).writes.flatten = buf ++ w.writes.flatten := by
  rw [Written.write]
  split
  · rfl
  · next h =>
    obtain rfl : buf = [] := length_eq_zero_iff.mp (by omega)
    rfl

/-- What `buildCopyBuf` leaves of rows that can all be encoded. -/
theorem buildCopyBuf_clean (buf : Bytes) (largest : Nat) {items : List (Item A)} {rows : List Bytes}
    (h : Forall₂ (fun item row => ct.rowBytes item = .ok row ∧ item.err = none) items rows) :
    (ct.buildCopyBuf buf largest items = .last (buf ++ rows.flatten)) ∨
      ∃ rest before after, ct.buildCopyBuf buf largest items = .more
        (buf ++ before.flatten) none rest ∧
        rows = before ++ after ∧
        Forall₂ (fun item row => ct.rowBytes item = .ok row ∧ item.err = none) rest after := by
  induction h generalizing buf largest with
  | nil => exact .inl (by simp [buildCopyBuf])
  | @cons item row items rows hrow hrest ih =>
    rw [buildCopyBuf, appendRow_eq, hrow.1]
    dsimp only [Except.map]
    split
    · exact .inr ⟨items, [row], rows, by simp [hrow.2], rfl, hrest⟩
    · rcases ih (buf ++ row) _ with h | ⟨rest, before, after, h, hsplit, hafter⟩
      · exact .inl (by rw [h, flatten_cons, append_assoc])
      · refine .inr ⟨rest, row :: before, after, ?_, by rw [hsplit, cons_append], hafter⟩
        rw [h, flatten_cons, append_assoc]

theorem produce_clean {s : Source A} (hs : s.err = none) {items : List (Item A)} {rows : List Bytes}
    (h : Forall₂ (fun item row => ct.rowBytes item = .ok row ∧ item.err = none) items rows)
    (buf : Bytes) :
    (ct.produce s buf items).closed = none ∧ (ct.produce s buf items).writes.flatten = buf ++
      rows.flatten := by
  induction hn : items.length using Nat.strong_induction_on generalizing items rows buf with
  | _ n ih =>
    rw [produce]
    rcases ct.buildCopyBuf_clean buf 0 h with hb | ⟨rest, before, after, hb, hsplit, hafter⟩
    · split
      · next hf => rw [hb] at hf; cases hf
      · next hl =>
        rw [hb] at hl
        cases hl
        rw [hs]
        exact ⟨write_closed _ _, by rw [write_flatten]; simp⟩
      · next hm => rw [hb] at hm; cases hm
    · split
      · next hf => rw [hb] at hf; cases hf
      · next hl => rw [hb] at hl; cases hl
      · next hm =>
        have hlt := ct.buildCopyBuf_rest hm
        rw [hb] at hm
        cases hm
        obtain ⟨hc, hw⟩ := ih rest.length (hn ▸ hlt) hafter [] rfl
        rw [write_closed, write_flatten, hw, hsplit]
        exact ⟨hc, by simp⟩

/-- If a row is refused, `buildCopyBuf` fails there or stops before it. -/
theorem buildCopyBuf_refused (buf : Bytes) (largest : Nat) {items : List (Item A)}
    (h : ∃ item ∈ items, ∃ e, ct.rowBytes item = .error e) :
    (∃ e, ct.buildCopyBuf buf largest items = .failed e) ∨
      ∃ next err rest, ct.buildCopyBuf buf largest items = .more next err rest ∧
        ∃ item ∈ rest, ∃ e, ct.rowBytes item = .error e := by
  induction items generalizing buf largest with
  | nil =>
    obtain ⟨item, hi, _⟩ := h
    cases hi
  | cons item items ih =>
    rw [buildCopyBuf, appendRow_eq]
    cases hr : ct.rowBytes item with
    | error e => exact .inl ⟨e, rfl⟩
    | ok row =>
      have hrest : ∃ item ∈ items, ∃ e, ct.rowBytes item = .error e := by
        obtain ⟨u, hu, e, he⟩ := h
        rcases mem_cons.mp hu with rfl | hu
        · rw [hr] at he
          cases he
        · exact ⟨u, hu, e, he⟩
      dsimp only [Except.map]
      split
      · exact .inr ⟨_, _, items, rfl, hrest⟩
      · exact ih _ _ hrest

/-- What `buildCopyBuf` fails with is reported, and so is what it leaves to be asked. -/
theorem buildCopyBuf_reported (last : Option Error) (buf : Bytes) (largest : Nat)
    (items : List (Item A)) :
    match ct.buildCopyBuf buf largest items with
    | .failed e => e ∈ ct.errorsOf last items
    | .more _ err rest =>
      (∀ e ∈ err, e ∈ ct.errorsOf last items) ∧ ct.errorsOf last rest ⊆ ct.errorsOf last items
    | .last _ => ∀ e ∈ last, e ∈ ct.errorsOf last items := by
  induction items generalizing buf largest with
  | nil => simp [buildCopyBuf, errorsOf]
  | cons item items ih =>
    rw [buildCopyBuf, appendRow_eq, errorsOf]
    cases hr : ct.rowBytes item with
    | error e => exact mem_singleton_self e
    | ok row =>
      have hrest : ct.errorsOf last items ⊆ item.err.toList ++ ct.errorsOf last items :=
        subset_append_right ..
      dsimp only [Except.map]
      by_cases hfull : (buf ++ row).length + max largest
        ((buf ++ row).length - buf.length) > sendBufSize
      · rw [if_pos hfull]
        exact ⟨fun e he => mem_append_left _ (Option.mem_toList.mpr he), hrest⟩
      · rw [if_neg hfull]
        have h := ih (buf ++ row) (max largest ((buf ++ row).length - buf.length))
        revert h
        cases ct.buildCopyBuf (buf ++ row) (max largest ((buf ++ row).length - buf.length)) items with
        | failed e => exact fun h => hrest h
        | more next err rest => exact fun h =>
          ⟨fun e he => hrest (h.1 e he), fun e he => hrest (h.2 he)⟩
        | last next => exact fun h e he => hrest (h e he)

/-- The pipe is closed with no other error than one that the source has reported. -/
theorem produce_reported {s : Source A} {items : List (Item A)} {e : Error} (buf : Bytes)
    (h : (ct.produce s buf items).closed = some e) : e ∈ ct.errorsOf s.err items := by
  induction hn : items.length using Nat.strong_induction_on generalizing items buf with
  | _ n ih =>
    have hbuilt := ct.buildCopyBuf_reported s.err buf 0 items
    rw [produce] at h
    split at h
    · next hb =>
      rw [hb] at hbuilt
      cases h
      exact hbuilt
    · next hb =>
      rw [hb] at hbuilt
      split at h
      · next hs =>
        cases h
        exact hbuilt _ hs
      · rw [write_closed] at h
        cases h
    · next next err rest hm =>
      rw [hm] at hbuilt
      split at h
      · cases h
        exact hbuilt.1 _ rfl
      · rw [write_closed] at h
        exact hbuilt.2 (ih rest.length (hn ▸ ct.buildCopyBuf_rest hm) [] h rfl)

/-- Whatever the buffer boundaries are, a source that fails makes the goroutine close the pipe
with an error. -/
theorem produce_fails {s : Source A} {items : List (Item A)} (buf : Bytes)
    (h : (∃ item ∈ items, ∃ e, ct.rowBytes item = .error e) ∨ ∃ e, s.err = some e) :
    ∃ e, (ct.produce s buf items).closed = some e := by
  induction hn : items.length using Nat.strong_induction_on generalizing items buf with
  | _ n ih =>
    rw [produce]
    split
    · exact ⟨_, rfl⟩
    · next hl =>
      split
      · exact ⟨_, rfl⟩
      · next hs =>
        rcases h with h | ⟨e, he⟩
        · rcases ct.buildCopyBuf_refused buf 0 h with ⟨e, hb⟩ | ⟨_, _, _, hb, _⟩
          · rw [hl] at hb
            cases hb
          · rw [hl] at hb
            cases hb
        · rw [hs] at he
          cases he
    · next next err rest hm =>
      split
      · exact ⟨_, rfl⟩
      · rw [write_closed]
        refine ih rest.length (hn ▸ ct.buildCopyBuf_rest hm) [] ?_ rfl
        rcases h with h | h
        · rcases ct.buildCopyBuf_refused buf 0 h with ⟨e, hb⟩ | ⟨_, _, _, hb, hrest⟩
          · rw [hm] at hb
            cases hb
          · rw [hm] at hb
            cases hb
            exact .inl hrest
        · exact .inr h

end CopyFrom

end Pgx.Copy
