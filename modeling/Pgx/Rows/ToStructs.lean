import Pgx.Rows.BaseRows
import Pgx.Rows.Mapping

/-!
# RowsToStructs

What `RowsToStructs` returns, for every struct type and all rows. The list of scan targets has one
entry for each mapped field, and `Scan` wants one for each column; so the structs are
filled only if there is no column besides those of the fields.
-/
namespace Pgx.Rows

open Pgx.Go Pgx.Wire List

variable {data : List Row} {fields : List StrictStructRowField} {values : Row}

section

variable {V : Type} {env : Scanner V} {fldDescs : List FieldDescription}

theorem scanAll_ok {i : Nat} {fds : List FieldDescription} {vs : Row} {ds : List NamedField}
    {s : List (List Nat × V)} (hv : fds.length = vs.length) (hd : fds.length = ds.length)
    (h : scanAll env i fds vs ds = .ok s) : s.map Prod.fst = ds.map NamedField.path ∧
      ∀ (j : Nat) (d : NamedField), ds[j]? = some d → ∃ fd v x,
        fds[j]? = some fd ∧ vs[j]? = some v ∧ env.scan fd d.field v = .ok x ∧ (d.path, x) ∈ s := by
  induction fds generalizing i vs ds s with
  | nil =>
    obtain rfl := length_eq_zero_iff.mp hd.symm
    cases h
    exact ⟨rfl, fun j d hj => by cases hj⟩
  | cons fd fds ih =>
    obtain _ | ⟨v, vs⟩ := vs
    · cases hv
    obtain _ | ⟨d, ds⟩ := ds
    · cases hd
    rw [scanAll] at h
    cases hx : env.scan fd d.field v with
    | error e =>
      rw [hx] at h
      cases h
    | ok x =>
      rw [hx] at h
      cases hs : scanAll env (i + 1) fds vs ds with
      | error e =>
        rw [hs] at h
        cases h
      | ok s' =>
        rw [hs] at h
        cases h
        obtain ⟨hp, hall⟩ := ih (Nat.succ.inj hv) (Nat.succ.inj hd) hs
        refine ⟨by rw [map_cons, map_cons, hp], fun j u hj => ?_⟩
        cases j with
        | zero =>
          cases hj
          exact ⟨fd, v, x, rfl, rfl, hx, (.head _)⟩
        | succ j =>
          obtain ⟨fd', v', x', hf, hv', hx', hm⟩ := hall j u hj
          exact ⟨fd', v', x', hf, hv', hx', .tail _ hm⟩

theorem scanAll_exists {fds : List FieldDescription} {vs : Row} {ds : List NamedField} (i : Nat)
    (h : ∀ (j : Nat) d fd v, ds[j]? = some d → fds[j]? = some fd → vs[j]? = some v →
      ∃ x, env.scan fd d.field v = .ok x) : ∃ s, scanAll env i fds vs ds = .ok s := by
  induction fds generalizing i vs ds with
  | nil => exact ⟨[], by rw [scanAll]; intros; contradiction⟩
  | cons fd fds ih =>
    obtain _ | ⟨v, vs⟩ := vs
    · exact ⟨[], by rw [scanAll]; intros; contradiction⟩
    obtain _ | ⟨d, ds⟩ := ds
    · exact ⟨[], by rw [scanAll]; intros; contradiction⟩
    obtain ⟨x, hx⟩ := h 0 d fd v rfl rfl rfl
    obtain ⟨s, hs⟩ := @ih vs ds (i + 1) fun j d fd v hd hf hv => h (j + 1) d fd v hd hf hv
    exact ⟨(d.path, x) :: s, by rw [scanAll, hx, hs]⟩

theorem soleRowScanner_eq_some {dest : List NamedField} {d : NamedField}
    (h : soleRowScanner dest = some d) :
    dest = [d] ∧ d.field.rowScanner = true := by
  match dest, h with
  | [u], h =>
    rw [soleRowScanner] at h
    split at h
    · next hr =>
      cases h
      exact ⟨rfl, hr⟩
    · cases h

/-- A NULL in the column of a field that cannot hold it. -/
def NullInto (values : Row) (sf : StrictStructRowField) : Prop :=
  values[sf.column]? = some none ∧ sf.nullable = false

/-- The row ends before the column of some field, and no field before that one is stopped by a NULL.
-/
def Truncated (values : Row) (fields : List StrictStructRowField) : Prop :=
  ∃ before sf after, fields = before ++ sf :: after ∧ values.length ≤ sf.column ∧
    ∀ u ∈ before, ¬ NullInto values u

theorem checkNulls_none_iff {values : Row} (hc : ∀ sf ∈ fields, sf.columnIndex ≠ none) :
    checkNulls (V := V) fldDescs values fields = none ↔
      ∀ sf ∈ fields, ∃ v, values[sf.column]? = some v ∧ (v = none → sf.nullable = true) := by
  induction fields with
  | nil => simp [checkNulls]
  | cons u rest ih =>
    obtain ⟨c, hu⟩ := Option.ne_none_iff_exists'.mp (hc u (.head _))
    have hcol : u.column = c := by simp [StrictStructRowField.column, hu]
    have ih := ih fun sf hsf => hc sf (.tail _ hsf)
    rw [checkNulls, hu, forall_mem_cons, hcol]
    dsimp only
    cases hv : values[c]? with
    | none => simp
    | some v =>
      cases v with
      | none => cases hn : u.nullable <;> simp [ih]
      | some b => simp [ih]

theorem truncated_cons {u : StrictStructRowField} : Truncated values (u :: fields) ↔
    values.length ≤ u.column ∨ (¬ NullInto values u ∧ Truncated values fields) := by
  constructor
  · rintro ⟨_ | ⟨b, before⟩, sf, after, h, hle, hb⟩
    · cases h
      exact .inl hle
    · cases h
      exact .inr ⟨hb u (.head _), before, sf, after, rfl, hle, fun x hx => hb x (.tail _ hx)⟩
  · rintro (hle | ⟨hn, before, sf, after, rfl, hle, hb⟩)
    · exact ⟨[], u, fields, rfl, hle, nofun⟩
    · exact ⟨u :: before, sf, after, rfl, hle, forall_mem_cons.mpr ⟨hn, hb⟩⟩

theorem checkNulls_panic_iff (fldDescs : List FieldDescription) {values : Row}
    (hc : ∀ sf ∈ fields, sf.columnIndex ≠ none) :
    checkNulls (V := V) fldDescs values fields = some .panic ↔ Truncated values fields := by
  induction fields with
  | nil => exact iff_of_false nofun fun ⟨before, _, _, h, _⟩ => by cases before <;> cases h
  | cons u rest ih =>
    obtain ⟨c, hu⟩ := Option.ne_none_iff_exists'.mp (hc u (.head _))
    have hcol : u.column = c := by simp [StrictStructRowField.column, hu]
    rw [checkNulls, hu, truncated_cons, NullInto, hcol, ← ih fun sf hsf => hc sf (.tail _ hsf)]
    dsimp only
    cases hv : values[c]? with
    | none => simp [getElem?_eq_none_iff.mp hv]
    | some v =>
      have hlt : ¬ values.length ≤ c := Nat.not_le.mpr (List.getElem?_eq_some_iff.mp hv).1
      cases v with
      | none => cases hn : u.nullable <;> simp [hlt]
      | some b => simp [hlt]

theorem checkNulls_some {o : RowOutcome V}
    (h : checkNulls fldDescs values fields = some o) :
    o = .panic ∨ ∃ field column, o = .null field column := by
  induction fields with
  | nil => cases h
  | cons u rest ih =>
    rw [checkNulls] at h
    split at h
    · exact ih h
    · split at h
      · cases h
        exact .inl rfl
      · split at h
        · exact ih h
        · cases h
          exact .inr ⟨_, _, rfl⟩
      · exact ih h

theorem structRow_panic_iff (hc : ∀ sf ∈ fields, sf.columnIndex ≠ none) :
    structRow env fldDescs fields values = .panic ↔ (∃ sf ∈ fields, sf.settable = false) ∨
    Truncated values fields := by
  rw [← checkNulls_panic_iff (V := V) fldDescs hc, structRow]
  cases ha : fields.all StrictStructRowField.settable with
  | false =>
    have : ∃ sf ∈ fields, sf.settable = false := by simpa using ha
    simp [this]
  | true =>
    have : ¬ ∃ sf ∈ fields, sf.settable = false := by simpa using ha
    cases hn : checkNulls (V := V) fldDescs values fields with
    | some o => simp [this]
    | none =>
      cases scan env fldDescs values (fields.map StrictStructRowField.target) <;> simp [this]

theorem structRow_scanned_iff {s : List (List Nat × V)} :
    structRow env fldDescs fields values = .scanned s ↔
      (∀ sf ∈ fields, sf.settable = true) ∧ checkNulls (V := V) fldDescs values fields = none ∧
        scan env fldDescs values (fields.map StrictStructRowField.target) = .ok s := by
  rw [structRow]
  cases ha : fields.all StrictStructRowField.settable with
  | false =>
    have : ¬ ∀ sf ∈ fields, sf.settable = true := by simpa using ha
    simp [this]
  | true =>
    have : ∀ sf ∈ fields, sf.settable = true := by simpa using ha
    cases hn : checkNulls (V := V) fldDescs values fields with
    | some o =>
      rcases checkNulls_some hn with rfl | ⟨field, column, rfl⟩ <;> simp
    | none =>
      cases hs : scan env fldDescs values (fields.map StrictStructRowField.target) with
      | error e => simp
      | ok value => simpa using fun _ => this

theorem scan_error_ofRow {dest : List NamedField} {e : RowsError}
    (h : scan env fldDescs values dest = .error e) : (StructsError.rows e).ofRow = true := by
  have hall : ∀ {i fds vs ds}, scanAll env i fds vs ds = .error e →
      (StructsError.rows e).ofRow = true := by
    intro i fds vs ds h
    fun_induction scanAll env i fds vs ds with
    | case1 =>
      cases h
      rfl
    | case2 i fd fds v vs d ds x hx e' he ih =>
      cases h
      exact ih he
    | case3 => cases h
    | case4 => cases h
  rw [scan] at h
  split at h
  · cases h
    rfl
  · split at h
    · split at h
      · cases h
        rfl
      · cases h
    · split at h
      · cases h
        rfl
      · exact hall h

def SafeRow (fields : List StrictStructRowField) (row : Row) : Prop :=
  (∀ sf ∈ fields, sf.settable = true) ∧ ¬ Truncated row fields

/-- The rows up to and including the first that is not scanned are safe. -/
def ReachedSafely (env : Scanner V) (fldDescs : List FieldDescription)
    (fields : List StrictStructRowField) (data : List Row) : Prop :=
  ∀ before row after, data = before ++ row :: after →
    (∀ b ∈ before, ∃ s, structRow env fldDescs fields b = .scanned s) → SafeRow fields row

theorem reachedSafely_cons {row : Row} {pending : List Row} :
    ReachedSafely env fldDescs fields (row :: pending) ↔
      SafeRow fields row ∧
        ((∃ s, structRow env fldDescs fields row = .scanned s) →
          ReachedSafely env fldDescs fields pending) := by
  constructor
  · intro h
    refine ⟨h [] row pending rfl (by simp), fun hs before r after hd hb => ?_⟩
    refine h (row :: before) r after (by rw [hd, cons_append]) ?_
    exact forall_mem_cons.mpr ⟨hs, hb⟩
  · rintro ⟨hrow, hrest⟩ before r after hd hb
    cases before with
    | nil =>
      cases hd
      exact hrow
    | cons b before =>
      cases hd
      exact hrest (hb row (.head _)) before r after rfl fun x hx => hb x (.tail _ hx)

/-- No panic; the rows are closed; and an error they end with is returned, unless a row
was refused before. -/
def Reports (rows : BaseRows) (outcome : StructsOutcome V) : Prop :=
  ∃ result err final, outcome = .returned result err final ∧ final.closed = true ∧
    ∀ e, rows.close.err = some e → err = some (.rows e) ∨ ∃ r, err = some r ∧ r.ofRow = true

theorem not_reports_panic {rows final : BaseRows} :
    ¬ Reports rows (.panic final : StructsOutcome V) := by
  rintro ⟨result, err, rows', h, _⟩
  cases h

theorem structsLoop_reports_iff (hc : ∀ sf ∈ fields, sf.columnIndex ≠ none)
    (rows : BaseRows) (result : List (List (List Nat × V))) (data : List Row) :
    Reports rows (structsLoop env fldDescs fields rows result data) ↔
    ReachedSafely env fldDescs fields data := by
  induction data generalizing rows result with
  | nil =>
    refine iff_of_true ⟨_, _, _, rfl, rows.close_closed, fun e he => .inl (by rw [he]; rfl)⟩ ?_
    intro before row after h
    cases before <;> cases h
  | cons row pending ih =>
    have hsafe : SafeRow fields row ↔ structRow env fldDescs fields row ≠ .panic := by
      rw [Ne, structRow_panic_iff hc, not_or, SafeRow]
      simp
    rw [reachedSafely_cons, hsafe, structsLoop]
    cases ho : structRow env fldDescs fields row with
    | panic => simp [not_reports_panic]
    | null field column =>
      refine iff_of_true ⟨_, _, _, rfl, BaseRows.close_closed _, fun e _ =>
        .inr ⟨_, rfl, rfl⟩⟩ (by simp)
    | failed e =>
      have hrow : (StructsError.rows e).ofRow = true := by
        rw [structRow] at ho
        split at ho
        · split at ho
          · next o hn =>
            subst ho
            rcases checkNulls_some hn with h | ⟨field, column, h⟩ <;> cases h
          · split at ho
            · next hs =>
              cases ho
              exact scan_error_ofRow hs
            · cases ho
        · cases ho
      refine iff_of_true ⟨_, _, _, rfl, BaseRows.close_closed _, fun _ _ =>
        .inr ⟨_, rfl, hrow⟩⟩ (by simp)
    | scanned value =>
      have hsame : Reports (rows.advance row pending) = Reports (V := V) rows := by
        funext o
        rw [Reports, Reports, BaseRows.advance_close_err]
      rw [← hsame, ih]
      simp

/-- What the type parameter and the rows have to be: no interface; no error that the kind of
another type would hide; and for a struct a result reader, no error that one of the mapping
would hide, and no row within reach that is cut short or meets a field that cannot be set. -/
def Reportable (env : Scanner V) (S : Strings) (ord : RangeOrder) (rows : BaseRows) : TypeParam → Prop
  | .interface => False
  | .other _ => rows.close.err = none
  | .struct t => ∃ reader, rows.resultReader = some reader ∧
      (LacksColumn S reader.fieldDescriptions t → rows.close.err = none) ∧
      (rows.closed = false → ∀ fields,
        computeStrictNamedStructFields S ord reader.fieldDescriptions t = .ok fields →
          ReachedSafely env reader.fieldDescriptions fields reader.rows)

/-- An error of the type or of the mapping hides one that the rows end with. -/
theorem reports_closed_iff (rows : BaseRows) {err : StructsError} (h : err.ofRow = false)
    (hr : ∀ e, err ≠ .rows e) :
    Reports rows (.returned [] (some err) rows.close : StructsOutcome V) ↔ rows.close.err = none := by
  constructor
  · rintro ⟨result, err', final, hret, _, hend⟩
    cases hret
    cases hn : rows.close.err with
    | none => rfl
    | some e' =>
      rcases hend e' hn with he | ⟨r, he, hrow⟩
      · exact absurd (Option.some.inj he) (hr e')
      · cases he
        rw [h] at hrow
        cases hrow
  · intro hn
    exact ⟨_, _, _, rfl, rows.close_closed, fun e' he' => by rw [hn] at he'; cases he'⟩

end

/-! ## The structs -/

section

variable {V : Type} {env : Scanner V} {S : Strings} {ord : RangeOrder}
    {fldDescs : List FieldDescription} {t : Struct}

theorem structsLoop_scanned {values : List (List (List Nat × V))}
    (h : Forall₂ (fun row s => structRow env fldDescs fields row = .scanned s) data values)
    (rows : BaseRows)
    (result : List (List (List Nat × V))) : ∃ final,
      structsLoop env fldDescs fields rows result data =
      .returned (result ++ values) (rows.close.err.map .rows) final := by
  induction h generalizing rows result with
  | nil => exact ⟨rows.close, by rw [structsLoop, append_nil]⟩
  | cons hrow _ ih =>
    obtain ⟨final, hf⟩ := ih (rows.advance _ _) (result ++ [_])
    refine ⟨final, ?_⟩
    rw [structsLoop, hrow]
    dsimp only
    rw [hf, BaseRows.advance_close_err, append_assoc, singleton_append]

theorem scanned_of_structsLoop {rows final : BaseRows} {result structs : List (List (List Nat × V))}
    (h : structsLoop env fldDescs fields rows result data = .returned structs none final) :
    ∃ values, structs = result ++ values ∧
      Forall₂ (fun row s => structRow env fldDescs fields row = .scanned s) data values := by
  induction data generalizing rows result with
  | nil =>
    rw [structsLoop, StructsOutcome.returned.injEq] at h
    exact ⟨[], by rw [append_nil, h.1], .nil⟩
  | cons row pending ih =>
    rw [structsLoop] at h
    cases ho : structRow env fldDescs fields row with
    | panic =>
      rw [ho] at h
      cases h
    | null field column =>
      rw [ho] at h
      cases h
    | failed e =>
      rw [ho] at h
      cases h
    | scanned value =>
      rw [ho] at h
      obtain ⟨values, hv, hall⟩ := ih h
      exact ⟨value :: values, by rw [hv, append_assoc, singleton_append], .cons ho hall⟩

/-- Rows that have just been opened and end without an error. -/
def openRows (fldDescs : List FieldDescription) (data : List Row) : BaseRows where
  resultReader := some { fieldDescriptions := fldDescs, rows := data, closeErr := none }
  multiResultReader := none
  values := []
  err := none
  closed := false

/-- The value of the field's column in the row is `x`. -/
def ColumnScans (env : Scanner V) (fldDescs : List FieldDescription) (row : Row)
    (sf : StrictStructRowField) (x : V) :
    Prop :=
  ∃ fd v, fldDescs[sf.column]? = some fd ∧ row[sf.column]? = some v ∧ env.scan fd sf.field v = .ok x

variable {sf : StrictStructRowField}

theorem ColumnScans.unique {row : Row} {x y : V}
    (h : ColumnScans env fldDescs row sf x) (h' : ColumnScans env fldDescs row sf y) : x = y := by
  obtain ⟨fd, v, hf, hv, hx⟩ := h
  obtain ⟨fd', v', hf', hv', hy⟩ := h'
  rw [hf] at hf'
  rw [hv] at hv'
  cases hf'
  cases hv'
  rw [hx] at hy
  cases hy
  rfl

/-- `RowsToStructs` succeeds, and in the struct of each row every visible field has the value
of its column. -/
def FillsStructs (env : Scanner V) (S : Strings) (ord : RangeOrder) (t : Struct)
    (fldDescs : List FieldDescription) (data : List Row) : Prop :=
  ∃ structs final, rowsToStructs env S ord (.struct t)
    (openRows fldDescs data) = .returned structs none final ∧
    Forall₂ (fun row s => ∀ w ∈ writes S fldDescs t, Visible t w.2 →
      ∃ x, ColumnScans env fldDescs row w.2 x ∧ (w.2.path, x) ∈ s) data structs

/-- Every field that should be mapped has a column. -/
def HasColumns (S : Strings) (fldDescs : List FieldDescription) (t : Struct) : Prop :=
  ∀ w ∈ writes S fldDescs t, Visible t w.2 → w.2.columnIndex ≠ none

/-- No field that should not be mapped is left under a key. -/
def OnlyVisible (S : Strings) (fldDescs : List FieldDescription) (t : Struct) : Prop :=
  ∀ k sf, survivor S fldDescs t k = some sf → Visible t sf

theorem OnlyVisible.has_column (ho : OnlyVisible S fldDescs t) (hc : HasColumns S fldDescs t) :
    ¬ LacksColumn S fldDescs t := by
  rintro ⟨k, sf, hk, hn⟩
  exact hc _ (survivor_mem hk) (ho k sf hk) hn

/-- The only mapped field is a `RowScanner`. -/
def SoleRowScanner (S : Strings) (fldDescs : List FieldDescription) (t : Struct)
    (sf : StrictStructRowField) : Prop :=
  sf.field.rowScanner = true ∧ ∀ k u, survivor S fldDescs t k = some u → u = sf

/-- What `FillsStructs` needs of a result that has rows. -/
structure Fillable (env : Scanner V) (S : Strings) (t : Struct) (fldDescs : List FieldDescription)
    (data : List Row) :
    Prop where
  settable : ∀ k sf, survivor S fldDescs t k = some sf → sf.settable = true
  apart : ColumnsApart S fldDescs t
  last : VisibleLast S fldDescs t
  complete : ∀ row ∈ data, row.length = fldDescs.length
  notNull : ∀ row ∈ data, ∀ k sf, survivor S fldDescs t k = some sf → ¬ NullInto row sf
  scans : ∀ row ∈ data, ∀ k sf, survivor S fldDescs t k = some sf →
    ∃ x, ColumnScans env fldDescs row sf x
  sole : ∀ k sf, survivor S fldDescs t k = some sf → SoleRowScanner S fldDescs t sf →
    ∀ row ∈ data, ∀ x,
      ColumnScans env fldDescs row sf x → env.scanRow fldDescs row sf.field = .ok x
  /-- There is no column without a field. -/
  noOther : (¬ ∃ k sf, survivor S fldDescs t k = some sf ∧ SoleRowScanner S fldDescs t sf) →
    ∀ c < fldDescs.length, ∃ k sf, survivor S fldDescs t k = some sf ∧ sf.columnIndex = some c

theorem scan_paths {dest : List NamedField} {s : List (List Nat × V)}
    (h : scan env fldDescs values dest = .ok s) : s.map Prod.fst = dest.map NamedField.path := by
  rw [scan] at h
  split at h
  · cases h
  · next hlen =>
    split at h
    · next d hd =>
      split at h
      · cases h
      · cases h
        obtain ⟨rfl, _⟩ := soleRowScanner_eq_some hd
        rfl
    · split at h
      · cases h
      · next hdest => exact (scanAll_ok (not_not.mp hlen) (not_not.mp hdest) h).1

/-- A list of different numbers below `n`, as many as there are, in order. -/
theorem columns_eq_range {l : List Nat} {n : Nat} (hn : l.Nodup) (hs : l.Pairwise (· ≤ ·))
    (hlt : ∀ c ∈ l, c < n) (hlen : l.length = n) : l = range n := by
  have hsub : l ⊆ range n := fun c hc => mem_range.mpr (hlt c hc)
  have hperm : l.Perm (range n) :=
    (subperm_of_subset hn hsub).perm_of_length_le (by rw [length_range, hlen])
  refine Perm.eq_of_pairwise (fun a b _ _ => Nat.le_antisymm) hs ?_ hperm
  exact pairwise_lt_range.imp Nat.le_of_lt

theorem column_lt (hl : ¬ LacksColumn S fldDescs t) {k : Bytes}
    (hk : survivor S fldDescs t k = some sf) :
    sf.columnIndex = some sf.column ∧ sf.column < fldDescs.length := by
  cases hc : sf.columnIndex with
  | none => exact absurd ⟨k, sf, hk, hc⟩ hl
  | some c =>
    have hcol : sf.column = c := by simp [StrictStructRowField.column, hc]
    exact ⟨by rw [hcol], hcol ▸ columnIndex_lt (survivor_mem hk) hc⟩

section

variable (hl : ¬ LacksColumn S fldDescs t) (ha : ColumnsApart S fldDescs t)

include hl ha

/-- With as many fields as columns, the scan targets stand at their columns. -/
theorem mapped_columns_eq_range (hlen : (mapped S ord fldDescs t).length = fldDescs.length) :
    (mapped S ord fldDescs t).map StrictStructRowField.column = range fldDescs.length := by
  refine columns_eq_range (mapped_columns_nodup hl ha ord)
    (pairwise_map.mpr (sortByColumn_pairwise _)) ?_
    (by rw [length_map, hlen])
  intro c hc
  obtain ⟨sf, hsf, rfl⟩ := mem_map.mp hc
  obtain ⟨k, hk⟩ := (mem_mapped ord).mp hsf
  exact (column_lt hl hk).2

/-- There are as many fields as columns exactly if each column has a field. -/
theorem mapped_length_iff (ord : RangeOrder) : (mapped S ord fldDescs t).length = fldDescs.length ↔
      ∀ c < fldDescs.length, ∃ k sf, survivor S fldDescs t k = some sf ∧ sf.columnIndex = some c := by
  constructor
  · intro hlen c hc
    have hmem := mem_range.mpr hc
    rw [← mapped_columns_eq_range hl ha hlen] at hmem
    obtain ⟨sf, hsf, rfl⟩ := mem_map.mp hmem
    obtain ⟨k, hk⟩ := (mem_mapped ord).mp hsf
    exact ⟨k, sf, hk, (column_lt hl hk).1⟩
  · intro hall
    have hperm : ((mapped S ord fldDescs t).map StrictStructRowField.column).Perm
        (range fldDescs.length) := by
      refine (perm_ext_iff_of_nodup (mapped_columns_nodup hl ha ord) nodup_range).mpr fun c => ?_
      rw [mem_range]
      constructor
      · intro hc
        obtain ⟨sf, hsf, rfl⟩ := mem_map.mp hc
        obtain ⟨k, hk⟩ := (mem_mapped ord).mp hsf
        exact (column_lt hl hk).2
      · intro hc
        obtain ⟨k, sf, hk, hi⟩ := hall c hc
        exact mem_map.mpr
          ⟨sf, (mem_mapped ord).mpr ⟨k, hk⟩, by simp [StrictStructRowField.column, hi]⟩
    simpa using hperm.length_eq

/-- `Scan` takes the row for a `RowScanner` exactly if that is the only mapped field. -/
theorem soleRowScanner_mapped (hsf : ∃ k, survivor S fldDescs t k = some sf) :
    soleRowScanner ((mapped S ord fldDescs t).map StrictStructRowField.target) = some sf.target ↔
      SoleRowScanner S fldDescs t sf := by
  have hmem : sf ∈ mapped S ord fldDescs t := (mem_mapped ord).mpr hsf
  constructor
  · intro h
    obtain ⟨hone, hr⟩ := soleRowScanner_eq_some h
    refine ⟨hr, fun k u hu => ?_⟩
    have hlen : (mapped S ord fldDescs t).length = 1 := by simpa using congrArg length hone
    obtain ⟨v, hv⟩ := length_eq_one_iff.mp hlen
    have hu' : u ∈ mapped S ord fldDescs t := (mem_mapped ord).mpr ⟨k, hu⟩
    rw [hv, mem_singleton] at hmem hu'
    rw [hmem, hu']
  · rintro ⟨hr, honly⟩
    have hone : mapped S ord fldDescs t = [sf] := by
      have hn := Nodup.of_map _ (mapped_columns_nodup hl ha ord)
      refine perm_singleton.mp ((perm_ext_iff_of_nodup hn (nodup_singleton sf)).mpr fun u => ?_)
      rw [mem_singleton]
      refine ⟨fun hu => ?_, fun hu => hu ▸ hmem⟩
      obtain ⟨k, hk⟩ := (mem_mapped ord).mp hu
      exact honly k u hk
    rw [hone]
    exact if_pos hr

theorem soleRowScanner_none (ord : RangeOrder)
    (h : ¬ ∃ k sf, survivor S fldDescs t k = some sf ∧ SoleRowScanner S fldDescs t sf) :
    soleRowScanner ((mapped S ord fldDescs t).map StrictStructRowField.target) = none := by
  cases hd : soleRowScanner ((mapped S ord fldDescs t).map StrictStructRowField.target) with
  | none => rfl
  | some d =>
    have hmem : d ∈ (mapped S ord fldDescs t).map StrictStructRowField.target := by
      rw [(soleRowScanner_eq_some hd).1]
      exact mem_singleton_self d
    obtain ⟨sf, hsf, rfl⟩ := mem_map.mp hmem
    obtain ⟨k, hk⟩ := (mem_mapped ord).mp hsf
    exact absurd ⟨k, sf, hk, (soleRowScanner_mapped hl ha ⟨k, hk⟩).mp hd⟩ h

end

/-- A row of a fillable result gives a struct with the values of its columns. -/
theorem Fillable.row (hl : ¬ LacksColumn S fldDescs t) (h : Fillable env S t fldDescs data)
    (ord : RangeOrder) {row : Row} (hrow : row ∈ data) :
    ∃ s, structRow env fldDescs (mapped S ord fldDescs t) row = .scanned s ∧
      ∀ k sf, survivor S fldDescs t k = some sf → ∃ x, ColumnScans env fldDescs row sf x ∧
      (sf.path, x) ∈ s := by
  have hcols : ∀ sf ∈ mapped S ord fldDescs t, sf.columnIndex ≠ none :=
    fun sf hsf => columnIndex_ne_none (computeStrict_of_apart hl h.apart ord) hsf
  have hset : ∀ sf ∈ mapped S ord fldDescs t, sf.settable = true := by
    intro sf hsf
    obtain ⟨k, hk⟩ := (mem_mapped ord).mp hsf
    exact h.settable k sf hk
  have hnull : checkNulls (V := V) fldDescs row (mapped S ord fldDescs t) = none := by
    refine (checkNulls_none_iff hcols).mpr fun sf hsf => ?_
    obtain ⟨k, hk⟩ := (mem_mapped ord).mp hsf
    obtain ⟨x, fd, v, _, hv, _⟩ := h.scans row hrow k sf hk
    refine ⟨v, hv, fun hn => ?_⟩
    subst hn
    have := h.notNull row hrow k sf hk
    simpa [NullInto, hv] using this
  suffices hscan : ∃ s, scan env fldDescs row
      ((mapped S ord fldDescs t).map StrictStructRowField.target) =
      .ok s ∧ ∀ k sf, survivor S fldDescs t k = some sf → ∃ x, ColumnScans env fldDescs row sf x ∧
        (sf.path, x) ∈ s by
    obtain ⟨s, hs, hall⟩ := hscan
    exact ⟨s, structRow_scanned_iff.mpr ⟨hset, hnull, hs⟩, hall⟩
  have hcomplete := h.complete row hrow
  by_cases hsole : ∃ k sf, survivor S fldDescs t k = some sf ∧ SoleRowScanner S fldDescs t sf
  · obtain ⟨k, sf, hk, hso⟩ := hsole
    obtain ⟨x, hx⟩ := h.scans row hrow k sf hk
    refine ⟨[(sf.path, x)], ?_, fun k' u hu => ?_⟩
    · rw [scan, if_neg (by simp [hcomplete]), (soleRowScanner_mapped hl h.apart ⟨k, hk⟩).mpr hso]
      dsimp only [StrictStructRowField.target]
      rw [h.sole k sf hk hso row hrow x hx]
    · rw [hso.2 k' u hu]
      exact ⟨x, hx, .head _⟩
  · have hlen := (mapped_length_iff hl h.apart ord).mpr (h.noOther hsole)
    have hrange := mapped_columns_eq_range hl h.apart hlen
    have hnone := soleRowScanner_none hl h.apart ord hsole
    -- The target at an index is the field of that column.
    have hat : ∀ {j : Nat} {sf : StrictStructRowField}, (mapped S ord fldDescs t)[j]? = some sf →
        sf.column = j := by
      intro j sf hj
      have hlt : j < fldDescs.length := hlen ▸ (List.getElem?_eq_some_iff.mp hj).1
      have := congrArg (fun l : List Nat => l[j]?) hrange
      simpa [hj, hlt] using this
    have hdest : fldDescs.length =
        ((mapped S ord fldDescs t).map StrictStructRowField.target).length := by
      rw [length_map, hlen]
    obtain ⟨s, hs⟩ : ∃ s, scanAll env 0 fldDescs row
        ((mapped S ord fldDescs t).map StrictStructRowField.target) = .ok s := by
      refine scanAll_exists 0 fun j d fd v hd hfd hv => ?_
      rw [getElem?_map, Option.map_eq_some_iff] at hd
      obtain ⟨sf, hj, rfl⟩ := hd
      obtain ⟨k, hk⟩ := (mem_mapped ord).mp (mem_of_getElem? hj)
      obtain ⟨x, fd', v', hfd', hv', hx⟩ := h.scans row hrow k sf hk
      rw [hat hj, hfd] at hfd'
      rw [hat hj, hv] at hv'
      cases hfd'
      cases hv'
      exact ⟨x, hx⟩
    refine ⟨s, ?_, fun k sf hk => ?_⟩
    · rw [scan, if_neg (by simp [hcomplete]), hnone]
      rw [if_neg (by simpa using hdest), hs]
    · obtain ⟨j, hj⟩ := getElem?_of_mem ((mem_mapped ord).mpr ⟨k, hk⟩)
      obtain ⟨fd, v, x, hfd, hv, hx, hm⟩ := (scanAll_ok hcomplete.symm hdest hs).2 j sf.target
        (by rw [getElem?_map, hj]; rfl)
      exact ⟨x, ⟨fd, v, by rw [hat hj, hfd], by rw [hat hj, hv], hx⟩, hm⟩

theorem rowsToStructs_openRows (h : computeStrictNamedStructFields S ord fldDescs t = .ok fields)
    (data : List Row) :
    rowsToStructs env S ord (.struct t) (openRows fldDescs data) =
      structsLoop env fldDescs fields (openRows fldDescs data) [] data := by
  rw [rowsToStructs, openRows]
  dsimp only
  rw [h]
  rfl

theorem exists_forall₂ {α β : Type} {R : α → β → Prop} {l : List α} (h : ∀ a ∈ l, ∃ b, R a b) :
    ∃ l', Forall₂ R l l' := by
  induction l with
  | nil => exact ⟨[], .nil⟩
  | cons a l ih =>
    obtain ⟨b, hb⟩ := h a (.head _)
    obtain ⟨l', hl'⟩ := ih fun x hx => h x (.tail _ hx)
    exact ⟨b :: l', .cons hb hl'⟩

theorem Fillable.fills (hl : ¬ LacksColumn S fldDescs t) (h : Fillable env S t fldDescs data) :
    FillsStructs env S ord t fldDescs data := by
  obtain ⟨structs, hstructs⟩ := exists_forall₂ fun row hrow => h.row hl ord hrow
  obtain ⟨final, hf⟩ :=
    structsLoop_scanned (hstructs.imp fun _ _ hs => hs.1) (openRows fldDescs data) []
  refine ⟨structs, final, ?_, hstructs.imp fun _ _ hs w hw hvis => hs.2 w.1 w.2 (h.last w hw hvis)⟩
  rw [rowsToStructs_openRows (computeStrict_of_apart hl h.apart ord), hf]
  rfl

/-- A field that a struct has a value of is mapped. -/
theorem mapped_of_scanned {row : Row} {s : List (List Nat × V)} {x : V} {k : Bytes}
    (h : computeStrictNamedStructFields S ord fldDescs t = .ok fields)
    (hs : structRow env fldDescs fields row = .scanned s) (hw : (k, sf) ∈ writes S fldDescs t)
    (hx : (sf.path, x) ∈ s) : sf ∈ fields := by
  have hpath : sf.path ∈ fields.map StrictStructRowField.path := by
    have := mem_map_of_mem (f := Prod.fst) hx
    rw [scan_paths (structRow_scanned_iff.mp hs).2.2, map_map] at this
    exact this
  obtain ⟨u, hu, hup⟩ := mem_map.mp hpath
  obtain ⟨k', hk'⟩ := survivor_of_mem h hu
  have hsame := write_eq_of_path (survivor_mem hk') hw hup
  cases hsame
  exact hu

theorem scan_ok {dest : List NamedField} {s : List (List Nat × V)}
    (h : scan env fldDescs values dest = .ok s) :
    values.length = fldDescs.length ∧
      (∀ d, soleRowScanner dest = some d → ∃ x, env.scanRow fldDescs values d.field = .ok x ∧
        s = [(d.path, x)]) ∧
      (soleRowScanner dest = none → fldDescs.length = dest.length) := by
  rw [scan] at h
  split at h
  · cases h
  · next hlen =>
    refine ⟨(not_not.mp hlen).symm, ?_, ?_⟩
    · intro d hd
      rw [hd] at h
      dsimp only at h
      split at h
      · cases h
      · next x hx =>
        cases h
        exact ⟨x, hx, rfl⟩
    · intro hd
      rw [hd] at h
      dsimp only at h
      split at h
      · cases h
      · next hdest => exact not_not.mp hdest

theorem FillsStructs.fillable (hl : ¬ LacksColumn S fldDescs t) (ho : OnlyVisible S fldDescs t)
    (h : FillsStructs env S ord t fldDescs data) (hne : data ≠ []) :
    Fillable env S t fldDescs data := by
  obtain ⟨structs, final, hret, hvisible⟩ := h
  have hvalues := hvisible.imp fun _ _ hs k sf hk => hs (k, sf) (survivor_mem hk) (ho k sf hk)
  have hok := computeStrict_ok hl ord
  rw [rowsToStructs_openRows hok] at hret
  obtain ⟨values, rfl, hscanned⟩ := scanned_of_structsLoop hret
  have hrows : ∀ row ∈ data, ∃ s, structRow env fldDescs
      (sortByColumn (kept [] (ranged S ord fldDescs t))) row =
      .scanned s ∧ ∀ k sf, survivor S fldDescs t k = some sf →
        ∃ x, ColumnScans env fldDescs row sf x ∧ (sf.path, x) ∈ s := by
    intro row hrow
    obtain ⟨i, hi, rfl⟩ := getElem_of_mem hrow
    have hi' : i < structs.length := hscanned.length_eq ▸ hi
    exact ⟨structs[i], hscanned.get hi hi', hvalues.get hi hi'⟩
  -- The first row has a struct, so no field was dropped.
  obtain ⟨first, hfirst⟩ := exists_mem_of_ne_nil data hne
  obtain ⟨s, hs, hall⟩ := hrows first hfirst
  have ha : ColumnsApart S fldDescs t := by
    refine apart_of_all_mapped hok fun k sf hk => ?_
    obtain ⟨x, _, hx⟩ := hall k sf hk
    exact mapped_of_scanned hok hs (survivor_mem hk) hx
  have hlast : VisibleLast S fldDescs t := by
    intro w hw hvis
    obtain ⟨i, hi, rfl⟩ := getElem_of_mem hfirst
    have hi' : i < structs.length := hscanned.length_eq ▸ hi
    obtain ⟨x, _, hx⟩ := hvisible.get hi hi' w hw hvis
    obtain ⟨k, hk⟩ := survivor_of_mem hok (mapped_of_scanned hok (hscanned.get hi hi') hw hx)
    rwa [key_eq (survivor_mem hk) hw] at hk
  have hmapped : sortByColumn (kept [] (ranged S ord fldDescs t)) = mapped S ord fldDescs t := by
    have := computeStrict_of_apart hl ha ord
    rw [hok] at this
    exact Except.ok.inj this
  rw [hmapped] at hrows hs hok
  have hcols : ∀ sf ∈ mapped S ord fldDescs t, sf.columnIndex ≠ none :=
    fun sf hsf => columnIndex_ne_none hok hsf
  refine { settable := ?_, apart := ha, last := hlast, complete := ?_, notNull := ?_, scans := ?_,
           sole := ?_, noOther := ?_ }
  · intro k sf hk
    exact (structRow_scanned_iff.mp hs).1 sf ((mem_mapped ord).mpr ⟨k, hk⟩)
  · intro row hrow
    obtain ⟨s, hs, _⟩ := hrows row hrow
    exact (scan_ok (structRow_scanned_iff.mp hs).2.2).1
  · intro row hrow k sf hk hnull
    obtain ⟨s, hs, _⟩ := hrows row hrow
    have hn := (checkNulls_none_iff hcols).mp (structRow_scanned_iff.mp hs).2.1 sf
        ((mem_mapped ord).mpr ⟨k, hk⟩)
    obtain ⟨v, hv, hnone⟩ := hn
    rw [hnull.1] at hv
    cases hv
    rw [hnull.2] at hnone
    exact absurd (hnone rfl) (by decide)
  · intro row hrow k sf hk
    obtain ⟨s, _, hall⟩ := hrows row hrow
    obtain ⟨x, hx, _⟩ := hall k sf hk
    exact ⟨x, hx⟩
  · intro k sf hk hso row hrow x hx
    obtain ⟨s, hs, hall⟩ := hrows row hrow
    obtain ⟨y, hy, hsy⟩ := (scan_ok (structRow_scanned_iff.mp hs).2.2).2.1 sf.target
      ((soleRowScanner_mapped hl ha ⟨k, hk⟩).mpr hso)
    obtain ⟨z, hz, hmem⟩ := hall k sf hk
    rw [hsy, mem_singleton] at hmem
    cases hmem
    rw [hx.unique hz]
    exact hy
  · intro hsole
    have hnone : soleRowScanner ((mapped S ord fldDescs t).map StrictStructRowField.target) = none :=
      soleRowScanner_none hl ha ord hsole
    have hlen := (scan_ok (structRow_scanned_iff.mp hs).2.2).2.2 hnone
    rw [length_map] at hlen
    exact (mapped_length_iff hl ha ord).mp hlen.symm

end

def textScanner : Scanner (Option Bytes) where
  scan _ _ v := .ok v
  scanRow _ row _ := .ok (row.head?.join)

/-- `struct { X string }` -/
def structX : Struct := .field (plainField "X" none) .nil

/-- The field of `structX`, in a result whose first column is `x`. -/
def mappedX : StrictStructRowField where
  path := [0]
  columnIndex := some 0
  field := plainField "X" none

section

variable {fldDescs : List FieldDescription} (hw :
    writes asciiStrings fldDescs structX = [(ascii "x", mappedX)])

include hw

theorem survivor_structX {k : Bytes} {sf : StrictStructRowField}
    (h : survivor asciiStrings fldDescs structX k = some sf) : k = ascii "x" ∧ sf = mappedX := by
  have hm := survivor_mem h
  rw [hw, mem_singleton] at hm
  cases hm
  exact ⟨rfl, rfl⟩

theorem structX_has_column : HasColumns asciiStrings fldDescs structX := by
  intro w hm _ hn
  rw [hw, mem_singleton] at hm
  subst hm
  cases hn

theorem structX_onlyVisible : OnlyVisible asciiStrings fldDescs structX := by
  intro k sf hk
  rw [(survivor_structX hw hk).2]
  decide

end

theorem fillable_structX (v : Bytes) : Fillable textScanner asciiStrings structX [textColumn "x"]
    [[some v]] := by
  have hw : writes asciiStrings [textColumn "x"] structX = [(ascii "x", mappedX)] := by decide
  have hx : survivor asciiStrings [textColumn "x"] structX (ascii "x") = some mappedX := by decide
  constructor
  · intro k sf hk
    rw [(survivor_structX hw hk).2]
    rfl
  · intro k k' sf sf' hk hk' _
    rw [(survivor_structX hw hk).1, (survivor_structX hw hk').1]
  · intro w hm _
    rw [hw, mem_singleton] at hm
    subst hm
    exact hx
  · simp
  · intro row hrow k sf hk hnull
    obtain rfl := mem_singleton.mp hrow
    rw [(survivor_structX hw hk).2] at hnull
    cases hnull.1
  · intro row hrow k sf hk
    obtain rfl := mem_singleton.mp hrow
    rw [(survivor_structX hw hk).2]
    exact ⟨some v, textColumn "x", some v, rfl, rfl, rfl⟩
  · intro k sf hk hsole
    rw [(survivor_structX hw hk).2] at hsole
    cases hsole.1
  · intro _ c hc
    obtain rfl : c = 0 := by simpa using hc
    exact ⟨ascii "x", mappedX, hx, rfl⟩

/-- What `dbTx.Query` returns once the transaction is closed. -/
def closedTxRows : BaseRows where
  resultReader := none
  multiResultReader := none
  values := []
  err := some (.query (.new "tx is closed"))
  closed := true

/-- The server refused the query before it described a row. -/
def refusedRows : BaseRows where
  resultReader := some
    { fieldDescriptions := []
      rows := []
      closeErr := some (.pgError
        { severity := ascii "ERROR", code := ascii "42501", message := ascii "permission denied for table t" }) }
  multiResultReader := none
  values := []
  err := none
  closed := false

end Pgx.Rows
