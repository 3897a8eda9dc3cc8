import Pgx.Rows.StructType

/-!
# The mapping of fields to columns

`computeStrictNamedStructFields` keeps, for each key, the field that was written last, and
ranges over what it kept. The order of the range cannot be seen in the result if the kept
fields have different columns; if two of them share one, the order decides which is dropped.
-/
namespace Pgx.Rows

open Pgx.Go Pgx.Wire List StrictStructRowField

variable {w : Bytes × StrictStructRowField} {fields l : List StrictStructRowField} {ord : RangeOrder}
    {sf : StrictStructRowField}

def fieldAtPath : List Nat → Struct → Option Field
  | [], _ => none
  | i :: path, t =>
    match t.at i with
    | some (.inl f) => if path = [] then some f else none
    | some (.inr (_, sub)) => fieldAtPath path sub
    | none => none

/-! ## The fields of the documentation

`If the "db" struct tag is "-" then the field is ignored`, and embedded structs are expanded
subject to Go's shadowing rules.
-/

/-- A struct on the path to the field is tagged `-`. -/
def Struct.ignores : Struct → List Nat → Bool
  | .embedded _ dbTag sub _, 0 :: path => tagName dbTag == some (ascii "-") || sub.ignores path
  | .field _ rest, (i + 1) :: path => rest.ignores (i :: path)
  | .embedded _ _ _ rest, (i + 1) :: path => rest.ignores (i :: path)
  | _, _ => false

/-- The names that Go's selectors find, each with its depth. -/
def Struct.names (depth : Nat) : Struct → List (Bytes × Nat)
  | .nil => []
  | .field f rest => (f.name, depth) :: rest.names depth
  | .embedded name _ sub rest => (name, depth) :: (sub.names (depth + 1) ++ rest.names depth)

/-- The field is not ignored, and no shallower field or struct has its name. -/
def Visible (t : Struct) (sf : StrictStructRowField) : Prop :=
  t.ignores sf.path = false ∧ ∀ n ∈ t.names 1, n.1 = sf.field.name → sf.depth ≤ n.2

instance (t : Struct) (sf : StrictStructRowField) : Decidable (Visible t sf) :=
    inferInstanceAs (Decidable (_ ∧ _))

section Writes

variable {S : Strings} {fldDescs : List FieldDescription}

theorem mem_ownWrites {t : Struct} {stack : List Nat} {i : Nat}
    (h : w ∈ ownWrites S fldDescs stack i t) :
    ∃ j f, t.at j = some (.inl f) ∧ w ∈ write S fldDescs (stack ++ [i + j]) f := by
  induction t generalizing i with
  | nil => cases h
  | field f rest ih =>
    rcases mem_append.mp h with h | h
    · exact ⟨0, f, rfl, h⟩
    · obtain ⟨j, g, hj, hw⟩ := ih h
      exact ⟨j + 1, g, hj, by rwa [show i + (j + 1) = i + 1 + j by omega]⟩
  | embedded name dbTag sub rest _ ih =>
    obtain ⟨j, g, hj, hw⟩ := ih h
    exact ⟨j + 1, g, hj, by rwa [show i + (j + 1) = i + 1 + j by omega]⟩

theorem mem_embeddedWrites {t : Struct} {stack : List Nat} {i : Nat}
    (h : w ∈ embeddedWrites S fldDescs stack i t) :
    ∃ j name sub path f, t.at j = some (.inr (name, sub)) ∧ fieldAtPath path sub = some f ∧
      w ∈ write S fldDescs (stack ++ (i + j) :: path) f := by
  induction t generalizing stack i with
  | nil => cases h
  | field f rest ih =>
    obtain ⟨j, name, sub, path, g, hj, hp, hw⟩ := ih h
    exact ⟨j + 1, name, sub, path, g, hj, hp, by rwa [show i + (j + 1) = i + 1 + j by omega]⟩
  | embedded name dbTag sub rest ihSub ihRest =>
    rcases mem_append.mp h with h | h
    · rcases mem_append.mp h with h | h
      · obtain ⟨j, name', sub', path, g, hj, hp, hw⟩ := ihSub h
        exact ⟨0, name, sub, j :: path, g, rfl, by rwa [fieldAtPath, hj], by simpa using hw⟩
      · obtain ⟨j, g, hj, hw⟩ := mem_ownWrites h
        exact ⟨0, name, sub, [j], g, rfl, by rw [fieldAtPath, hj]; rfl, by simpa using hw⟩
    · obtain ⟨j, name', sub', path, g, hj, hp, hw⟩ := ihRest h
      exact ⟨j + 1, name', sub', path, g, hj, hp, by rwa [show i + (j + 1) = i + 1 + j by omega]⟩

theorem mem_writes {t : Struct} (h : w ∈ writes S fldDescs t) :
    ∃ path f, fieldAtPath path t = some f ∧ w ∈ write S fldDescs path f := by
  rcases mem_append.mp h with h | h
  · obtain ⟨j, name, sub, path, f, hj, hp, hw⟩ := mem_embeddedWrites h
    exact ⟨j :: path, f, by rwa [fieldAtPath, hj], by simpa using hw⟩
  · obtain ⟨j, f, hj, hw⟩ := mem_ownWrites h
    exact ⟨[j], f, by rw [fieldAtPath, hj]; rfl, by simpa using hw⟩

theorem mem_write {path : List Nat} {f : Field} (h : w ∈ write S fldDescs path f) : w = (fieldKey S f,
      { path := path, field := f,
        columnIndex := fieldPosByNameCaseInsensitive S fldDescs f.colName f.normalize }) := by
  rw [write] at h
  split at h
  · cases h
  · exact mem_singleton.mp h

section

variable {t : Struct} (h : w ∈ writes S fldDescs t)

include h

theorem key_of_mem_writes : w.1 = fieldKey S w.2.field := by
  obtain ⟨path, f, _, hw⟩ := mem_writes h
  rw [mem_write hw]

/-- What is written at a path does not depend on when it is written. -/
theorem write_eq_of_path {w' : Bytes × StrictStructRowField}
    (h' : w' ∈ writes S fldDescs t) (hp : w.2.path = w'.2.path) : w = w' := by
  obtain ⟨path, f, hf, hw⟩ := mem_writes h
  obtain ⟨path', f', hf', hw'⟩ := mem_writes h'
  rw [mem_write hw, mem_write hw'] at hp ⊢
  subst hp
  rw [hf] at hf'
  cases hf'
  rfl

theorem columnIndex_lt {c : Nat} (hc : w.2.columnIndex = some c) : c < fldDescs.length := by
  obtain ⟨path, f, _, hw⟩ := mem_writes h
  rw [mem_write hw] at hc
  exact (findIdx?_eq_some_iff_findIdx_eq.mp hc).1

end

theorem key_eq {t : Struct} {k k' : Bytes} (h : (k, sf) ∈ writes S fldDescs t)
    (h' : (k', sf) ∈ writes S fldDescs t) :
    k = k' :=
  (key_of_mem_writes h).trans (key_of_mem_writes h').symm

end Writes

def kept (seen : List Nat) : List StrictStructRowField → List StrictStructRowField
  | [] => []
  | sf :: rest => if sf.column ∈ seen then kept seen rest else sf :: kept (sf.column :: seen) rest

theorem oneForEachColumn_ok (t : Struct) (h : ∀ sf ∈ l, sf.columnIndex ≠ none)
    (seen : List Nat) (result : List StrictStructRowField) :
    oneForEachColumn t seen result l = .ok (result ++ kept seen l) := by
  induction l generalizing seen result with
  | nil => simp [oneForEachColumn, kept]
  | cons sf rest ih =>
    have hrest := fun u hu => h u (.tail _ hu)
    obtain ⟨c, hc⟩ := Option.ne_none_iff_exists'.mp (h sf (.head _))
    have hcol : sf.column = c := by simp [column, hc]
    rw [oneForEachColumn, kept, hc, hcol]
    dsimp only
    by_cases hs : c ∈ seen
    · rw [if_pos hs, if_pos hs, ih hrest]
    · rw [if_neg hs, if_neg hs, ih hrest, append_assoc, singleton_append]

theorem oneForEachColumn_error (t : Struct) (h : ∃ sf ∈ l, sf.columnIndex = none)
    (seen : List Nat) (result : List StrictStructRowField) :
    ∃ e, oneForEachColumn t seen result l = .error e := by
  induction l generalizing seen result with
  | nil =>
    obtain ⟨sf, hsf, _⟩ := h
    cases hsf
  | cons u rest ih =>
    rw [oneForEachColumn]
    cases hu : u.columnIndex with
    | none => exact ⟨_, rfl⟩
    | some c =>
      have hrest : ∃ sf ∈ rest, sf.columnIndex = none := by
        obtain ⟨sf, hsf, hn⟩ := h
        rcases mem_cons.mp hsf with rfl | hsf
        · rw [hu] at hn
          cases hn
        · exact ⟨sf, hsf, hn⟩
      dsimp only
      split
      · exact ih hrest _ _
      · exact ih hrest _ _

theorem kept_subset {seen : List Nat} (h : sf ∈ kept seen l) : sf ∈ l ∧ sf.column ∉ seen := by
  induction l generalizing seen with
  | nil => cases h
  | cons u rest ih =>
    rw [kept] at h
    by_cases hu : u.column ∈ seen
    · rw [if_pos hu] at h
      exact ⟨.tail _ (ih h).1, (ih h).2⟩
    · rw [if_neg hu] at h
      rcases mem_cons.mp h with rfl | h
      · exact ⟨(.head _), hu⟩
      · exact ⟨.tail _ (ih h).1, fun hs => (ih h).2 (.tail _ hs)⟩

theorem kept_columns_nodup (seen : List Nat) (l : List StrictStructRowField) :
    ((kept seen l).map column).Nodup := by
  induction l generalizing seen with
  | nil => exact nodup_nil
  | cons u rest ih =>
    rw [kept]
    split
    · exact ih seen
    · rw [map_cons, nodup_cons]
      refine ⟨fun h => ?_, ih _⟩
      obtain ⟨v, hv, hc⟩ := mem_map.mp h
      exact (kept_subset hv).2 (hc ▸ (.head _))

theorem kept_of_columns_nodup (h : (l.map column).Nodup)
    {seen : List Nat} (hs : ∀ sf ∈ l, sf.column ∉ seen) : kept seen l = l := by
  induction l generalizing seen with
  | nil => rfl
  | cons u rest ih =>
    rw [map_cons, nodup_cons] at h
    rw [kept, if_neg (hs u (.head _)), ih h.2]
    intro sf hsf hm
    rcases mem_cons.mp hm with hc | hm
    · exact h.1 (hc ▸ mem_map_of_mem hsf)
    · exact hs sf (.tail _ hsf) hm

theorem sortByColumn_perm (l : List StrictStructRowField) : (sortByColumn l).Perm l :=
    perm_insertionSort _ l

theorem mem_sortByColumn : sf ∈ sortByColumn l ↔ sf ∈ l := (sortByColumn_perm l).mem_iff

theorem sortByColumn_pairwise (l : List StrictStructRowField) :
    (sortByColumn l).Pairwise fun a b => a.column ≤ b.column := by
  have : IsTrans StrictStructRowField fun a b => a.column ≤ b.column := ⟨fun _ _ _ => Nat.le_trans⟩
  have : Std.Total fun a b : StrictStructRowField => a.column ≤ b.column :=
    ⟨fun _ _ => Nat.le_total _ _⟩
  exact pairwise_insertionSort _ l

/-- With different columns, the sorted list does not depend on the order before. -/
theorem sortByColumn_eq_of_perm {l' : List StrictStructRowField} (hp : l.Perm l')
    (h : (l.map column).Nodup) : sortByColumn l = sortByColumn l' := by
  have hall : (sortByColumn l).Perm (sortByColumn l') :=
    (sortByColumn_perm l).trans (hp.trans (sortByColumn_perm l').symm)
  refine Perm.eq_of_pairwise ?_ (sortByColumn_pairwise l) (sortByColumn_pairwise l') hall
  intro a b ha hb hab hba
  have hb' : b ∈ l := hp.mem_iff.mpr (mem_sortByColumn.mp hb)
  exact inj_on_of_nodup_map h (mem_sortByColumn.mp ha) hb' (Nat.le_antisymm hab hba)

/-! ## The mapping -/

section Mapping

variable {S : Strings} {fldDescs : List FieldDescription} {t : Struct}

/-- The field that has the key once the struct has been walked. -/
def survivor (S : Strings) (fldDescs : List FieldDescription) (t : Struct) (k : Bytes) :
    Option StrictStructRowField :=
  lastWrite (writes S fldDescs t) k

/-- The fields as the loop over the map meets them. -/
def ranged (S : Strings) (ord : RangeOrder) (fldDescs : List FieldDescription) (t : Struct) :
    List StrictStructRowField :=
  (ord.order (fieldsByName S fldDescs t).entries).map Sigma.snd

theorem mem_ranged (ord : RangeOrder) : sf ∈ ranged S ord fldDescs t ↔
    ∃ k, survivor S fldDescs t k = some sf := by
  constructor
  · intro h
    obtain ⟨e, he, rfl⟩ := mem_map.mp h
    exact ⟨e.1, (mem_entries_foldl_insert _ _ _).mp ((ord.perm _).mem_iff.mp he)⟩
  · intro ⟨k, hk⟩
    exact mem_map.mpr ⟨⟨k, sf⟩, (ord.perm _).mem_iff.mpr ((mem_entries_foldl_insert _ _ _).mpr hk),
      rfl⟩

theorem ranged_perm (ord ord' : RangeOrder) :
    (ranged S ord fldDescs t).Perm (ranged S ord' fldDescs t) :=
  ((ord.perm _).trans (ord'.perm _).symm).map _

/-- What survives was written. -/
theorem survivor_mem {k : Bytes} (h : survivor S fldDescs t k = some sf) :
    (k, sf) ∈ writes S fldDescs t :=
  mem_of_lastWrite h

/-- Some field that would be mapped has no column. -/
def LacksColumn (S : Strings) (fldDescs : List FieldDescription) (t : Struct) : Prop :=
  ∃ k sf, survivor S fldDescs t k = some sf ∧ sf.columnIndex = none

def ColumnsApart (S : Strings) (fldDescs : List FieldDescription) (t : Struct) : Prop :=
  ∀ k k' sf sf', survivor S fldDescs t k = some sf → survivor S fldDescs t k' = some sf' →
    sf.columnIndex = sf'.columnIndex → k = k'

/-- Of the fields with one key, the walk meets none that is shallower than the last. -/
def ShallowestLast (S : Strings) (fldDescs : List FieldDescription) (t : Struct) : Prop :=
  ∀ k sf u, survivor S fldDescs t k = some sf → (k, u) ∈ writes S fldDescs t → sf.depth ≤ u.depth

/-- No field that should be mapped is written over. -/
def VisibleLast (S : Strings) (fldDescs : List FieldDescription) (t : Struct) : Prop :=
  ∀ w ∈ writes S fldDescs t, Visible t w.2 → survivor S fldDescs t w.1 = some w.2

theorem computeStrict_error (h : LacksColumn S fldDescs t) (ord : RangeOrder) :
    ∃ e, computeStrictNamedStructFields S ord fldDescs t = .error e := by
  obtain ⟨k, sf, hk, hn⟩ := h
  obtain ⟨e, he⟩ := oneForEachColumn_error t ⟨sf, (mem_ranged ord).mpr ⟨k, hk⟩, hn⟩ [] []
  refine ⟨e, ?_⟩
  rw [computeStrictNamedStructFields]
  rw [ranged] at he
  rw [he]

/-- With a column for every field the mapping is sorted by column. -/
theorem computeStrict_ok (h : ¬ LacksColumn S fldDescs t) (ord : RangeOrder) :
    computeStrictNamedStructFields S ord fldDescs t = .ok
      (sortByColumn (kept [] (ranged S ord fldDescs t))) := by
  have hall : ∀ sf ∈ ranged S ord fldDescs t, sf.columnIndex ≠ none := by
    intro sf hsf hn
    obtain ⟨k, hk⟩ := (mem_ranged ord).mp hsf
    exact h ⟨k, sf, hk, hn⟩
  have hok := oneForEachColumn_ok t hall [] []
  rw [nil_append, ranged] at hok
  rw [computeStrictNamedStructFields, hok]
  rfl

section

variable (h : computeStrictNamedStructFields S ord fldDescs t = .ok fields)

include h

/-- If the mapping is no error, every survivor has a column. -/
theorem not_lacksColumn : ¬ LacksColumn S fldDescs t := by
  intro hl
  obtain ⟨e, he⟩ := computeStrict_error hl ord
  rw [he] at h
  cases h

theorem survivor_of_mem (hsf : sf ∈ fields) : ∃ k, survivor S fldDescs t k = some sf := by
  rw [computeStrict_ok (not_lacksColumn h)] at h
  cases h
  exact (mem_ranged ord).mp (kept_subset (mem_sortByColumn.mp hsf)).1

theorem columnIndex_ne_none (hsf : sf ∈ fields) : sf.columnIndex ≠ none := by
  intro hn
  obtain ⟨k, hk⟩ := survivor_of_mem h hsf
  exact not_lacksColumn h ⟨k, sf, hk, hn⟩

end

/-- What the mapping should be: fixed by the type and the columns, with one field for each
column, no field where a shallower one has the key, and every visible field. An error is no
mapping. -/
structure MappingSound (S : Strings) (fldDescs : List FieldDescription) (t : Struct) : Prop where
  orderless : ∀ ord ord', (computeStrictNamedStructFields S ord fldDescs t).toOption =
    (computeStrictNamedStructFields S ord' fldDescs t).toOption
  onePerColumn : ∀ ord fields, computeStrictNamedStructFields S ord fldDescs t = .ok fields →
    (fields.map StrictStructRowField.columnIndex).Nodup
  shallowest : ∀ ord fields, computeStrictNamedStructFields S ord fldDescs t = .ok fields →
    ∀ k, ∀ sf ∈ fields, (k, sf) ∈ writes S fldDescs t → ∀ u, (k, u) ∈ writes S fldDescs t →
    sf.depth ≤ u.depth
  complete : ∀ ord fields, computeStrictNamedStructFields S ord fldDescs t = .ok fields →
    ∀ w ∈ writes S fldDescs t, Visible t w.2 → w.2 ∈ fields

theorem columns_nodup (h : ¬ LacksColumn S fldDescs t) (ha : ColumnsApart S fldDescs t)
    (ord : RangeOrder) :
    ((ranged S ord fldDescs t).map column).Nodup := by
  have hn : (ord.order (fieldsByName S fldDescs t).entries).Nodup :=
    (ord.perm _).nodup_iff.mpr (fieldsByName S fldDescs t).nodupKeys.nodup
  rw [ranged, map_map]
  refine hn.map_on ?_
  intro e he e' he' hc
  have hk := (mem_entries_foldl_insert _ _ _).mp ((ord.perm _).mem_iff.mp he)
  have hk' := (mem_entries_foldl_insert _ _ _).mp ((ord.perm _).mem_iff.mp he')
  have hsome : ∀ k sf, survivor S fldDescs t k = some sf → sf.columnIndex = some sf.column := by
    intro k sf hs
    cases hi : sf.columnIndex with
    | none => exact absurd ⟨k, sf, hs, hi⟩ h
    | some c => simp [column, hi]
  have hkey : e.1 = e'.1 := by
    refine ha e.1 e'.1 e.2 e'.2 hk hk' ?_
    rw [hsome _ _ hk, hsome _ _ hk']
    exact congrArg some hc
  have hval : e.2 = e'.2 := by
    rw [hkey, hk'] at hk
    exact (Option.some.inj hk).symm
  exact Sigma.ext hkey (heq_of_eq hval)

theorem mappingSound_of_lacksColumn (h : LacksColumn S fldDescs t) : MappingSound S fldDescs t := by
  have hno : ∀ ord fields, computeStrictNamedStructFields S ord fldDescs t ≠ .ok fields :=
    fun ord fields hok => not_lacksColumn hok h
  refine ⟨fun ord ord' => ?_, fun ord fields hok => absurd hok (hno ord fields),
    fun ord fields hok => absurd hok (hno ord fields), fun ord fields hok =>
      absurd hok (hno ord fields)⟩
  obtain ⟨e, he⟩ := computeStrict_error h ord
  obtain ⟨e', he'⟩ := computeStrict_error h ord'
  rw [he, he']
  rfl

def mapped (S : Strings) (ord : RangeOrder) (fldDescs : List FieldDescription) (t : Struct) :
    List StrictStructRowField :=
  sortByColumn (ranged S ord fldDescs t)

/-- The order of the range is of no account. -/
theorem mem_mapped (ord : RangeOrder) : sf ∈ mapped S ord fldDescs t ↔
    ∃ k, survivor S fldDescs t k = some sf := by
  rw [mapped, mem_sortByColumn, mem_ranged]

theorem mapped_columns_nodup (h : ¬ LacksColumn S fldDescs t) (ha : ColumnsApart S fldDescs t)
    (ord : RangeOrder) :
    ((mapped S ord fldDescs t).map column).Nodup :=
  ((sortByColumn_perm _).map _).nodup_iff.mpr (columns_nodup h ha ord)

/-- If no two keys lead to one column, the survivors are all mapped. -/
theorem computeStrict_of_apart (h : ¬ LacksColumn S fldDescs t) (ha : ColumnsApart S fldDescs t)
    (ord : RangeOrder) :
    computeStrictNamedStructFields S ord fldDescs t = .ok (mapped S ord fldDescs t) := by
  rw [mapped, computeStrict_ok h, kept_of_columns_nodup (columns_nodup h ha ord)]
  intro sf _ hm
  cases hm

theorem apart_of_all_mapped (h : computeStrictNamedStructFields S ord fldDescs t = .ok fields)
    (hall : ∀ k sf, survivor S fldDescs t k = some sf → sf ∈ fields) : ColumnsApart S fldDescs t := by
  rw [computeStrict_ok (not_lacksColumn h)] at h
  cases h
  intro k k' sf sf' hk hk' hc
  have hsame : sf = sf' := by
    refine inj_on_of_nodup_map (kept_columns_nodup [] _) (mem_sortByColumn.mp (hall k sf hk))
      (mem_sortByColumn.mp (hall k' sf' hk')) ?_
    rw [column, column, hc]
  subst hsame
  exact key_eq (survivor_mem hk) (survivor_mem hk')

theorem mappingSound_of_apart (h : ¬ LacksColumn S fldDescs t) (ha : ColumnsApart S fldDescs t)
    (hs : ShallowestLast S fldDescs t) (hv : VisibleLast S fldDescs t) :
    MappingSound S fldDescs t := by
  have hkept := computeStrict_of_apart h ha
  constructor
  · intro ord ord'
    rw [hkept ord, hkept ord', mapped, mapped,
      sortByColumn_eq_of_perm (ranged_perm ord ord') (columns_nodup h ha ord)]
  · intro ord fields hok
    rw [hkept ord] at hok
    cases hok
    refine Nodup.of_map (fun c => c.getD 0) ?_
    rw [map_map]
    exact mapped_columns_nodup h ha ord
  · intro ord fields hok k sf hsf hw u hu
    rw [hkept ord] at hok
    cases hok
    obtain ⟨k', hk'⟩ := (mem_mapped ord).mp hsf
    rw [key_eq (survivor_mem hk') hw] at hk'
    exact hs k sf u hk' hu
  · intro ord fields hok w hw hvis
    rw [hkept ord] at hok
    cases hok
    exact (mem_mapped ord).mpr ⟨w.1, hv w hw hvis⟩

/-- Some order of the range comes to a survivor first, so a mapping that no order changes
has it. -/
theorem MappingSound.survivor_kept (hm : MappingSound S fldDescs t) (h : ¬ LacksColumn S fldDescs t)
    {k : Bytes} (hk : survivor S fldDescs t k = some sf) :
    sf ∈ sortByColumn (kept [] (ranged S .listed fldDescs t)) := by
  obtain ⟨i, hi⟩ := getElem?_of_mem ((mem_ranged .listed).mpr ⟨k, hk⟩)
  have horder := hm.orderless .listed (.rotated i)
  rw [computeStrict_ok h, computeStrict_ok h] at horder
  have hsame := Option.some.inj horder
  have hrot : ranged S (.rotated i) fldDescs t = (ranged S .listed fldDescs t).rotate i :=
    map_rotate ..
  have hhead := head?_rotate (List.getElem?_eq_some_iff.mp hi).1
  rw [hi, ← hrot] at hhead
  rw [hsame, mem_sortByColumn]
  cases hl : ranged S (.rotated i) fldDescs t with
  | nil =>
    rw [hl] at hhead
    cases hhead
  | cons u rest =>
    rw [hl] at hhead
    cases hhead
    rw [kept, if_neg not_mem_nil]
    exact .head _

/-- The mapping is sound exactly if it is an error, or no two keys lead to one column, the
last field with a key is a shallowest one, and a visible field is the last one with its key. -/
theorem mappingSound_iff (S : Strings) (fldDescs : List FieldDescription) (t : Struct) :
    MappingSound S fldDescs t ↔
      LacksColumn S fldDescs t ∨
        (ColumnsApart S fldDescs t ∧ ShallowestLast S fldDescs t ∧ VisibleLast S fldDescs t) := by
  constructor
  · intro hm
    by_cases h : LacksColumn S fldDescs t
    · exact .inl h
    · have hok := computeStrict_ok h .listed
      refine .inr ⟨apart_of_all_mapped hok fun k sf hk => hm.survivor_kept h hk,
        fun k sf u hk hu => ?_,
        fun w hw hvis => ?_⟩
      · exact hm.shallowest .listed _ hok k sf (hm.survivor_kept h hk) (survivor_mem hk) u hu
      · obtain ⟨k, hk⟩ := survivor_of_mem hok (hm.complete .listed _ hok w hw hvis)
        rwa [key_eq (survivor_mem hk) hw] at hk
  · intro h
    by_cases hl : LacksColumn S fldDescs t
    · exact mappingSound_of_lacksColumn hl
    · rcases h with h | ⟨ha, hs, hv⟩
      · exact absurd h hl
      · exact mappingSound_of_apart hl ha hs hv

end Mapping

def asciiStrings : Strings where
  toLower s := s.map fun c => if 65 ≤ c ∧ c ≤ 90 then c + 32 else c
  equalFold a b :=
    (a.map fun c => if 65 ≤ c ∧ c ≤ 90 then c + 32 else c) ==
      b.map fun c => if 65 ≤ c ∧ c ≤ 90 then c + 32 else c

/-- An exported field of a kind such as `int`. -/
def plainField (name : String) (dbTag : Option String) : Field where
  name := ascii name
  exported := true
  anonymous := false
  dbTag := dbTag.map ascii
  kind := .other
  rowScanner := false
  notEmbedded := rfl

def textColumn (name : String) : FieldDescription where
  name := ascii name
  tableOID := 0
  tableAttributeNumber := 0
  dataTypeOID := 25
  dataTypeSize := -1
  typeModifier := -1
  format := 0

/-- `struct { X string "db:a_b"; AB string }` -/
def taggedAndPlain : Struct :=
  .field (plainField "X" (some "a_b")) (.field (plainField "AB" none) .nil)

/-- `struct { AB string; A_B string }` -/
def twoSpellings : Struct := .field (plainField "AB" none) (.field (plainField "A_B" none) .nil)

/-- `struct { B; C }` with `X` in `B`, and in a struct that `C` embeds. -/
def shallowThenDeep : Struct :=
  .embedded (ascii "B") none (.field (plainField "X" none) .nil)
    (.embedded (ascii "C") none
      (.embedded (ascii "D") none (.field (plainField "X" none) .nil) .nil) .nil)

def mappedPaths (ord : RangeOrder) (fldDescs : List FieldDescription) (t : Struct) :
    Option (List (List Nat)) :=
  (computeStrictNamedStructFields asciiStrings ord fldDescs t).toOption.map
    (map StrictStructRowField.path)

theorem MappingSound.mem_mappedPaths {fldDescs : List FieldDescription} {t : Struct}
    (h : MappingSound asciiStrings fldDescs t) (paths : List (List Nat))
    (hp : mappedPaths .listed fldDescs t = some paths) {i : Nat}
    (hw : (writes asciiStrings fldDescs t)[i]? = some w) (hv : Visible t w.2) : w.2.path ∈ paths := by
  obtain ⟨fields, hf, rfl⟩ := Option.map_eq_some_iff.mp hp
  cases hc : computeStrictNamedStructFields asciiStrings .listed fldDescs t with
  | error e =>
    rw [hc] at hf
    cases hf
  | ok fields' =>
    rw [hc] at hf
    cases hf
    exact mem_map_of_mem (h.complete .listed _ hc w (mem_of_getElem? hw) hv)

/-- One column, two fields: which of them is set depends on the order of the range. Two
spellings of one key: the first is not set. And a field two structs deep takes the place of
one that is a struct deep, since it is met later. -/
theorem mapping_unsound : ¬ MappingSound asciiStrings [textColumn "a_b"] taggedAndPlain ∧
      ¬ MappingSound asciiStrings [textColumn "ab"] twoSpellings ∧
      ¬ MappingSound asciiStrings [textColumn "x"] shallowThenDeep := by
  refine ⟨fun h => ?_, fun h => ?_, fun h => ?_⟩
  · have horder :=
      congrArg (Option.map (map StrictStructRowField.path)) (h.orderless .listed .reversed)
    revert horder
    decide
  · have hmem := h.mem_mappedPaths [[1]] (by decide) (i := 0) rfl (by decide)
    exact absurd hmem (by decide)
  · have hmem := h.mem_mappedPaths [[1, 0, 0]] (by decide) (i := 0) rfl (by decide)
    exact absurd hmem (by decide)

end Pgx.Rows
