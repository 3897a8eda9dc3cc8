import Mathlib.Data.Set.Function
import Pgx.Rows.ToStructs

/-!
# RowToStructByName

The fields are walked once and each is written to the place of the column it finds. A second
field that finds the same column takes the place of the first, and nothing is said about it.
The fields of a struct that is embedded with the tag `-` are walked like all others.
-/
namespace Pgx.Rows

open Pgx.Go Pgx.Wire List

def foundAt (S : Strings) (fldDescs : List FieldDescription) (nf : NamedField) : Option Nat :=
  fieldPosByName S fldDescs nf.field.colName nf.field.normalize

/-- The field that a column is left with: the last one that finds it. -/
def lastAt (S : Strings) (fldDescs : List FieldDescription) (nfs : List NamedField) (c : Nat) :
    Option NamedField :=
  nfs.reverse.find? fun nf => foundAt S fldDescs nf == some c

/-- The fields that the documentation has for a struct. -/
def documented (t : Struct) : List NamedField :=
    (namedFields [] 0 t).filter fun nf => !t.ignores nf.path

theorem mem_documented {t : Struct} {nf : NamedField} :
    nf ∈ documented t ↔ nf ∈ namedFields [] 0 t ∧ t.ignores nf.path = false := by
  simp [documented]

section Walk

variable {S : Strings} {fldDescs : List FieldDescription}

theorem namedFields_at {t : Struct} {stack : List Nat} {i : Nat} {nf : NamedField}
    (h : nf ∈ namedFields stack i t) :
    ∃ j path, nf.path = stack ++ (i + j) :: path ∧ fieldAtPath (j :: path) t = some nf.field := by
  induction t generalizing stack i with
  | nil => cases h
  | field f rest ih =>
    rcases mem_append.mp h with h | h
    · split at h
      · cases h
      · obtain rfl := mem_singleton.mp h
        exact ⟨0, [], rfl, rfl⟩
    · obtain ⟨j, path, hp, hf⟩ := ih h
      exact ⟨j + 1, path, by rw [hp, Nat.add_assoc, Nat.add_comm 1 j], hf⟩
  | embedded name dbTag sub rest ihSub ihRest =>
    rcases mem_append.mp h with h | h
    · obtain ⟨j, path, hp, hf⟩ := ihSub h
      exact ⟨0, j :: path, by simp [hp], hf⟩
    · obtain ⟨j, path, hp, hf⟩ := ihRest h
      exact ⟨j + 1, path, by rw [hp, Nat.add_assoc, Nat.add_comm 1 j], hf⟩

/-- A path leads to one field. -/
theorem namedField_eq_of_path {t : Struct} {nf nf' : NamedField} (h : nf ∈ namedFields [] 0 t)
    (h' : nf' ∈ namedFields [] 0 t) (hp : nf.path = nf'.path) : nf = nf' := by
  have hat : ∀ u ∈ namedFields [] 0 t, fieldAtPath u.path t = some u.field := by
    intro u hu
    obtain ⟨j, path, hj, hf⟩ := namedFields_at hu
    rwa [hj, nil_append, Nat.zero_add]
  have hf := hat nf h
  rw [hp, hat nf' h'] at hf
  obtain ⟨path, f⟩ := nf
  cases hp
  cases hf
  rfl

theorem lastAt_append (nfs : List NamedField) (nf : NamedField) (c : Nat) :
    lastAt S fldDescs (nfs ++ [nf]) c = if foundAt S fldDescs nf =
      some c then some nf else lastAt S fldDescs nfs c := by
  rw [lastAt, reverse_append, reverse_singleton, singleton_append, find?_cons]
  by_cases h : foundAt S fldDescs nf = some c
  · simp [h]
  · rw [if_neg h, beq_false_of_ne h]
    rfl

theorem lastAt_some {nfs : List NamedField} {nf : NamedField} {c : Nat}
    (h : lastAt S fldDescs nfs c = some nf) :
    nf ∈ nfs ∧ foundAt S fldDescs nf = some c :=
  ⟨mem_reverse.mp (mem_of_find?_eq_some h), by simpa using find?_some h⟩

theorem foundAt_lt {nf : NamedField} {c : Nat} (h : foundAt S fldDescs nf = some c) :
    c < fldDescs.length :=
  (findIdx?_eq_some_iff_findIdx_eq.mp h).1

/-- What the walk knows after the fields `seen`. -/
structure Walked (S : Strings) (fldDescs : List FieldDescription) (seen : List NamedField)
    (st : NamedStructFields) :
    Prop where
  fields : st.fields = (range fldDescs.length).map (lastAt S fldDescs seen)
  missing : st.missingField = [] → ∀ nf ∈ seen, foundAt S fldDescs nf = none → nf.field.colName = []

section

variable {seen : List NamedField} {st : NamedStructFields} (h : Walked S fldDescs seen st)

include h

theorem Walked.visit (nf : NamedField) : Walked S fldDescs (seen ++ [nf])
    (st.visit S fldDescs nf) := by
  have hlast : ∀ c, lastAt S fldDescs (seen ++ [nf]) c = _ := lastAt_append seen nf
  cases hf : foundAt S fldDescs nf with
  | none =>
    have hv : st.visit S fldDescs nf =
        if st.missingField = [] then { st with missingField := nf.field.colName } else st := by
      rw [NamedStructFields.visit]
      rw [foundAt] at hf
      rw [hf]
    have hsame : lastAt S fldDescs (seen ++ [nf]) = lastAt S fldDescs seen := by
      funext c
      rw [hlast, hf, if_neg (by simp)]
    rw [hv]
    split
    · next hm =>
      refine ⟨by rw [hsame]; exact h.fields, fun hn u hu hnone => ?_⟩
      rcases mem_append.mp hu with hu | hu
      · exact h.missing hm u hu hnone
      · obtain rfl := mem_singleton.mp hu
        exact hn
    · next hm => exact ⟨by rw [hsame]; exact h.fields, fun hn => absurd hn hm⟩
  | some fpos =>
    have hv : st.visit S fldDescs nf = { st with fields := st.fields.set fpos (some nf) } := by
      rw [NamedStructFields.visit]
      rw [foundAt] at hf
      rw [hf]
    rw [hv]
    refine ⟨?_, fun hn u hu hnone => ?_⟩
    · dsimp only
      rw [h.fields]
      refine ext_getElem (by simp) fun c _ _ => ?_
      simp only [getElem_set, getElem_map, getElem_range, hlast, hf, Option.some.injEq]
    · rcases mem_append.mp hu with hu | hu
      · exact h.missing hn u hu hnone
      · obtain rfl := mem_singleton.mp hu
        rw [hf] at hnone
        cases hnone

theorem Walked.foldl (nfs : List NamedField) :
    Walked S fldDescs (seen ++ nfs) (nfs.foldl (.visit S fldDescs) st) := by
  induction nfs generalizing seen st with
  | nil => simpa using h
  | cons nf nfs ih =>
    rw [foldl_cons, append_cons]
    exact ih (h.visit nf)

end

theorem walked (S : Strings) (fldDescs : List FieldDescription) (t : Struct) :
    Walked S fldDescs (namedFields [] 0 t) (computeNamedStructFields S fldDescs t) := by
  have hstart : Walked S fldDescs []
      { fields := fldDescs.map fun _ => none, missingField := [] } := by
    refine ⟨?_, by simp⟩
    refine ext_getElem (by simp) fun c _ _ => ?_
    simp [lastAt]
  exact hstart.foldl (namedFields [] 0 t)

end Walk

theorem firstUnused_none {fields : List (Option NamedField)} {fldDescs : List FieldDescription}
    (hlen : fields.length = fldDescs.length) (h : firstUnused fields fldDescs = none) {c : Nat}
    (hc : c < fields.length) :
    ∃ nf, fields[c]? = some (some nf) := by
  induction fields generalizing fldDescs c with
  | nil => simp at hc
  | cons f fields ih =>
    obtain _ | ⟨fd, fds⟩ := fldDescs
    · cases hlen
    cases f with
    | none => cases h
    | some nf =>
      cases c with
      | zero => exact ⟨nf, rfl⟩
      | succ c => exact ih (Nat.succ.inj hlen) h (Nat.lt_of_succ_lt_succ hc)

section

variable {V : Type} {env : Scanner V} {S : Strings} {t : Struct}
    {fldDescs : List FieldDescription} {values : Row}
  {value : List (List Nat × V)}

theorem rowToStructByName_scanned
    (h : rowToStructByName env S false t fldDescs values = .scanned value) :
    firstUnused (computeNamedStructFields S fldDescs t).fields fldDescs = none ∧
      (computeNamedStructFields S fldDescs t).missingField = [] ∧
      scan env fldDescs values ((computeNamedStructFields S fldDescs t).fields.filterMap id) =
        .ok value := by
  rw [rowToStructByName] at h
  split at h
  · cases h
  · next hu =>
    split at h
    · cases h
    · next hm =>
      split at h
      · split at h
        · cases h
        · next hs =>
          cases h
          exact ⟨hu, by simpa using hm, hs⟩
      · cases h

/-- The fields of the documentation and the columns correspond, and each field was set. -/
structure NamedBijection (S : Strings) (fldDescs : List FieldDescription) (t : Struct)
    (value : List (List Nat × V)) :
    Prop where
  bijOn : Set.BijOn (foundAt S fldDescs) {nf | nf ∈ documented t}
    {c | ∃ i < fldDescs.length, c = some i}
  isSet : ∀ nf ∈ documented t, nf.path ∈ value.map Prod.fst

/-- If the scan succeeds, the fields that were set are those that the columns are left with,
and each column has one. -/
theorem scanned_iff (h : rowToStructByName env S false t fldDescs values = .scanned value) :
    (∀ path, path ∈ value.map Prod.fst ↔
      ∃ c < fldDescs.length, ∃ nf, lastAt S fldDescs (namedFields [] 0 t) c = some nf ∧
      nf.path = path) ∧
    ∀ c < fldDescs.length, ∃ nf, lastAt S fldDescs (namedFields [] 0 t) c = some nf := by
  have hfields := (walked S fldDescs t).fields
  obtain ⟨hu, _, hs⟩ := rowToStructByName_scanned h
  rw [hfields] at hu hs
  constructor
  · intro path
    rw [scan_paths hs]
    simp only [mem_map, mem_filterMap, mem_range, id, exists_exists_and_eq_and]
    constructor
    · rintro ⟨nf, ⟨c, hc, hl⟩, hp⟩
      exact ⟨c, hc, nf, hl, hp⟩
    · rintro ⟨c, hc, nf, hl, hp⟩
      exact ⟨nf, ⟨c, hc, hl⟩, hp⟩
  · intro c hc
    obtain ⟨nf, hnf⟩ := firstUnused_none (by simp) hu (c := c) (by simpa using hc)
    exact ⟨nf, by simpa [hc] using hnf⟩

/-- A scan that succeeds is along a bijection exactly if no two fields find one column, no
field with an empty name is missing (its name is what stands for none missing), and no column
is left with a field of an ignored struct. -/
theorem rowToStructByName_bijection_iff (env : Scanner V) (S : Strings) (t : Struct)
    (fldDescs : List FieldDescription) (values : Row) (value : List (List Nat × V))
    (h : rowToStructByName env S false t fldDescs values = .scanned value) :
    NamedBijection S fldDescs t value ↔
      (∀ nf ∈ documented t, ∀ nf' ∈ documented t, ∀ c,
        foundAt S fldDescs nf = some c → foundAt S fldDescs nf' = some c → nf = nf') ∧
      (∀ nf ∈ documented t, nf.field.colName = [] → foundAt S fldDescs nf ≠ none) ∧
      ∀ c nf, lastAt S fldDescs (namedFields [] 0 t) c = some nf → t.ignores nf.path = false := by
  obtain ⟨hset, hused⟩ := scanned_iff h
  constructor
  · rintro ⟨⟨hmaps, hinj, hsurj⟩, hisSet⟩
    refine ⟨fun nf hnf nf' hnf' c hc hc' => hinj hnf hnf' (hc.trans hc'.symm),
      fun nf hnf _ hnone => ?_,
      fun c nf hlast => ?_⟩
    · obtain ⟨i, _, hi⟩ := hmaps hnf
      rw [hnone] at hi
      cases hi
    · -- The field of the documentation that finds the column was set, so it is the last.
      obtain ⟨_, hfound⟩ := lastAt_some hlast
      obtain ⟨d, hd, hdc⟩ := hsurj ⟨c, foundAt_lt hfound, rfl⟩
      obtain ⟨c', _, v, hv, hp⟩ := (hset d.path).mp (hisSet d hd)
      obtain rfl := namedField_eq_of_path (lastAt_some hv).1 (mem_documented.mp hd).1 hp
      have hcc := (lastAt_some hv).2
      rw [hdc] at hcc
      cases hcc
      rw [hlast] at hv
      cases hv
      exact (mem_documented.mp hd).2
  · rintro ⟨happart, hempty, hlast⟩
    have hfound : ∀ nf ∈ documented t, ∃ c, foundAt S fldDescs nf = some c := by
      intro nf hnf
      refine Option.ne_none_iff_exists'.mp fun hnone => ?_
      have hname := (walked S fldDescs t).missing (rowToStructByName_scanned h).2.1 nf
          (mem_documented.mp hnf).1 hnone
      exact hempty nf hnf hname hnone
    have hleft : ∀ c nf, lastAt S fldDescs (namedFields [] 0 t) c = some nf → nf ∈ documented t :=
      fun c nf hl => mem_documented.mpr ⟨(lastAt_some hl).1, hlast c nf hl⟩
    refine ⟨⟨?_, ?_, ?_⟩, ?_⟩
    · intro nf hnf
      obtain ⟨c, hc⟩ := hfound nf hnf
      exact ⟨c, foundAt_lt hc, hc⟩
    · intro nf hnf nf' hnf' heq
      obtain ⟨c, hc⟩ := hfound nf hnf
      exact happart nf hnf nf' hnf' c hc (heq ▸ hc)
    · rintro _ ⟨c, hc, rfl⟩
      obtain ⟨nf, hnf⟩ := hused c hc
      exact ⟨nf, hleft c nf hnf, (lastAt_some hnf).2⟩
    · intro nf hnf
      obtain ⟨c, hc⟩ := hfound nf hnf
      obtain ⟨nf', hnf'⟩ := hused c (foundAt_lt hc)
      rw [happart nf hnf nf' (hleft c nf' hnf') c hc (lastAt_some hnf').2]
      exact (hset nf'.path).mpr ⟨c, foundAt_lt hc, nf', hnf', rfl⟩

end

/-- One field and its column. -/
theorem rowToStructByName_bijection_sample :
    rowToStructByName textScanner asciiStrings false structX [textColumn "x"] [some (ascii "a")] =
        .scanned [([0], some (ascii "a"))] ∧
      NamedBijection asciiStrings [textColumn "x"] structX [([0], some (ascii "a"))] := by
  refine ⟨rfl, (rowToStructByName_bijection_iff textScanner asciiStrings structX [textColumn "x"]
    [some (ascii "a")] _ rfl).mpr ⟨?_, by decide, fun c nf hlast => ?_⟩⟩
  · have hone : documented structX = [{ path := [0], field := plainField "X" none }] := by decide
    intro nf hnf nf' hnf' c _ _
    rw [hone, mem_singleton] at hnf hnf'
    rw [hnf, hnf']
  · have hone : namedFields [] 0 structX = [{ path := [0], field := plainField "X" none }] := rfl
    have hmem := (lastAt_some hlast).1
    rw [hone, mem_singleton] at hmem
    rw [hmem]
    rfl

/-- `struct { X string "db:" }`, with the empty name as its tag. -/
def emptyTag : Struct := .field (plainField "X" (some "")) .nil

/-- `struct { A string; Inner "db:-" }` with `B` in `Inner`. -/
def ignoredInner : Struct :=
  .field (plainField "A" none)
    (.embedded (ascii "Inner") (some (ascii "-")) (.field (plainField "B" none) .nil) .nil)

/-- The second of two fields with one column is set and the first is not; a field whose name
is empty is not missed; and a column goes to a field of a struct that should be ignored. -/
theorem rowToStructByName_not_bijection :
    (rowToStructByName textScanner asciiStrings false twoSpellings [textColumn "ab"]
      [some (ascii "a")] =
        .scanned [([1], some (ascii "a"))] ∧
      ¬ NamedBijection asciiStrings [textColumn "ab"] twoSpellings [([1], some (ascii "a"))]) ∧
    rowToStructByName textScanner asciiStrings false emptyTag [] [] = .scanned [] ∧
      ¬ NamedBijection asciiStrings [] emptyTag ([] : List (List Nat × Option Bytes)) ∧
    rowToStructByName textScanner asciiStrings false ignoredInner [textColumn "a", textColumn "b"]
        [some (ascii "a"), some (ascii "b")] = .scanned
          [([0], some (ascii "a")), ([1, 0], some (ascii "b"))] ∧
      ¬ NamedBijection asciiStrings [textColumn "a", textColumn "b"] ignoredInner
        [([0], some (ascii "a")), ([1, 0], some (ascii "b"))] := by
  refine ⟨⟨rfl, fun h => ?_⟩, rfl, fun h => ?_, rfl, fun h => ?_⟩
  · have := h.isSet { path := [0], field := plainField "AB" none } (by decide)
    simp at this
  · have := h.isSet { path := [0], field := plainField "X" (some "") } (by decide)
    simp at this
  · obtain ⟨d, hd, hb⟩ := h.bijOn.surjOn ⟨1, by decide, rfl⟩
    have hone : documented ignoredInner = [{ path := [0], field := plainField "A" none }] := by decide
    obtain rfl := mem_singleton.mp (hone ▸ hd)
    revert hb
    decide

end Pgx.Rows
