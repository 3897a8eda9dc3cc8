import Pgx.Rows.BaseRows
import Pgx.Rows.Mapping

/-!
# The caches of mappings

`lookupNamedStructFields` and `lookupStrictNamedStructFields` look into a `sync.Map` first, under
the type and the column names joined by NUL bytes. While a call computes, other calls may store.
-/
namespace Pgx.Rows

open Pgx.Go Pgx.Wire List

def joinFieldNames : List FieldDescription → Bytes
  | [] => []
  | [d] => d.name
  | d :: ds => d.name ++ ds.flatMap fun d => 0 :: d.name

/-- `namedStructFieldsKey` and `strictNamedStructFieldsKey` -/
abbrev FieldsKey (T : Type) : Type := T × Bytes

/-- A type and the columns, and the order in which the call ranges over its own map. -/
structure Lookup (T : Type) where
  t : T
  fldDescs : List FieldDescription
  ord : RangeOrder

namespace Lookup

variable {T : Type}

def key (c : Lookup T) : FieldsKey T := (c.t, joinFieldNames c.fldDescs)

def names (c : Lookup T) : List Bytes := c.fldDescs.map (·.name)

/-- Column names as PostgreSQL has them. -/
def Valid (c : Lookup T) : Prop := ∀ name ∈ c.names, name ≠ [] ∧ 0 ∉ name

end Lookup

section Cache

variable {T E R : Type} [DecidableEq T] (compute : Lookup T → Except E R)

/-- A lookup that loads from one map and, with `LoadOrStore`, stores to what the map has become
since. -/
def lookupCached (loaded stored : Map (FieldsKey T) R) (c : Lookup T) :
    Except E R × Map (FieldsKey T) R :=
  match loaded.lookup c.key, compute c, stored.lookup c.key with
  | some cached, _, _ => (.ok cached, stored)
  | none, .error e, _ => (.error e, stored)
  | none, .ok _, some cached => (.ok cached, stored)
  | none, .ok r, none => (.ok r, stored.insert c.key r)

/-- The map after calls in the order in which they store, each with the map that it has loaded from.
-/
def cacheAfter (calls : List (Map (FieldsKey T) R × Lookup T)) : Map (FieldsKey T) R :=
  calls.foldl (fun m call => (lookupCached compute call.1 m call.2).2) ∅

/-- What a call returns that loads after the calls `before`, and stores when those `between` have
stored too. -/
def lookupAfter (before between : List (Map (FieldsKey T) R × Lookup T))
    (c : Lookup T) : Except E R :=
  (lookupCached compute (cacheAfter compute before) (cacheAfter compute (before ++ between)) c).1

end Cache

variable {T : Type} (S : Strings) (structOf : T → Struct)

/-- `lookupNamedStructFields` without its cache -/
def namedStructFields (c : Lookup T) : Except ByNameError NamedStructFields :=
  let named := computeNamedStructFields S c.fldDescs (structOf c.t)
  match firstUnused named.fields c.fldDescs with
  | some column => .error (.noField column)
  | none => .ok named

/-- `lookupStrictNamedStructFields` without its cache -/
def strictNamedStructFields (c : Lookup T) : Except NoColumnError (List StrictStructRowField) :=
  computeStrictNamedStructFields S c.ord c.fldDescs (structOf c.t)

def lookupNamedStructFields [DecidableEq T] := lookupAfter (namedStructFields S structOf)

def lookupStrictNamedStructFields [DecidableEq T] := lookupAfter (strictNamedStructFields S structOf)

theorem joinFieldNames_eq : ∀ ds : List FieldDescription,
    joinFieldNames ds = [0].intercalate (ds.map (·.name))
  | [] => rfl
  | [d] => by simp [joinFieldNames]
  | [d, e] => by simp [joinFieldNames, intercalate_cons_cons]
  | d :: e :: f :: ds => by
    have ih := joinFieldNames_eq (e :: f :: ds)
    rw [map_cons, map_cons, intercalate_cons_cons, ← map_cons, ← ih]
    simp [joinFieldNames]

theorem names_eq_split {names : List Bytes} (h : ∀ name ∈ names, name ≠ [] ∧ 0 ∉ name) :
    names = if [0].intercalate names = [] then [] else splitOn 0 ([0].intercalate names) := by
  cases names with
  | nil => rfl
  | cons name names =>
    have hne : [0].intercalate (name :: names) ≠ [] := by
      have hname := (h name (.head _)).1
      cases names <;> simp [intercalate_cons_cons, hname]
    rw [if_neg hne, splitOn_intercalate 0 (fun l hl => (h l hl).2) (cons_ne_nil _ _)]

theorem Lookup.names_of_key {c d : Lookup T} (hc : c.Valid) (hd : d.Valid) (h : c.key = d.key) :
    c.t = d.t ∧ c.names = d.names := by
  obtain ⟨ht, hjoin⟩ := Prod.mk.inj h
  rw [joinFieldNames_eq, joinFieldNames_eq] at hjoin
  change [0].intercalate c.names = [0].intercalate d.names at hjoin
  exact ⟨ht, by rw [names_eq_split hc, hjoin, ← names_eq_split hd]⟩

section Names

variable {S} {ds es : List FieldDescription} (h : ds.map (·.name) = es.map (·.name))

include h

theorem findIdx?_names (p : Bytes → Bool) : ds.findIdx?
    (fun d => p d.name) = es.findIdx? fun d => p d.name := by
  have := congrArg (findIdx? p) h
  rwa [findIdx?_map, findIdx?_map] at this

theorem computeNamed_names (t : Struct) :
    computeNamedStructFields S ds t = computeNamedStructFields S es t := by
  have hvisit : NamedStructFields.visit S ds = NamedStructFields.visit S es := by
    funext st nf
    have hpos : fieldPosByName S ds nf.field.colName nf.field.normalize = fieldPosByName S es _ _ :=
      findIdx?_names h fun name =>
        if nf.field.normalize then S.equalFold (withoutUnderscores name) _ else name == _
    rw [NamedStructFields.visit, hpos]
    rfl
  have hlen : ds.length = es.length := by simpa using congrArg length h
  rw [computeNamedStructFields, hvisit, map_const', hlen, ← map_const']
  rfl

theorem firstUnused_names (fields : List (Option NamedField)) :
    firstUnused fields ds = firstUnused fields es := by
  induction fields generalizing ds es with
  | nil => rfl
  | cons f fields ih =>
    cases ds with
    | nil => rw [map_eq_nil_iff.mp h.symm]
    | cons d ds =>
      cases es with
      | nil => cases h
      | cons e es =>
        obtain ⟨hname, hrest⟩ := cons.inj h
        cases f with
        | none => exact congrArg some hname
        | some nf => exact ih hrest

theorem writes_names (stack : List Nat) (i : Nat) (t : Struct) :
    ownWrites S ds stack i t = ownWrites S es stack i t ∧
      embeddedWrites S ds stack i t = embeddedWrites S es stack i t := by
  induction t generalizing stack i with
  | nil => exact ⟨rfl, rfl⟩
  | field f rest ih =>
    have hpos : fieldPosByNameCaseInsensitive S ds f.colName f.normalize =
        fieldPosByNameCaseInsensitive S es _ _ :=
      findIdx?_names h fun name =>
        S.toLower (if f.normalize then withoutUnderscores name else name) == _
    refine ⟨?_, (ih stack (i + 1)).2⟩
    rw [ownWrites, ownWrites, write, write, hpos, (ih stack (i + 1)).1]
  | embedded name dbTag sub rest ihsub ih =>
    refine ⟨(ih stack (i + 1)).1, ?_⟩
    rw [embeddedWrites, embeddedWrites, (ihsub _ 0).1, (ihsub _ 0).2, (ih stack (i + 1)).2]

theorem computeStrict_names (ord : RangeOrder) (t : Struct) :
    computeStrictNamedStructFields S ord ds t = computeStrictNamedStructFields S ord es t := by
  have hwrites : writes S ds t = writes S es t := by
    rw [writes, writes, (writes_names h _ _ t).1, (writes_names h _ _ t).2]
  rw [computeStrictNamedStructFields, fieldsByName, hwrites]
  rfl

end Names

section Histories

variable {T E R : Type} [DecidableEq T] {compute : Lookup T → Except E R}
    {m loaded stored : Map (FieldsKey T) R}
  {c : Lookup T}

/-- Every mapping in the cache was computed by a call with its key. -/
def Computed (compute : Lookup T → Except E R) (m : Map (FieldsKey T) R) : Prop :=
  ∀ key r, m.lookup key = some r → ∃ c : Lookup T, c.Valid ∧ c.key = key ∧ compute c = .ok r

theorem Computed.lookupCached (h : Computed compute m) (hc : c.Valid) :
    Computed compute (lookupCached compute loaded m c).2 := by
  unfold Rows.lookupCached
  split
  · exact h
  · exact h
  · exact h
  · next r _ hr _ =>
    intro key r' hkey
    by_cases hsame : key = c.key
    · rw [hsame, AList.lookup_insert] at hkey
      cases hkey
      exact ⟨c, hc, hsame.symm, hr⟩
    · rw [AList.lookup_insert_ne hsame] at hkey
      exact h key r' hkey

theorem computed_cacheAfter {calls : List (Map (FieldsKey T) R × Lookup T)}
    (h : ∀ call ∈ calls, call.2.Valid) :
    Computed compute (cacheAfter compute calls) := by
  induction calls using reverseRecOn with
  | nil =>
    intro key r hkey
    cases hkey
  | append_singleton calls call ih =>
    rw [cacheAfter, foldl_append]
    exact (ih fun x hx => h x (mem_append_left _ hx)).lookupCached (h call (by simp))

theorem lookupAfter_computes {before between : List (Map (FieldsKey T) R × Lookup T)}
    (hnames : ∀ c d : Lookup T, c.t = d.t → c.names = d.names → compute c = compute { d with ord := c.ord })
    (h : ∀ call ∈ before ++ between, call.2.Valid) (hc : c.Valid) :
    ∃ ord, lookupAfter compute before between c = compute { c with ord := ord } := by
  have hcached : ∀ {m : Map (FieldsKey T) R} {r : R}, Computed compute m → m.lookup c.key = some r →
      ∃ ord, .ok r = compute { c with ord := ord } := by
    intro m r hm hr
    obtain ⟨d, hd, hkey, hok⟩ := hm _ _ hr
    obtain ⟨ht, hsame⟩ := Lookup.names_of_key hd hc hkey
    exact ⟨d.ord, by rw [← hnames d c ht hsame, hok]⟩
  unfold lookupAfter lookupCached
  split
  · next hr => exact hcached (computed_cacheAfter fun call hcall => h call (mem_append_left _ hcall)) hr
  · next hcompute => exact ⟨c.ord, hcompute.symm⟩
  · next hr => exact hcached (computed_cacheAfter h) hr
  · next hcompute _ => exact ⟨c.ord, hcompute.symm⟩

end Histories

/-- After any calls, and with any calls while it computes, a lookup returns what it could have
computed. -/
theorem lookup_after_calls [DecidableEq T] {c : Lookup T} (hc : c.Valid) :
    (∀ before between, (∀ call ∈ before ++ between, call.2.Valid) →
      lookupNamedStructFields S structOf before between c = namedStructFields S structOf c) ∧
    ∀ before between, (∀ call ∈ before ++ between, call.2.Valid) → ∃ ord,
      lookupStrictNamedStructFields S structOf before between c =
        strictNamedStructFields S structOf { c with ord := ord } := by
  constructor
  · intro before between h
    have hnames : ∀ c d : Lookup T, c.t = d.t → c.names = d.names →
        namedStructFields S structOf c = namedStructFields S structOf { d with ord := c.ord } := by
      intro c d ht hsame
      simp only [namedStructFields, ht, computeNamed_names hsame, firstUnused_names hsame]
    obtain ⟨_, hret⟩ := lookupAfter_computes hnames h hc
    exact hret
  · intro before between h
    refine lookupAfter_computes (fun c d ht hsame => ?_) h hc
    simp only [strictNamedStructFields, ht, computeStrict_names hsame]

/-- Two types and two lists of columns: what was kept for the others is not given out. -/
theorem lookup_after_calls_again :
    lookupNamedStructFields asciiStrings
      (fun tagged : Bool => if tagged then taggedAndPlain else twoSpellings)
        [(∅, ⟨true, [textColumn "a_b"], .listed⟩),
          (∅, ⟨false, [textColumn "ab", textColumn "x"], .listed⟩),
          (∅, ⟨false, [textColumn "a_b"], .reversed⟩)] []
            ⟨true, [textColumn "ab", textColumn "x"], .reversed⟩ =
      namedStructFields asciiStrings (fun tagged => if tagged then taggedAndPlain else twoSpellings)
        ⟨true, [textColumn "ab", textColumn "x"], .reversed⟩ := by
  have hone : ∀ (tagged : Bool) ord, Lookup.Valid ⟨tagged, [textColumn "a_b"], ord⟩ := by
    intro tagged ord
    show ∀ name ∈ [ascii "a_b"], name ≠ [] ∧ 0 ∉ name
    decide
  have htwo : ∀ (tagged : Bool) ord, Lookup.Valid
      ⟨tagged, [textColumn "ab", textColumn "x"], ord⟩ := by
    intro tagged ord
    show ∀ name ∈ [ascii "ab", ascii "x"], name ≠ [] ∧ 0 ∉ name
    decide
  refine (lookup_after_calls _ _ (htwo _ _)).1 _ _ fun call hcall => ?_
  simp only [append_nil, mem_cons, not_mem_nil, or_false] at hcall
  rcases hcall with rfl | rfl | rfl
  · exact hone _ _
  · exact htwo _ _
  · exact hone _ _

end Pgx.Rows
