import Pgx.NamedArgs.Scan

/-!
# What `rewriteQuery` makes of the parts

Names are numbered by first occurrence, whatever the order in which `range` visits
the maps. The order only decides which of several strict errors is reported.
-/
namespace Pgx.NamedArgs

open Pgx.Go List

/-- The list without repetitions, in order of first occurrence. -/
def distinct (names : List Text) : List Text :=
  names.foldl (fun ds n => if n ∈ ds then ds else ds ++ [n]) []

def numberOf (names : List Text) (n : Text) : Nat := names.idxOf n + 1

/-- The parts with every name replaced by its number. -/
def rewritten (names : List Text) (parts : List Part) : Text :=
  parts.flatMap fun
    | .text s => s
    | .namedArg n => '$' :: formatUint (numberOf names n)

/-- The map numbers exactly the names of the list. -/
structure Numbers (m : Map Text Nat) (names : List Text) : Prop where
  nodup : names.Nodup
  len : m.len = names.length
  lookup : ∀ n, m.lookup n = if n ∈ names then some (numberOf names n) else none

theorem Numbers.empty : Numbers ∅ [] where
  nodup := nodup_nil
  len := rfl
  lookup n := by simp

variable {m : Map Text Nat}

variable {names : List Text}

theorem Numbers.addName (h : Numbers m names) (n : Text) :
    Numbers (addName m n) (if n ∈ names then names else names ++ [n]) := by
  by_cases hn : n ∈ names
  · have hs : (m.lookup n).isSome = true := by rw [h.lookup, if_pos hn]; rfl
    rw [if_pos hn, NamedArgs.addName, if_pos hs]
    exact h
  · have hs : ¬ (m.lookup n).isSome = true := by rw [h.lookup, if_neg hn]; simp
    have hm : n ∉ m := by
      rw [← AList.lookup_eq_none, h.lookup, if_neg hn]
    rw [if_neg hn, NamedArgs.addName, if_neg hs]
    refine ⟨?_, ?_, ?_⟩
    · rw [nodup_append]
      refine ⟨h.nodup, nodup_singleton n, ?_⟩
      rintro a ha b hb rfl
      exact hn (mem_singleton.mp hb ▸ ha)
    · rw [Map.len, AList.entries_insert_of_notMem hm, length_cons, length_append]
      exact congrArg (· + 1) h.len
    · intro k
      by_cases hk : k = n
      · subst hk
        rw [AList.lookup_insert, if_pos (by simp), h.len, numberOf, idxOf_append_of_notMem hn]
        simp
      · rw [AList.lookup_insert_ne hk, h.lookup]
        by_cases hmem : k ∈ names
        · rw [if_pos hmem, if_pos (mem_append_left _ hmem), numberOf, numberOf,
            idxOf_append_of_mem hmem]
        · rw [if_neg hmem, if_neg (by simp [hmem, hk])]

theorem numbers_distinct (names : List Text) : Numbers (names.foldl addName ∅) (distinct names) := by
  suffices hall : ∀ m ds, Numbers m ds → Numbers (names.foldl addName m)
        (names.foldl (fun ds n => if n ∈ ds then ds else ds ++ [n]) ds) from
    hall ∅ [] Numbers.empty
  induction names with
  | nil => exact fun m ds h => h
  | cons n names ih => exact fun m ds h => ih _ _ (h.addName n)

theorem mem_distinct {n : Text} : n ∈ distinct names ↔ n ∈ names := by
  suffices hall : ∀ ds, n ∈ names.foldl (fun ds n => if n ∈ ds then ds else ds ++ [n]) ds ↔
      n ∈ ds ∨ n ∈ names by simpa [distinct] using hall []
  induction names with
  | nil => simp
  | cons k names ih =>
    intro ds
    rw [foldl_cons, ih]
    by_cases hk : k ∈ ds
    · rw [if_pos hk]
      constructor
      · rintro (h | h)
        · exact .inl h
        · exact .inr (.tail _ h)
      · rintro (h | h)
        · exact .inl h
        · rcases mem_cons.mp h with rfl | h
          · exact .inl hk
          · exact .inr h
    · rw [if_neg hk]
      simp [or_assoc]

theorem writeParts_eq (h : Numbers m names)
    {parts : List Part} (hp : ∀ n ∈ namesIn parts, n ∈ names) :
    writeParts m parts = rewritten names parts := by
  induction parts with
  | nil => rfl
  | cons p parts ih =>
    cases p with
    | text s =>
      exact congrArg (s ++ ·) (ih hp)
    | namedArg n =>
      have hn : n ∈ names := hp n (.head _)
      have hrest := ih fun k hk => hp k (.tail _ hk)
      simp only [writeParts, rewritten, flatMap_cons, h.lookup, if_pos hn,
        Option.getD_some] at hrest ⊢
      rw [hrest]

/-! ## Arguments -/

section Args

variable {V : Type} (nil : V) (na : Map Text V)

/-- The map's value for a name, the zero value when it has none. -/
def valueOf (n : Text) : V := (na.lookup n).getD nil

variable {es : List (Sigma fun _ : Text => Nat)}

/-- Without an error the loop writes the value of every name to its place. -/
theorem fillArgs_ok {isStrict : Bool} (hf : isStrict = true →
      ∀ e ∈ es, (na.lookup e.1).isSome = true) (args : List V) :
    es.foldlM (fillArg nil na isStrict) args =
      .ok (es.foldl (fun args e => args.set (e.2 - 1) (valueOf nil na e.1)) args) := by
  induction es generalizing args with
  | nil => rfl
  | cons e es ih =>
    have he : ¬ (isStrict = true ∧ (na.lookup e.1).isNone = true) := by
      rintro ⟨hs, hn⟩
      have := hf hs e (.head _)
      simp_all
    rw [foldlM_cons, fillArg]
    simp only [if_neg he]
    exact ih (fun hs x hx => hf hs x (.tail _ hx)) _

theorem fillArgs_error (hf : ∃ e ∈ es, na.lookup e.1 = none) (args : List V) :
    ∃ msg, es.foldlM (fillArg nil na true) args = .error msg := by
  induction es generalizing args with
  | nil => simp at hf
  | cons e es ih =>
    rw [foldlM_cons]
    by_cases he : na.lookup e.1 = none
    · refine ⟨_, by simp only [fillArg, he]; rfl⟩
    · have hstep : fillArg nil na true args e =
          .ok (args.set (e.2 - 1) ((na.lookup e.1).getD nil)) := by simp [fillArg, he]
      obtain ⟨x, hx, hnone⟩ := hf
      have hrest : ∃ e ∈ es, na.lookup e.1 = none := by
        rcases mem_cons.mp hx with rfl | hx
        · exact absurd hnone he
        · exact ⟨x, hx, hnone⟩
      rw [hstep]
      exact ih hrest _

theorem fill_getElem? {α : Type} (g : Nat → V) (pos : α → Nat) (es : List α)
    (args : List V) (i : Nat) :
    (es.foldl (fun args e => args.set (pos e) (g (pos e))) args)[i]? =
      if i < args.length ∧ ∃ e ∈ es, pos e = i then some (g i) else args[i]? := by
  induction es generalizing args with
  | nil => simp
  | cons e es ih =>
    rw [foldl_cons, ih]
    by_cases hi : i < args.length
    · by_cases he : pos e = i
      · subst he
        by_cases hx : ∃ x ∈ es, pos x = pos e <;> simp [hi, hx]
      · simp [hi, he]
    · simp [hi]

theorem checkUsed_ok {es : List (Sigma fun _ : Text => V)}
    (h : ∀ e ∈ es, (m.lookup e.1).isSome = true) : es.forM (checkUsed m) = .ok () := by
  induction es with
  | nil => rfl
  | cons e es ih =>
    have he : m.lookup e.1 ≠ none := Option.isSome_iff_ne_none.mp (h e (.head _))
    have hstep : checkUsed m e = .ok () := by simp [checkUsed, he]
    change (do checkUsed m e; es.forM (checkUsed m)) = Except.ok ()
    rw [hstep]
    exact ih fun x hx => h x (.tail _ hx)

theorem checkUsed_error {es : List (Sigma fun _ : Text => V)}
    (h : ∃ e ∈ es, m.lookup e.1 = none) : ∃ msg, es.forM (checkUsed m) = .error msg := by
  induction es with
  | nil => simp at h
  | cons e es ih =>
    change ∃ msg, (do checkUsed m e; es.forM (checkUsed m)) = Except.error msg
    by_cases he : m.lookup e.1 = none
    · exact ⟨_, by simp only [checkUsed, he]; rfl⟩
    · have hstep : checkUsed m e = .ok () := by simp [checkUsed, he]
      obtain ⟨x, hx, hnone⟩ := h
      rw [hstep]
      rcases mem_cons.mp hx with rfl | hx
      · exact absurd hnone he
      · exact ih ⟨x, hx, hnone⟩

variable {m : Map Text Nat} {names : List Text}

theorem Numbers.mem_entries (h : Numbers m names) {e : Sigma fun _ : Text => Nat}
    (he : e ∈ m.entries) : e.1 ∈ names ∧ e.2 = numberOf names e.1 := by
  have hl : m.lookup e.1 = some e.2 := AList.mem_lookup_iff.mpr he
  rw [h.lookup] at hl
  by_cases hn : e.1 ∈ names
  · rw [if_pos hn, Option.some.injEq] at hl
    exact ⟨hn, hl.symm⟩
  · simp [hn] at hl

theorem Numbers.entry_mem (h : Numbers m names) {n : Text} (hn : n ∈ names) :
    (⟨n, numberOf names n⟩ : Sigma fun _ : Text => Nat) ∈ m.entries := by
  apply AList.mem_lookup_iff.mp
  rw [h.lookup, if_pos hn]
  rfl

/-- Whatever the order, the arguments are the values of the names in turn. -/
theorem Numbers.fill (h : Numbers m names) (hp : es.Perm m.entries) :
    es.foldl (fun args e => args.set (e.2 - 1) (valueOf nil na e.1))
      (replicate m.len nil) = names.map (valueOf nil na) := by
  have hval : ∀ e ∈ es, valueOf nil na e.1 = (names.map (valueOf nil na)).getD (e.2 - 1) nil := by
    intro e he
    obtain ⟨hn, hk⟩ := h.mem_entries (hp.mem_iff.mp he)
    have hlt := idxOf_lt_length_of_mem hn
    rw [hk, numberOf, Nat.add_sub_cancel, getD_eq_getElem?_getD, getElem?_map,
      getElem?_eq_getElem hlt, getElem_idxOf hlt]
    rfl
  have hfold : es.foldl (fun args e => args.set (e.2 - 1) (valueOf nil na e.1))
      (replicate m.len nil) =
      es.foldl (fun args e => args.set (e.2 - 1)
        ((names.map (valueOf nil na)).getD (e.2 - 1) nil)) (replicate m.len nil) := by
    apply foldl_ext
    intro args e he
    rw [hval e he]
  rw [hfold]
  apply ext_getElem?
  intro i
  rw [fill_getElem? (fun i => (names.map (valueOf nil na)).getD i nil)
    (fun e : Sigma fun _ : Text => Nat => e.2 - 1), length_replicate, h.len]
  by_cases hi : i < names.length
  · have hex : ∃ e ∈ es, e.2 - 1 = i := by
      refine ⟨⟨names[i], numberOf names names[i]⟩, ?_, ?_⟩
      · exact hp.mem_iff.mpr (h.entry_mem (getElem_mem hi))
      · rw [numberOf, Nat.add_sub_cancel, h.nodup.idxOf_getElem]
    rw [if_pos ⟨hi, hex⟩, getD_eq_getElem?_getD, getElem?_map, getElem?_eq_getElem hi]
    rfl
  · rw [if_neg fun hc => hi hc.1, getElem?_eq_none (by simpa using hi),
      getElem?_eq_none (by simpa [h.len] using hi)]

/-- The names of the text are the keys of the map. -/
def SameNames (names : List Text) (na : Map Text V) : Prop := ∀ n, n ∈ names ↔ n ∈ na

theorem rewriteQuery_ok (ord : RangeOrder) (sql : Text) (isStrict : Bool)
    (hs : isStrict = true → SameNames (distinct (namesIn (partsIn sql))) na) :
    rewriteQuery nil ord na sql isStrict =
      .ok (rewritten (distinct (namesIn (partsIn sql))) (partsIn sql),
        (distinct (namesIn (partsIn sql))).map (valueOf nil na)) := by
  have hnum := numbers_distinct (namesIn (partsIn sql))
  have hlex : (lex sql).nameToOrdinal = (namesIn (partsIn sql)).foldl addName ∅ :=
    lex_nameToOrdinal sql
  have hfound : isStrict = true → ∀ e ∈ ord.order (lex sql).nameToOrdinal.entries,
      (na.lookup e.1).isSome = true := by
    intro hst e he
    rw [hlex] at he
    have hn := (hnum.mem_entries ((ord.perm _).mem_iff.mp he)).1
    exact AList.lookup_isSome.mpr ((hs hst e.1).mp hn)
  have hused : isStrict = true → ∀ e ∈ ord.order na.entries,
      ((lex sql).nameToOrdinal.lookup e.1).isSome = true := by
    intro hst e he
    have hk : e.1 ∈ na := by
      rw [← AList.lookup_isSome, AList.mem_lookup_iff.mpr ((ord.perm _).mem_iff.mp he)]
      rfl
    rw [hlex, hnum.lookup, if_pos ((hs hst e.1).mpr hk)]
    rfl
  have hsql : writeParts (lex sql).nameToOrdinal (lex sql).parts =
      rewritten (distinct (namesIn (partsIn sql))) (partsIn sql) := by
    rw [hlex, lex_parts]
    exact writeParts_eq hnum fun n hn => mem_distinct.mpr hn
  have hargs := fillArgs_ok nil na hfound (replicate (lex sql).nameToOrdinal.len nil)
  rw [hlex, hnum.fill nil na (ord.perm _), ← hlex] at hargs
  simp only [rewriteQuery, hargs, hsql, bind, Except.bind]
  cases isStrict with
  | false => rfl
  | true =>
    rw [if_pos rfl, checkUsed_ok (hused rfl)]

theorem rewriteQuery_error (ord : RangeOrder) (sql : Text)
    (hs : ¬ SameNames (distinct (namesIn (partsIn sql))) na) :
    ∃ msg, rewriteQuery nil ord na sql true = .error msg := by
  have hnum := numbers_distinct (namesIn (partsIn sql))
  have hlex : (lex sql).nameToOrdinal = (namesIn (partsIn sql)).foldl addName ∅ :=
    lex_nameToOrdinal sql
  by_cases hmiss : ∃ e ∈ ord.order (lex sql).nameToOrdinal.entries, na.lookup e.1 = none
  · obtain ⟨msg, hmsg⟩ := fillArgs_error nil na hmiss (replicate (lex sql).nameToOrdinal.len nil)
    refine ⟨msg, ?_⟩
    simp only [rewriteQuery, hmsg, bind, Except.bind]
  · -- every name of the text has a value, so some key of the map is not in the text
    have hfound : true = true → ∀ e ∈ ord.order (lex sql).nameToOrdinal.entries,
        (na.lookup e.1).isSome = true := by
      intro _ e he
      rw [Option.isSome_iff_ne_none]
      exact fun hnone => hmiss ⟨e, he, hnone⟩
    have hunused : ∃ e ∈ ord.order na.entries, (lex sql).nameToOrdinal.lookup e.1 = none := by
      by_contra hall
      apply hs
      intro n
      constructor
      · intro hn
        have he := hnum.entry_mem hn
        rw [← hlex] at he
        exact AList.lookup_isSome.mp (hfound rfl _ ((ord.perm _).mem_iff.mpr he))
      · intro hn
        obtain ⟨v, hv⟩ := Option.isSome_iff_exists.mp (AList.lookup_isSome.mpr hn)
        have he := (ord.perm _).mem_iff.mpr (AList.mem_lookup_iff.mp hv)
        by_contra hnot
        exact hall ⟨_, he, by rw [hlex, hnum.lookup, if_neg hnot]⟩
    obtain ⟨msg, hmsg⟩ := checkUsed_error hunused
    refine ⟨msg, ?_⟩
    simp only [rewriteQuery, fillArgs_ok nil na hfound, hmsg, bind, Except.bind, if_pos]

theorem rewriteQuery_eq_ok {ord : RangeOrder} {sql : Text} {isStrict : Bool} {newSQL : Text}
    {newArgs : List V} (h : rewriteQuery nil ord na sql isStrict = .ok (newSQL, newArgs)) :
    newSQL = rewritten (distinct (namesIn (partsIn sql))) (partsIn sql) ∧
      newArgs = (distinct (namesIn (partsIn sql))).map (valueOf nil na) := by
  by_cases hs : isStrict = true → SameNames (distinct (namesIn (partsIn sql))) na
  · rw [rewriteQuery_ok nil na ord sql isStrict hs] at h
    obtain ⟨rfl, rfl⟩ := Prod.mk.inj (Except.ok.inj h)
    exact ⟨rfl, rfl⟩
  · obtain ⟨rfl, hne⟩ := Classical.not_imp.mp hs
    obtain ⟨msg, hmsg⟩ := rewriteQuery_error nil na ord sql hne
    rw [hmsg] at h
    cases h

end Args
end Pgx.NamedArgs
