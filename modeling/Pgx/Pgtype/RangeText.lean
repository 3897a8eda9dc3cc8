import Pgx.Pgtype.TextArray

/-!
# Ranges and multiranges as text

A multirange is split at the commas between its ranges. `parseRange` takes the first comma for the
one between the bounds and does not look for quotes.
-/
namespace Pgx.Pgtype

open Pgx.Go List

inductive RangeTextError where
  /-- The format that wraps `io.EOF` -/
  | eof (format : String)
  | unexpected (format : String) (got : Char)
  | trailingData (rest : Text)
  deriving DecidableEq

/-! ## Multiranges -/

section Multirange

variable {boundSepRead : Bool} {buf value rest : Text}

/-- The text of a range, and what is behind it; none at the end of the input. -/
def parseRange (boundSepRead : Bool) : Text → Option (Text × Text)
  | [] => none
  | r :: buf =>
    if r = '}' ∨ r = ',' ∧ boundSepRead = true then some ([], r :: buf)
    else (parseRange (boundSepRead || r == ',') buf).map fun (s, rest) => (r :: s, rest)

/-- The range ends before a brace, or before a comma that is not its first. -/
def RangeEnd (boundSepRead : Bool) (value rest : Text) : Prop :=
  '}' ∉ value ∧ value.count ',' + boundSepRead.toNat ≤ 1 ∧
    (rest.head? = some '}' ∨ rest.head? = some ',' ∧ value.count ',' + boundSepRead.toNat = 1)

theorem rangeEnd_cons {r : Char} (h : ¬ (r = '}' ∨ r = ',' ∧ boundSepRead = true)) :
    RangeEnd boundSepRead (r :: value) rest ↔ RangeEnd (boundSepRead || r == ',') value rest := by
  obtain ⟨hbrace, hcomma⟩ := not_or.mp h
  have hmem : '}' ∉ r :: value ↔ '}' ∉ value := by simp [Ne.symm hbrace]
  have hcount : (r :: value).count ',' + boundSepRead.toNat = value.count ',' +
      (boundSepRead || r == ',').toNat := by
    by_cases hr : r = ','
    · subst hr
      obtain rfl : boundSepRead = false := Bool.eq_false_iff.mpr fun hsep => hcomma ⟨rfl, hsep⟩
      simp
    · simp [hr, beq_false_of_ne hr]
  unfold RangeEnd
  rw [hmem, hcount]

theorem parseRange_append (h : RangeEnd boundSepRead value rest) :
    parseRange boundSepRead (value ++ rest) = some (value, rest) := by
  induction value generalizing boundSepRead with
  | nil =>
    obtain ⟨-, -, hrest⟩ := h
    cases rest with
    | nil => simp at hrest
    | cons r rest =>
      rw [nil_append, parseRange, if_pos]
      simpa using hrest
  | cons v value ih =>
    have hstop : ¬ (v = '}' ∨ v = ',' ∧ boundSepRead = true) := by
      rintro (rfl | ⟨rfl, rfl⟩)
      · exact h.1 mem_cons_self
      · have := h.2.1
        simp at this
    rw [cons_append, parseRange, if_neg hstop, ih ((rangeEnd_cons hstop).mp h)]
    rfl

theorem rangeEnd_of_parseRange (h : parseRange boundSepRead buf = some (value, rest)) :
    buf = value ++ rest ∧ RangeEnd boundSepRead value rest := by
  induction buf generalizing boundSepRead value with
  | nil => exact nomatch h
  | cons r buf ih =>
    rw [parseRange] at h
    by_cases hstop : r = '}' ∨ r = ',' ∧ boundSepRead = true
    · rw [if_pos hstop] at h
      obtain ⟨rfl, rfl⟩ := Prod.mk.inj (Option.some.inj h)
      refine ⟨rfl, not_mem_nil, by simpa using Bool.toNat_le boundSepRead, ?_⟩
      simpa using hstop
    · rw [if_neg hstop, Option.map_eq_some_iff] at h
      obtain ⟨⟨s, rest'⟩, hs, heq⟩ := h
      obtain ⟨rfl, rfl⟩ := Prod.mk.inj heq
      obtain ⟨rfl, hend⟩ := ih hs
      exact ⟨rfl, (rangeEnd_cons hstop).mpr hend⟩

/-- The loop of `parseUntypedTextMultirange`, up to the closing brace -/
def multirangeValues (buf : Text) : Except RangeTextError (List Text × Text) :=
  match buf with
  | [] => .error (.eof "invalid multirange: %w")
  | r :: buf =>
    if r = ',' then multirangeValues buf
    else if r = '}' then .ok ([], buf)
    else
      match _h : parseRange false (r :: buf) with
      | none => .error (.eof "invalid multirange value: %w")
      | some (value, rest) => (multirangeValues rest).map fun (elements, rest) =>
        (value :: elements, rest)
termination_by buf.length
decreasing_by
  · simp
  · obtain ⟨hbuf, -, -, hrest⟩ := rangeEnd_of_parseRange _h
    have hne : value ≠ [] := by
      rintro rfl
      obtain rfl : r :: buf = rest := hbuf
      simp_all
    rw [hbuf, length_append]
    have := length_pos_iff.mpr hne
    omega

def parseUntypedTextMultirange (src : Text) : Except RangeTextError (List Text) :=
  match skipWhitespace src with
  | [] => .error (.eof "invalid array: %w")
  | r :: buf =>
    if r ≠ '{' then .error (.unexpected "invalid multirange, expected '\x7b' got %v" r)
    else
      match multirangeValues buf with
      | .error err => .error err
      | .ok (elements, buf) =>
        if skipWhitespace buf ≠ [] then .error (.trailingData (skipWhitespace buf)) else .ok elements

inductive QuotedBound : Text → Prop where
  | nil : QuotedBound []
  | rune {r : Char} {s : Text} : r ≠ '"' → r ≠ '\\' → QuotedBound s → QuotedBound (r :: s)
  | doubled {r : Char} {s : Text} : r = '"' ∨ r = '\\' → QuotedBound s → QuotedBound (r :: r :: s)
  | escaped {r : Char} {s : Text} : r = '"' ∨ r = '\\' → QuotedBound s → QuotedBound ('\\' :: r :: s)

/-- A bound as PostgreSQL writes it; one that is missing is empty. -/
inductive BoundOutput : Text → Prop where
  | plain {s : Text} :
    (∀ r ∈ s, r ∉ [',', '[', ']', '(', ')', '{', '}', '"', '\\'] ∧ isSpaceRune r = false) →
    BoundOutput s
  | quoted {s : Text} : QuotedBound s → BoundOutput ('"' :: (s ++ ['"']))

/-- What PostgreSQL and the encoder write for a range -/
inductive RangeOutput : Text → Prop where
  | empty : RangeOutput "empty".toList
  | bounds {lower upper : Text} {left right : Char} :
    left ∈ ['(', '['] → right ∈ [')', ']'] → BoundOutput lower →
    BoundOutput upper → RangeOutput (left :: (lower ++ ',' :: (upper ++ [right])))

theorem RangeOutput.commas {t : Text} (h : RangeOutput t) : t = "empty".toList ∨ 1 ≤ t.count ',' := by
  cases h with
  | empty => exact .inl rfl
  | bounds hl hr _ _ => exact .inr (count_pos_iff.mpr (by simp))

/-- What `encodePlanMultirangeCodecText.Encode` writes around the ranges -/
def multirangeText (texts : List Text) : Text := '{' :: (intercalate [','] texts ++ ['}'])

theorem multirangeValues_cons {r : Char} (h1 : r ≠ ',') (h2 : r ≠ '}')
    (h : parseRange false (r :: buf) = some (value, rest)) :
    multirangeValues (r :: buf) = (multirangeValues rest).map fun (elements, rest) =>
      (value :: elements, rest) := by
  rw [multirangeValues, if_neg h1, if_neg h2]
  split <;> simp_all

theorem multirangeValues_value {t : Text} (h : RangeOutput t) (hend : RangeEnd false t rest) :
    multirangeValues (t ++ rest) = (multirangeValues rest).map fun (elements, rest) =>
      (t :: elements, rest) := by
  obtain ⟨r, s, rfl, h1, h2⟩ : ∃ r s, t = r :: s ∧ r ≠ ',' ∧ r ≠ '}' := by
    cases h with
    | empty => exact ⟨'e', _, rfl, by decide, by decide⟩
    | @bounds _ _ left _ hl _ _ _ =>
      refine ⟨left, _, rfl, ?_, ?_⟩ <;> (rintro rfl; simp at hl)
  exact multirangeValues_cons h1 h2 (parseRange_append hend)

theorem multirangeValues_joined {texts : List Text} (h : ∀ t ∈ texts, RangeOutput t)
    (hplain : ∀ t ∈ texts, '}' ∉ t ∧ t.count ',' ≤ 1)
    (hempty : ∀ t ∈ texts.dropLast, t ≠ "empty".toList) :
    multirangeValues (intercalate [','] texts ++ ['}']) = .ok (texts, []) := by
  have hnil : multirangeValues ['}'] = .ok ([], []) := by simp [multirangeValues]
  induction texts with
  | nil => exact hnil
  | cons t texts ih =>
    have ht := h t mem_cons_self
    obtain ⟨hbrace, hle⟩ := hplain t mem_cons_self
    cases texts with
    | nil =>
      rw [intercalate_singleton, multirangeValues_value ht ⟨hbrace, hle, .inl rfl⟩, hnil]
      rfl
    | cons t' texts =>
      have hone := ht.commas.resolve_left (hempty t (by simp))
      have hrest := ih (fun x hx => h x (mem_cons_of_mem _ hx))
          (fun x hx => hplain x (mem_cons_of_mem _ hx))
        fun x hx => hempty x (by simp [hx])
      rw [intercalate_cons_cons, append_assoc, append_assoc,
        multirangeValues_value ht ⟨hbrace, hle, .inr ⟨rfl, Nat.le_antisymm hle hone⟩⟩,
        singleton_append,
        multirangeValues, if_pos rfl, hrest]
      rfl

theorem multirangeValues_ok {elements : List Text} (h : multirangeValues buf = .ok (elements, rest)) :
    (∀ t ∈ elements, '}' ∉ t ∧ t.count ',' ≤ 1) ∧ ∀ t ∈ elements.dropLast, t.count ',' = 1 := by
  induction buf using multirangeValues.induct generalizing elements with
  | case1 => simp [multirangeValues] at h
  | case2 buf ih =>
    rw [multirangeValues, if_pos rfl] at h
    exact ih h
  | case3 buf _ =>
    rw [multirangeValues, if_neg (by decide), if_pos rfl] at h
    obtain ⟨rfl, -⟩ := Prod.mk.inj (Except.ok.inj h)
    simp
  | case4 r buf h1 h2 hnone =>
    rw [multirangeValues, if_neg h1, if_neg h2] at h
    split at h <;> simp_all
  | case5 r buf h1 h2 value tail hsome ih =>
    rw [multirangeValues_cons h1 h2 hsome] at h
    obtain ⟨-, hbrace, hle, htail⟩ := rangeEnd_of_parseRange hsome
    cases hvalues : multirangeValues tail with
    | error err =>
      rw [hvalues] at h
      cases h
    | ok found =>
      obtain ⟨more, left⟩ := found
      rw [hvalues] at h
      obtain ⟨rfl, rfl⟩ := Prod.mk.inj (Except.ok.inj h)
      obtain ⟨hplain, hone⟩ := ih hvalues
      refine ⟨forall_mem_cons.mpr ⟨⟨hbrace, hle⟩, hplain⟩, ?_⟩
      cases more with
      | nil => simp
      | cons v more =>
        -- behind a brace there are no more ranges
        rcases htail with hend | ⟨-, hcount⟩
        · obtain ⟨behind, rfl⟩ := head?_eq_some_iff.mp hend
          simp [multirangeValues] at hvalues
        · exact forall_mem_cons.mpr ⟨hcount, hone⟩

theorem parseUntypedTextMultirange_brace {elements : List Text} :
    parseUntypedTextMultirange ('{' :: buf) = .ok elements ↔
      ∃ rest, multirangeValues buf = .ok (elements, rest) ∧ skipWhitespace rest = [] := by
  have hskip : skipWhitespace ('{' :: buf) = '{' :: buf := rfl
  simp only [parseUntypedTextMultirange, hskip, ne_eq, not_true_eq_false, if_false]
  cases multirangeValues buf with
  | error err => simp
  | ok found =>
    obtain ⟨values, left⟩ := found
    by_cases hleft : skipWhitespace left = []
    · simp [hleft]
    · simp [hleft]

/-- The ranges are split as they were joined exactly when none has a brace or a second comma, and
only the last one is empty. -/
theorem parseUntypedTextMultirange_joined_iff (texts : List Text) (h : ∀ t ∈ texts, RangeOutput t) :
    parseUntypedTextMultirange (multirangeText texts) = .ok texts ↔
      (∀ t ∈ texts, '}' ∉ t ∧ t.count ',' ≤ 1) ∧ ∀ t ∈ texts.dropLast, t ≠ "empty".toList := by
  rw [multirangeText, parseUntypedTextMultirange_brace]
  constructor
  · rintro ⟨rest, hvalues, -⟩
    obtain ⟨hplain, hone⟩ := multirangeValues_ok hvalues
    refine ⟨hplain, fun t ht hempty => ?_⟩
    have := hone t ht
    rw [hempty] at this
    exact absurd this (by decide)
  · rintro ⟨hplain, hempty⟩
    exact ⟨[], multirangeValues_joined h hplain hempty, rfl⟩

/-- A range and an empty one -/
theorem parseUntypedTextMultirange_joined_pair :
    parseUntypedTextMultirange (multirangeText ["[1,3)".toList, "empty".toList]) =
      .ok ["[1,3)".toList, "empty".toList] := by
  refine (parseUntypedTextMultirange_joined_iff _ ?_).mpr (by decide)
  rintro t (_ | ⟨_, _ | ⟨_, ⟨⟩⟩⟩)
  · exact @RangeOutput.bounds ['1'] ['3'] '[' ')' (by decide) (by decide)
      (.plain (forall_mem_singleton.mpr (by decide)))
      (.plain (forall_mem_singleton.mpr (by decide)))
  · exact .empty

/-- A comma inside quotes is taken for the end of the range. -/
theorem parseUntypedTextMultirange_quoted_comma : RangeOutput "[\"a,b\",c)".toList ∧
      parseUntypedTextMultirange (multirangeText ["[\"a,b\",c)".toList]) = .ok
        ["[\"a,b\"".toList, "c)".toList] := by
  constructor
  · refine @RangeOutput.bounds "\"a,b\"".toList ['c'] '[' ')' (by decide) (by decide) ?_
      (.plain (forall_mem_singleton.mpr (by decide)))
    refine .quoted (s := ['a', ',', 'b']) ?_
    exact .rune (by decide) (by decide)
      (.rune (by decide) (by decide) (.rune (by decide) (by decide) .nil))
  · refine parseUntypedTextMultirange_brace.mpr ⟨[], ?_, rfl⟩
    simp +decide [multirangeValues, parseRange, Except.map]

end Multirange

end Pgx.Pgtype
