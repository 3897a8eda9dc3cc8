import Pgx.Pgtype.TextScanSafe

/-!
# Composites as text

`CompositeTextBuilder` writes fields between parentheses and quotes those that need it.
`CompositeTextScanner` gives the same fields back. A field is NULL or the bytes that its
encode plan has made of it.
-/
namespace Pgx.Pgtype

open Pgx.Go List

variable {ε : Type}

/-- `quoteCompositeReplacer.Replace` -/
def replaceCompositeBytes (src : Bytes) : Bytes :=
  src.flatMap fun c => if c = 92 then [92, 92] else if c = 34 then [92, 34] else [c]

def quoteCompositeField (src : Bytes) : Bytes := 34 :: (replaceCompositeBytes src ++ [34])

/-- A space at either end, or one of the bytes `(),"\` -/
def quoteCompositeFieldIfNeeded (src : Bytes) : Bytes :=
  if src = [] ∨ src.head? = some 32 ∨ src.getLast? = some 32 ∨ ∃ c ∈ src, c ∈ ascii "(),\"\\" then
    quoteCompositeField src
  else src

/-- `CompositeTextBuilder.AppendValue` -/
def appendCompositeValue (buf : Bytes) (field : Option Bytes) : Bytes :=
  match field with
  | none => buf ++ [44]
  | some fieldBuf => buf ++ quoteCompositeFieldIfNeeded fieldBuf ++ [44]

/-- `Finish` behind the values: the last byte becomes a parenthesis. -/
def buildCompositeText (fields : List (Option Bytes)) : Bytes :=
  let buf := fields.foldl appendCompositeValue [40]
  buf.set (buf.length - 1) 41

/-- `Next` yields these fields, call after call, and then reports the end without an error. -/
inductive Yields : CompositeTextScanner ε → List (Option Bytes) → Prop where
  | done {s : CompositeTextScanner ε} : s.next = .ok none → s.err = none → Yields s []
  | field {s t : CompositeTextScanner ε} {b : Option Bytes} {bs : List (Option Bytes)} :
    s.next = .ok (some (b, t)) → Yields t bs → Yields s (b :: bs)

def fieldText (field : Option Bytes) : Bytes := (field.map quoteCompositeFieldIfNeeded).getD []

/-- The fields behind the parenthesis that opens the text -/
def fieldsText : List (Option Bytes) → Bytes
  | [] => []
  | [field] => fieldText field ++ [41]
  | field :: fields => fieldText field ++ 44 :: fieldsText fields

theorem buildCompositeText_eq {fields : List (Option Bytes)} (h : fields ≠ []) :
    ∃ text, buildCompositeText fields = 40 :: (text ++ [41]) ∧ text ++ [41] = fieldsText fields := by
  have happend : ∀ buf field, appendCompositeValue buf field = buf ++ fieldText field ++ [44] := by
    intro buf field
    cases field <;> simp [appendCompositeValue, fieldText]
  have hfold : ∀ buf, ∃ text, fields.foldl appendCompositeValue buf = buf ++ text ++ [44] ∧
      text ++ [41] = fieldsText fields := by
    induction fields with
    | nil => exact absurd rfl h
    | cons field fields ih =>
      intro buf
      cases fields with
      | nil => exact ⟨fieldText field, happend buf field, rfl⟩
      | cons f fs =>
        obtain ⟨text, htext, hclose⟩ := ih (cons_ne_nil _ _) (appendCompositeValue buf field)
        refine ⟨fieldText field ++ 44 :: text, ?_, ?_⟩
        · rw [foldl_cons, htext, happend]
          simp
        · simp [fieldsText, ← hclose]
  obtain ⟨text, htext, hclose⟩ := hfold [40]
  refine ⟨text, ?_, hclose⟩
  unfold buildCompositeText
  rw [htext]
  simp

variable {d : UInt8} {rest : Bytes}

/-- What is doubled by a backslash is what the scanner takes one byte for. -/
theorem quoted_replaceCompositeBytes (src : Bytes) : Quoted (replaceCompositeBytes src) src := by
  induction src with
  | nil => exact .nil
  | cons c src ih =>
    have hcons : replaceCompositeBytes (c :: src) =
        (if c = 92 then [92, 92] else if c = 34 then [92, 34] else [c]) ++
          replaceCompositeBytes src :=
      flatMap_cons
    rw [hcons]
    by_cases h92 : c = 92
    · subst h92
      exact .escaped 92 ih
    · by_cases h34 : c = 34
      · subst h34
        exact .escaped 34 ih
      · rw [if_neg h92, if_neg h34]
        exact .byte h34 h92 ih

theorem nextTextField_fieldText (hd : isDelimiter d = true) (field : Option Bytes) :
    nextTextField (fieldText field ++ d :: rest) =
      (.ok (field, rest) : Checked (TextScanError ε) _) := by
  have h34 : d ≠ 34 := by
    rintro rfl
    exact absurd hd (by decide)
  cases field with
  | none =>
    show nextTextField (d :: rest) = _
    rw [nextTextField, if_pos hd]
  | some src =>
    show nextTextField (quoteCompositeFieldIfNeeded src ++ d :: rest) = _
    unfold quoteCompositeFieldIfNeeded
    split
    · show nextTextField (34 :: (replaceCompositeBytes src ++ [34] ++ d :: rest)) = _
      rw [append_assoc]
      show (fun r : Bytes × Bytes => (some r.1, r.2)) <$> quotedValue
          (replaceCompositeBytes src ++ 34 :: d :: rest) [] = _
      rw [quotedValue_of_quoted (quoted_replaceCompositeBytes src) h34]
      rfl
    · rename_i hneed
      simp only [not_or, not_exists, not_and] at hneed
      obtain ⟨hne, -, -, hplain⟩ := hneed
      have hdelim : ∀ c ∈ src, isDelimiter c = false := by
        intro c hc
        have hout := hplain c hc
        simp only [isDelimiter, Bool.or_eq_false_iff, beq_eq_false_iff_ne]
        constructor <;> (rintro rfl; exact hout (by decide))
      obtain ⟨c, cs, rfl⟩ := exists_cons_of_ne_nil hne
      have hquote : c ≠ 34 := by
        rintro rfl
        exact hplain 34 (.head _) (by decide)
      rw [cons_append, nextTextField, hdelim c (.head _), if_neg Bool.false_ne_true, if_neg hquote,
        ← cons_append, unquotedValue_eq hdelim hd]
      rfl

theorem yields_fieldsText (fields : List (Option Bytes)) :
    Yields (⟨fieldsText fields, none⟩ : CompositeTextScanner ε) fields := by
  induction fields with
  | nil => exact .done rfl rfl
  | cons field fields ih =>
    have hnext : ∃ d, isDelimiter d = true ∧ fieldsText (field :: fields) = fieldText field ++ d ::
        fieldsText fields := by
      cases fields with
      | nil => exact ⟨41, by decide, rfl⟩
      | cons f fs => exact ⟨44, by decide, rfl⟩
    obtain ⟨d, hd, htext⟩ := hnext
    refine .field (t := ⟨fieldsText fields, none⟩) ?_ ih
    unfold CompositeTextScanner.next
    simp only [htext, Option.isSome_none, Bool.false_eq_true, if_false, append_eq_nil_iff,
      reduceCtorEq, and_false]
    rw [nextTextField_fieldText hd]
    rfl

/-- Whatever the fields are, the scanner yields them from the text that the builder has made of
them. -/
theorem compositeText_roundTrip (fields : List (Option Bytes)) (h : fields ≠ []) :
    ∃ s : CompositeTextScanner ε, newCompositeTextScanner (buildCompositeText fields) = .ok s ∧
    Yields s fields := by
  refine ⟨⟨fieldsText fields, none⟩, ?_, yields_fieldsText fields⟩
  obtain ⟨text, hbuild, hclose⟩ := buildCompositeText_eq h
  rw [hbuild, ← hclose]
  simp [newCompositeTextScanner, byteAt, bind, Except.bind]

/-- NULL, an empty field, one with quotes, and a plain one -/
theorem compositeText_roundTrip_mixed : ∃ s : CompositeTextScanner Unit,
    newCompositeTextScanner
      (buildCompositeText [none, some [], some (ascii "a,\"b\\"), some (ascii "c")]) = .ok s ∧
      Yields s [none, some [], some (ascii "a,\"b\\"), some (ascii "c")] :=
  compositeText_roundTrip _ nofun

end Pgx.Pgtype
