import Pgx.Pgtype.TextScan

/-!
# Text that makes a scanner panic

A composite's scanner runs past the end inside quotes that are not closed, and the scanner of
intervals looks at the first byte of the hours when there is none. Dates and text search vectors are
scanned without a panic.
-/
namespace Pgx.Pgtype

open Pgx.Go List

section Scanners

variable {ε α : Type}

theorem noPanic_byteAt {b : Bytes} {i : Nat} (h : i < b.length) :
    NoPanic (byteAt b i : Checked ε UInt8) := by
  unfold byteAt
  rw [getElem?_eq_getElem h]
  exact noPanic_ok _

theorem noPanic_sliceAt {b : Bytes} {lo hi : Nat} (hlo : lo ≤ hi) (hhi : hi ≤ b.length) :
    NoPanic (sliceAt b lo hi : Checked ε Bytes) := by
  unfold sliceAt
  rw [if_pos ⟨hlo, hhi⟩]
  exact noPanic_ok _

theorem noPanic_peeks (f : UInt8 → Bool) (rest : Bytes) :
    NoPanic (peeks f rest : Checked ε Bool) := by
  cases rest with
  | nil => exact noPanic_ok _
  | cons c cs => exact noPanic_ok _

theorem consumeSpaces_noPanic (rest : Bytes) :
    NoPanic (consumeSpaces rest : Checked (TextScanError ε) Bytes) := by
  fun_induction consumeSpaces (ε := ε) rest with
  | case1 rest e he => exact noPanic_error (noPanic_peeks _ rest) he
  | case2 => exact noPanic_ok _
  | case3 rest _ ih => exact ih

theorem lexemeLoop_noPanic (rest buf : Bytes) :
    NoPanic (lexemeLoop rest buf : Checked (TextScanError ε) _) := by
  fun_induction lexemeLoop (ε := ε) rest buf with
  | case1 => exact noPanic_returned _
  | case2 rest buf e he => exact noPanic_error (noPanic_peeks _ rest) he
  | case3 rest buf _ ih => exact ih
  | case4 => exact noPanic_ok _
  | case5 => exact noPanic_returned _
  | case6 buf next rest _ ih => exact ih
  | case7 ch rest buf _ _ ih => exact ih

section

variable (rest : Bytes)

include rest

theorem consumeLexeme_noPanic : NoPanic (consumeLexeme rest : Checked (TextScanError ε) _) := by
  unfold consumeLexeme
  split
  · exact lexemeLoop_noPanic _ _
  · exact noPanic_returned _

theorem consumeDigits_noPanic : NoPanic (consumeDigits rest : Checked (TextScanError ε) _) := by
  fun_induction consumeDigits (ε := ε) rest with
  | case1 rest e he => exact noPanic_error (noPanic_peeks _ rest) he
  | case2 => exact noPanic_ok _
  | case3 rest _ ih => exact noPanic_map _ ih

theorem consumeWeight_noPanic : NoPanic (consumeWeight rest : Checked (TextScanError ε) _) := by
  cases rest with
  | nil => exact noPanic_ok _
  | cons c cs =>
    refine noPanic_bind (noPanic_byteAt (by simp)) fun d _ => ?_
    cases tsvectorWeightLetter d with
    | none => exact noPanic_ok _
    | some w => exact noPanic_ok _

theorem consumePosition_noPanic : NoPanic (consumePosition rest : Checked (TextScanError ε) _) := by
  refine noPanic_bind (consumeDigits_noPanic rest) fun r _ => ?_
  simp only
  split
  · exact noPanic_returned _
  · split
    · exact noPanic_returned _
    · exact noPanic_bind (consumeWeight_noPanic _) fun w _ => noPanic_ok _

theorem consumePositions_noPanic : NoPanic (consumePositions rest : Checked (TextScanError ε) _) := by
  fun_induction consumePositions (ε := ε) rest with
  | case1 rest e he => exact noPanic_error (consumePosition_noPanic rest) he
  | case2 rest pos left _ e he => exact noPanic_error (noPanic_peeks _ left) he
  | case3 => exact noPanic_ok _
  | case4 rest pos left _ _ ih => exact noPanic_map _ ih

theorem optionalPositions_noPanic :
    NoPanic (optionalPositions rest : Checked (TextScanError ε) _) := by
  unfold optionalPositions
  split
  · rename_i e he
    exact noPanic_error (noPanic_peeks _ rest) he
  · exact noPanic_ok _
  · exact consumePositions_noPanic _

theorem tsvectorLexemes_noPanic : NoPanic (tsvectorLexemes rest : Checked (TextScanError ε) _) := by
  fun_induction tsvectorLexemes (ε := ε) rest with
  | case1 => exact noPanic_ok _
  | case2 rest _ e he => exact noPanic_error (consumeSpaces_noPanic rest) he
  | case3 => exact noPanic_ok _
  | case4 rest _ rest' _ _ e he => exact noPanic_error (consumeLexeme_noPanic rest') he
  | case5 rest _ rest' _ _ word left _ e he => exact noPanic_error (optionalPositions_noPanic left) he
  | case6 rest _ rest' _ _ word left _ positions left' _ ih => exact noPanic_map _ ih

end

theorem parseDigitsFrom_noPanic (b : Bytes) :
    ∀ n : Int, NoPanic (parseDigitsFrom n b : Checked (TextScanError ε) Int) := by
  induction b with
  | nil => exact fun n => noPanic_ok _
  | cons c cs ih =>
    intro n
    unfold parseDigitsFrom
    split
    · exact ih _
    · exact noPanic_returned _

theorem parseDigits_noPanic (b : Bytes) : NoPanic
    (parseDigits b : Checked (TextScanError ε) Int) := by
  unfold parseDigits
  split
  · exact noPanic_returned _
  · exact parseDigitsFrom_noPanic b 0

theorem parse2Digits_noPanic (b : Bytes) : NoPanic
    (parse2Digits b : Checked (TextScanError ε) Int) := by
  unfold parse2Digits
  split
  · exact noPanic_returned _
  · refine noPanic_bind (noPanic_byteAt (by omega)) fun d1 _ =>
      noPanic_bind (noPanic_byteAt (by omega)) fun d2 _ => ?_
    split
    · exact noPanic_ok _
    · exact noPanic_returned _

theorem dateBeforeBC_noPanic (src : Bytes) : NoPanic
    (dateBeforeBC src : Checked (TextScanError ε) _) := by
  unfold dateBeforeBC
  split
  · refine noPanic_bind (noPanic_sliceAt (by omega) le_rfl) fun suffix _ => ?_
    split
    · exact noPanic_bind (noPanic_sliceAt (by omega) (by omega)) fun _ _ => noPanic_ok _
    · exact noPanic_ok _
  · exact noPanic_ok _

theorem dateParts_noPanic (datePart : Bytes) (yearEnd : Nat) :
    NoPanic (dateParts datePart yearEnd : Checked (TextScanError ε) _) := by
  unfold dateParts
  split
  · exact noPanic_returned _
  · refine noPanic_bind (noPanic_byteAt (by omega)) fun dash _ => ?_
    split
    · exact noPanic_returned _
    · refine noPanic_bind (noPanic_sliceAt (by omega) (by omega)) fun y _ =>
        noPanic_bind (parseDigits_noPanic y) fun _ _ => ?_
      refine noPanic_bind (noPanic_sliceAt (by omega) (by omega)) fun m _ =>
        noPanic_bind (parse2Digits_noPanic m) fun _ _ => ?_
      refine noPanic_bind (noPanic_sliceAt (by omega) (by omega)) fun d _ =>
        noPanic_bind (parse2Digits_noPanic d) fun _ _ => ?_
      split
      · exact noPanic_returned _
      · exact noPanic_ok _

theorem scanDateText_noPanic (src : Bytes) :
    NoPanic (scanDateText src : Checked (TextScanError ε) DateText) := by
  unfold scanDateText
  split
  · exact noPanic_ok _
  · split
    · exact noPanic_ok _
    · split
      · exact noPanic_returned _
      · refine noPanic_bind (dateBeforeBC_noPanic src) fun r _ => ?_
        simp only
        split
        · exact noPanic_returned _
        · exact noPanic_bind (dateParts_noPanic _ _) fun _ _ => noPanic_ok _

theorem intervalUnits_noPanic (parts : List Bytes) (months days : Int) :
    NoPanic (intervalUnits parts months days : Checked (TextScanError ε) _) := by
  fun_induction intervalUnits (ε := ε) parts months days <;>
    first | assumption | exact noPanic_ok _ | exact noPanic_returned _

theorem intervalNumber_noPanic (format : String) (s : Bytes) :
    NoPanic (intervalNumber format s : Checked (TextScanError ε) Int) := by
  unfold intervalNumber
  split
  · exact noPanic_returned _
  · exact noPanic_ok _

theorem intervalFraction_noPanic (secFrac : Option Bytes) :
    NoPanic (intervalFraction secFrac : Checked (TextScanError ε) Int) := by
  cases secFrac with
  | none => exact noPanic_ok _
  | some s => exact noPanic_map _ (intervalNumber_noPanic _ s)

theorem intervalSign_noPanic_iff (hours : Bytes) :
    NoPanic (intervalSign hours : Checked (TextScanError ε) (Bool × Bytes)) ↔ hours ≠ [] := by
  cases hours with
  | nil => exact iff_of_false (fun h => h rfl) (fun h => h rfl)
  | cons c cs =>
    refine iff_of_true (noPanic_bind (noPanic_byteAt (by simp)) fun first _ => ?_) nofun
    split
    · exact noPanic_bind (noPanic_sliceAt (by simp) le_rfl) fun _ _ => noPanic_ok _
    · exact noPanic_ok _

/-- Two colons, and nothing in front of the first -/
def NoHours (last : Bytes) : Prop := ∃ minutes secs, splitByteN 58 2 last = [[], minutes, secs]

theorem intervalTime_noPanic_iff (last : Bytes) :
    NoPanic (intervalTime last : Checked (TextScanError ε) Int) ↔ ¬ NoHours last := by
  unfold intervalTime NoHours
  split
  · rename_i hours minutes secs hsplit
    rw [hsplit]
    constructor
    · rintro h ⟨minutes', secs', heq⟩
      have hnil : hours = [] := (cons.inj heq).1
      exact (intervalSign_noPanic_iff hours).mp (noPanic_bind_iff.mp h).1 hnil
    · intro h
      have hne : hours ≠ [] := fun hnil => h ⟨minutes, secs, by rw [hnil]⟩
      refine noPanic_bind ((intervalSign_noPanic_iff hours).mpr hne) fun r _ => ?_
      refine noPanic_bind (intervalNumber_noPanic _ _) fun _ _ =>
        noPanic_bind (intervalNumber_noPanic _ _) fun _ _ => ?_
      exact noPanic_bind (intervalNumber_noPanic _ _) fun _ _ =>
        noPanic_bind (intervalFraction_noPanic _) fun _ _ => noPanic_ok _
  · rename_i hne
    refine iff_of_true (noPanic_returned _) ?_
    rintro ⟨minutes, secs, heq⟩
    exact hne [] minutes secs heq

/-- The units are read, and the part behind them has no hours. -/
def HoursMissing (src : Bytes) : Prop :=
  ∃ months days last, intervalUnits (splitByte 32 src) 0 0 =
    (.ok (months, days, some last) : Checked (TextScanError Empty) _) ∧
    NoHours last

/-! ## Composites -/

/-- What is inside quotes, and the bytes it stands for -/
inductive Quoted : Bytes → Bytes → Prop
  | nil : Quoted [] []
  | byte {body value : Bytes} {c : UInt8} (hquote : c ≠ 34) (hbackslash : c ≠ 92)
    (h : Quoted body value) :
      Quoted (c :: body) (c :: value)
  | escaped {body value : Bytes} (c : UInt8) (h : Quoted body value) :
    Quoted (92 :: c :: body) (c :: value)
  | doubled {body value : Bytes} (h : Quoted body value) : Quoted (34 :: 34 :: body) (34 :: value)

theorem quotedValue_of_quoted {body value : Bytes} (h : Quoted body value) {d : UInt8} (hd : d ≠ 34)
    (rest : Bytes) :
    ∀ acc, quotedValue (body ++ 34 :: d :: rest) acc =
      (.ok (acc ++ value, rest) : Checked (TextScanError ε) _) := by
  induction h with
  | nil =>
    intro acc
    rw [nil_append, quotedValue.eq_def]
    simp
  | byte _ _ _ ih =>
    intro acc
    rw [cons_append, quotedValue.eq_def]
    simp [ih]
  | escaped c _ ih =>
    intro acc
    rw [cons_append, cons_append, quotedValue.eq_def]
    simp [ih]
  | doubled _ ih =>
    intro acc
    rw [cons_append, cons_append, quotedValue.eq_def]
    simp [ih]

theorem quoted_of_quotedValue (rest acc : Bytes)
    (h : NoPanic (quotedValue rest acc : Checked (TextScanError ε) _)) :
    ∃ body value d left, Quoted body value ∧ d ≠ 34 ∧ rest = body ++ 34 :: d :: left := by
  fun_induction quotedValue (ε := ε) rest acc with
  | case1 => exact absurd rfl h
  | case2 => exact absurd rfl h
  | case3 acc rest ih =>
    obtain ⟨body, value, d, left, hq, hd, rfl⟩ := ih h
    exact ⟨34 :: 34 :: body, 34 :: value, d, left, .doubled hq, hd, rfl⟩
  | case4 acc d rest hd => exact ⟨[], [], d, rest, .nil, hd, rfl⟩
  | case5 => exact absurd rfl h
  | case6 acc c rest ih =>
    obtain ⟨body, value, d, left, hq, hd, rfl⟩ := ih h
    exact ⟨92 :: c :: body, c :: value, d, left, .escaped c hq, hd, rfl⟩
  | case7 c rest acc hquote hbackslash ih =>
    obtain ⟨body, value, d, left, hq, hd, rfl⟩ := ih h
    exact ⟨c :: body, c :: value, d, left, .byte hquote hbackslash hq, hd, rfl⟩

theorem unquotedValue_eq {bs : Bytes} (hbs : ∀ c ∈ bs, isDelimiter c = false) {d : UInt8}
    (hd : isDelimiter d = true) (rest : Bytes) : ∀ acc, unquotedValue (bs ++ d :: rest) acc =
      (.ok (acc ++ bs, rest) : Checked (TextScanError ε) _) := by
  induction bs with
  | nil =>
    intro acc
    simp [unquotedValue, hd]
  | cons c cs ih =>
    intro acc
    simp [unquotedValue, hbs c, ih fun c hc => hbs c (.tail _ hc)]

theorem delimited_of_unquotedValue (rest acc : Bytes)
    (h : NoPanic (unquotedValue rest acc : Checked (TextScanError ε) _)) :
    ∃ bs d left, (∀ c ∈ bs, isDelimiter c = false) ∧ isDelimiter d = true ∧
    rest = bs ++ d :: left := by
  fun_induction unquotedValue (ε := ε) rest acc with
  | case1 => exact absurd rfl h
  | case2 c rest acc hc => exact ⟨[], c, rest, by simp, hc, rfl⟩
  | case3 c rest acc hc ih =>
    obtain ⟨bs, d, left, hbs, hd, rfl⟩ := ih h
    refine ⟨c :: bs, d, left, fun b hb => ?_, hd, rfl⟩
    rcases mem_cons.mp hb with rfl | hb
    · simpa using hc
    · exact hbs b hb

/-- A field that is ended, its bytes, and what is behind the byte that ends it -/
inductive TextField : Bytes → Option Bytes → Bytes → Prop
  | null {c : UInt8} {rest : Bytes} (hc : isDelimiter c = true) : TextField (c :: rest) none rest
  | quoted {body value rest : Bytes} {d : UInt8} (h : Quoted body value) (hd : d ≠ 34) :
      TextField (34 :: (body ++ 34 :: d :: rest)) (some value) rest
  | unquoted {c d : UInt8} {bs rest : Bytes} (hquote : c ≠ 34)
    (hbs : ∀ b ∈ c :: bs, isDelimiter b = false)
      (hd : isDelimiter d = true) : TextField (c :: bs ++ d :: rest) (some (c :: bs)) rest

theorem nextTextField_eq {rest left : Bytes} {b : Option Bytes} (h : TextField rest b left) :
    nextTextField rest = (.ok (b, left) : Checked (TextScanError ε) _) := by
  cases h with
  | null hc => simp [nextTextField, hc]
  | quoted h hd =>
    have hvalue := quotedValue_of_quoted (ε := ε) h hd left []
    simp [nextTextField, show isDelimiter 34 = false by decide, hvalue, Functor.map, Except.map]
  | @unquoted c d bs _ hquote hbs hd =>
    have hvalue := unquotedValue_eq (ε := ε) hbs hd left []
    rw [cons_append] at hvalue ⊢
    simp [nextTextField, hbs c (.head _), hquote, hvalue, Functor.map, Except.map]

theorem textField_of_noPanic {rest : Bytes} (h :
    NoPanic (nextTextField rest : Checked (TextScanError ε) _)) :
    ∃ b left, TextField rest b left := by
  unfold nextTextField at h
  split at h
  · exact absurd rfl h
  · rename_i c rest
    split at h
    · rename_i hc
      exact ⟨none, rest, .null hc⟩
    · rename_i hc
      split at h
      · rename_i hquote
        obtain ⟨body, value, d, left, hq, hd, rfl⟩ :=
          quoted_of_quotedValue rest [] (noPanic_map_iff.mp h)
        exact ⟨some value, left, hquote ▸ .quoted hq hd⟩
      · rename_i hquote
        obtain ⟨bs, d, left, hbs, hd, heq⟩ :=
          delimited_of_unquotedValue (c :: rest) [] (noPanic_map_iff.mp h)
        cases bs with
        | nil =>
          rw [(cons.inj heq).1] at hc
          exact absurd hd hc
        | cons b bs =>
          have hb : c = b := (cons.inj heq).1
          exact ⟨some (b :: bs), left, heq ▸ .unquoted (hb ▸ hquote) hbs hd⟩

/-- The fields that the scan comes to are ended, and the target has them. -/
def Terminated (t : CompositeTarget) (scan : ScanTextField ε α) : (count i : Nat) → Bytes → Prop
  | 0, _, _ => True
  | count + 1, i, rest =>
    rest = [] ∨ ∃ b left, TextField rest b left ∧ t.Has i ∧
    NoPanic (scan i b) ∧ ((∃ a, scan i b = .ok a) → Terminated t scan count (i + 1) left)

def CompositeTextScanner.at (rest : Bytes) : CompositeTextScanner ε := ⟨rest, none⟩

theorem next_eq {rest left : Bytes} {b : Option Bytes} (h : TextField rest b left) :
    (CompositeTextScanner.at rest).next =
      (.ok (some (b, .at left)) : Checked (TextScanError ε)
        (Option (Option Bytes × CompositeTextScanner ε))) := by
  have hne : rest ≠ [] := by
    cases h <;> simp
  simp [CompositeTextScanner.next, CompositeTextScanner.at, hne, nextTextField_eq h,
    Functor.map, Except.map]

theorem next_panics {rest : Bytes} (hne : rest ≠ []) (h : ¬ ∃ b left, TextField rest b left) :
    (CompositeTextScanner.at rest : CompositeTextScanner ε).next = .error .panic := by
  have hpanic : nextTextField rest = (.error .panic : Checked (TextScanError ε) _) := by
    by_contra hnp
    exact h (textField_of_noPanic hnp)
  simp [CompositeTextScanner.next, CompositeTextScanner.at, hne, hpanic, Functor.map, Except.map]

variable {t : CompositeTarget}

theorem noPanic_fieldAt {i : Nat} :
    NoPanic (t.fieldAt i : Checked (TextScanError ε) Unit) ↔ t.Has i := by
  unfold CompositeTarget.fieldAt
  split
  · rename_i h
    exact iff_of_true (noPanic_ok _) h
  · rename_i h
    exact iff_of_false (fun hnp => hnp rfl) h

theorem scanTextFields_noPanic_iff {scan : ScanTextField ε α} :
    ∀ (count i : Nat) (rest : Bytes), NoPanic (scanTextFields t scan count i (.at rest)) ↔
    Terminated t scan count i rest := by
  intro count
  induction count with
  | zero => exact fun _ _ => iff_of_true (noPanic_ok _) trivial
  | succ count ih =>
    intro i rest
    rw [scanTextFields]
    by_cases hnil : rest = []
    · subst hnil
      exact iff_of_true (noPanic_returned _) (.inl rfl)
    by_cases hfield : ∃ b left, TextField rest b left
    · obtain ⟨b, left, hb⟩ := hfield
      rw [next_eq hb]
      show NoPanic (t.fieldAt i >>= fun _ => (scan i b).wrap .field >>= fun a => _) ↔ _
      rw [noPanic_bind_iff, noPanic_fieldAt]
      constructor
      · rintro ⟨hhas, h⟩
        obtain ⟨hscan, hnext⟩ := noPanic_bind_iff.mp (h () (if_pos hhas))
        refine .inr ⟨b, left, hb, hhas, noPanic_wrap.mp hscan, ?_⟩
        rintro ⟨a, ha⟩
        exact (ih _ _).mp (noPanic_bind_iff.mp (hnext a (wrap_eq_ok.mpr ha))).1
      · rintro (h | ⟨b', left', hb', hhas, hscan, h⟩)
        · exact absurd h hnil
        · have hsame : (b', left') = (b, left) :=
            Except.ok.inj ((nextTextField_eq (ε := ε) hb').symm.trans (nextTextField_eq hb))
          cases hsame
          refine ⟨hhas, fun _ _ => noPanic_bind (noPanic_wrap.mpr hscan) fun a ha => ?_⟩
          exact noPanic_bind ((ih _ _).mpr (h ⟨a, wrap_eq_ok.mp ha⟩)) fun _ _ => noPanic_ok _
    · rw [next_panics hnil hfield]
      refine iff_of_false (fun h => h rfl) ?_
      rintro (h | ⟨b, left, h, -⟩)
      · exact hnil h
      · exact hfield ⟨b, left, h⟩

def Framed (src : Bytes) : Prop := 2 ≤ src.length ∧ src[0]? = some 40 ∧ src[src.length - 1]? = some 41

theorem newCompositeTextScanner_cases (src : Bytes) :
    (Framed src ∧ newCompositeTextScanner src =
      (.ok (.at (src.drop 1)) : Checked (TextScanError ε) _)) ∨
      ¬ Framed src ∧ ∃ err, newCompositeTextScanner src =
        (.ok ⟨[], some err⟩ : Checked (TextScanError ε) _) := by
  unfold newCompositeTextScanner
  by_cases hlen : src.length < 2
  · exact .inr ⟨fun h => absurd h.1 (by omega), _, if_pos hlen⟩
  · obtain ⟨first, hfirst⟩ : ∃ c, src[0]? = some c := ⟨_, getElem?_eq_getElem (by omega)⟩
    obtain ⟨last, hlast⟩ : ∃ c, src[src.length - 1]? = some c := ⟨_, getElem?_eq_getElem (by omega)⟩
    simp only [if_neg hlen, byteAt, hfirst, hlast, bind, Except.bind]
    by_cases h40 : first = 40
    · by_cases h41 : last = 41
      · subst h40 h41
        exact .inl ⟨⟨by omega, hfirst, hlast⟩, rfl⟩
      · refine .inr ⟨fun h => h41 (Option.some.inj (hlast.symm.trans h.2.2)), ?_⟩
        simp [h40, h41]
    · refine .inr ⟨fun h => h40 (Option.some.inj (hfirst.symm.trans h.2.1)), ?_⟩
      simp [h40]

theorem scanCompositeText_noPanic_iff {count : Nat} {scan : ScanTextField ε α} (src : Bytes) :
    NoPanic (scanCompositeText count t scan src) ↔
    (Framed src → Terminated t scan count 0 (src.drop 1)) := by
  unfold scanCompositeText
  rcases newCompositeTextScanner_cases (ε := ε) src with ⟨hframed, heq⟩ | ⟨hframed, err, heq⟩
  · rw [heq]
    exact (scanTextFields_noPanic_iff count 0 _).trans ⟨fun h _ => h, fun h => h hframed⟩
  · rw [heq]
    refine iff_of_true ?_ (fun h => absurd h hframed)
    cases count with
    | zero => exact noPanic_returned _
    | succ count => exact noPanic_returned _

/-- The text does not end inside quotes that the composite's scan comes to, no scan of a field that is
reached panics, and a time has hours. -/
def TextScanner.Guarded (scan : ScanTextField ε α) : TextScanner → Option Bytes → Prop
  | .composite count t, some src => Framed src → Terminated t scan count 0 (src.drop 1)
  | .interval, some src => ¬ HoursMissing src
  | _, _ => True

theorem intervalUnits_empty (parts : List Bytes) (months days : Int) (r : Int × Int × Option Bytes) :
    intervalUnits parts months days = (.ok r : Checked (TextScanError ε) _) ↔
      intervalUnits parts months days = (.ok r : Checked (TextScanError Empty) _) := by
  fun_induction intervalUnits (ε := ε) parts months days <;> simp_all [intervalUnits, returnError]

theorem scanIntervalText_noPanic_iff (src : Bytes) :
    NoPanic (scanIntervalText src : Checked (TextScanError ε) Interval) ↔ ¬ HoursMissing src := by
  unfold scanIntervalText
  rw [noPanic_bind_iff]
  constructor
  · rintro ⟨-, h⟩ ⟨months, days, last, hunits, hno⟩
    have htime := h _ ((intervalUnits_empty _ _ _ _).mpr hunits)
    exact (intervalTime_noPanic_iff last).mp (noPanic_bind_iff.mp htime).1 hno
  · refine fun h => ⟨intervalUnits_noPanic _ _ _, ?_⟩
    rintro ⟨months, days, last⟩ hunits
    cases last with
    | none => exact noPanic_ok _
    | some last =>
      have htime : ¬ NoHours last := fun hno =>
        h ⟨_, _, _, (intervalUnits_empty _ _ _ _).mp hunits, hno⟩
      exact noPanic_bind ((intervalTime_noPanic_iff last).mpr htime) fun _ _ => noPanic_ok _

end Scanners

def keepTextField : ScanTextField Empty (Option Bytes) := fun _ b => .ok b

/-- `("a",)` -/
def quotedAndNull : Bytes := [40, 34, 97, 34, 44, 41]

end Pgx.Pgtype
