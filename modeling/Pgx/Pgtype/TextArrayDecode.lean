import Pgx.Pgtype.ArrayTokens
import Pgx.Pgtype.BinaryArray

/-!
# Scanning an array in text

The target makes room for as many elements as the dimensions say, and the elements of the text are
scanned into it one after the other. Nothing compares the two numbers.
-/
namespace Pgx.Pgtype

open Pgx.Go Pgx.Go.Cursor List

inductive TextDecodeError (ε : Type) where
  | parse (err : TextArrayError)
  | set (err : ArrayError ε)
  | scan (err : ε)
  deriving DecidableEq

section Decode

variable {ε α : Type}

/-- `elemSrc`: an unquoted NULL leaves it at nil. -/
def textSource : Text × Bool → Option Bytes
  | (s, quoted) => if s ≠ "NULL".toList ∨ quoted then some (textBytes s) else none

/-- `for i, s := range uta.Elements`. The plan is chosen for `array.ScanIndex(0)` before; it panics
where the first round does. -/
def scanTexts (flatLen : Nat) (scan : Option Bytes → Checked ε α) :
    (i : Nat) → List (Text × Bool) → Checked (TextDecodeError ε) (List α)
  | _, [] => .ok []
  | i, e :: es =>
    if i < flatLen then do
      let a ← (scan (textSource e)).wrap .scan
      let as ← scanTexts flatLen scan (i + 1) es
      pure (a :: as)
    else .error .panic

def decodeTextBody (p : Platform) (t : ArrayTarget) (scan : Option Bytes → Checked ε α)
    (uta : UntypedTextArray) :
    Checked (TextDecodeError ε) (Decoded α) := do
  let layout ← (setDimensions p uta.dimensions t).wrap .set
  let elements ← scanTexts (cardinality p uta.dimensions).toNat scan 0 uta.elements
  pure ⟨layout, elements⟩

/-- `ArrayCodec.decodeText` -/
def decodeText (p : Platform) (t : ArrayTarget) (scan : Option Bytes → Checked ε α) (src : Bytes) :
    Checked (TextDecodeError ε) (Decoded α) :=
  (parseUntypedTextArray (runes src)).wrap .parse >>= decodeTextBody p t scan

variable {scan : Option Bytes → Checked ε α}

/-- With room for all elements, only the scan of one of them can panic. -/
theorem scanTexts_noPanic_iff {flatLen : Nat} (es : List (Text × Bool)) : ∀ {i : Nat},
    i + es.length ≤ flatLen →
      (NoPanic (scanTexts flatLen scan i es) ↔ ¬ Trips scan (es.map textSource)) := by
  induction es with
  | nil => exact fun _ => iff_of_true (noPanic_ok _) id
  | cons e es ih =>
    intro i hle
    rw [length_cons] at hle
    rw [scanTexts, if_pos (by omega), noPanic_bind_iff, noPanic_wrap, map_cons, not_trips_cons]
    have hrest : ∀ a : α, NoPanic (scanTexts flatLen scan (i + 1) es >>= fun as => pure (a :: as)) ↔
        ¬ Trips scan (es.map textSource) := by
      intro a
      rw [noPanic_bind_iff, ih (by omega)]
      exact and_iff_left fun _ _ => noPanic_ok _
    simp only [hrest, wrap_eq_ok]

theorem lexes_length {buf rest : Text} {toks : List Token} (h : Lexes buf toks rest) :
    toks.length + rest.length ≤ buf.length := by
  induction h with
  | nil buf => simp
  | cons head tail ih =>
    have := nextToken_length head
    rw [length_cons]
    omega

theorem values_length_le (toks : List Token) : (values toks).length ≤ toks.length := by
  induction toks with
  | nil => simp [values]
  | cons tok toks ih =>
    have hcons : values (tok :: toks) = tok.values ++ values toks := rfl
    have hone : tok.values.length ≤ 1 := by cases tok <;> simp [Token.values]
    rw [hcons, length_append, length_cons]
    omega

theorem explicitDimensions_length (buf : Text) : ∀ {ds : List ArrayDimension} {buf' : Text},
    explicitDimensions buf = .ok (ds, buf') → buf'.length ≤ buf.length := by
  fun_induction explicitDimensions buf with
  | case1 => intro ds buf' h; cases h
  | case2 =>
    intro ds buf' h
    cases h
    simp
  | case3 => intro ds buf' h; cases h
  | case4 => intro ds buf' h; cases h
  | case5 => intro ds buf' h; cases h
  | case6 r buf _ _ d buf₁ hbounds ds' buf₂ hrest ih =>
    intro ds buf' h
    cases h
    have h1 := parseBounds_length hbounds
    have h2 := ih hrest
    rw [length_cons]
    omega

theorem explicitPart_length {buf buf' : Text} {ds : List ArrayDimension}
    (h : explicitPart buf = .ok (ds, buf')) :
    buf'.length ≤ buf.length := by
  cases buf with
  | nil => cases h
  | cons r buf =>
    simp only [explicitPart] at h
    split at h
    · exact explicitDimensions_length _ h
    · cases h
      exact le_rfl

/-- Every value takes a rune at least. -/
theorem Written.values_length {src : Text} {bounds : List ArrayDimension} {toks : List Token}
    (h : Written src bounds toks) : (values toks).length ≤ src.length := by
  obtain ⟨buf, rest, hexplicit, hlex, -, -⟩ := h
  have h1 := explicitPart_length hexplicit
  have h2 := lexes_length hlex
  have h3 := values_length_le toks
  have h4 := (src.dropWhile_sublist isSpaceRune).length_le
  rw [length_cons] at h2
  unfold skipWhitespace at h1
  omega

/-- What a reader of text arrays relies on: there are as many elements as the dimensions say, and no
target is indexed out of range. -/
structure TextSafe (p : Platform) (scan : Option Bytes → Checked ε α) (src : Bytes) : Prop where
  count : ∀ uta, parseUntypedTextArray (runes src) = .ok uta →
    (uta.elements.length : Int) = volume uta.dimensions
  noPanic : ∀ t, NoPanic (decodeText p t scan src)

/-- There are as many values as the lengths multiply to, the lengths of several dimensions are
positive, and no scan of a value that is reached panics. -/
structure Agrees (scan : Option Bytes → Checked ε α) (bounds : List ArrayDimension)
    (toks : List Token) : Prop where
  count : ((values toks).length : Int) = volume (dimensionsOf bounds toks)
  pos : 2 ≤ (dimensionsOf bounds toks).length → ∀ d ∈ dimensionsOf bounds toks, 1 ≤ d.len
  quiet : ¬ Trips scan ((values toks).map textSource)

theorem decodeText_eq {p : Platform} {t : ArrayTarget} {src : Bytes}
    {uta : UntypedTextArray} (h : parseUntypedTextArray (runes src) = .ok uta) :
    decodeText p t scan src = decodeTextBody p t scan uta := by
  unfold decodeText
  rw [h]
  rfl

theorem dimensionsOf_eq_nil_iff (bounds : List ArrayDimension) (toks : List Token) :
    dimensionsOf bounds toks = [] ↔ values toks = [] := by
  unfold dimensionsOf
  split
  · simp_all
  · split
    · simp_all
    · simp_all [firstGroups]

theorem volume_of_ne_nil {dims : List ArrayDimension} (h : dims ≠ []) :
    volume dims = (lengths dims).prod := if_neg h

theorem Written.values_fits {p : Platform} {src : Bytes} {bounds : List ArrayDimension}
    {toks : List Token} (hw : Written (runes src) bounds toks) (hsrc : Fits p src.length) :
    Fits p (values toks).length := by
  refine fits_of_between (by omega) ?_ hsrc
  have := hw.values_length
  have := runes_length_le src
  omega

/-- A number of elements that agrees with the lengths is the one that room is made for. -/
theorem Written.cardinality_eq {p : Platform} {src : Bytes} {bounds : List ArrayDimension}
    {toks : List Token} (hw : Written (runes src) bounds toks) (hsrc : Fits p src.length)
    (hcount : ((values toks).length : Int) = volume (dimensionsOf bounds toks)) :
    cardinality p (dimensionsOf bounds toks) = (values toks).length := by
  have hfits := hw.values_fits hsrc
  rw [hcount] at hfits ⊢
  exact cardinality_of_fits (by rw [← hcount]; omega) hfits

/-- Scanning into slices of slices has cut the flat slice. -/
theorem pos_of_decodeText {p : Platform} {src : Bytes} {bounds : List ArrayDimension}
    {toks : List Token} (hparse : parseUntypedTextArray (runes src) =
      .ok ⟨values toks, dimensionsOf bounds toks⟩)
    (hvol : ((values toks).length : Int) = volume (dimensionsOf bounds toks))
    (hrun : NoPanic (decodeText p (.slices (dimensionsOf bounds toks).length) scan src))
    (h2 : 2 ≤ (dimensionsOf bounds toks).length) : ∀ d ∈ dimensionsOf bounds toks, 1 ≤ d.len := by
  have hne : dimensionsOf bounds toks ≠ [] := by
    intro h
    simp [h] at h2
  have hpos : (values toks).length ≠ 0 := by
    rw [Ne, length_eq_zero_iff]
    exact fun h => hne ((dimensionsOf_eq_nil_iff bounds toks).mpr h)
  rw [decodeText_eq hparse] at hrun
  rcases setDimensions_cases ε p (dimensionsOf bounds toks)
    (.slices (dimensionsOf bounds toks).length) with ⟨-, hcuts, -⟩ | ⟨-, -, hset⟩ | ⟨hno, -⟩
  · refine pos_of_cuts (hcuts ⟨h2, rfl⟩) fun d hd h0 => ?_
    have hne : volume (dimensionsOf bounds toks) ≠ 0 := by
      rw [← hvol]
      exact_mod_cast hpos
    rw [volume_of_ne_nil (ne_nil_of_mem hd)] at hne
    exact hne (prod_eq_zero (mem_map.mpr ⟨d, hd, h0⟩))
  · unfold decodeTextBody at hrun
    rw [hset] at hrun
    exact absurd rfl hrun
  · exact absurd (ArrayTarget.Nests.takes ⟨h2, rfl⟩) hno

/-- The elements fit into every target exactly if the numbers agree and no scan of an element
panics. -/
theorem textSafe_iff (p : Platform) (scan : Option Bytes → Checked ε α) (src : Bytes)
    (hsrc : Fits p src.length) :
    TextSafe p scan src ↔
      ∀ bounds toks, Written (runes src) bounds toks → Agrees scan bounds toks := by
  constructor
  · rintro ⟨hcount, hnp⟩ bounds toks hw
    have hparse := parse_of_written hw
    have hvol := hcount _ hparse
    refine ⟨hvol, pos_of_decodeText hparse hvol (hnp _), ?_⟩
    -- room is made for all elements, so that only their scan can panic
    have hrun := hnp .array
    rw [decodeText_eq hparse] at hrun
    have hscan := (noPanic_bind_iff.mp ((noPanic_bind_iff.mp hrun).2 _ rfl)).1
    exact (scanTexts_noPanic_iff _ (by simp [hw.cardinality_eq hsrc hvol])).mp hscan
  · intro h
    refine ⟨fun uta huta => ?_, fun t => ?_⟩
    · obtain ⟨bounds, toks, hw, rfl⟩ := (parse_ok_iff _ _).mp huta
      exact (h bounds toks hw).count
    · by_cases hp : ∃ uta, parseUntypedTextArray (runes src) = .ok uta
      · obtain ⟨uta, huta⟩ := hp
        obtain ⟨bounds, toks, hw, rfl⟩ := (parse_ok_iff _ _).mp huta
        have hag := h bounds toks hw
        have hcard := hw.cardinality_eq hsrc hag.count
        have hfits : Fits p (cardinality p (dimensionsOf bounds toks)).toNat := by
          rw [hcard, Int.toNat_natCast]
          exact hw.values_fits hsrc
        rw [decodeText_eq huta]
        refine noPanic_bind (noPanic_wrap.mpr ?_) fun layout _ =>
          noPanic_bind ?_ fun _ _ => noPanic_ok _
        · rcases setDimensions_cases ε p (dimensionsOf bounds toks) t with ⟨-, -, layout, hset, -⟩ |
            ⟨hnests, hcuts, -⟩ | ⟨-, err, hset⟩
          · simp only [hset]
            exact noPanic_ok _
          · obtain ⟨hne, hvol⟩ := hnests.volume_eq
            refine absurd (cuts_of_pos hfits hne (hag.pos hnests.1) (Int.le_refl 0) ?_) hcuts
            rw [zero_add, ← hvol, ← hag.count, hcard, Int.toNat_natCast]
          · simp only [hset]
            exact noPanic_returned _
        · exact (scanTexts_noPanic_iff _ (by simp [hcard])).mpr hag.quiet
      · refine noPanic_bind (noPanic_wrap.mpr (parseUntypedTextArray_noPanic _)) fun uta huta => ?_
        exact absurd ⟨uta, wrap_eq_ok.mp huta⟩ hp

end Decode

theorem parse_pair : parseUntypedTextArray (runes (ascii "{1,2}")) =
    .ok ⟨[(['1'], false), (['2'], false)], [⟨2, 1⟩]⟩ := by
  have hwritten : Written ['{', '1', ',', '2', '}'] []
      [.value ['1'] false, .comma, .value ['2'] false, .closing] :=
    ⟨_, [], rfl, .cons rfl (.cons rfl (.cons rfl (.cons rfl (.cons rfl (.nil _))))), rfl, rfl⟩
  exact parse_of_written hwritten

/-- Two elements of one dimension -/
theorem textSafe_pair : TextSafe .bits64 keepBytes (ascii "{1,2}") := by
  refine (textSafe_iff .bits64 keepBytes _ (by decide +kernel)).mpr fun bounds toks hw => ?_
  have heq := Except.ok.inj ((parse_of_written hw).symm.trans parse_pair)
  rw [UntypedTextArray.mk.injEq] at heq
  refine ⟨?_, ?_, not_trips_of_noPanic keepBytes_noPanic _⟩
  · rw [heq.1, heq.2]
    decide
  · rw [heq.2]
    decide

/-- Only the first row is counted: three elements for two rows of two. Bounds are not compared with
anything: two elements for a length of one. -/
theorem dimensions_unchecked : (∃ uta, parseUntypedTextArray (runes (ascii "{{1,2},{3}}")) = .ok uta ∧
      (uta.elements.length : Int) ≠ volume uta.dimensions) ∧
    ¬ NoPanic (decodeText .bits64 .flatArray keepBytes (ascii "[1:1]={1,2}")) := by
  constructor
  · have hrunes : runes (ascii "{{1,2},{3}}") =
        ['{', '{', '1', ',', '2', '}', ',', '{', '3', '}', '}'] := by
      decide +kernel
    refine ⟨_, parse_of_written
      ⟨_, [], rfl, .cons rfl (.cons rfl (.cons rfl (.cons rfl (.cons rfl (.cons rfl (.cons rfl
      (.cons rfl (.cons rfl (.cons rfl (.cons rfl (.nil _))))))))))), rfl, rfl⟩, ?_⟩
    decide
  · have hrunes : runes (ascii "[1:1]={1,2}") =
        ['[', '1', ':', '1', ']', '=', '{', '1', ',', '2', '}'] := by
      decide +kernel
    have hbounds :
        explicitPart (skipWhitespace ['[', '1', ':', '1', ']', '=', '{', '1', ',', '2', '}']) =
        .ok ([⟨1, 1⟩], ['{', '1', ',', '2', '}']) := by
      have h1 : parseBounds ['1', ':', '1', ']', '=', '{', '1', ',', '2', '}'] =
          .ok (⟨1, 1⟩, ['=', '{', '1', ',', '2', '}']) := by decide +kernel
      exact explicitDimensions_bounds h1 (explicitDimensions_end _)
    have hparse : parseUntypedTextArray (runes (ascii "[1:1]={1,2}")) =
        .ok ⟨[(['1'], false), (['2'], false)], [⟨1, 1⟩]⟩ := by
      exact parse_of_written ⟨_, [], hbounds,
        .cons rfl (.cons rfl (.cons rfl (.cons rfl (.cons rfl (.nil _))))), rfl, rfl⟩
    decide +kernel

end Pgx.Pgtype
