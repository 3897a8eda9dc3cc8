import Pgx.Pgtype.ArrayGroups
import Pgx.Pgtype.TextArrayDecode

/-!
# Writing an array in text

Bounds are written only if a lower bound is not 1. A text is quoted if it could be read as something
else. What is written is parsed to the same dimensions, the same lower bounds and the same elements.
-/
namespace Pgx.Pgtype

open Pgx.Go List

variable {c : Char} {elems : List (Option Text)} {dims : List ArrayDimension} {s : Text}

/-! ## Encoding -/

def encodeBounds (d : ArrayDimension) : Text :=
  '[' :: (formatInt d.lowerBound.toInt ++ ':' ::
    (formatInt (d.lowerBound + d.length - 1).toInt ++ [']']))

def encodeTextArrayDimensions (dims : List ArrayDimension) : Text :=
  if dims.any (fun d => d.lowerBound ≠ 1) then dims.flatMap encodeBounds ++ ['='] else []

/-- `quoteArrayReplacer.Replace` -/
def escapeElement (s : Text) : Text :=
  s.flatMap fun c => if c = '\\' then ['\\', '\\'] else if c = '"' then ['\\', '"'] else [c]

def quoteArrayElement (s : Text) : Text := '"' :: (escapeElement s ++ ['"'])

def isSpace (c : Char) : Bool :=
    c = ' ' || c = '\t' || c = '\n' || c = '\r' || c = '\x0b' || c = '\x0c'

/-- `strings.EqualFold(src, "null")` for four bytes: no other characters fold to these letters. -/
def equalFoldNull (s : Text) : Bool := s.map Char.toLower = "null".toList

def needsQuotes (s : Text) : Bool :=
  s = [] || equalFoldNull s || (s.head?.any isSpace) || (s.getLast?.any isSpace) ||
    s.any fun c => c = '{' || c = '}' || c = ',' || c = '"' || c = '\\'

def quoteArrayElementIfNeeded (s : Text) : Text := if needsQuotes s then quoteArrayElement s else s

def encodeElement : Option Text → Text
  | none => "NULL".toList
  | some s => quoteArrayElementIfNeeded s

/-- The elements in an array of the dimensions from each on -/
def dimElemCounts (p : Platform) : List ArrayDimension → List Int
  | [] => []
  | d :: ds =>
    match dimElemCounts p ds with
    | [] => [d.len]
    | n :: ns => p.int (d.len * n) :: n :: ns

/-- `for i := range elementCount`. An index out of range and a remainder by zero panic, which is
`none`. -/
def encodeElements (counts : List Int) (elems : List (Option Text)) : (count i : Nat) → Option Text
  | 0, _ => some []
  | count + 1, i =>
    match elems[i]? with
    | none => none
    | some e =>
      if 0 ∈ counts then none
      else
        (encodeElements counts elems count (i + 1)).map fun rest =>
          (if 0 < i then [','] else []) ++ replicate
            (counts.countP fun n => (i : Int).tmod n = 0) '{' ++
            encodeElement e ++ replicate (counts.countP fun n => (i + 1 : Int).tmod n = 0) '}' ++ rest

/-- `encodePlanArrayCodecText.Encode` for dimensions that are not nil; the elements' own encoding is
given. -/
def encodeTextArray (p : Platform) (dims : List ArrayDimension)
    (elems : List (Option Text)) : Option Text :=
  if cardinality p dims = 0 then some ['{', '}']
  else
    (encodeElements (dimElemCounts p dims) elems (cardinality p dims).toNat 0).map fun body =>
      encodeTextArrayDimensions dims ++ body

def Token.text : Token → Text
  | .opening => ['{']
  | .comma => [',']
  | .closing => ['}']
  | .value s true => quoteArrayElement s
  | .value s false => s

/-- A value that needs no quotes to be read as it is, up to the next comma or brace -/
def Token.Plain : Token → Prop
  | .value s false => s ≠ [] ∧ ∀ c ∈ s, c ≠ '{' ∧ c ≠ '}' ∧ c ≠ ',' ∧ c ≠ '"'
  | _ => True

def Token.Separates : Token → Prop
  | .comma => True
  | .closing => True
  | _ => False

/-- A comma or a closing brace stands behind every value. -/
def Separated : List Token → Prop
  | [] => True
  | .value _ _ :: toks => (∃ t ts, toks = t :: ts ∧ t.Separates) ∧ Separated toks
  | _ :: toks => Separated toks

theorem Token.Separates.text {t : Token} (h : t.Separates) :
    ∃ c, t.text = [c] ∧ (c = ',' ∨ c = '}') := by
  cases t with
  | comma => exact ⟨',', rfl, .inl rfl⟩
  | closing => exact ⟨'}', rfl, .inr rfl⟩
  | opening => exact absurd h id
  | value s quoted => exact absurd h id

theorem arrayParseUnquotedValue_plain (hs : ∀ c ∈ s, c ≠ '{' ∧ c ≠ '}' ∧ c ≠ ',' ∧ c ≠ '"')
    (hc : c = ',' ∨ c = '}') (rest : Text) : arrayParseUnquotedValue (s ++ c :: rest) = .ok
      (s, c :: rest) := by
  induction s with
  | nil =>
    rw [nil_append, arrayParseUnquotedValue, if_pos hc]
  | cons r s ih =>
    obtain ⟨-, hbrace, hcomma, -⟩ := hs r (by simp)
    rw [cons_append, arrayParseUnquotedValue, if_neg (by simp [hbrace, hcomma]), ih fun c' hc' =>
      hs c' (.tail _ hc')]

theorem arrayParseQuotedValue_escape (s : Text) (c : Char) (rest : Text) :
    arrayParseQuotedValue (escapeElement s ++ '"' :: c :: rest) = .ok (s, c :: rest) := by
  induction s with
  | nil => simp [escapeElement, arrayParseQuotedValue]
  | cons r s ih =>
    have hcons : escapeElement (r :: s) =
        (if r = '\\' then ['\\', '\\'] else if r = '"' then ['\\', '"'] else [r]) ++
          escapeElement s := rfl
    rw [hcons]
    split
    · rename_i hr
      simp [arrayParseQuotedValue, ih, hr]
    split
    · rename_i hr
      simp [arrayParseQuotedValue, ih, hr]
    · rename_i hback hquote
      rw [cons_append, nil_append, cons_append]
      unfold arrayParseQuotedValue
      simp only [if_neg hback, if_neg hquote, ih]

theorem nextToken_value {quoted : Bool} (hplain : (Token.value s quoted).Plain)
    (hc : c = ',' ∨ c = '}') (rest : Text) :
    nextToken ((Token.value s quoted).text ++ c :: rest) = .ok (.value s quoted, c :: rest) := by
  cases quoted with
  | true =>
    have htext : (Token.value s true).text ++ c :: rest = '"' ::
        (escapeElement s ++ '"' :: c :: rest) := by
      simp [Token.text, quoteArrayElement]
    rw [htext]
    simp [nextToken, arrayParseValue, arrayParseQuotedValue_escape, Functor.map, Except.map]
  | false =>
    obtain ⟨hne, hs⟩ := hplain
    obtain ⟨r, s', rfl⟩ := exists_cons_of_ne_nil hne
    obtain ⟨h1, h2, h3, h4⟩ := hs r (by simp)
    have hparse := arrayParseUnquotedValue_plain hs hc rest
    rw [cons_append] at hparse
    show nextToken (r :: (s' ++ c :: rest)) = _
    simp [nextToken, arrayParseValue, h1, h2, h3, h4, hparse, Functor.map, Except.map]

theorem lexes_text (rest : Text) : ∀ {toks : List Token}, Separated toks → (∀ t ∈ toks, t.Plain) →
    Lexes (toks.flatMap Token.text ++ rest) toks rest
  | [], _, _ => .nil rest
  | .opening :: toks, hsep, hplain =>
    .cons rfl (lexes_text rest hsep fun t ht => hplain t (.tail _ ht))
  | .comma :: toks, hsep, hplain =>
    .cons rfl (lexes_text rest hsep fun t ht => hplain t (.tail _ ht))
  | .closing :: toks, hsep, hplain =>
    .cons rfl (lexes_text rest hsep fun t ht => hplain t (.tail _ ht))
  | .value s quoted :: toks, ⟨⟨t, ts, htoks, ht⟩, hsep⟩, hplain => by
    obtain ⟨c, hc, hsepc⟩ := ht.text
    have htail : toks.flatMap Token.text ++ rest = c :: (ts.flatMap Token.text ++ rest) := by
      rw [htoks, flatMap_cons, hc]
      rfl
    have hlex := lexes_text rest hsep fun t ht => hplain t (.tail _ ht)
    rw [htail] at hlex
    rw [flatMap_cons, append_assoc, htail]
    exact .cons (nextToken_value (hplain _ (by simp)) hsepc _) hlex

def elementToken : Option Text → Token
  | none => .value "NULL".toList false
  | some s => .value s (needsQuotes s)

theorem elementToken_text (e : Option Text) : (elementToken e).text = encodeElement e := by
  cases e with
  | none => rfl
  | some s =>
    simp only [elementToken, encodeElement, quoteArrayElementIfNeeded]
    cases needsQuotes s <;> rfl

theorem plain_of_needsQuotes (h : needsQuotes s = false) :
    s ≠ [] ∧ ∀ c ∈ s, c ≠ '{' ∧ c ≠ '}' ∧ c ≠ ',' ∧ c ≠ '"' := by
  simp only [needsQuotes, Bool.or_eq_false_iff, decide_eq_false_iff_not, any_eq_false,
    Bool.or_eq_true,
    decide_eq_true_eq, not_or] at h
  obtain ⟨⟨⟨⟨hne, -⟩, -⟩, -⟩, hchars⟩ := h
  refine ⟨hne, fun c hc => ?_⟩
  obtain ⟨⟨⟨⟨h1, h2⟩, h3⟩, h4⟩, -⟩ := hchars c hc
  exact ⟨h1, h2, h3, h4⟩

theorem elementToken_plain (e : Option Text) : (elementToken e).Plain := by
  cases e with
  | none => exact ⟨cons_ne_nil _ _, by simp⟩
  | some s =>
    simp only [elementToken]
    cases h : needsQuotes s with
    | true => exact trivial
    | false => exact plain_of_needsQuotes h

def readElement : Text × Bool → Option Text
  | (s, quoted) => if s ≠ "NULL".toList ∨ quoted then some s else none

/-- A text is never taken for NULL: an unquoted one is not spelled like it. -/
theorem readElement_elementToken (e : Option Text) :
    (elementToken e).values.map readElement = [e] := by
  cases e with
  | none => rfl
  | some s =>
    have hnull : needsQuotes s = false → s ≠ "NULL".toList := by
      rintro h rfl
      revert h
      decide
    cases h : needsQuotes s with
    | true => simp [elementToken, Token.values, readElement, h]
    | false =>
      simp only [elementToken, Token.values, readElement, h, map_cons, map_nil]
      rw [if_pos (.inl (hnull h))]

theorem values_elementTokens (elems : List (Option Text)) :
    (values (elems.map elementToken)).map readElement = elems := by
  induction elems with
  | nil => rfl
  | cons e es ih =>
    rw [map_cons, values_cons, map_append, readElement_elementToken, ih]
    rfl

theorem separated_group {toks : List Token} (hsep : Separated toks) :
    ∀ {ls : List Nat} {es : List Token},
    (ls = [] → ∃ t ts, toks = t :: ts ∧ t.Separates) → Rows ls es →
    Separated (group ls es ++ toks) := by
  intro ls
  induction ls generalizing toks with
  | nil =>
    intro es hhead h
    obtain ⟨s, quoted, rfl⟩ := h.single
    exact ⟨hhead rfl, hsep⟩
  | cons l ls ih =>
    have hmore : ∀ n es, MoreRows ls n es → Separated
        (moreRows (group ls) ls.prod n es ++ .closing :: toks) ∧
          ∃ t ts, moreRows (group ls) ls.prod n es ++ .closing :: toks = t :: ts ∧ t.Separates := by
      intro n
      induction n with
      | zero => exact fun _ _ => ⟨hsep, _, _, rfl, trivial⟩
      | succ n ihn =>
        intro es h
        obtain ⟨htail, htailhead⟩ := ihn _ h.tail
        rw [moreRows_append]
        exact ⟨ih htail (fun _ => htailhead) h.head, _, _, rfl, trivial⟩
    intro es _ h
    obtain ⟨htail, htailhead⟩ := hmore _ _ h.more.tail
    rw [group_cons_append]
    exact ih htail (fun _ => htailhead) h.more.head

theorem mem_moreRows {row : List Token → List Token} {size : Nat} {P : Token → Prop}
    (hcomma : P .comma) (hrow : ∀ es, (∀ t ∈ es, P t) → ∀ t ∈ row es, P t) :
    ∀ n es, (∀ t ∈ es, P t) → ∀ t ∈ moreRows row size n es, P t
  | 0, _, _ => by simp [moreRows]
  | n + 1, es, hes => by
    intro t ht
    rcases mem_cons.mp ht with rfl | ht
    · exact hcomma
    rcases mem_append.mp ht with ht | ht
    · exact hrow _ (fun t ht => hes t (mem_of_mem_take ht)) t ht
    · exact mem_moreRows hcomma hrow n _ (fun t ht => hes t (mem_of_mem_drop ht)) t ht

theorem plain_group {ls : List Nat} : ∀ {es : List Token}, (∀ t ∈ es, t.Plain) →
    ∀ t ∈ group ls es, t.Plain := by
  induction ls with
  | nil => exact id
  | cons l ls ih =>
    intro es hes t ht
    rcases mem_cons.mp ht with rfl | ht
    · exact trivial
    rcases mem_append.mp ht with ht | ht
    · exact ih (fun t ht => hes t (mem_of_mem_take ht)) t ht
    rcases mem_append.mp ht with ht | ht
    · exact mem_moreRows (P := Token.Plain) trivial (fun es => ih) _ _
        (fun t ht => hes t (mem_of_mem_drop ht)) t ht
    · rw [mem_singleton.mp ht]
      exact trivial

theorem dvd_count (counts : List Nat) (i : Nat) :
    (counts.map Int.ofNat).countP (fun n => (i : Int).tmod n = 0) = counts.countP (· ∣ i) := by
  rw [countP_map]
  refine countP_congr fun c _ => ?_
  simp only [Function.comp_apply, decide_eq_true_eq, Int.ofNat_eq_natCast]
  rw [← Int.dvd_iff_tmod_eq_zero, Int.natCast_dvd_natCast]

theorem itemTokens_text (counts : List Nat) (i : Nat) (e : Option Text) :
    (itemTokens counts i (elementToken e)).flatMap Token.text =
      (if 0 < i then [','] else []) ++ replicate (counts.countP (· ∣ i)) '{' ++ encodeElement e ++
        replicate (counts.countP (· ∣ i + 1)) '}' := by
  have hrep : ∀ (t : Token) (c : Char) (n : Nat), t.text = [c] →
      (replicate n t).flatMap Token.text = replicate n c := by
    intro t c n ht
    induction n with
    | zero => rfl
    | succ n ih => rw [replicate_succ, flatMap_cons, ht, ih, replicate_succ]; rfl
  have hcomma : (if 0 < i then [Token.comma] else []).flatMap Token.text = if 0 <
      i then [','] else [] := by
    split <;> rfl
  simp only [itemTokens, flatMap_append, hcomma, hrep .opening '{' _ rfl, hrep .closing '}' _ rfl,
    flatMap_singleton, elementToken_text]

/-- The loop writes the tokens with the braces placed by index. -/
theorem encodeElements_eq {counts : List Nat} (hpos : ∀ c ∈ counts, c ≠ 0)
    (elems : List (Option Text)) :
    ∀ (es : List (Option Text)) (i : Nat), elems.drop i = es →
    encodeElements (counts.map Int.ofNat) elems es.length i =
        some ((flat counts i (es.map elementToken)).flatMap Token.text) := by
  have hzero : (0 : Int) ∉ counts.map Int.ofNat := by
    intro h
    obtain ⟨c, hc, hc0⟩ := mem_map.mp h
    exact hpos c hc (by simpa using hc0)
  intro es
  induction es with
  | nil => intro i _; rfl
  | cons e es ih =>
    intro i hdrop
    have hget : elems[i]? = some e := by
      rw [← head?_drop, hdrop]
      rfl
    have hnext : elems.drop (i + 1) = es := by
      rw [← tail_drop, hdrop]
      rfl
    have hsucc := dvd_count counts (i + 1)
    push_cast at hsucc
    rw [length_cons, encodeElements, hget]
    simp only [if_neg hzero, ih (i + 1) hnext, Option.map_some, dvd_count, hsucc]
    rw [map_cons, flat, flatMap_append, itemTokens_text]

def rowLengths (dims : List ArrayDimension) : List Nat := dims.map fun d => d.len.toNat

theorem rowLengths_prod (hpos : ∀ d ∈ dims, 1 ≤ d.len) :
    ((rowLengths dims).prod : Int) = (lengths dims).prod := by
  induction dims with
  | nil => rfl
  | cons d ds ih =>
    have hd := hpos d (by simp)
    have htail := ih fun d' hd' => hpos d' (.tail _ hd')
    simp only [rowLengths, lengths, map_cons, prod_cons] at htail ⊢
    rw [Int.natCast_mul, htail, Int.toNat_of_nonneg (by omega)]

theorem lengths_prod_pos (hpos : ∀ d ∈ dims, 1 ≤ d.len) : 1 ≤ (lengths dims).prod := by
  refine Int.add_one_le_of_lt (prod_pos fun n hn => ?_)
  obtain ⟨d, hd, rfl⟩ := mem_map.mp hn
  have := hpos d hd
  omega

theorem dimElemCounts_eq {p : Platform} (hpos : ∀ d ∈ dims, 1 ≤ d.len)
    (hfits : Fits p (lengths dims).prod) :
    dimElemCounts p dims = (elemCounts (rowLengths dims)).map Int.ofNat := by
  induction dims with
  | nil => rfl
  | cons d ds ih =>
    have hd := hpos d (by simp)
    have hposds : ∀ d' ∈ ds, 1 ≤ d'.len := fun d' hd' => hpos d' (.tail _ hd')
    have hone := lengths_prod_pos hposds
    have hprod : (lengths (d :: ds)).prod = d.len * (lengths ds).prod := prod_cons
    have hle : (lengths ds).prod ≤ d.len * (lengths ds).prod := le_mul_of_one_le_left (by omega) hd
    rw [hprod] at hfits
    have htail := ih hposds (fits_of_between (by omega) hle hfits)
    have hcast := rowLengths_prod hpos
    have hcons : elemCounts (rowLengths (d :: ds)) = (rowLengths (d :: ds)).prod :: elemCounts
        (rowLengths ds) := rfl
    rw [dimElemCounts, htail, hcons, map_cons, Int.ofNat_eq_natCast, hcast, hprod]
    cases ds with
    | nil => simp [rowLengths, elemCounts, lengths]
    | cons d' ds =>
      have hcast' := rowLengths_prod hposds
      have hcons' : elemCounts (rowLengths (d' :: ds)) = (rowLengths (d' :: ds)).prod :: elemCounts
          (rowLengths ds) := rfl
      rw [hcons', map_cons, Int.ofNat_eq_natCast, hcast']
      simp only
      rw [hfits]

theorem isNumeral_of_mem_formatInt {n : Int} (h : c ∈ formatInt n) : isNumeral c = true := by
  have hdigits : c ∈ formatUint n.natAbs → isNumeral c = true := by
    intro hc
    simp [isNumeral, isDigit_of_mem_formatUint hc]
  unfold formatInt at h
  split at h
  · rcases mem_cons.mp h with rfl | hc
    · rfl
    · exact hdigits hc
  · exact hdigits h

theorem arrayParseInteger_formatInt (n : Int32) (hc : isNumeral c = false) (rest : Text) :
    arrayParseInteger (formatInt n.toInt ++ c :: rest) = .ok (n, c :: rest) := by
  have hall : ∀ x ∈ formatInt n.toInt, isNumeral x = true := fun _ => isNumeral_of_mem_formatInt
  have htake : (formatInt n.toInt ++ c :: rest).takeWhile isNumeral = formatInt n.toInt := by
    rw [takeWhile_append_of_pos hall, takeWhile_cons_of_neg (by simp [hc]), append_nil]
  have hdrop : (formatInt n.toInt ++ c :: rest).dropWhile isNumeral = c :: rest := by
    rw [dropWhile_append_of_pos hall, dropWhile_cons_of_neg (by simp [hc])]
  unfold arrayParseInteger
  rw [htake, hdrop, parseInt32Checked_formatInt]

theorem parseBounds_encode (d : ArrayDimension) (rest : Text) :
    parseBounds (formatInt d.lowerBound.toInt ++ ':' ::
      (formatInt (d.lowerBound + d.length - 1).toInt ++ ']' :: rest)) =
      .ok (d, rest) := by
  have hlen : d.lowerBound + d.length - 1 - d.lowerBound + 1 = d.length := by
    rw [Int32.sub_sub, Int32.add_comm 1, ← Int32.sub_sub, Int32.add_comm d.lowerBound,
      Int32.add_sub_cancel, Int32.sub_add_cancel]
  unfold parseBounds
  rw [arrayParseInteger_formatInt d.lowerBound (by decide)]
  simp only [bind, Except.bind, expect, if_true]
  rw [arrayParseInteger_formatInt _ (by decide)]
  simp only [if_true, hlen]
  rfl

theorem explicitDimensions_encode (dims : List ArrayDimension) (rest : Text) :
    explicitDimensions (dims.flatMap encodeBounds ++ '=' :: rest) = .ok (dims, rest) := by
  induction dims with
  | nil => exact explicitDimensions_end rest
  | cons d ds ih =>
    have htext : (d :: ds).flatMap encodeBounds ++ '=' :: rest = '[' ::
        (formatInt d.lowerBound.toInt ++ ':' ::
        (formatInt (d.lowerBound + d.length - 1).toInt ++ ']' ::
          (ds.flatMap encodeBounds ++ '=' :: rest))) := by
      simp [encodeBounds]
    rw [htext]
    exact explicitDimensions_bounds (parseBounds_encode d _) ih

/-- The bounds that are written, if any, and what is behind them -/
theorem explicitPart_encode (hne : dims ≠ []) (body : Text) :
    ∃ bounds, explicitPart (skipWhitespace (encodeTextArrayDimensions dims ++ '{' :: body)) = .ok
      (bounds, '{' :: body) ∧
      ((bounds = [] ∧ ∀ d ∈ dims, d.lowerBound = 1) ∨ bounds = dims) := by
  unfold encodeTextArrayDimensions
  by_cases hany : dims.any (fun d => d.lowerBound ≠ 1)
  · rw [if_pos hany, append_assoc]
    have hparse := explicitDimensions_encode dims ('{' :: body)
    obtain ⟨d, ds, rfl⟩ := exists_cons_of_ne_nil hne
    exact ⟨d :: ds, hparse, .inr rfl⟩
  · rw [if_neg hany]
    refine ⟨[], rfl, .inl ⟨rfl, fun d hd => ?_⟩⟩
    by_contra h
    exact hany (any_eq_true.mpr ⟨d, hd, by simpa using h⟩)

theorem rows_of_elements (hpos : ∀ d ∈ dims, 1 ≤ d.len)
    (hcount : (elems.length : Int) = (lengths dims).prod) :
    Rows (rowLengths dims) (elems.map elementToken) := by
  refine ⟨fun l hl => ?_, ?_, fun t ht => ?_⟩
  · obtain ⟨d, hd, rfl⟩ := mem_map.mp hl
    have := hpos d hd
    omega
  · have := rowLengths_prod hpos
    rw [length_map]
    omega
  · obtain ⟨e, -, rfl⟩ := mem_map.mp ht
    cases e <;> exact ⟨_, _, rfl⟩

theorem encodeTextArray_eq {p : Platform} (hne : dims ≠ [])
    (hpos : ∀ d ∈ dims, 1 ≤ d.len) (hcount : (elems.length : Int) = volume dims)
    (hfits : Fits p elems.length) :
    encodeTextArray p dims elems = some (encodeTextArrayDimensions dims ++
      (group (rowLengths dims) (elems.map elementToken)).flatMap Token.text) := by
  have hvol := volume_of_ne_nil hne
  have hone := lengths_prod_pos hpos
  have hfits' : Fits p (volume dims) := by rwa [← hcount]
  have hcard : cardinality p dims = elems.length := by
    rw [cardinality_of_fits (by omega) hfits', hcount]
  have hrows := rows_of_elements hpos (hcount.trans hvol)
  have hcounts : ∀ c ∈ elemCounts (rowLengths dims), c ≠ 0 := by
    intro c hc hc0
    have hdvd := elemCounts_dvd _ c hc
    have hprod := prod_pos_of_pos hrows.pos
    rw [hc0] at hdvd
    omega
  unfold encodeTextArray
  rw [if_neg (by rw [hcard]; omega), hcard, Int.toNat_natCast,
    dimElemCounts_eq hpos (by rwa [← hvol]),
    encodeElements_eq hcounts elems elems 0 rfl, flat_eq_group hrows]
  rfl

def tokensInside (dims : List ArrayDimension) (elems : List (Option Text)) : List Token :=
  (group (rowLengths dims) (elems.map elementToken)).tail

theorem group_rowLengths (hne : dims ≠ []) (elems : List (Option Text)) :
    group (rowLengths dims) (elems.map elementToken) = .opening :: tokensInside dims elems := by
  obtain ⟨d, ds, rfl⟩ := exists_cons_of_ne_nil hne
  rfl

theorem closes_tokensInside (hne : dims ≠ [])
    (hrows : Rows (rowLengths dims) (elems.map elementToken)) :
    Closes 0 (tokensInside dims elems) := by
  obtain ⟨d, ds, rfl⟩ := exists_cons_of_ne_nil hne
  show Closes 0 (group _ _ ++ (moreRows _ _ _ _ ++ [.closing]))
  rw [closes_group _ hrows.more.head, closes_moreRows _ _ hrows.more.tail]
  rfl

theorem lexes_tokensInside (hne : dims ≠ []) (hrows :
    Rows (rowLengths dims) (elems.map elementToken)) :
    Lexes ('{' :: (tokensInside dims elems).flatMap Token.text)
      (.opening :: tokensInside dims elems) [] := by
  have hnil : rowLengths dims ≠ [] := by simpa [rowLengths] using hne
  have hsep := separated_group (show Separated [] from trivial) (fun h => absurd h hnil) hrows
  have hplain : ∀ t ∈ group (rowLengths dims) (elems.map elementToken), t.Plain := by
    refine plain_group fun t ht => ?_
    obtain ⟨e, -, rfl⟩ := mem_map.mp ht
    exact elementToken_plain e
  rw [append_nil] at hsep
  have hlex := lexes_text [] hsep hplain
  rw [append_nil, group_rowLengths hne] at hlex
  exact hlex

theorem dimensionsOf_tokensInside {bounds : List ArrayDimension} (hne : dims ≠ [])
    (hpos : ∀ d ∈ dims, 1 ≤ d.len) (hrows : Rows (rowLengths dims) (elems.map elementToken))
    (hvalues : values (tokensInside dims elems) ≠ [])
    (hbounds : (bounds = [] ∧ ∀ d ∈ dims, d.lowerBound = 1) ∨ bounds = dims) :
    dimensionsOf bounds (tokensInside dims elems) = dims := by
  unfold dimensionsOf
  rw [if_neg hvalues]
  rcases hbounds with ⟨rfl, hone⟩ | rfl
  · have hgroups := firstGroups_group [] hrows
    rw [append_nil, group_rowLengths hne] at hgroups
    rw [if_neg (by simp), hgroups, rowLengths, map_map]
    conv_rhs => rw [← map_id dims]
    refine map_congr_left fun d hd => ?_
    exact ofNat_len (by have := hpos d hd; omega) (hone d hd)
  · rw [if_pos hne]

/-- An array that is written is parsed to the same dimensions, and its elements are taken for the
same. -/
theorem parse_encodeTextArray (p : Platform) (dims : List ArrayDimension)
    (elems : List (Option Text)) (hne : dims ≠ [])
    (hpos : ∀ d ∈ dims, 1 ≤ d.len) (hcount : (elems.length : Int) = volume dims)
    (hfits : Fits p elems.length) :
    ∃ text uta, encodeTextArray p dims elems = some text ∧
    parseUntypedTextArray (runes (textBytes text)) = .ok uta ∧
      uta.dimensions = dims ∧ uta.elements.map readElement = elems := by
  have hvol := volume_of_ne_nil hne
  have hrows := rows_of_elements hpos (hcount.trans hvol)
  have hvalues : (values (tokensInside dims elems)).map readElement = elems := by
    have h := values_group [] hrows
    rw [append_nil, group_rowLengths hne] at h
    exact (congrArg (map readElement) (h.trans (append_nil _))).trans (values_elementTokens elems)
  have hsome : values (tokensInside dims elems) ≠ [] := by
    intro h
    rw [h] at hvalues
    have hone := lengths_prod_pos hpos
    rw [← hvalues] at hcount
    simp at hcount
    omega
  obtain ⟨bounds, hbounds, hcase⟩ :=
    explicitPart_encode hne ((tokensInside dims elems).flatMap Token.text)
  have hwritten : Written _ bounds (tokensInside dims elems) :=
    ⟨_, [], hbounds, lexes_tokensInside hne hrows, closes_tokensInside hne hrows, rfl⟩
  have hparse := parse_of_written hwritten
  rw [dimensionsOf_tokensInside hne hpos hrows hsome hcase] at hparse
  refine ⟨_, ⟨values (tokensInside dims elems), dims⟩, encodeTextArray_eq hne hpos hcount hfits, ?_,
    rfl, hvalues⟩
  rw [runes_textBytes, group_rowLengths hne]
  exact hparse

/-- NULL, the text NULL, an empty element and a quote -/
theorem parse_encodeTextArray_square :
    ∃ text uta, encodeTextArray .bits64 [⟨2, -3⟩, ⟨2, 1⟩]
      [none, some "NULL".toList, some [], some "a\"b".toList] = some text ∧
      parseUntypedTextArray (runes (textBytes text)) = .ok uta ∧ uta.dimensions = [⟨2, -3⟩, ⟨2, 1⟩] ∧
        uta.elements.map readElement = [none, some "NULL".toList, some [], some "a\"b".toList] :=
  parse_encodeTextArray .bits64 _ _ (by simp) (by decide) (by decide) (by decide)

end Pgx.Pgtype
