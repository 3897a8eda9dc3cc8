import Pgx.Sanitize.Quote
import Pgx.Sanitize.Scan

/-!
# Lexing the sanitized query again

An argument text is lexed from the raw state back to the raw state whatever
follows it, as long as that is the closing space or nothing. A fragment of the
original query is lexed as before, because the lexer looks one rune past it at
most and that rune is the original one, or the space where a `$` was.
-/
namespace Pgx.Sanitize

open Pgx.Go Pgx.Lexing List

variable {first : Bool} {c : Char} {s' : Ctl} {args : List Arg} {n : Nat} {q r : Quoting}
    {cs p u zs : Text}

/-! ## Argument texts -/

/-- Nothing follows, or the space that `Sanitize` writes after an argument. -/
def AfterArg (zs : Text) : Prop := zs.head? = none ∨ zs.head? = some ' '

def Tok.isText : Tok → Bool
  | .text _ _ => true
  | .placeholder _ => false

/-- Text that the lexer takes from the raw state to the raw state, without a placeholder. -/
def Closed (p : Text) : Prop :=
  ∃ ts : List Tok, (∀ t ∈ ts, t.isText = true) ∧
    ∀ zs, AfterArg zs → scanner.tokens .raw (p ++ zs) = ts ++ scanner.tokens .raw zs

theorem AfterArg.ne_quote (h : AfterArg zs) : zs.head? ≠ some '\'' := by
  rcases h with h | h <;> simp [h]

theorem AfterArg.ne_dash (h : AfterArg zs) : zs.head? ≠ some '-' := by
  rcases h with h | h <;> simp [h]

theorem tokens_look (hd : ¬ (q = .raw ∧ c = '$')) (hl : q.look c cs.head? = (false, r)) :
    scanner.tokens (.quoting q) (c :: cs) = .text (.quoting q) [c] :: scanner.tokens
      (.quoting r) cs := by
  apply scanner.tokens_of_some (n := 1)
  simp [scanner, next, hd, hl, read]

theorem tokens_look_two {d : Char} (hd : ¬ (q = .raw ∧ c = '$'))
    (hl : q.look c (some d) = (true, r)) :
    scanner.tokens (.quoting q) (c :: d :: cs) = .text (.quoting q) [c, d] :: scanner.tokens
      (.quoting r) cs := by
  apply scanner.tokens_of_some (n := 2)
  simp [scanner, next, hd, hl, read]

theorem tokens_space (zs : Text) : scanner.tokens .raw (' ' :: zs) = .text .raw
    [' '] :: scanner.tokens .raw zs :=
  tokens_look (by simp) (by simp [Quoting.look])

/-- A rune that starts nothing in the raw state when no quote follows it. -/
def plainRune (c : Char) : Bool := c ≠ '\'' && c ≠ '"' && c ≠ '$' && c ≠ '/'

/-- Unquoted text with no minus sign but a leading one. -/
def Bare (p : Text) : Prop := p.all plainRune = true ∧ '-' ∉ p.tail

theorem head_append_ne {d : Char} (hp : d ∉ p) (hz : zs.head? ≠ some d) :
    (p ++ zs).head? ≠ some d := by
  cases p with
  | nil => simpa using hz
  | cons c p =>
    intro h
    simp only [cons_append, head?_cons, Option.some.injEq] at h
    exact hp (by simp [h])

theorem quote_not_mem (h : p.all plainRune = true) : '\'' ∉ p := by
  intro hm
  have := all_eq_true.mp h _ hm
  exact absurd this (by decide)

theorem closed_bare (h : Bare p) : Closed p := by
  refine ⟨p.map fun c => .text .raw [c], ?_, ?_⟩
  · intro t ht
    obtain ⟨c, -, rfl⟩ := mem_map.mp ht
    rfl
  · intro zs hz
    induction p with
    | nil => rfl
    | cons c p ih =>
      obtain ⟨hp, hm⟩ := h
      simp only [all_cons, Bool.and_eq_true] at hp
      obtain ⟨hc, hp⟩ := hp
      have hc' := hc
      simp only [plainRune, Bool.and_eq_true, decide_eq_true_eq] at hc'
      obtain ⟨⟨⟨h1, h2⟩, h3⟩, h4⟩ := hc'
      have hlook : Quoting.raw.look c (p ++ zs).head? = (false, .raw) :=
        Quoting.look_raw_plain (head_append_ne (quote_not_mem hp) hz.ne_quote) h1 h2
          (fun _ => head_append_ne hm hz.ne_dash) h4
      rw [cons_append, tokens_look (by simp [h3]) hlook, ih ⟨hp, fun hx => hm (mem_of_mem_tail hx)⟩]
      rfl

theorem tokens_doubleQuotes (s zs : Text) (hz : AfterArg zs) :
    scanner.tokens (.quoting .singleQuote) (doubleQuotes s ++ '\'' :: zs) =
      (s.map fun c => .text (.quoting .singleQuote) (if c = '\'' then ['\'', '\''] else [c])) ++
        .text (.quoting .singleQuote) ['\''] :: scanner.tokens .raw zs := by
  induction s with
  | nil =>
    refine tokens_look (by simp) ?_
    simp [Quoting.look, Quoting.closing, hz.ne_quote]
  | cons c s ih =>
    by_cases hc : c = '\''
    · subst hc
      simp only [doubleQuotes, flatMap_cons, if_pos, cons_append, nil_append, map_cons]
      rw [tokens_look_two (r := .singleQuote) (by simp) (by simp [Quoting.look, Quoting.closing])]
      exact congrArg _ ih
    · simp only [doubleQuotes, flatMap_cons, if_neg hc, cons_append, nil_append, map_cons]
      rw [tokens_look (r := .singleQuote) (by simp) (by simp [Quoting.look, Quoting.closing, hc])]
      exact congrArg _ ih

theorem closed_quoteString (s : Text) : Closed (quoteString s) := by
  refine ⟨.text .raw ['\''] :: ((s.map fun c => .text (.quoting .singleQuote)
    (if c = '\'' then ['\'', '\''] else [c])) ++ [.text (.quoting .singleQuote) ['\'']]), ?_, ?_⟩
  · intro t ht
    simp only [mem_cons, mem_append, mem_map, not_mem_nil, or_false] at ht
    rcases ht with rfl | ⟨c, -, rfl⟩ | rfl <;> rfl
  · intro zs hz
    have hq : quoteString s ++ zs = '\'' :: (doubleQuotes s ++ '\'' :: zs) := by
      simp [quoteString]
    rw [hq, tokens_look (r := .singleQuote) (by simp) (by simp [Quoting.look]),
      tokens_doubleQuotes s zs hz]
    simp

theorem doubleQuotes_eq_self {s : Text} (h : '\'' ∉ s) : doubleQuotes s = s := by
  induction s with
  | nil => rfl
  | cons c s ih =>
    simp only [mem_cons, not_or] at h
    have hc : c ≠ '\'' := Ne.symm h.1
    have hs := ih h.2
    simp only [doubleQuotes, flatMap_cons, if_neg hc] at hs ⊢
    rw [hs]
    rfl

theorem closed_quoted {s : Text} (h : '\'' ∉ s) : Closed ('\'' :: s ++ ['\'']) := by
  have := closed_quoteString s
  rwa [quoteString, doubleQuotes_eq_self h] at this

theorem bare_of_digits (h : ∀ c ∈ p, isDigit c = true ∨ c = '.') : Bare p := by
  have hd : ∀ c, isDigit c = true ∨ c = '.' → plainRune c = true ∧ c ≠ '-' := by
    rintro c (hc | rfl)
    · refine ⟨?_, ?_⟩
      · simp only [plainRune, Bool.and_eq_true, decide_eq_true_eq]
        refine ⟨⟨⟨?_, ?_⟩, ?_⟩, ?_⟩ <;> rintro rfl <;> exact absurd hc (by decide)
      · rintro rfl
        exact absurd hc (by decide)
    · decide
  refine ⟨all_eq_true.mpr fun c hc => (hd c (h c hc)).1, ?_⟩
  intro hm
  exact (hd _ (h _ (mem_of_mem_tail hm))).2 rfl

theorem Bare.neg (h : ∀ c ∈ p, isDigit c = true ∨ c = '.') : Bare ('-' :: p) := by
  obtain ⟨hp, -⟩ := bare_of_digits h
  refine ⟨by rw [all_cons, hp]; decide, ?_⟩
  intro hm
  rcases h _ hm with hc | hc
  · exact absurd hc (by decide)
  · exact absurd hc (by decide)

theorem bare_formatInt (n : Int) : Bare (formatInt n) := by
  unfold formatInt
  split
  · exact .neg fun c hc => .inl (isDigit_of_mem_formatUint hc)
  · exact bare_of_digits fun c hc => .inl (isDigit_of_mem_formatUint hc)

theorem bare_formatFloat (bits : BitVec 64) : Bare (formatFloat bits) := by
  have hdigits : ∀ c ∈ (if Float64.mantissa bits = 0 then ['0']
      else Float64.fixedPoint (Float64.shortest bits).1 (Float64.shortest bits).2),
      isDigit c = true ∨ c = '.' := by
    intro c hc
    split at hc
    · left
      rw [mem_singleton.mp hc]
      decide
    · exact Float64.mem_fixedPoint hc
  unfold formatFloat
  split
  · split
    · exact ⟨by decide, by decide⟩
    · split
      · exact ⟨by decide, by decide⟩
      · exact ⟨by decide, by decide⟩
  · simp only
    split
    · exact .neg hdigits
    · exact bare_of_digits hdigits

theorem closed_argText {arg : Arg} (h : argText arg = .ok p) : Closed p := by
  cases arg with
  | nil =>
    obtain rfl := Except.ok.inj h
    exact closed_bare ⟨by decide, by decide⟩
  | int64 n =>
    obtain rfl := Except.ok.inj h
    exact closed_bare (bare_formatInt _)
  | float64 bits =>
    obtain rfl := Except.ok.inj h
    exact closed_bare (bare_formatFloat bits)
  | bool b =>
    obtain rfl := Except.ok.inj h
    cases b
    · exact closed_bare ⟨by decide, by decide⟩
    · exact closed_bare ⟨by decide, by decide⟩
  | bytes bs =>
    obtain rfl := Except.ok.inj h
    unfold quoteBytes
    split
    · exact closed_quoted (s := ['\\', 'x']) (by decide)
    · refine closed_quoted (s := '\\' :: 'x' :: hexEncode bs) ?_
      simp only [mem_cons, not_or]
      exact ⟨by decide, by decide, fun hm => hexEncode_ne_quote hm rfl⟩
  | string s =>
    obtain rfl := Except.ok.inj h
    exact closed_quoteString s
  | time t =>
    obtain rfl := Except.ok.inj h
    exact closed_quoted (Time.format_ne_quote _)
  | other typeName => simp [argText] at h

theorem Closed.isText (h : Closed p) : ∀ t ∈ scanner.tokens .raw p, t.isText = true := by
  obtain ⟨ts, ht, hts⟩ := h
  have hself := hts [] (.inl rfl)
  rw [append_nil, Scanner.tokens_nil, append_nil] at hself
  rwa [hself]

/-! ## Fragments -/

def written (args : List Arg) : Tok → Text
  | .text _ s => s
  | .placeholder digits => ' ' :: argTextAt args (ordinal digits) ++ [' ']

/-- The tokens that the written text is lexed as. -/
def rescanned (args : List Arg) : Tok → List Tok
  | .text ctl s => [.text ctl s]
  | .placeholder digits =>
    .text .raw [' '] :: scanner.tokens .raw (argTextAt args (ordinal digits)) ++
      [.text .raw [' ']]

/-- The rune after a fragment is the original one, or a space in place of a `$`. -/
theorem head_emit (args : List Arg) (s : Ctl) (ys : Text) :
    (scanner.emit (written args) s ys).head? = ys.head? ∨
      (ys.head? = some '$' ∧ (scanner.emit (written args) s ys).head? = some ' ') := by
  cases hn : scanner.next s ys with
  | none =>
    obtain rfl := next_eq_none hn
    left
    rfl
  | some r =>
    obtain ⟨t, n, s'⟩ := r
    rw [scanner.emit_of_some hn]
    rcases next_cases hn with ⟨rfl, h0, hle⟩ | ⟨cs, -, -, rfl, -, rfl, -⟩
    · left
      cases ys with
      | nil => simp only [length_nil] at hle; omega
      | cons c ys =>
        obtain ⟨n, rfl⟩ : ∃ k, n = k + 1 := ⟨n - 1, by omega⟩
        rfl
    · right
      exact ⟨rfl, rfl⟩

theorem look_emit (args : List Arg) (q : Quoting) (c : Char) (s : Ctl) (ys : Text) :
    q.look c (scanner.emit (written args) s ys).head? = q.look c ys.head? := by
  rcases head_emit args s ys with h | ⟨hy, hz⟩
  · rw [h]
  · rw [hy, hz]
    apply Quoting.look_congr
    · simp [Quoting.watched]
    · simp [Quoting.watched]
    · rfl

theorem isDigit_head_emit (args : List Arg) (s : Ctl) (ys : Text) (h : ys.head?.any isDigit = false) :
    (scanner.emit (written args) s ys).head?.any isDigit = false := by
  rcases head_emit args s ys with he | ⟨-, hz⟩
  · rw [he, h]
  · rw [hz]
    decide

theorem next_look {both : Bool} (hd : ¬ (q = .raw ∧ c = '$')) (hl : q.look c cs.head? = (both, r)) :
    scanner.next (.quoting q) (c :: cs) = some
      (.text (.quoting q) ((c :: cs).take (if both then 2 else 1)),
        if both then 2 else 1, .quoting r) := by
  simp [scanner, next, hd, hl, read]

/-- A tag rune is read alone in the raw state, unless it is the E of an escape string. -/
theorem look_tagRune (hc : isDollarTagRune c first = true) (d : Option Char) :
    Quoting.raw.look c d = (false, .raw) ∨
      (d = some '\'' ∧ Quoting.raw.look c d = (true, .escapeString)) := by
  have hne : ∀ x, isDollarTagRune x first = false → c ≠ x := by
    rintro x hx rfl
    rw [hx] at hc
    exact Bool.noConfusion hc
  have h1 : c ≠ '\'' := hne _ (by cases first <;> decide)
  have h2 : c ≠ '"' := hne _ (by cases first <;> decide)
  have h3 : c ≠ '-' := hne _ (by cases first <;> decide)
  have h4 : c ≠ '/' := hne _ (by cases first <;> decide)
  simp only [Quoting.look, h1, h2, h3, h4, if_false]
  by_cases he : c = 'e' ∨ c = 'E'
  · by_cases hq : d = some '\''
    · right
      exact ⟨hq, by rw [if_pos he, if_pos hq]⟩
    · left
      rw [if_pos he, if_neg hq]
  · left
    rw [if_neg he]

theorem scanDollarQuoteTag_emit (args : List Arg) {ys : Text}
    (h : scanDollarQuoteTag first ys = none) :
    scanDollarQuoteTag first (scanner.emit (written args) .raw ys) = none := by
  induction ys generalizing first with
  | nil => exact h
  | cons c cs ih =>
    simp only [scanDollarQuoteTag] at h
    by_cases hdollar : c = '$'
    · simp [hdollar] at h
    rw [if_neg hdollar] at h
    by_cases hc : isDollarTagRune c first = true
    · rw [if_pos hc, Option.map_eq_none_iff] at h
      rcases look_tagRune hc cs.head? with hl | ⟨hq, hl⟩
      · rw [scanner.emit_of_some (next_look (by simp [hdollar]) hl)]
        simp [written, scanDollarQuoteTag, hdollar, hc, ih h]
      · -- the escape string starts with a quote, which is no tag rune
        obtain ⟨cs, rfl⟩ := head?_eq_some_iff.mp hq
        rw [scanner.emit_of_some (next_look (by simp [hdollar]) hl)]
        have hquote : isDollarTagRune '\'' false = false := by decide
        simp [written, scanDollarQuoteTag, hdollar, hquote]
    · have hhead : (scanner.emit (written args) .raw (c :: cs)).head? = some c := by
        rcases head_emit args .raw (c :: cs) with he | ⟨hy, -⟩
        · exact he
        · exact absurd (Option.some.inj hy) hdollar
      obtain ⟨zs, hz⟩ := head?_eq_some_iff.mp hhead
      simp [hz, scanDollarQuoteTag, hdollar, hc]

theorem scanDollarQuoteTag_append {k : Nat} (h : scanDollarQuoteTag first cs = some k) (zs : Text) :
    scanDollarQuoteTag first (cs.take (k + 1) ++ zs) = some k := by
  induction cs generalizing first k with
  | nil => simp [scanDollarQuoteTag] at h
  | cons c cs ih =>
    simp only [scanDollarQuoteTag] at h
    by_cases hdollar : c = '$'
    · rw [if_pos hdollar] at h
      obtain rfl := Option.some.inj h
      simp [scanDollarQuoteTag, hdollar]
    · rw [if_neg hdollar] at h
      by_cases hc : isDollarTagRune c first = true
      · rw [if_pos hc] at h
        obtain ⟨j, hj, rfl⟩ := Option.map_eq_some_iff.mp h
        simp [scanDollarQuoteTag, hdollar, hc, ih hj]
      · rw [if_neg hc] at h
        simp at h

theorem nextDollarQuote_append {tag : Text} (xs : Text)
    (h : nextDollarQuote tag xs = some (.text (.dollarQuote tag) u, n, s'))
    (hz : xs.drop n = [] → zs = []) :
    nextDollarQuote tag (u ++ zs) = some (.text (.dollarQuote tag) u, n, s') := by
  simp only [nextDollarQuote] at h ⊢
  split at h
  · -- unterminated: the fragment is all there is
    rename_i hi
    obtain ⟨hu, rfl, rfl⟩ := read_eq_some h
    obtain rfl : u = xs := by simpa using hu
    obtain rfl := hz drop_length
    rw [append_nil, hi]
    exact h
  · rename_i idx hi
    obtain ⟨hu, rfl, rfl⟩ := read_eq_some h
    obtain rfl := (Tok.text.inj hu).2
    have hlen := length_take_of_le (index_bound hi)
    have hi' := hi
    rw [← take_append_drop (idx + ('$' :: tag ++ ['$']).length) xs] at hi'
    rw [index_append_congr hi' hlen]
    simp only [read]
    rw [take_left' hlen]

theorem nextDollar_emit (args : List Arg) {m : Nat}
    (h : nextDollar cs = some (.text .raw ('$' :: u), m + 1, s')) :
    nextDollar (u ++ scanner.emit (written args) s' (cs.drop m)) = some
      (.text .raw ('$' :: u), m + 1, s') := by
  simp only [nextDollar] at h ⊢
  by_cases hdig : cs.head?.any isDigit = true
  · simp [hdig] at h
  rw [if_neg hdig] at h
  cases hk : scanDollarQuoteTag true cs with
  | some k =>
    rw [hk] at h
    obtain ⟨hu, hm, rfl⟩ := read_eq_some h
    obtain rfl : m = k + 1 := by omega
    obtain rfl : u = cs.take (k + 1) := by simpa using hu
    have hlen : (cs.take (k + 1)).length = k + 1 := length_take_of_le (scanDollarQuoteTag_lt hk)
    have hhead : ∀ zs, (cs.take (k + 1) ++ zs).head? = cs.head? := by
      intro zs
      cases cs with
      | nil => simp [scanDollarQuoteTag] at hk
      | cons c cs => rfl
    rw [hhead, if_neg hdig, scanDollarQuoteTag_append hk]
    simp only [read, take_succ_cons]
    rw [take_left' hlen, take_append_of_le_length (by omega), take_take, Nat.min_eq_left (by omega)]
  | none =>
    rw [hk] at h
    obtain ⟨hu, hm, rfl⟩ := read_eq_some h
    obtain rfl : m = 0 := by omega
    obtain rfl : u = [] := by simpa using hu
    have hhead := isDigit_head_emit args .raw cs (by simpa using hdig)
    rw [nil_append, drop_zero, hhead, scanDollarQuoteTag_emit args hk]
    rfl

/-- A fragment is lexed as before when what follows it is substituted. -/
theorem next_emit (args : List Arg) {s : Ctl} {xs : Text}
    (h : scanner.next s xs = some (.text s u, n, s')) :
    scanner.next s (u ++ scanner.emit (written args) s' (xs.drop n)) = some (.text s u, n, s') := by
  cases xs with
  | nil => simp [scanner, next] at h
  | cons c cs =>
    have hp := scanner.progress h
    obtain ⟨m, rfl⟩ : ∃ k, n = k + 1 := ⟨n - 1, by omega⟩
    obtain ⟨v, rfl⟩ : ∃ v, u = c :: v := by
      rcases next_cases h with ⟨hu, -, -⟩ | ⟨_, _, _, _, _, ht, _⟩
      · exact ⟨cs.take m, (Tok.text.inj hu).2⟩
      · cases ht
    rw [drop_succ_cons]
    cases s with
    | dollarQuote tag =>
      refine nextDollarQuote_append (c :: cs) h ?_
      intro hdrop
      rw [drop_succ_cons] at hdrop
      rw [hdrop]
      rfl
    | quoting q =>
      by_cases hdollar : q = .raw ∧ c = '$'
      · obtain ⟨rfl, rfl⟩ := hdollar
        have hnd : nextDollar cs = some (.text .raw ('$' :: v), m + 1, s') := by
          simpa [scanner, next] using h
        simpa [scanner, next] using nextDollar_emit args hnd
      · cases hl : q.look c cs.head? with
        | mk both r =>
          rw [next_look hdollar hl] at h
          simp only [Option.some.injEq, Prod.mk.injEq, Tok.text.injEq, true_and] at h
          obtain ⟨hv, hm, rfl⟩ := h
          cases both with
          | false =>
            obtain rfl : m = 0 := by simpa using hm.symm
            obtain rfl : v = [] := by simpa using hv.symm
            rw [cons_append, nil_append, drop_zero, next_look hdollar (by rw [look_emit, hl])]
            rfl
          | true =>
            -- the second rune is part of the fragment
            have hsome := Quoting.look_two hl
            cases cs with
            | nil => simp at hsome
            | cons d cs =>
              obtain rfl : m = 1 := by simpa using hm.symm
              obtain rfl : v = [d] := by simpa using hv.symm
              have hl' : q.look c (d :: scanner.emit (written args) (.quoting r) cs).head? =
                  (true, r) := hl
              exact next_look hdollar hl'

/-- The sanitized text is lexed token by token: fragments as before, each argument
between two spaces by itself. -/
theorem tokens_written (hargs : ∀ n, Supplied args n → Closed (argTextAt args n)) (sql : Text)
    (hs : ∀ digits, .placeholder digits ∈ scanner.tokens .raw sql → Supplied args (ordinal digits)) :
    scanner.tokens .raw (scanner.emit (written args) .raw sql) =
      (scanner.tokens .raw sql).flatMap (rescanned args) := by
  refine scanner.tokens_emit scanner (written args) (rescanned args) id
    (fun s xs => ∀ digits, .placeholder digits ∈ scanner.tokens s xs →
      Supplied args (ordinal digits)) ?_ .raw sql hs
  intro s xs t n s' hinv hn
  rw [scanner.tokens_of_some hn] at hinv
  refine ⟨fun digits hd => hinv digits (.tail _ hd), ?_⟩
  rcases next_cases hn with ⟨rfl, h0, hle⟩ | ⟨cs, rfl, rfl, rfl, hdig, rfl, rfl⟩
  · have hne := next_emit args hn
    simp only [id, written, rescanned]
    rw [scanner.tokens_of_some hne, drop_left' (length_take_of_le hle)]
    rfl
  · have hc := hargs _ (hinv _ (.head _))
    simp only [id, written, rescanned, cons_append, append_assoc, nil_append]
    obtain ⟨ts, -, hts⟩ := hc
    have hself := hts [] (.inl rfl)
    rw [append_nil, Scanner.tokens_nil, append_nil] at hself
    rw [tokens_space, hts _ (.inr rfl), hself, tokens_space]

theorem partsOf_written (args : List Arg) (cur : Text) (ts : List Tok) :
    (partsOf cur ts).flatMap (writtenPart args) = cur ++ ts.flatMap (written args) := by
  induction ts generalizing cur with
  | nil =>
    unfold partsOf
    split <;> simp_all [writtenPart]
  | cons t ts ih =>
    cases t with
    | text ctl s => simp [partsOf, ih, written]
    | placeholder digits => simp [partsOf, ih, written, writtenPart]

theorem placeholder_mem_partsOf {digits : Text} {ts : List Tok} (cur : Text)
    (h : .placeholder digits ∈ ts) : .placeholder (ordinal digits) ∈ partsOf cur ts := by
  induction ts generalizing cur with
  | nil => simp at h
  | cons t ts ih =>
    cases t with
    | text ctl s =>
      exact ih _ (by simpa using h)
    | placeholder digits' =>
      rcases mem_cons.mp h with he | hm
      · obtain rfl := Tok.placeholder.inj he
        simp [partsOf]
      · simp [partsOf, ih [] hm]

theorem partsOf_isText {ts : List Tok} (h : ∀ t ∈ ts, t.isText = true) (cur : Text) :
    ∀ part ∈ partsOf cur ts, ∃ s, part = .text s := by
  induction ts generalizing cur with
  | nil =>
    intro part hp
    unfold partsOf at hp
    split at hp
    · simp at hp
    · exact ⟨cur, by simpa using hp⟩
  | cons t ts ih =>
    cases t with
    | text ctl s => exact ih (fun t ht => h t (.tail _ ht)) _
    | placeholder digits => exact absurd (h _ (.head _)) (by simp [Tok.isText])

/-! ## Pieces of a query -/

/-- A stretch of a query: a fragment with the iterations that lexed it, or a placeholder. -/
inductive Piece where
  | fragment (visits : List Visit)
  | placeholder (digits : Text)

namespace Piece

def part : Piece → Part
  | fragment visits => .text (visits.flatMap Visit.consumed)
  | placeholder digits => .placeholder (ordinal digits)

def original : Piece → List Visit
  | fragment visits => visits
  | placeholder digits => (Tok.placeholder digits).visits

def rawSpace : Visit := ⟨.rawState, 0, [], [' ']⟩

/-- The iterations over what replaces a piece: none other for a fragment; for a
placeholder a space in the raw state, the argument text lexed by itself, and again
a space in the raw state. -/
def substituted (args : List Arg) : Piece → List Visit
  | fragment visits => visits
  | placeholder digits =>
    rawSpace :: lexTrace (argTextAt args (ordinal digits)) ++ [rawSpace]

end Piece

def piecesOf : List Visit → List Tok → List Piece
  | cur, [] => if cur = [] then [] else [.fragment cur]
  | cur, .text ctl s :: ts => piecesOf (cur ++ (Tok.text ctl s).visits) ts
  | cur, .placeholder digits :: ts => .fragment cur :: .placeholder digits :: piecesOf [] ts

theorem piecesOf_original (cur : List Visit) (ts : List Tok) :
    (piecesOf cur ts).flatMap Piece.original = cur ++ ts.flatMap Tok.visits := by
  induction ts generalizing cur with
  | nil =>
    unfold piecesOf
    split <;> simp_all [Piece.original]
  | cons t ts ih =>
    cases t with
    | text ctl s => simp [piecesOf, ih]
    | placeholder digits => simp [piecesOf, ih, Piece.original]

theorem piecesOf_substituted (args : List Arg) (cur : List Visit) (ts : List Tok) :
    (piecesOf cur ts).flatMap (Piece.substituted args) = cur ++
      (ts.flatMap (rescanned args)).flatMap Tok.visits := by
  induction ts generalizing cur with
  | nil =>
    unfold piecesOf
    split <;> simp_all [Piece.substituted]
  | cons t ts ih =>
    cases t with
    | text ctl s => simp [piecesOf, ih, rescanned]
    | placeholder digits =>
      simp [piecesOf, ih, rescanned, Piece.substituted, lexTrace_eq, Piece.rawSpace,
        Tok.visits, Ctl.state, Ctl.nested, Ctl.tag]

theorem tokens_text_ne_nil (s : Ctl) (xs : Text) :
    ∀ ctl u, .text ctl u ∈ scanner.tokens s xs → u ≠ [] := by
  induction s, xs using scanner.token_induction with
  | stop s xs hn => simp [scanner.tokens_of_none hn]
  | token s xs t n s' hn ih =>
    intro ctl u hu
    rw [scanner.tokens_of_some hn] at hu
    rcases mem_cons.mp hu with rfl | hm
    · rcases next_cases hn with ⟨ht, h0, hle⟩ | ⟨_, _, _, _, _, ht, _⟩
      · rw [(Tok.text.inj ht).2, ← length_pos_iff, length_take_of_le hle]
        exact h0
      · cases ht
    · exact ih ctl u hm

theorem piecesOf_part (cur : List Visit) (hc : ∀ v ∈ cur, v.consumed ≠ []) (ts : List Tok)
    (ht : ∀ ctl u, .text ctl u ∈ ts → u ≠ []) :
    (piecesOf cur ts).map Piece.part = partsOf (cur.flatMap Visit.consumed) ts := by
  induction ts generalizing cur with
  | nil =>
    unfold piecesOf partsOf
    cases cur with
    | nil => rfl
    | cons v cur =>
      have hv : (v :: cur).flatMap Visit.consumed ≠ [] := by
        simp [hc v (.head _)]
      rw [if_neg (by simp), if_neg hv]
      rfl
  | cons t ts ih =>
    have ht' : ∀ ctl u, .text ctl u ∈ ts → u ≠ [] := fun ctl u hm => ht ctl u (.tail _ hm)
    cases t with
    | text ctl s =>
      have hs := ht ctl s (.head _)
      have := ih (cur ++ (Tok.text ctl s).visits) (by
        intro v hv
        rcases mem_append.mp hv with hv | hv
        · exact hc v hv
        · obtain rfl := mem_singleton.mp hv
          exact hs) ht'
      simpa [piecesOf, partsOf, Tok.visits] using this
    | placeholder digits =>
      simpa [piecesOf, partsOf, Piece.part] using ih [] (by simp) ht'

theorem closed_of_supplied (h : Supplied args n) : Closed (argTextAt args n) := by
  obtain ⟨-, arg, -, htext⟩ := h
  exact closed_argText htext

/-- The placeholders of a query that was sanitized all have their arguments. -/
theorem supplied_of_sanitizeSQL {sql : Text} {out : Text} (h : sanitizeSQL sql args = .ok out)
    (digits : Text) (hd : .placeholder digits ∈ scanner.tokens .raw sql) :
    Supplied args (ordinal digits) := by
  apply (sanitize_eq_ok h).2
  rw [newQuery_eq]
  exact placeholder_mem_partsOf [] hd

/-- The tokens of the sanitized query are those of the query, with the arguments in place. -/
theorem tokens_sanitizeSQL {sql : Text} {out : Text} (h : sanitizeSQL sql args = .ok out) :
    scanner.tokens .raw out = (scanner.tokens .raw sql).flatMap (rescanned args) := by
  have hemit : out = scanner.emit (written args) .raw sql := by
    rw [(sanitize_eq_ok h).1, newQuery_eq, partsOf_written]
    rfl
  rw [hemit]
  exact tokens_written (fun _ => closed_of_supplied) sql (supplied_of_sanitizeSQL h)

/-- Lexing the sanitized query again finds no placeholder. It reads the fragments
of the original query in their original states, and each argument text by itself
between two spaces read in the raw state. -/
theorem sanitizeSQL_relex (sql : Text) (args : List Arg) (out : Text)
    (h : sanitizeSQL sql args = .ok out) :
    (∀ part ∈ newQuery out, ∃ s, part = .text s) ∧
    ∃ pieces : List Piece,
      pieces.map Piece.part = newQuery sql ∧
      out = (pieces.map Piece.part).flatMap (writtenPart args) ∧
      lexTrace sql = pieces.flatMap Piece.original ∧
      lexTrace out = pieces.flatMap (Piece.substituted args) := by
  have htoks := tokens_sanitizeSQL h
  have hparts := piecesOf_part [] (by simp) _ (tokens_text_ne_nil .raw sql)
  rw [flatMap_nil, ← newQuery_eq] at hparts
  refine ⟨?_, piecesOf [] (scanner.tokens .raw sql),
    hparts, by rw [hparts]; exact (sanitize_eq_ok h).1, ?_, ?_⟩
  · rw [newQuery_eq, htoks]
    apply partsOf_isText
    intro t ht
    obtain ⟨t0, h0, ht⟩ := mem_flatMap.mp ht
    cases t0 with
    | text ctl u =>
      obtain rfl := mem_singleton.mp ht
      rfl
    | placeholder digits =>
      have hc := closed_of_supplied (supplied_of_sanitizeSQL h digits h0)
      simp only [rescanned, cons_append, mem_cons, mem_append,
        not_mem_nil, or_false] at ht
      rcases ht with rfl | ht | rfl
      · rfl
      · exact hc.isText t ht
      · rfl
  · rw [piecesOf_original, lexTrace_eq, nil_append]
  · rw [piecesOf_substituted, lexTrace_eq, htoks, nil_append]

/-- A string argument with a quote in it, after an identifier ending in E. -/
theorem sanitizeSQL_relex_quote :
    ∃ pieces : List Piece,
      pieces.map Piece.part = newQuery "select e$1--".toList ∧
      lexTrace "select e '''; $1' --".toList =
        pieces.flatMap (Piece.substituted [.string "'; $1".toList]) := by
  have h : sanitizeSQL "select e$1--".toList [.string "'; $1".toList] =
      .ok "select e '''; $1' --".toList := by rfl
  obtain ⟨-, pieces, hp, -, -, ht⟩ := sanitizeSQL_relex _ _ _ h
  exact ⟨pieces, hp, ht⟩

end Pgx.Sanitize
