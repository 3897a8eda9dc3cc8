import Pgx.Lexing.Reader
import Pgx.Sanitize.Relex

/-!
# Placeholders against PostgreSQL's parameters

`pgParts` cuts a query at the parameter tokens of PostgreSQL's lexical rules.
`NewQuery` cuts it in the same way unless the scan by those rules meets one of
five kinds of token that the lexer reads differently.
-/
namespace Pgx.Sanitize

open Pgx.Go Pgx.Lexing Postgres List

variable {c : Char} {k : Kind} {n : Nat} {cs : Text}

def decimalValue (digits : Text) : Nat :=
  digits.foldl (fun n d => n * 10 + (d.toNat - '0'.toNat)) 0

/-- The number of a parameter. One that `placeholderState` cannot accumulate in an
int32 stands for `math.MaxInt32`, which is more than any query can bind. -/
def paramNumber (digits : Text) : Nat :=
  if decimalValue digits ≤ 2147483639 then decimalValue digits else maxInt32

/-- The parts of a token list that is cut at the parameters. -/
def paramParts : Text → List Token → List Part
  | cur, [] => if cur = [] then [] else [.text cur]
  | cur, t :: ts =>
    match t.kind with
    | .param digits => .text cur :: .placeholder (paramNumber digits) :: paramParts [] ts
    | _ => paramParts (cur ++ t.text) ts

/-- The query cut at the parameters that PostgreSQL sees. -/
def pgParts (sql : Text) : List Part := paramParts [] (Postgres.tokens false sql)

/-- A placeholder or a dollar quote starts here in the raw state. -/
def hole : Text → Bool
  | [] => false
  | c :: cs => c = '$' && (cs.head?.any isDigit || (scanDollarQuoteTag true cs).isSome)

/-- A token of this kind is read differently: an identifier that contains a `$` with
a digit or a tag after it, or that ends in E before a string with a backslash; a line
comment that ends in an escaped newline; a dollar quote with U+FFFD in its tag;
an escape string that is continued on a later line. -/
def defectOf (c : Char) (cs : Text) : Kind → Bool
  | .identifier => Reader.identMisread hole (c :: cs)
  | .lineComment => Reader.escapedNewline (cs.drop 1)
  | .dollarString tag => tag.contains runeError
  | .escapeString => continued (cs.drop 1)
  | _ => false

def defect : Text → Bool
  | [] => false
  | c :: cs => defectOf c cs (classify false c cs).1

def cuts (s : Ctl) (cur xs : Text) : List Part := partsOf cur (scanner.tokens s xs)

theorem cuts_text {s s' : Ctl} {xs u : Text}
    (h : scanner.next s xs = some (.text s u, n, s')) (cur : Text) :
    cuts s cur xs = cuts s' (cur ++ u) (xs.drop n) := by
  rw [cuts, scanner.tokens_of_some h]
  rfl

theorem cuts_nil (s s' : Ctl) (cur : Text) : cuts s cur [] = cuts s' cur [] := rfl

def reader : Reader (List Part) where
  cuts q := cuts (.quoting q)
  hole := hole
  ok _ := True
  ok_drop _ _ := trivial
  step := by
    intro q r c cs both cur _ hh hl
    by_cases hd : q = .raw ∧ c = '$'
    · obtain ⟨rfl, rfl⟩ := hd
      have hf : cs.head?.any isDigit = false ∧ scanDollarQuoteTag true cs = none := by
        simpa [hole] using hh
      have hl' : (false, Quoting.raw) = (both, r) := by rw [← hl]; simp [Quoting.look]
      obtain ⟨rfl, rfl⟩ := Prod.mk.inj hl'
      apply cuts_text
      simp [scanner, next, nextDollar, hf.1, hf.2, read]
    · apply cuts_text
      simp [scanner, next, hd, hl, read]
  finish q r cur := cuts_nil _ _ cur

/-- The loop over the digits computes the number with the clamp applied at the end. -/
theorem ordinal_eq_paramNumber {digits : Text} (hd : ∀ d ∈ digits, isDigit d = true) :
    ordinal digits = paramNumber digits := by
  suffices hall : ∀ v, digits.foldl addDigit (if v ≤ 2147483639 then v else maxInt32) =
        if digits.foldl (fun n d => n * 10 + (d.toNat - '0'.toNat)) v ≤ 2147483639 then
          digits.foldl (fun n d => n * 10 + (d.toNat - '0'.toNat)) v else maxInt32 from hall 0
  induction digits with
  | nil => intro v; rfl
  | cons d digits ih =>
    intro v
    have hdig : d.toNat - '0'.toNat ≤ 9 := by
      have := hd d (.head _)
      simp only [isDigit, Bool.and_eq_true, decide_eq_true_eq] at this
      have h9 : d.toNat ≤ 57 := this.2
      have h0 : '0'.toNat = 48 := by decide
      omega
    rw [foldl_cons, foldl_cons, ← ih (fun x hx => hd x (.tail _ hx))]
    congr 1
    unfold addDigit maxInt32
    split_ifs <;> omega

/-! ## Dollar quotes -/

theorem isDollarTagRune_eq (c : Char) (first : Bool) : isDollarTagRune c first =
      ((identStart c || (!first && isDigit c)) && (c ≠ runeError : Bool)) := by
  have hr : isDollarTagRune runeError first = false := by cases first <;> decide
  by_cases hc : c = runeError
  · rw [hc, hr]
    simp
  · simp only [isDollarTagRune, identStart, isLetter]
    cases isDigit c <;> cases first <;> simp [hc, Bool.or_comm, Bool.or_left_comm, Bool.or_assoc]

theorem scanDollarQuoteTag_of_tagLen {first : Bool} {k : Nat}
    (h : tagLen first cs = some k) (hr : runeError ∉ cs.take k) :
    scanDollarQuoteTag first cs = some k := by
  induction cs generalizing first k with
  | nil => simp [tagLen] at h
  | cons c cs ih =>
    rw [tagLen] at h
    rw [scanDollarQuoteTag]
    by_cases hd : c = '$'
    · rw [if_pos hd] at h ⊢
      exact h
    rw [if_neg hd] at h ⊢
    by_cases ht : (identStart c || (!first && isDigit c)) = true
    · rw [if_pos ht] at h
      obtain ⟨j, hj, rfl⟩ := Option.map_eq_some_iff.mp h
      simp only [take_succ_cons, mem_cons, not_or] at hr
      have htag : isDollarTagRune c first = true := by
        rw [isDollarTagRune_eq, ht]
        simpa using Ne.symm hr.1
      rw [if_pos htag, ih hj hr.2]
      rfl
    · rw [if_neg ht] at h
      simp at h

theorem scanDollarQuoteTag_none {first : Bool} (h : tagLen first cs = none) :
    scanDollarQuoteTag first cs = none := by
  induction cs generalizing first with
  | nil => rfl
  | cons c cs ih =>
    rw [tagLen] at h
    rw [scanDollarQuoteTag]
    by_cases hd : c = '$'
    · simp [hd] at h
    rw [if_neg hd] at h ⊢
    by_cases htag : isDollarTagRune c first = true
    · have ht : (identStart c || (!first && isDigit c)) = true := by
        rw [isDollarTagRune_eq] at htag
        exact (Bool.and_eq_true _ _ ▸ htag).1
      rw [if_pos ht, Option.map_eq_none_iff] at h
      rw [if_pos htag, ih h]
      rfl
    · rw [if_neg htag]

theorem cuts_dollarString {k : Nat} (hd : cs.head?.any isDigit = false)
    (hk : tagLen true cs = some k) (hr : runeError ∉ cs.take k) (cur : Text) :
    cuts .raw cur ('$' :: cs) =
      cuts .raw (cur ++ ('$' :: cs).take (dollarLen (cs.take k) (cs.drop (k + 1)) + (k + 2)))
        (('$' :: cs).drop (dollarLen (cs.take k) (cs.drop (k + 1)) + (k + 2))) := by
  have hopen : scanner.next .raw ('$' :: cs) =
      some (.text .raw (('$' :: cs).take (k + 2)), k + 2, .dollarQuote (cs.take k)) := by
    simp [scanner, next, nextDollar, hd, scanDollarQuoteTag_of_tagLen hk hr, read]
  have hbody : ∀ cur ys, cuts (.dollarQuote (cs.take k)) cur ys =
      cuts .raw (cur ++ ys.take (dollarLen (cs.take k) ys)) (ys.drop (dollarLen (cs.take k) ys)) := by
    intro cur ys
    cases ys with
    | nil => simpa using cuts_nil _ .raw cur
    | cons y ys =>
      cases hi : index (y :: ys) ('$' :: cs.take k ++ ['$']) with
      | none =>
        have hn : scanner.next (.dollarQuote (cs.take k)) (y :: ys) =
            some (.text (.dollarQuote (cs.take k)) (y :: ys), (y :: ys).length,
              .dollarQuote (cs.take k)) := by
          simp only [scanner, next, nextDollarQuote, hi, read, take_length]
        simp only [dollarLen, hi]
        rw [cuts_text hn, take_length, drop_length]
        exact cuts_nil _ _ _
      | some idx =>
        have hn : scanner.next (.dollarQuote (cs.take k)) (y :: ys) = some
            (.text (.dollarQuote (cs.take k))
              ((y :: ys).take (idx + ('$' :: cs.take k ++ ['$']).length)),
              idx + ('$' :: cs.take k ++ ['$']).length, .raw) := by
          simp only [scanner, next, nextDollarQuote, hi, read]
        simp only [dollarLen, hi]
        exact cuts_text hn cur
  rw [cuts_text hopen, hbody]
  have hdrop : ('$' :: cs).drop (k + 2) = cs.drop (k + 1) := rfl
  rw [← hdrop, append_assoc, ← take_add, drop_drop, Nat.add_comm (k + 2)]

theorem cuts_param (hd : cs.head?.any isDigit = true) (cur : Text) : cuts .raw cur ('$' :: cs) =
      .text cur :: .placeholder (paramNumber (cs.takeWhile isDigit)) ::
        cuts .raw [] (('$' :: cs).drop ((cs.takeWhile isDigit).length + 1)) := by
  rw [cuts, scanner.tokens_of_some (next_placeholder hd), partsOf,
    ordinal_eq_paramNumber fun d hm => mem_takeWhile_imp hm]
  rfl

theorem hole_of_ne (hc : c ≠ '$') (cs : Text) : hole (c :: cs) = false := by
  simp [hole, hc]

theorem hole_quiet (d : Char) (ds : Text) (h : d = '\'' ∨ isNewline d = true) :
    hole (d :: ds) = false := by
  apply hole_of_ne
  rintro rfl
  exact absurd h (by decide)

theorem hole_plain (h : Classified false c cs k n) (hk : Reader.Kind.isPlain k = true) :
    hole (c :: cs) = false := by
  cases h with
  | escapeString hc => exact hole_of_ne (by rintro rfl; simp at hc) _
  | identifier hc => exact hole_of_ne (by rintro rfl; exact absurd hc (by decide)) _
  | string => rfl
  | quotedIdentifier => rfl
  | lineComment => rfl
  | blockComment => rfl
  | plainDollar hd ht => simp [hole, hd, scanDollarQuoteTag_none ht]
  | other hi h1 h2 h3 h4 h5 h6 => exact hole_of_ne h5 _
  | param hd => simp [Reader.Kind.isPlain] at hk
  | dollarString hd ht => simp [Reader.Kind.isPlain] at hk
  | name hn hs => simp [Reader.Kind.isPlain] at hk

theorem paramParts_plain (hk : Reader.Kind.isPlain k = true) (cur u : Text)
    (ts : List Token) : paramParts cur (⟨k, u⟩ :: ts) = paramParts (cur ++ u) ts := by
  cases k with
  | param digits => simp [Reader.Kind.isPlain] at hk
  | _ => rfl

/-- The token at the head of the text, unless it is read differently. -/
theorem cuts_head (hcl : Classified false c cs k n) (hdef : defectOf c cs k = false) {ts : List Token}
    (hrest : ∀ cur, cuts .raw cur ((c :: cs).drop n) = paramParts cur ts) (cur : Text) :
    cuts .raw cur (c :: cs) = paramParts cur (⟨k, (c :: cs).take n⟩ :: ts) := by
  by_cases hk : Reader.Kind.isPlain k = true
  · rw [paramParts_plain hk, ← hrest]
    refine reader.cuts_token hcl hk trivial (hole_plain hcl hk) hole_quiet ?_ ?_ ?_ cur
    all_goals
      rintro rfl
      exact hdef
  · cases hcl with
    | param hd => rw [cuts_param hd, hrest]; rfl
    | dollarString hd ht =>
      rw [cuts_dollarString hd ht (by simpa [defectOf] using hdef), hrest]
      rfl
    | name hn hs => simp at hn
    | _ => simp [Reader.Kind.isPlain] at hk

/-- `NewQuery` recognises PostgreSQL's parameters, where the scan of the text by
PostgreSQL's rules meets no token that the lexer reads differently. -/
theorem newQuery_eq_pgParts (sql : Text) (h :
    (Postgres.scanner false).Avoids (fun _ xs => defect xs = true) () sql) :
    newQuery sql = pgParts sql := by
  rw [newQuery_eq]
  refine reader.cuts_tokens false paramParts defect (fun cur => rfl) ?_ sql h trivial []
  intro c cs ts cur _ hdef hrest
  exact cuts_head (classified false c cs) hdef hrest cur

/-- Strings, dollar quotes and a comment around one parameter -/
theorem newQuery_eq_pgParts_mixed :
    newQuery "e'\\'$1' $x$ $3 $x$a$b--\\$5\n+ $6".toList =
      pgParts "e'\\'$1' $x$ $3 $x$a$b--\\$5\n+ $6".toList :=
  newQuery_eq_pgParts _ (by decide +kernel)

/-- The comment ends at the newline and `$1` is a parameter; the lexer takes the
newline for an escaped rune of the comment and finds no placeholder. -/
theorem newQuery_ne_pgParts :
    newQuery "--\\\n$1".toList = [.text "--\\\n$1".toList] ∧
      pgParts "--\\\n$1".toList = [.text "--\\\n".toList, .placeholder 1] := by
  decide +kernel

/-- `k` iterations of the driver. -/
def steps : Nat → StateFn → SqlLexer → Next
  | 0, st, l => (some st, l)
  | k + 1, st, l =>
    match step st l with
    | (none, l') => (none, l')
    | (some st', l') => steps k st' l'

def Tok.source : Tok → Text
  | .text _ s => s
  | .placeholder digits => '$' :: digits

/-- What takes the place of a token when each placeholder stands for the argument that its digits
name. -/
def named (args : List Arg) : Tok → Text
  | .text _ s => s
  | .placeholder digits => ' ' :: argTextAt args (decimalValue digits) ++ [' ']

theorem steps_digits {digits ys : Text} (hd : ∀ d ∈ digits, isDigit d = true)
    (hy : ys.head?.any isDigit = false)
    {l : SqlLexer} (hl : l.rest = digits ++ ys) : steps (digits.length + 1) .placeholderState l =
      (some .rawState, { l with
        cur := [], rest := ys, num := digits.foldl addDigit l.num
        parts := l.parts ++ [.placeholder (digits.foldl addDigit l.num)] }) := by
  induction digits generalizing l with
  | nil =>
    have hstop : isDigit l.peek = false := by rw [SqlLexer.peek, hl, isDigit_peek]; exact hy
    rw [nil_append] at hl
    simp [steps, step, placeholderState, hstop, hl]
  | cons d digits ih =>
    have hdig : isDigit l.peek = true := by rw [SqlLexer.peek, hl, isDigit_peek]; exact hd d (.head _)
    have hpeek : l.peek = d := by rw [SqlLexer.peek, hl]; rfl
    have hrest : (l.advance 1).rest = digits ++ ys := by rw [SqlLexer.advance, hl]; rfl
    have hgo := ih (fun x hx => hd x (.tail _ hx))
        (l := { l.advance 1 with num := addDigit l.num d }) hrest
    rw [steps, step, placeholderState, hpeek, if_pos (hpeek ▸ hdig)]
    exact hgo

theorem ordinal_clamps {digits : Text} (hd : ∀ d ∈ digits, isDigit d = true) :
    (decimalValue digits ≤ 2147483639 → ordinal digits = decimalValue digits) ∧
      (2147483639 < decimalValue digits → 2147483639 ≤ ordinal digits) := by
  rw [ordinal_eq_paramNumber hd, paramNumber, maxInt32]
  split <;> omega

theorem tokens_source (s : Ctl) (xs : Text) : (scanner.tokens s xs).flatMap Tok.source = xs ∧
    ∀ digits, .placeholder digits ∈ scanner.tokens s xs → ∀ d ∈ digits, isDigit d = true := by
  induction s, xs using scanner.token_induction with
  | stop s xs hn =>
    obtain rfl := next_eq_none hn
    simp
  | token s xs t n s' hn ih =>
    obtain ⟨hsrc, hdigits⟩ := ih
    rw [scanner.tokens_of_some hn, flatMap_cons, hsrc]
    rcases next_cases hn with ⟨rfl, -, -⟩ | ⟨cs, -, -, rfl, -, rfl, rfl⟩
    · refine ⟨take_append_drop n xs, fun digits hmem => hdigits digits ?_⟩
      simpa using hmem
    · refine ⟨?_, fun digits hmem => ?_⟩
      · have hrest : cs.takeWhile isDigit ++ cs.drop (cs.takeWhile isDigit).length = cs := by
          rw [drop_takeWhile, takeWhile_append_dropWhile]
        exact congrArg ('$' :: ·) hrest
      · rcases mem_cons.mp hmem with he | hmem
        · obtain rfl := Tok.placeholder.inj he
          exact fun d hm => mem_takeWhile_imp hm
        · exact hdigits digits hmem

/-- `placeholderState` reads the digits and no more, and a number that it does not compute exactly
is out of reach of the arguments. -/
theorem placeholderState_clamps :
    (∀ l : SqlLexer, ∃ n : Nat,
      (decimalValue (l.rest.takeWhile isDigit) ≤ 2147483639 →
        n = decimalValue (l.rest.takeWhile isDigit)) ∧
      (2147483639 < decimalValue (l.rest.takeWhile isDigit) → 2147483639 ≤ n) ∧
      steps ((l.rest.takeWhile isDigit).length + 1) .placeholderState { l with num := 0 } =
        (some .rawState, { l with
          cur := [], rest := l.rest.dropWhile isDigit, num := n, parts :=
            l.parts ++ [.placeholder n] })) ∧
    ∀ (sql out : Text) (args : List Arg), args.length < 2147483639 → sanitizeSQL sql args = .ok out →
      ∃ ts : List Tok, sql = ts.flatMap Tok.source ∧ newQuery sql = partsOf [] ts ∧
        out = ts.flatMap (named args) ∧
        ∀ digits, .placeholder digits ∈ ts → 0 < decimalValue digits ∧
        decimalValue digits ≤ args.length := by
  constructor
  · intro l
    have hd : ∀ d ∈ l.rest.takeWhile isDigit, isDigit d = true := fun d hm => mem_takeWhile_imp hm
    refine ⟨ordinal (l.rest.takeWhile isDigit), (ordinal_clamps hd).1, (ordinal_clamps hd).2, ?_⟩
    exact steps_digits hd (head_dropWhile_isDigit l.rest) takeWhile_append_dropWhile.symm
  · intro sql out args hargs h
    obtain ⟨hsrc, hdigits⟩ := tokens_source .raw sql
    have hsame : ∀ digits, .placeholder digits ∈ scanner.tokens .raw sql →
        ordinal digits = decimalValue digits ∧ 0 < ordinal digits ∧ ordinal digits ≤ args.length := by
      intro digits hmem
      obtain ⟨hpos, arg, harg, -⟩ := supplied_of_sanitizeSQL h digits hmem
      have hlt := (List.getElem?_eq_some_iff.mp harg).1
      obtain ⟨hle, hgt⟩ := ordinal_clamps (hdigits digits hmem)
      refine ⟨hle ?_, hpos, by omega⟩
      by_contra hbig
      have := hgt (by omega)
      omega
    refine ⟨scanner.tokens .raw sql, hsrc.symm, newQuery_eq sql, ?_, fun digits hmem => ?_⟩
    · rw [(sanitize_eq_ok h).1, newQuery_eq, partsOf_written, nil_append]
      refine flatMap_congr fun t ht => ?_
      cases t with
      | text ctl u => rfl
      | placeholder digits => rw [written, named, (hsame digits ht).1]
    · obtain ⟨heq, hpos, hle⟩ := hsame digits hmem
      exact ⟨heq ▸ hpos, heq ▸ hle⟩

/-- An argument named with leading zeros. -/
theorem placeholderState_clamps_zeros : ∃ ts : List Tok,
    "$001".toList = ts.flatMap Tok.source ∧ " null ".toList = ts.flatMap (named [.nil]) := by
  obtain ⟨ts, hsrc, -, hout, -⟩ :=
    placeholderState_clamps.2 "$001".toList " null ".toList [.nil] (by decide) rfl
  exact ⟨ts, hsrc, hout⟩

end Pgx.Sanitize
