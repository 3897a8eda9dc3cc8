import Pgx.Go.Text
import Pgx.Lexing.Scanner

/-!
# PostgreSQL's lexical rules

The tokens of `scan.l` with `standard_conforming_strings` on, as far as they
decide where a parameter can stand. An unterminated token runs to the end of the
text. Numbers and operators are read rune by rune, since neither can hide
anything. An escape string continued on the next line is one token; any other
string reads the same as two.

Clients that write named arguments read one more kind of token, an `@` before a
letter or underscore. The parameter `names` says whether they are tokens.
-/
namespace Pgx.Lexing.Postgres

open Pgx.Go List

def isLetter (c : Char) : Bool := ('a' ≤ c && c ≤ 'z') || ('A' ≤ c && c ≤ 'Z')

def identStart (c : Char) : Bool := isLetter c || c = '_' || 0x80 ≤ c.toNat

def identCont (c : Char) : Bool := identStart c || isDigit c || c = '$'

def nameStart (c : Char) : Bool := isLetter c || c = '_'

def nameCont (c : Char) : Bool := nameStart c || isDigit c

def isNewline (c : Char) : Bool := c = '\n' || c = '\r'

/-- The length of a quoted body and its closing quote. A doubled quote is part of the body. -/
def quotedLen (quote : Char) : Text → Nat
  | [] => 0
  | c :: cs =>
    if c = quote then
      match cs with
      | [] => 1
      | d :: ds => if d = quote then quotedLen quote ds + 2 else 1
    else quotedLen quote cs + 1

/-- The same where a backslash protects the next rune. -/
def escapedLen : Text → Nat
  | [] => 0
  | c :: cs =>
    if c = '\\' then
      match cs with
      | [] => 1
      | _ :: ds => escapedLen ds + 2
    else if c = '\'' then
      match cs with
      | [] => 1
      | d :: ds => if d = '\'' then escapedLen ds + 2 else 1
    else escapedLen cs + 1

/-- The blanks of `scan.l`. -/
def isBlank (c : Char) : Bool := isNewline c || c = ' ' || c = '\t' || c = '\x0b' || c = '\x0c'

/-- The length of what joins a string to its continuation: blanks and line comments
with a newline among them, and the quote. -/
def joinLen (newline comment : Bool) : Text → Option Nat
  | [] => none
  | c :: cs =>
    if isNewline c then (joinLen true false cs).map (· + 1)
    else if comment || isBlank c then (joinLen newline comment cs).map (· + 1)
    else if c = '-' ∧ cs.head? = some '-' then (joinLen newline true cs).map (· + 1)
    else if c = '\'' ∧ newline then some 1
    else none

/-- The escape string whose body this is goes on after its closing quote. -/
def continued (cs : Text) : Bool := (joinLen false false (cs.drop (escapedLen cs))).isSome

/-- The length of the body of an escape string with its continuations, of which there
are no more than `fuel`. -/
def escapeStringLen : Nat → Text → Nat
  | 0, cs => escapedLen cs
  | fuel + 1, cs =>
    match joinLen false false (cs.drop (escapedLen cs)) with
    | none => escapedLen cs
    | some n => escapedLen cs + n + escapeStringLen fuel (cs.drop (escapedLen cs + n))

/-- The length of a comment body with its closing mark, inside `depth` enclosing comments. -/
def blockLen : Nat → Text → Nat
  | _, [] => 0
  | _, [_] => 1
  | depth, c :: d :: ds =>
    if c = '/' ∧ d = '*' then blockLen (depth + 1) ds + 2
    else if c = '*' ∧ d = '/' then
      match depth with
      | 0 => 2
      | depth + 1 => blockLen depth ds + 2
    else blockLen depth (d :: ds) + 1

/-- The length of the tag before the second `$` of a dollar quote. -/
def tagLen (first : Bool) : Text → Option Nat
  | [] => none
  | c :: cs =>
    if c = '$' then some 0
    else if identStart c || (!first && isDigit c) then (tagLen false cs).map (· + 1)
    else none

/-- The length of a dollar-quoted body with its closing tag. -/
def dollarLen (tag cs : Text) : Nat :=
  let closer := '$' :: tag ++ ['$']
  match index cs closer with
  | none => cs.length
  | some k => k + closer.length

inductive Kind where
  | param (digits : Text)
  | name (name : Text)
  | identifier
  | string
  | escapeString
  | quotedIdentifier
  | dollarString (tag : Text)
  | lineComment
  | blockComment
  | other
  deriving DecidableEq, Repr

structure Token where
  kind : Kind
  text : Text
  deriving DecidableEq, Repr

def dollar (cs : Text) : Kind × Nat :=
  if cs.head?.any isDigit then
    (.param (cs.takeWhile isDigit), (cs.takeWhile isDigit).length + 1)
  else match tagLen true cs with
    | some k => (.dollarString (cs.take k), dollarLen (cs.take k) (cs.drop (k + 1)) + (k + 2))
    | none => (.other, 1)

/-- The kind and length of the token at the head of `c :: cs`. -/
def classify (names : Bool) (c : Char) (cs : Text) : Kind × Nat :=
  if (c = 'e' ∨ c = 'E') ∧ cs.head? = some '\'' then 
    (.escapeString, escapeStringLen cs.length (cs.drop 1) + 2)
  else if identStart c then (.identifier, (cs.takeWhile identCont).length + 1)
  else if c = '\'' then (.string, quotedLen '\'' cs + 1)
  else if c = '"' then (.quotedIdentifier, quotedLen '"' cs + 1)
  else if c = '-' ∧ cs.head? = some '-' then
    (.lineComment, (cs.takeWhile (! isNewline ·)).length + 1)
  else if c = '/' ∧ cs.head? = some '*' then (.blockComment, blockLen 0 (cs.drop 1) + 2)
  else if c = '$' then dollar cs
  else if names = true ∧ c = '@' ∧ cs.head?.any nameStart = true then
    (.name (cs.takeWhile nameCont), (cs.takeWhile nameCont).length + 1)
  else (.other, 1)

/-- What `classify` can say, with what it saw. -/
inductive Classified (names : Bool) : Char → Text → Kind → Nat → Prop where
  | escapeString {c : Char} {cs : Text} (hc : c = 'e' ∨ c = 'E') :
      Classified names c ('\'' :: cs) .escapeString (escapeStringLen (cs.length + 1) cs + 2)
  | identifier {c : Char} {cs : Text} (hc : identStart c = true) :
      Classified names c cs .identifier ((cs.takeWhile identCont).length + 1)
  | string {cs : Text} : Classified names '\'' cs .string (quotedLen '\'' cs + 1)
  | quotedIdentifier {cs : Text} :
      Classified names '"' cs .quotedIdentifier (quotedLen '"' cs + 1)
  | lineComment {cs : Text} :
      Classified names '-' ('-' :: cs) .lineComment ((cs.takeWhile (! isNewline ·)).length + 2)
  | blockComment {cs : Text} :
      Classified names '/' ('*' :: cs) .blockComment (blockLen 0 cs + 2)
  | param {cs : Text} (hd : cs.head?.any isDigit = true) :
      Classified names '$' cs (.param (cs.takeWhile isDigit)) ((cs.takeWhile isDigit).length + 1)
  | dollarString {cs : Text} {k : Nat} (hd : cs.head?.any isDigit = false)
      (hk : tagLen true cs = some k) :
      Classified names '$' cs (.dollarString (cs.take k))
        (dollarLen (cs.take k) (cs.drop (k + 1)) + (k + 2))
  | plainDollar {cs : Text} (hd : cs.head?.any isDigit = false) (hk : tagLen true cs = none) :
      Classified names '$' cs .other 1
  | name {cs : Text} (hn : names = true) (hs : cs.head?.any nameStart = true) :
      Classified names '@' cs (.name (cs.takeWhile nameCont)) ((cs.takeWhile nameCont).length + 1)
  | other {c : Char} {cs : Text} (hi : identStart c = false) (h1 : c ≠ '\'') (h2 : c ≠ '"')
      (h3 : c = '-' → cs.head? ≠ some '-') (h4 : c = '/' → cs.head? ≠ some '*') (h5 : c ≠ '$')
      (h6 : names = true → c = '@' → cs.head?.any nameStart = false) :
      Classified names c cs .other 1

theorem classified_dollar (names : Bool) (cs : Text) :
    Classified names '$' cs (dollar cs).1 (dollar cs).2 := by
  unfold dollar
  by_cases hd : cs.head?.any isDigit = true
  · rw [if_pos hd]
    exact .param hd
  · rw [if_neg hd]
    have hd' : cs.head?.any isDigit = false := by simpa using hd
    split
    · rename_i k hk
      exact .dollarString hd' hk
    · rename_i hk
      exact .plainDollar hd' hk

theorem classified (names : Bool) (c : Char) (cs : Text) :
    Classified names c cs (classify names c cs).1 (classify names c cs).2 := by
  unfold classify
  split
  · rename_i h
    obtain ⟨ds, rfl⟩ := head?_eq_some_iff.mp h.2
    exact .escapeString h.1
  split
  · rename_i h
    exact .identifier h
  rename_i hi
  split
  · rename_i h
    subst h
    exact .string
  rename_i h1
  split
  · rename_i h
    subst h
    exact .quotedIdentifier
  rename_i h2
  split
  · rename_i h
    obtain ⟨rfl, hd⟩ := h
    obtain ⟨ds, rfl⟩ := head?_eq_some_iff.mp hd
    have hdash : isNewline '-' = false := by decide
    simpa [hdash] using Classified.lineComment
  rename_i h3
  split
  · rename_i h
    obtain ⟨rfl, hd⟩ := h
    obtain ⟨ds, rfl⟩ := head?_eq_some_iff.mp hd
    exact .blockComment
  rename_i h4
  split
  · rename_i h
    subst h
    exact classified_dollar names cs
  rename_i h5
  split
  · rename_i h
    obtain ⟨hn, rfl, hs⟩ := h
    exact .name hn hs
  rename_i h6
  refine .other (by simpa using hi) h1 h2 (fun hc hd => h3 ⟨hc, hd⟩) (fun hc hd => h4 ⟨hc, hd⟩) h5
    (fun hn hc => ?_)
  cases hs : cs.head?.any nameStart with
  | false => rfl
  | true => exact absurd ⟨hn, hc, hs⟩ h6

theorem quotedLen_le (quote : Char) (cs : Text) : quotedLen quote cs ≤ cs.length := by
  fun_induction quotedLen quote cs <;> simp_all

theorem escapedLen_le (cs : Text) : escapedLen cs ≤ cs.length := by
  fun_induction escapedLen cs <;> simp_all

theorem joinLen_le {newline comment : Bool} {cs : Text} {n : Nat}
    (h : joinLen newline comment cs = some n) : n ≤ cs.length := by
  induction cs generalizing newline comment n with
  | nil => simp [joinLen] at h
  | cons c cs ih =>
    have hmap : ∀ {a b : Bool}, (joinLen a b cs).map (· + 1) = some n → n ≤ (c :: cs).length := by
      intro a b hn
      obtain ⟨m, hm, rfl⟩ := Option.map_eq_some_iff.mp hn
      exact Nat.succ_le_succ (ih hm)
    rw [joinLen] at h
    split_ifs at h
    · exact hmap h
    · exact hmap h
    · exact hmap h
    · obtain rfl := Option.some.inj h
      simp

theorem escapeStringLen_le (fuel : Nat) (cs : Text) : escapeStringLen fuel cs ≤ cs.length := by
  induction fuel generalizing cs with
  | zero => exact escapedLen_le cs
  | succ fuel ih =>
    rw [escapeStringLen]
    split
    · exact escapedLen_le cs
    · rename_i n hn
      have hseg := escapedLen_le cs
      have hjoin := joinLen_le hn
      have hrest := ih (cs.drop (escapedLen cs + n))
      rw [length_drop] at hjoin hrest
      omega

theorem escapeStringLen_single {cs : Text} (h : continued cs = false) (fuel : Nat) :
    escapeStringLen fuel cs = escapedLen cs := by
  have hnone : joinLen false false (cs.drop (escapedLen cs)) = none := by simpa [continued] using h
  cases fuel with
  | zero => rfl
  | succ fuel => simp [escapeStringLen, hnone]

theorem blockLen_le (depth : Nat) (cs : Text) : blockLen depth cs ≤ cs.length := by
  fun_induction blockLen depth cs <;> simp_all

theorem tagLen_lt {first : Bool} {cs : Text} {k : Nat} (h : tagLen first cs = some k) :
    k < cs.length := by
  induction cs generalizing first k with
  | nil => simp [tagLen] at h
  | cons c cs ih =>
    simp only [tagLen] at h
    split at h
    · obtain rfl := Option.some.inj h
      simp
    · split at h
      · obtain ⟨j, hj, rfl⟩ := Option.map_eq_some_iff.mp h
        have := ih hj
        simp only [length_cons]
        omega
      · simp at h

theorem dollarLen_le (tag cs : Text) : dollarLen tag cs ≤ cs.length := by
  simp only [dollarLen]
  split
  · exact Nat.le_refl _
  · rename_i k hk
    exact index_bound hk

theorem length_takeWhile_le (p : Char → Bool) (cs : Text) : (cs.takeWhile p).length ≤ cs.length :=
  (takeWhile_sublist p).length_le

theorem Classified.bound {names : Bool} {c : Char} {cs : Text} {k : Kind} {n : Nat}
    (h : Classified names c cs k n) : 0 < n ∧ n ≤ cs.length + 1 := by
  cases h with
  | escapeString hc =>
    rename_i cs
    have := escapeStringLen_le (cs.length + 1) cs
    simp only [length_cons]
    omega
  | identifier hc =>
    have := length_takeWhile_le identCont cs
    omega
  | string =>
    have := quotedLen_le '\'' cs
    omega
  | quotedIdentifier =>
    have := quotedLen_le '"' cs
    omega
  | lineComment =>
    rename_i cs
    have := length_takeWhile_le (! isNewline ·) cs
    simp only [length_cons]
    omega
  | blockComment =>
    rename_i cs
    have := blockLen_le 0 cs
    simp only [length_cons]
    omega
  | param hd =>
    have := length_takeWhile_le isDigit cs
    omega
  | @dollarString _ k hd hk =>
    have hk := tagLen_lt hk
    have hb := dollarLen_le (cs.take k) (cs.drop (k + 1))
    rw [length_drop] at hb
    omega
  | plainDollar hd hk => omega
  | name hn hs =>
    have := length_takeWhile_le nameCont cs
    omega
  | other => omega

def lexeme (names : Bool) : Text → Option (Token × Nat)
  | [] => none
  | c :: cs =>
    let (kind, n) := classify names c cs
    some (⟨kind, (c :: cs).take n⟩, n)

def scanner (names : Bool) : Scanner Char Unit Token where
  next _ xs := (lexeme names xs).map fun (t, n) => (t, n, ())
  progress := by
    intro s xs t n s' h
    cases xs with
    | nil => simp [lexeme] at h
    | cons c cs =>
      simp only [lexeme, Option.map_some, Option.some.injEq, Prod.mk.injEq] at h
      obtain ⟨-, rfl, -⟩ := h
      exact (classified names c cs).bound

def tokens (names : Bool) (sql : Text) : List Token := (scanner names).tokens () sql

end Pgx.Lexing.Postgres
