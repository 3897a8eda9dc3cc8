import Pgx.Go.Text

/-!
# The sanitizer's lexer

`internal/sanitize/sanitize.go`. A state function of the source is a loop that
returns the next state function; the driver in `init` calls them until one
returns nil. Here one `step` is one iteration of the loop of the current state
function, so the driver and the loops together are the iteration of `step`.

The lexer's `start` and `pos` cut `src` in three. The text before `start` is
never read again; `cur` is `src[start:pos]` and `rest` is `src[pos:]`.
-/
namespace Pgx.Sanitize

open Pgx.Go

/-- A string part is raw SQL, an int part an argument placeholder. -/
inductive Part where
  | text (s : Text)
  | placeholder (n : Nat)
  deriving DecidableEq, Repr

inductive StateFn where
  | rawState
  | singleQuoteState
  | doubleQuoteState
  | placeholderState
  | dollarQuoteState
  | escapeStringState
  | oneLineCommentState
  | multilineCommentState
  deriving DecidableEq, Repr

structure SqlLexer where
  cur : Text
  rest : Text
  nested : Nat
  dollarTag : Text
  /-- The local variable of `placeholderState`. -/
  num : Nat
  parts : List Part
  deriving DecidableEq, Repr

def replacementcharacterwidth : Nat := 3

def maxInt32 : Nat := 2147483647

namespace SqlLexer

/-- `l.pos += width`, over `n` code points. -/
def advance (l : SqlLexer) (n : Nat) : SqlLexer :=
  { l with cur := l.cur ++ l.rest.take n, rest := l.rest.drop n }

def peek (l : SqlLexer) : Char := (decodeRuneInString l.rest).1

/-- Append `src[start:pos]` unless it is empty, and set `start = pos`. -/
def flush (l : SqlLexer) : SqlLexer :=
  if l.cur = [] then l else { l with parts := l.parts ++ [.text l.cur], cur := [] }

end SqlLexer

def isDollarTagRune (r : Char) (first : Bool) : Bool :=
  r = '_' || ('a' ≤ r && r ≤ 'z') || ('A' ≤ r && r ≤ 'Z') || (!first && isDigit r) ||
    (0x80 ≤ r.toNat && r ≠ runeError)

/-- The length of the tag when `src` begins with an optional tag and a `$`. -/
def scanDollarQuoteTag (first : Bool) : Text → Option Nat
  | [] => none
  | r :: src =>
    if r = '$' then some 0
    else if isDollarTagRune r first then (scanDollarQuoteTag false src).map (· + 1)
    else none

abbrev Next := Option StateFn × SqlLexer

def rawState (l : SqlLexer) : Next :=
  let (r, width) := decodeRuneInString l.rest
  let l := l.advance 1
  if r = 'e' ∨ r = 'E' then
    if l.peek = '\'' then (some .escapeStringState, l.advance 1) else (some .rawState, l)
  else if r = '\'' then (some .singleQuoteState, l)
  else if r = '"' then (some .doubleQuoteState, l)
  else if r = '$' then
    if isDigit l.peek then
      let parts := if l.cur = [] then l.parts else l.parts ++ [.text l.cur.dropLast]
      (some .placeholderState, { l with parts := parts, cur := [], num := 0 })
    else match scanDollarQuoteTag true l.rest with
      | some tagLen =>
        (some .dollarQuoteState,
          { l.advance (tagLen + 1) with dollarTag := l.rest.take tagLen })
      | none => (some .rawState, l)
  else if r = '-' then
    if l.peek = '-' then (some .oneLineCommentState, l.advance 1) else (some .rawState, l)
  else if r = '/' then
    if l.peek = '*' then (some .multilineCommentState, l.advance 1) else (some .rawState, l)
  else if r = runeError ∧ width ≠ replacementcharacterwidth then (none, l.flush)
  else (some .rawState, l)

/-- `singleQuoteState` and `doubleQuoteState` differ in the quote only. -/
def quotedState (quote : Char) (self : StateFn) (l : SqlLexer) : Next :=
  let (r, width) := decodeRuneInString l.rest
  let l := l.advance 1
  if r = quote then
    if l.peek ≠ quote then (some .rawState, l) else (some self, l.advance 1)
  else if r = runeError ∧ width ≠ replacementcharacterwidth then (none, l.flush)
  else (some self, l)

def singleQuoteState : SqlLexer → Next := quotedState '\'' .singleQuoteState

def doubleQuoteState : SqlLexer → Next := quotedState '"' .doubleQuoteState

/-- The accumulator of `placeholderState` clamps instead of wrapping. -/
def addDigit (num : Nat) (r : Char) : Nat :=
  if num > (maxInt32 - 9) / 10 then maxInt32 else num * 10 + (r.toNat - '0'.toNat)

/-- The rune that ends the placeholder is put back, so nothing is consumed then. -/
def placeholderState (l : SqlLexer) : Next :=
  let r := l.peek
  if isDigit r then (some .placeholderState, { l.advance 1 with num := addDigit l.num r })
  else (some .rawState, { l with parts := l.parts ++ [.placeholder l.num], cur := [] })

def dollarQuoteState (l : SqlLexer) : Next :=
  let closer := '$' :: l.dollarTag ++ ['$']
  match index l.rest closer with
  | none => (none, (l.advance l.rest.length).flush)
  | some idx => (some .rawState, { l.advance (idx + closer.length) with dollarTag := [] })

def escapeStringState (l : SqlLexer) : Next :=
  let (r, width) := decodeRuneInString l.rest
  let l := l.advance 1
  if r = '\\' then (some .escapeStringState, l.advance 1)
  else if r = '\'' then
    if l.peek ≠ '\'' then (some .rawState, l) else (some .escapeStringState, l.advance 1)
  else if r = runeError ∧ width ≠ replacementcharacterwidth then (none, l.flush)
  else (some .escapeStringState, l)

def oneLineCommentState (l : SqlLexer) : Next :=
  let (r, width) := decodeRuneInString l.rest
  let l := l.advance 1
  if r = '\\' then (some .oneLineCommentState, l.advance 1)
  else if r = '\n' ∨ r = '\r' then (some .rawState, l)
  else if r = runeError ∧ width ≠ replacementcharacterwidth then (none, l.flush)
  else (some .oneLineCommentState, l)

def multilineCommentState (l : SqlLexer) : Next :=
  let (r, width) := decodeRuneInString l.rest
  let l := l.advance 1
  if r = '/' then
    if l.peek = '*' then (some .multilineCommentState, { l.advance 1 with nested := l.nested + 1 })
    else (some .multilineCommentState, l)
  else if r = '*' then
    if l.peek ≠ '/' then (some .multilineCommentState, l)
    else if l.nested = 0 then (some .rawState, l.advance 1)
    else (some .multilineCommentState, { l.advance 1 with nested := l.nested - 1 })
  else if r = runeError ∧ width ≠ replacementcharacterwidth then (none, l.flush)
  else (some .multilineCommentState, l)

def step : StateFn → SqlLexer → Next
  | .rawState => rawState
  | .singleQuoteState => singleQuoteState
  | .doubleQuoteState => doubleQuoteState
  | .placeholderState => placeholderState
  | .dollarQuoteState => dollarQuoteState
  | .escapeStringState => escapeStringState
  | .oneLineCommentState => oneLineCommentState
  | .multilineCommentState => multilineCommentState

/-- An iteration as seen from outside: the lexer's state before it and the text it read. -/
structure Visit where
  state : StateFn
  nested : Nat
  dollarTag : Text
  consumed : Text
  deriving DecidableEq, Repr

/-- The record of one iteration, empty when it read nothing. -/
def visit (st : StateFn) (l l' : SqlLexer) : List Visit :=
  let read := l.rest.take (l.rest.length - l'.rest.length)
  if read = [] then [] else [⟨st, l.nested, l.dollarTag, read⟩]

/-- The driver loop, with a record of its iterations. The result is `none` when
the fuel is spent before a state function returns nil. -/
def drive : Nat → StateFn → SqlLexer → List Visit × Option SqlLexer
  | 0, _, _ => ([], none)
  | fuel + 1, st, l =>
    match step st l with
    | (none, l') => (visit st l l', some l')
    | (some st', l') =>
      let (visits, final) := drive fuel st' l'
      (visit st l l' ++ visits, final)

def initial (sql : Text) : SqlLexer :=
  { cur := [], rest := sql, nested := 0, dollarTag := [], num := 0, parts := [] }

/-- Every iteration reads something, ends a placeholder or ends the lexing. -/
def fuelFor (sql : Text) : Nat := 2 * sql.length + 1

def lex (sql : Text) : List Visit × Option SqlLexer :=
  drive (fuelFor sql) .rawState (initial sql)

/-- The parts that `Query.init` leaves in the query. -/
def newQuery (sql : Text) : List Part := ((lex sql).2.map SqlLexer.parts).getD []

def lexTrace (sql : Text) : List Visit := (lex sql).1

end Pgx.Sanitize
