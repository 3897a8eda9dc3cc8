import Pgx.Go.Format
import Pgx.Go.Map

/-!
# Named arguments

`named_args.go`. The lexer has the layout of the sanitizer's, with its own state
functions: a part is raw SQL or a name, a name is numbered when it is first met,
and `utf8.RuneError` of any width ends the lexing. As there, one `step` is one
iteration of the loop of the current state function, `cur` is `src[start:pos]`
and `rest` is `src[pos:]`.
-/
namespace Pgx.NamedArgs

open Pgx.Go

inductive Part where
  | text (s : Text)
  | namedArg (name : Text)
  deriving DecidableEq, Repr

inductive StateFn where
  | rawState
  | namedArgState
  | singleQuoteState
  | doubleQuoteState
  | escapeStringState
  | oneLineCommentState
  | multilineCommentState
  deriving DecidableEq, Repr

structure SqlLexer where
  cur : Text
  rest : Text
  nested : Nat
  parts : List Part
  nameToOrdinal : Map Text Nat

namespace SqlLexer

def advance (l : SqlLexer) (n : Nat) : SqlLexer :=
  { l with cur := l.cur ++ l.rest.take n, rest := l.rest.drop n }

def peek (l : SqlLexer) : Char := (decodeRuneInString l.rest).1

def flush (l : SqlLexer) : SqlLexer :=
  if l.cur = [] then l else { l with parts := l.parts ++ [.text l.cur], cur := [] }

/-- Number the name `src[start:pos]` if it is new, and append it to the parts. -/
def record (l : SqlLexer) : SqlLexer :=
  { l with
    nameToOrdinal :=
      if (l.nameToOrdinal.lookup l.cur).isSome then l.nameToOrdinal
      else l.nameToOrdinal.insert l.cur (l.nameToOrdinal.len + 1)
    parts := l.parts ++ [.namedArg l.cur]
    cur := [] }

end SqlLexer

abbrev Next := Option StateFn × SqlLexer

def isLetter (r : Char) : Bool := ('a' ≤ r && r ≤ 'z') || ('A' ≤ r && r ≤ 'Z')

def rawState (l : SqlLexer) : Next :=
  let (r, _) := decodeRuneInString l.rest
  let l := l.advance 1
  if r = 'e' ∨ r = 'E' then
    if l.peek = '\'' then (some .escapeStringState, l.advance 1) else (some .rawState, l)
  else if r = '\'' then (some .singleQuoteState, l)
  else if r = '"' then (some .doubleQuoteState, l)
  else if r = '@' then
    if isLetter l.peek ∨ l.peek = '_' then
      let parts := if l.cur = [] then l.parts else l.parts ++ [.text l.cur.dropLast]
      (some .namedArgState, { l with parts := parts, cur := [] })
    else (some .rawState, l)
  else if r = '-' then
    if l.peek = '-' then (some .oneLineCommentState, l.advance 1) else (some .rawState, l)
  else if r = '/' then
    if l.peek = '*' then (some .multilineCommentState, l.advance 1) else (some .rawState, l)
  else if r = runeError then (none, l.flush)
  else (some .rawState, l)

/-- The rune that ends a name is put back, except `RuneError`. -/
def namedArgState (l : SqlLexer) : Next :=
  let r := l.peek
  if r = runeError then
    let l := l.advance 1
    (none, if l.cur = [] then l else l.record)
  else if !(isLetter r || isDigit r || r = '_') then (some .rawState, l.record)
  else (some .namedArgState, l.advance 1)

def quotedState (quote : Char) (self : StateFn) (l : SqlLexer) : Next :=
  let (r, _) := decodeRuneInString l.rest
  let l := l.advance 1
  if r = quote then
    if l.peek ≠ quote then (some .rawState, l) else (some self, l.advance 1)
  else if r = runeError then (none, l.flush)
  else (some self, l)

def singleQuoteState : SqlLexer → Next := quotedState '\'' .singleQuoteState

def doubleQuoteState : SqlLexer → Next := quotedState '"' .doubleQuoteState

def escapeStringState (l : SqlLexer) : Next :=
  let (r, _) := decodeRuneInString l.rest
  let l := l.advance 1
  if r = '\\' then (some .escapeStringState, l.advance 1)
  else if r = '\'' then
    if l.peek ≠ '\'' then (some .rawState, l) else (some .escapeStringState, l.advance 1)
  else if r = runeError then (none, l.flush)
  else (some .escapeStringState, l)

def oneLineCommentState (l : SqlLexer) : Next :=
  let (r, _) := decodeRuneInString l.rest
  let l := l.advance 1
  if r = '\\' then (some .oneLineCommentState, l.advance 1)
  else if r = '\n' ∨ r = '\r' then (some .rawState, l)
  else if r = runeError then (none, l.flush)
  else (some .oneLineCommentState, l)

def multilineCommentState (l : SqlLexer) : Next :=
  let (r, _) := decodeRuneInString l.rest
  let l := l.advance 1
  if r = '/' then
    if l.peek = '*' then (some .multilineCommentState, { l.advance 1 with nested := l.nested + 1 })
    else (some .multilineCommentState, l)
  else if r = '*' then
    if l.peek ≠ '/' then (some .multilineCommentState, l)
    else if l.nested = 0 then (some .rawState, l.advance 1)
    else (some .multilineCommentState, { l.advance 1 with nested := l.nested - 1 })
  else if r = runeError then (none, l.flush)
  else (some .multilineCommentState, l)

def step : StateFn → SqlLexer → Next
  | .rawState => rawState
  | .namedArgState => namedArgState
  | .singleQuoteState => singleQuoteState
  | .doubleQuoteState => doubleQuoteState
  | .escapeStringState => escapeStringState
  | .oneLineCommentState => oneLineCommentState
  | .multilineCommentState => multilineCommentState

/-- The driver loop; `none` when the fuel is spent first. -/
def drive : Nat → StateFn → SqlLexer → Option SqlLexer
  | 0, _, _ => none
  | fuel + 1, st, l =>
    match step st l with
    | (none, l') => some l'
    | (some st', l') => drive fuel st' l'

def initial (sql : Text) : SqlLexer := ⟨[], sql, 0, [], ∅⟩

/-- Every iteration reads something, ends a name or ends the lexing. -/
def lex (sql : Text) : SqlLexer :=
  (drive (2 * sql.length + 1) .rawState (initial sql)).getD (initial sql)

section Rewrite

variable {V : Type} (nil : V) (ord : RangeOrder) (na : Map Text V)

/-- The loop over the parts. The index of a missing name in a Go map is 0. -/
def writeParts (nameToOrdinal : Map Text Nat) (parts : List Part) : Text :=
  parts.flatMap fun
    | .text s => s
    | .namedArg name => '$' :: formatUint ((nameToOrdinal.lookup name).getD 0)

/-- The body of the loop that fills `newArgs`. -/
def fillArg (isStrict : Bool) (newArgs : List V) (entry : Sigma fun _ : Text => Nat) :
    Except String (List V) :=
  let newArgs := newArgs.set (entry.2 - 1) ((na.lookup entry.1).getD nil)
  if isStrict ∧ (na.lookup entry.1).isNone then
    .error ("argument " ++ String.ofList entry.1 ++
      " found in sql query but not present in StrictNamedArgs")
  else .ok newArgs

def checkUsed (nameToOrdinal : Map Text Nat) (entry : Sigma fun _ : Text => V) : Except String Unit :=
  if (nameToOrdinal.lookup entry.1).isNone then
    .error ("argument " ++ String.ofList entry.1 ++ " of StrictNamedArgs not found in sql query")
  else .ok ()

def rewriteQuery (sql : Text) (isStrict : Bool) : Except String (Text × List V) := do
  let l := lex sql
  let newSQL := writeParts l.nameToOrdinal l.parts
  let newArgs ← (ord.order l.nameToOrdinal.entries).foldlM (fillArg nil na isStrict)
    (List.replicate l.nameToOrdinal.len nil)
  if isStrict then (ord.order na.entries).forM (checkUsed l.nameToOrdinal)
  .ok (newSQL, newArgs)

end Rewrite
end Pgx.NamedArgs
