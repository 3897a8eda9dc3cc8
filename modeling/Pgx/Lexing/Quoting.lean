import Mathlib.Data.List.Basic
import Mathlib.Tactic.Common

/-!
# Quoting and comments with one rune of lookahead

The part of SQL lexing that hides text: strings, quoted identifiers, escape
strings and the two kinds of comment. A decision sees the current rune and the
one after it, and says whether it reads both and which state follows. Here a
backslash protects the following rune in escape strings and in line comments.
-/
namespace Pgx.Lexing

inductive Quoting where
  | raw
  | singleQuote
  | doubleQuote
  | escapeString
  | oneLineComment
  | multilineComment (nested : Nat)
  deriving DecidableEq, Repr

namespace Quoting

def closing (quote : Char) (self : Quoting) (c : Char) (d : Option Char) : Bool × Quoting :=
  if c = quote then if d = some quote then (true, self) else (false, raw) else (false, self)

def look : Quoting → Char → Option Char → Bool × Quoting
  | raw, c, d =>
    if c = 'e' ∨ c = 'E' then if d = some '\'' then (true, escapeString) else (false, raw)
    else if c = '\'' then (false, singleQuote)
    else if c = '"' then (false, doubleQuote)
    else if c = '-' then if d = some '-' then (true, oneLineComment) else (false, raw)
    else if c = '/' then if d = some '*' then (true, multilineComment 0) else (false, raw)
    else (false, raw)
  | singleQuote, c, d => closing '\'' singleQuote c d
  | doubleQuote, c, d => closing '"' doubleQuote c d
  | escapeString, c, d =>
    if c = '\\' then (d.isSome, escapeString) else closing '\'' escapeString c d
  | oneLineComment, c, d =>
    if c = '\\' then (d.isSome, oneLineComment)
    else if c = '\n' ∨ c = '\r' then (false, raw)
    else (false, oneLineComment)
  | multilineComment nested, c, d =>
    if c = '/' then
      if d = some '*' then (true, multilineComment (nested + 1))
      else (false, multilineComment nested)
    else if c = '*' then
      if d = some '/' then (true, if nested = 0 then raw else multilineComment (nested - 1))
      else (false, multilineComment nested)
    else (false, multilineComment nested)

/-- The runes a decision can ask for in the second place. -/
def watched (d : Option Char) : Prop :=
  d = some '\'' ∨ d = some '"' ∨ d = some '-' ∨ d = some '*' ∨ d = some '/'

theorem look_two {q : Quoting} {c : Char} {d : Option Char} {q' : Quoting}
    (h : look q c d = (true, q')) : d.isSome = true := by
  cases d with
  | some d => rfl
  | none =>
    exfalso
    cases q <;> simp only [look, closing] at h <;> split_ifs at h <;> simp_all

/-- Two lookaheads that ask for nothing lead to one decision. -/
theorem look_congr {d d' : Option Char} (hd : ¬ watched d) (hd' : ¬ watched d')
    (he : d.isSome = d'.isSome) (q : Quoting) (c : Char) : look q c d = look q c d' := by
  simp only [watched, not_or] at hd hd'
  obtain ⟨h1, h2, h3, h4, h5⟩ := hd
  obtain ⟨h1', h2', h3', h4', h5'⟩ := hd'
  cases q <;> simp only [look, closing, h1, h2, h3, h4, h5, h1', h2', h3', h4', h5', he, if_false]

/-- A rune that opens nothing is read alone in the raw state. -/
theorem look_raw_plain {c : Char} {d : Option Char} (hq : d ≠ some '\'')
    (h1 : c ≠ '\'') (h2 : c ≠ '"') (h3 : c = '-' → d ≠ some '-') (h4 : c ≠ '/') :
    look raw c d = (false, raw) := by
  simp only [look, hq, h1, h2, h4, if_false]
  split_ifs with ha hb hc
  · rfl
  · exact absurd hc (h3 hb)
  · rfl
  · rfl

end Quoting
end Pgx.Lexing
