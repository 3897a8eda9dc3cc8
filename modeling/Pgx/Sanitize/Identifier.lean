import Pgx.Lexing.Postgres

/-!
# Identifiers in SQL text

`Identifier.Sanitize` of `conn.go`. The server refuses an empty name and cuts one at 63 bytes.
-/
namespace Pgx.Sanitize.Identifier

open Pgx.Go Pgx.Lexing.Postgres List

/-- `strings.ReplaceAll` of a quote by two. -/
def replaceQuotes (s : Text) : Text := s.flatMap fun c => if c = '"' then ['"', '"'] else [c]

/-- One part, from which `strings.ReplaceAll` takes the zero bytes. -/
def part (s : Text) : Text := '"' :: replaceQuotes (s.filter (· != '\x00')) ++ ['"']

def sanitize (ident : List Text) : Text := intercalate ['.'] (ident.map part)

/-- The name in a quoted identifier, read from behind its first quote. -/
def unquote : Text → Text
  | '"' :: '"' :: s => '"' :: unquote s
  | '"' :: _ => []
  | c :: s => c :: unquote s
  | [] => []

variable {rest : Text} (names : Bool) (s : Text)

-- The quotes before the closing one come in pairs, so the body is read up to the closing one.
theorem quotedLen_replaceQuotes (h : rest.head? ≠ some '"') :
    quotedLen '"' (replaceQuotes s ++ '"' :: rest) = (replaceQuotes s).length + 1 ∧
      unquote (replaceQuotes s ++ ['"']) = s := by
  induction s with
  | nil => cases rest <;> simp_all [replaceQuotes, quotedLen, unquote]
  | cons c s ih =>
    rw [replaceQuotes, flatMap_cons, ← replaceQuotes]
    by_cases hc : c = '"'
    · simp [hc, quotedLen, unquote, ih]
    · rw [if_neg hc, singleton_append, cons_append, quotedLen.eq_def]
      simp [hc, unquote, ih]

theorem tokens_part (h : rest.head? ≠ some '"') :
    tokens names (part s ++ rest) = ⟨.quotedIdentifier, part s⟩ :: tokens names rest := by
  have hlen := (quotedLen_replaceQuotes (s.filter (· != '\x00')) h).1
  have hnext : (scanner names).next () (part s ++ rest) = some
      (⟨.quotedIdentifier, part s⟩, (part s).length, ()) := by
    rw [part, append_assoc, cons_append, singleton_append]
    simp [scanner, lexeme, classify, identStart, isLetter, hlen, take_length_add_append]
  rw [tokens, (scanner names).tokens_of_some hnext, drop_left]
  rfl

theorem tokens_dot (cs : Text) : tokens names ('.' :: cs) = ⟨.other, ['.']⟩ :: tokens names cs := by
  have hnext : (scanner names).next () ('.' :: cs) = some (⟨.other, ['.']⟩, 1, ()) := by
    simp [scanner, lexeme, classify, identStart, isLetter]
  exact (scanner names).tokens_of_some hnext

/-- Whatever its parts hold, an identifier is read as one quoted name for each part, the part
without its zero bytes, with dots between them. The text behind it is read as it stands. -/
theorem tokens_sanitize (ident : List Text) (h : rest.head? ≠ some '"') :
    tokens names (sanitize ident ++ rest) =
        (ident.map fun s => ⟨.quotedIdentifier, part s⟩).intersperse
          ⟨.other, ['.']⟩ ++ tokens names rest ∧
      ∀ s, unquote (part s).tail = s.filter (· != '\x00') := by
  constructor
  · induction ident with
    | nil => rfl
    | cons s ident ih =>
      cases ident with
      | nil => simpa [sanitize] using tokens_part names s h
      | cons t ident =>
        rw [sanitize, map_cons, map_cons, intercalate_cons_cons, ← map_cons, ← sanitize,
          append_assoc, append_assoc,
          singleton_append, tokens_part names s (by simp), tokens_dot, ih]
        rfl
  · exact fun s => (quotedLen_replaceQuotes _ h).2

/-- The quote in the name does not end it. -/
theorem tokens_sanitize_attack : tokens false (sanitize ["a\";--".toList] ++ [';']) =
    [⟨.quotedIdentifier, "\"a\"\";--\"".toList⟩, ⟨.other, [';']⟩] :=
  (tokens_sanitize false ["a\";--".toList] (by decide)).1

end Pgx.Sanitize.Identifier
