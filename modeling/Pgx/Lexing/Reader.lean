import Pgx.Lexing.Postgres
import Pgx.Lexing.Quoting

/-!
# Readers that keep text and cut holes

A reader lexes with `Quoting.look` and collects the text it passes; at a hole,
such as a placeholder, it does something of its own. This module compares what it
reads with PostgreSQL's tokens. Every token but a parameter, a name or a
dollar-quoted string is passed whole, unless one of three decisions of
`Quoting.look` differs from PostgreSQL's: a backslash protects the end of a line
comment, an E that ends an identifier starts an escape string, and an escape
string that goes on in another line is a new string.
-/
namespace Pgx.Lexing

open Pgx.Go Postgres Quoting

variable {c : Char} {q : Quoting} {cs : Text}

/-- `cuts q cur xs` is what the reader makes of `xs` when it is in state `q` and has
collected `cur` since the last hole. -/
structure Reader (P : Type*) where
  cuts : Quoting → Text → Text → P
  /-- Whether something other than text starts here in the raw state. -/
  hole : Text → Bool
  /-- Texts on which the laws below are known. -/
  ok : Text → Prop
  ok_drop : ∀ {xs : Text} (n : Nat), ok xs → ok (xs.drop n)
  step : ∀ {q r : Quoting} {c : Char} {cs : Text} {both : Bool} (cur : Text), ok (c :: cs) →
    ¬ (q = .raw ∧ hole (c :: cs) = true) → q.look c cs.head? = (both, r) →
    cuts q cur (c :: cs) =
      cuts r (cur ++ (c :: cs).take (if both then 2 else 1))
        ((c :: cs).drop (if both then 2 else 1))
  finish : ∀ (q r : Quoting) (cur : Text), cuts q cur [] = cuts r cur []

namespace Reader

variable {P : Type*} (R : Reader P)

theorem step_one {r : Quoting} (cur : Text) (ho : R.ok (c :: cs))
    (hh : ¬ (q = .raw ∧ R.hole (c :: cs) = true)) (hl : q.look c cs.head? = (false, r)) :
    R.cuts q cur (c :: cs) = R.cuts r (cur ++ [c]) cs :=
  R.step cur ho hh hl

theorem step_two {r : Quoting} {d : Char} {ds : Text} (cur : Text)
    (ho : R.ok (c :: d :: ds)) (hh : ¬ (q = .raw ∧ R.hole (c :: d :: ds) = true))
    (hl : q.look c (some d) = (true, r)) :
    R.cuts q cur (c :: d :: ds) = R.cuts r (cur ++ [c, d]) ds :=
  R.step cur ho hh hl

theorem ok_tail (h : R.ok (c :: cs)) : R.ok cs := R.ok_drop 1 h

theorem ok_tail_two {d : Char} (h : R.ok (c :: d :: cs)) : R.ok cs := R.ok_drop 2 h

theorem cuts_quoted {quote : Char} (hq : q ≠ .raw)
    (hlook : ∀ c d, q.look c d = closing quote q c d) (ho : R.ok cs) (cur : Text) : R.cuts q cur cs =
      R.cuts .raw (cur ++ cs.take (quotedLen quote cs)) (cs.drop (quotedLen quote cs)) := by
  fun_induction quotedLen quote cs generalizing cur with
  | case1 => simpa using R.finish q .raw cur
  | case2 =>
    have hl : q.look quote none = (false, .raw) := by simp [hlook, closing]
    rw [R.step_one cur ho (by simp [hq]) hl]
    simp
  | case3 ds ih =>
    have hl : q.look quote (some quote) = (true, q) := by simp [hlook, closing]
    rw [R.step_two cur ho (by simp [hq]) hl, ih (R.ok_tail_two ho)]
    simp
  | case4 d ds hd =>
    have hl : q.look quote (some d) = (false, .raw) := by simp [hlook, closing, hd]
    rw [R.step_one cur ho (by simp [hq]) hl]
    simp
  | case5 c cs hc ih =>
    have hl : q.look c cs.head? = (false, q) := by simp [hlook, closing, hc]
    rw [R.step_one cur ho (by simp [hq]) hl, ih (R.ok_tail ho)]
    simp

theorem cuts_escaped (ho : R.ok cs) (cur : Text) : R.cuts .escapeString cur cs =
      R.cuts .raw (cur ++ cs.take (escapedLen cs)) (cs.drop (escapedLen cs)) := by
  fun_induction escapedLen cs generalizing cur with
  | case1 => simpa using R.finish .escapeString .raw cur
  | case2 =>
    have hl : Quoting.escapeString.look '\\' none = (false, .escapeString) := by
      simp [look]
    rw [R.step_one cur ho (by simp) hl]
    simpa using R.finish .escapeString .raw (cur ++ ['\\'])
  | case3 d ds ih =>
    have hl : Quoting.escapeString.look '\\' (some d) = (true, .escapeString) := by
      simp [look]
    rw [R.step_two cur ho (by simp) hl, ih (R.ok_tail_two ho)]
    simp
  | case4 =>
    have hl : Quoting.escapeString.look '\'' none = (false, .raw) := by
      simp [look, closing]
    rw [R.step_one cur ho (by simp) hl]
    simp
  | case5 ds h1 ih =>
    have hl : Quoting.escapeString.look '\'' (some '\'') = (true, .escapeString) := by
      simp [look, closing]
    rw [R.step_two cur ho (by simp) hl, ih (R.ok_tail_two ho)]
    simp
  | case6 d ds hd =>
    have hl : Quoting.escapeString.look '\'' (some d) = (false, .raw) := by
      simp [look, closing, hd]
    rw [R.step_one cur ho (by simp) hl]
    simp
  | case7 c cs h1 h2 ih =>
    have hl : Quoting.escapeString.look c cs.head? = (false, .escapeString) := by
      simp [look, closing, h1, h2]
    rw [R.step_one cur ho (by simp) hl, ih (R.ok_tail ho)]
    simp

theorem cuts_block (ho : R.ok cs) (depth : Nat) (cur : Text) :
    R.cuts (.multilineComment depth) cur cs =
      R.cuts .raw (cur ++ cs.take (blockLen depth cs)) (cs.drop (blockLen depth cs)) := by
  fun_induction blockLen depth cs generalizing cur with
  | case1 depth => simpa using R.finish (.multilineComment depth) .raw cur
  | case2 depth c =>
    have hl : (multilineComment depth).look c none = (false, .multilineComment depth) := by
      simp [look]
    rw [R.step_one cur ho (by simp) hl]
    simpa using R.finish (.multilineComment depth) .raw (cur ++ [c])
  | case3 depth c d ds h ih =>
    obtain ⟨rfl, rfl⟩ := h
    have hl : (multilineComment depth).look '/'
        (some '*') = (true, .multilineComment (depth + 1)) := by simp [look]
    rw [R.step_two cur ho (by simp) hl, ih (R.ok_tail_two ho)]
    simp
  | case4 c d ds h1 h2 =>
    obtain ⟨rfl, rfl⟩ := h2
    have hl : (multilineComment 0).look '*' (some '/') = (true, .raw) := by
      simp [look]
    rw [R.step_two cur ho (by simp) hl]
    simp
  | case5 c d ds h1 h2 depth ih =>
    obtain ⟨rfl, rfl⟩ := h2
    have hl : (multilineComment (depth + 1)).look '*'
        (some '/') = (true, .multilineComment depth) := by simp [look]
    rw [R.step_two cur ho (by simp) hl, ih (R.ok_tail_two ho)]
    simp
  | case6 depth c d ds h1 h2 ih =>
    have hl : (multilineComment depth).look c (some d) = (false, .multilineComment depth) := by
      simp only [look, Option.some.injEq]
      split_ifs <;> simp_all
    rw [R.step_one cur ho (by simp) hl, ih (R.ok_tail ho)]
    simp

/-- The line comment's last backslash protects the newline that should end it. -/
def escapedNewline : Text → Bool
  | [] => false
  | c :: cs =>
    if c = '\\' then
      match cs with
      | [] => false
      | d :: ds => isNewline d || escapedNewline ds
    else if isNewline c then false
    else escapedNewline cs

/-- A line comment up to its newline, which the reader takes with it and PostgreSQL
leaves to the next token. -/
theorem cuts_lineComment (ho : R.ok cs) (hn : escapedNewline cs = false)
    (hhole : ∀ c ds, isNewline c = true → R.hole (c :: ds) = false) (cur : Text) :
    R.cuts .oneLineComment cur cs =
      R.cuts .raw (cur ++ cs.takeWhile (! isNewline ·)) (cs.dropWhile (! isNewline ·)) := by
  fun_induction escapedNewline cs generalizing cur with
  | case1 => simpa using R.finish .oneLineComment .raw cur
  | case2 =>
    have hl : oneLineComment.look '\\' none = (false, .oneLineComment) := by
      simp [look]
    rw [R.step_one cur ho (by simp) hl]
    simpa [isNewline] using R.finish .oneLineComment .raw (cur ++ ['\\'])
  | case3 d ds ih =>
    simp only [Bool.or_eq_false_iff] at hn
    have hl : oneLineComment.look '\\' (some d) = (true, .oneLineComment) := by
      simp [look]
    rw [R.step_two cur ho (by simp) hl, ih (R.ok_tail_two ho) hn.2]
    have hb : isNewline '\\' = false := by decide
    simp [hn.1, hb]
  | case4 c cs h1 hc =>
    have hc' : c = '\n' ∨ c = '\r' := by simpa [isNewline] using hc
    have hl : oneLineComment.look c cs.head? = (false, .raw) := by
      simp [look, h1, hc']
    have hraw : raw.look c cs.head? = (false, .raw) := by
      rcases hc' with rfl | rfl <;> simp [look]
    rw [R.step_one cur ho (by simp) hl]
    simp only [List.takeWhile_cons, List.dropWhile_cons, hc, Bool.not_true]
    rw [if_neg (by simp), if_neg (by simp), List.append_nil,
      R.step_one cur ho (by simp [hhole c cs hc]) hraw]
  | case5 c cs h1 h2 ih =>
    have hc' : ¬ (c = '\n' ∨ c = '\r') := by simpa [isNewline] using h2
    have hl : oneLineComment.look c cs.head? = (false, .oneLineComment) := by
      simp [look, h1, hc']
    rw [R.step_one cur ho (by simp) hl, ih (R.ok_tail ho) hn]
    simp [h2]

/-- A string starts here and has a backslash in it. -/
def backslashString : Text → Bool
  | [] => false
  | c :: cs => c = '\'' && (cs.take (quotedLen '\'' cs)).contains '\\'

/-- In the identifier that goes on here, a hole starts, or an E ends the identifier
before a string with a backslash. -/
def identMisread (hole : Text → Bool) : Text → Bool
  | [] => false
  | c :: cs =>
    hole (c :: cs) || ((c = 'e' || c = 'E') && backslashString cs) ||
      (cs.head?.any identCont && identMisread hole cs)

theorem escapedLen_eq_quotedLen (h : '\\' ∉ cs.take (quotedLen '\'' cs)) :
    escapedLen cs = quotedLen '\'' cs := by
  fun_induction quotedLen '\'' cs with
  | case1 => rfl
  | case2 => simp [escapedLen]
  | case3 ds ih =>
    have hds : '\\' ∉ ds.take (quotedLen '\'' ds) := by simpa using h
    simp [escapedLen, ih hds]
  | case4 d ds hd => simp [escapedLen, hd]
  | case5 c cs hc ih =>
    simp only [List.take_succ_cons, List.mem_cons, not_or] at h
    unfold escapedLen
    rw [if_neg (Ne.symm h.1), if_neg hc, ih h.2]

theorem identCont_ne {x : Char} (hc : identCont c = true) (hx : identCont x = false) : c ≠ x := by
  rintro rfl
  rw [hx] at hc
  exact Bool.noConfusion hc

/-- One rune of an identifier. An E before a string without backslashes starts an
escape string, which then ends where the string does. -/
theorem cuts_ident_rune (hc : identCont c = true) (ho : R.ok (c :: cs))
    (hhole : R.hole (c :: cs) = false) (hquote : ∀ ds, R.hole ('\'' :: ds) = false)
    (hb : ((c = 'e' || c = 'E') && backslashString cs) = false) (cur : Text) :
    R.cuts .raw cur (c :: cs) = R.cuts .raw (cur ++ [c]) cs := by
  have h1 : c ≠ '\'' := identCont_ne hc (by decide)
  have h2 : c ≠ '"' := identCont_ne hc (by decide)
  have h3 : c ≠ '-' := identCont_ne hc (by decide)
  have h4 : c ≠ '/' := identCont_ne hc (by decide)
  by_cases he : c = 'e' ∨ c = 'E'
  · by_cases hq : cs.head? = some '\''
    · obtain ⟨ds, rfl⟩ := List.head?_eq_some_iff.mp hq
      have hesc : raw.look c (some '\'') = (true, .escapeString) := by
        simp [look, he]
      have hopen : raw.look '\'' ds.head? = (false, .singleQuote) := by
        simp [look]
      have hlen : escapedLen ds = quotedLen '\'' ds := by
        apply escapedLen_eq_quotedLen
        rcases he with rfl | rfl <;> simpa [backslashString] using hb
      rw [R.step_two cur ho (by simp [hhole]) hesc, R.cuts_escaped (R.ok_tail_two ho),
        R.step_one (cur ++ [c]) (R.ok_tail ho) (by simp [hquote]) hopen,
        R.cuts_quoted (by simp) (fun _ _ => rfl) (R.ok_tail_two ho), hlen]
      simp
    · have hl : raw.look c cs.head? = (false, .raw) := by simp [look, he, hq]
      exact R.step_one cur ho (by simp [hhole]) hl
  · have hl : raw.look c cs.head? = (false, .raw) := by
      simp [look, he, h1, h2, h3, h4]
    exact R.step_one cur ho (by simp [hhole]) hl

theorem cuts_identifier (hc : identCont c = true) (ho : R.ok (c :: cs))
    (hquote : ∀ ds, R.hole ('\'' :: ds) = false)
    (hm : identMisread R.hole (c :: cs) = false) (cur : Text) : R.cuts .raw cur (c :: cs) =
      R.cuts .raw (cur ++ c :: cs.takeWhile identCont) (cs.dropWhile identCont) := by
  induction cs generalizing c cur with
  | nil =>
    simp only [identMisread, Bool.or_eq_false_iff] at hm
    rw [R.cuts_ident_rune hc ho hm.1.1 hquote hm.1.2]
    simp
  | cons d ds ih =>
    rw [identMisread, Bool.or_eq_false_iff, Bool.or_eq_false_iff] at hm
    rw [R.cuts_ident_rune hc ho hm.1.1 hquote hm.1.2]
    by_cases hd : identCont d = true
    · have hrest : identMisread R.hole (d :: ds) = false := by
        simpa [hd] using hm.2
      rw [ih hd (R.ok_tail ho) hrest]
      simp [hd]
    · simp [hd]

/-- Tokens that are neither holes nor dollar-quoted. -/
def Kind.isPlain : Kind → Bool
  | .param _ => false
  | .name _ => false
  | .dollarString _ => false
  | _ => true

theorem cuts_token {names : Bool} {k : Kind} {n : Nat}
    (h : Classified names c cs k n) (hk : Kind.isPlain k = true) (ho : R.ok (c :: cs))
    (hhole : R.hole (c :: cs) = false) (hquiet :
    ∀ d ds, d = '\'' ∨ isNewline d = true → R.hole (d :: ds) = false)
    (hident : k = .identifier → identMisread R.hole (c :: cs) = false)
    (hline : k = .lineComment → escapedNewline (cs.drop 1) = false)
    (hesc : k = .escapeString → continued (cs.drop 1) = false) (cur : Text) :
    R.cuts .raw cur (c :: cs) = R.cuts .raw (cur ++ (c :: cs).take n) ((c :: cs).drop n) := by
  have hraw : ¬ (raw = .raw ∧ R.hole (c :: cs) = true) := by simp [hhole]
  cases h with
  | @escapeString _ cs hc =>
    have hsingle : escapeStringLen (cs.length + 1) cs = escapedLen cs :=
      escapeStringLen_single (hesc rfl) _
    have hl : raw.look c (some '\'') = (true, .escapeString) := by
      simp [look, hc]
    rw [R.step_two cur ho hraw hl, R.cuts_escaped (R.ok_tail_two ho), hsingle]
    simp
  | identifier hc =>
    have hcont : identCont c = true := by simp [identCont, hc]
    rw [R.cuts_identifier hcont ho (fun ds => hquiet _ ds (.inl rfl)) (hident rfl)]
    simp [take_takeWhile, drop_takeWhile]
  | string | quotedIdentifier =>
    rw [R.step_one cur ho hraw rfl, R.cuts_quoted (by simp) (fun _ _ => rfl) (R.ok_tail ho)]
    simp
  | lineComment =>
    have hl : raw.look '-' (some '-') = (true, .oneLineComment) := by
      simp [look]
    rw [R.step_two cur ho hraw hl, R.cuts_lineComment (R.ok_tail_two ho) (hline rfl)
      (fun d es hd => hquiet d es (.inr hd))]
    simp [take_takeWhile, drop_takeWhile]
  | blockComment =>
    have hl : raw.look '/' (some '*') = (true, .multilineComment 0) := by
      simp [look]
    rw [R.step_two cur ho hraw hl, R.cuts_block (R.ok_tail_two ho)]
    simp
  | plainDollar hd ht =>
    have hl : raw.look '$' cs.head? = (false, .raw) := by simp [look]
    simpa using R.step_one cur ho hraw hl
  | other hi h1 h2 h3 h4 h5 h6 =>
    have he : ¬ (c = 'e' ∨ c = 'E') := by
      rintro (rfl | rfl) <;> exact absurd hi (by decide)
    have hl : raw.look c cs.head? = (false, .raw) := by
      simp only [look, he, h1, h2, if_false]
      split_ifs <;> simp_all
    simpa using R.step_one cur ho hraw hl
  | param hd => simp [Kind.isPlain] at hk
  | dollarString hd ht => simp [Kind.isPlain] at hk
  | name hn hs => simp [Kind.isPlain] at hk

/-- Comparison with a fold over PostgreSQL's tokens: it is enough to compare at the
head of the text, where the scan meets nothing bad. -/
theorem cuts_tokens (names : Bool) (fold : Text → List Token → P) (bad : Text → Bool)
    (hnil : ∀ cur, R.cuts .raw cur [] = fold cur [])
    (hcons : ∀ c cs ts cur, R.ok (c :: cs) → bad (c :: cs) = false →
      (∀ cur, R.cuts .raw cur ((c :: cs).drop (classify names c cs).2) = fold cur ts) →
      R.cuts .raw cur (c :: cs) =
        fold cur (⟨(classify names c cs).1, (c :: cs).take
          (classify names c cs).2⟩ :: ts)) (xs : Text) :
    (scanner names).Avoids (fun _ ys => bad ys = true) () xs → R.ok xs →
      ∀ cur, R.cuts .raw cur xs = fold cur (tokens names xs) := by
  suffices hall : ∀ u xs, (scanner names).Avoids (fun _ ys => bad ys = true) u xs →
      R.ok xs → ∀ cur, R.cuts .raw cur xs = fold cur ((scanner names).tokens u xs) from
    hall () xs
  intro u xs
  induction u, xs using (scanner names).scan_induction with
  | step u xs ih =>
    intro hav ho cur
    cases xs with
    | nil => exact hnil cur
    | cons c cs =>
      have hnext : (scanner names).next u (c :: cs) =
          some (⟨(classify names c cs).1, (c :: cs).take (classify names c cs).2⟩,
            (classify names c cs).2, ()) := rfl
      rw [(scanner names).tokens_of_some hnext]
      exact hcons c cs _ cur ho (by simpa using hav.here)
        (ih _ _ _ hnext (hav.step _ hnext) (R.ok_drop _ ho))

end Reader
end Pgx.Lexing
