import Mathlib.Data.List.TakeWhile
import Pgx.Lexing.Scanner
import Pgx.Lexing.Quoting
import Pgx.Sanitize.Lexer

/-!
# The sanitizer's lexer as a scanner

The state functions share their bookkeeping: they move text from `rest` to `cur`
and cut `cur` into parts at placeholders. What the lexer decides depends on its
control state and the remaining text alone. `scanner` keeps only that decision,
with a placeholder as one token. `run_tokens` says that the lexer ends, and that
its parts and its trace are read off the tokens.
-/
namespace Pgx.Sanitize

open Pgx.Go Pgx.Lexing List SqlLexer

/-- A state function with the lexer fields it reads. -/
inductive Ctl where
  | quoting (q : Quoting)
  | dollarQuote (tag : Text)
  deriving DecidableEq, Repr

variable {s s' : Ctl} {n : Nat} {l l' : SqlLexer} {st : StateFn} {xs : Text}

namespace Ctl

abbrev raw : Ctl := quoting .raw

def state : Ctl → StateFn
  | quoting .raw => .rawState
  | quoting .singleQuote => .singleQuoteState
  | quoting .doubleQuote => .doubleQuoteState
  | quoting .escapeString => .escapeStringState
  | quoting .oneLineComment => .oneLineCommentState
  | quoting (.multilineComment _) => .multilineCommentState
  | dollarQuote _ => .dollarQuoteState

def nested : Ctl → Nat
  | quoting (.multilineComment n) => n
  | _ => 0

def tag : Ctl → Text
  | dollarQuote t => t
  | _ => []

end Ctl

inductive Tok where
  | text (ctl : Ctl) (s : Text)
  | placeholder (digits : Text)
  deriving DecidableEq, Repr

/-- The number that the digits of a placeholder denote for the lexer. -/
def ordinal (digits : Text) : Nat := digits.foldl addDigit 0

def read (s : Ctl) (xs : Text) (n : Nat) (s' : Ctl) : Option (Tok × Nat × Ctl) :=
  some (.text s (xs.take n), n, s')

/-- A `$` in the raw state: a placeholder, an opening tag or a plain rune. -/
def nextDollar (cs : Text) : Option (Tok × Nat × Ctl) :=
  if cs.head?.any isDigit then
    let digits := cs.takeWhile isDigit
    some (.placeholder digits, digits.length + 1, .raw)
  else match scanDollarQuoteTag true cs with
    | some tagLen => read .raw ('$' :: cs) (tagLen + 2) (.dollarQuote (cs.take tagLen))
    | none => read .raw ('$' :: cs) 1 .raw

/-- The body and closing tag, or everything when it is unterminated. -/
def nextDollarQuote (tag xs : Text) : Option (Tok × Nat × Ctl) :=
  let closer := '$' :: tag ++ ['$']
  match index xs closer with
  | none => read (.dollarQuote tag) xs xs.length (.dollarQuote tag)
  | some idx => read (.dollarQuote tag) xs (idx + closer.length) .raw

def next : Ctl → Text → Option (Tok × Nat × Ctl)
  | _, [] => none
  | .dollarQuote tag, c :: cs => nextDollarQuote tag (c :: cs)
  | .quoting q, c :: cs =>
    if q = .raw ∧ c = '$' then nextDollar cs
    else
      let (both, q') := q.look c cs.head?
      read (.quoting q) (c :: cs) (if both then 2 else 1) (.quoting q')

theorem read_eq_some {s'' : Ctl} {m : Nat} {t : Tok} (h : read s xs m s'' = some (t, n, s')) :
    t = .text s (xs.take n) ∧ n = m ∧ s' = s'' := by
  obtain ⟨rfl, rfl, rfl⟩ := h
  exact ⟨rfl, rfl, rfl⟩

theorem scanDollarQuoteTag_lt {first : Bool} {src : Text}
    (h : scanDollarQuoteTag first src = some n) : n < src.length := by
  induction src generalizing first n with
  | nil => simp [scanDollarQuoteTag] at h
  | cons r src ih =>
    simp only [scanDollarQuoteTag] at h
    split at h
    · obtain rfl := Option.some.inj h
      simp
    · split at h
      · obtain ⟨m, hm, rfl⟩ := Option.map_eq_some_iff.mp h
        have := ih hm
        simp only [length_cons]
        omega
      · simp at h

/-- The shapes of a step. Only the raw state before `$` and a digit yields a
placeholder; every other step reads some text in the state it is in. -/
theorem next_cases {t : Tok} (h : next s xs = some (t, n, s')) :
    (t = .text s (xs.take n) ∧ 0 < n ∧ n ≤ xs.length) ∨
    (∃ cs, s = .raw ∧ s' = .raw ∧ xs = '$' :: cs ∧ cs.head?.any isDigit = true ∧
      t = .placeholder (cs.takeWhile isDigit) ∧ n = (cs.takeWhile isDigit).length + 1) := by
  cases xs with
  | nil => simp [next] at h
  | cons c cs =>
    cases s with
    | dollarQuote tag =>
      left
      simp only [next, nextDollarQuote] at h
      split at h
      · obtain ⟨rfl, rfl, -⟩ := read_eq_some h
        exact ⟨rfl, by simp, le_rfl⟩
      · rename_i idx hi
        have hb := index_bound hi
        obtain ⟨rfl, rfl, -⟩ := read_eq_some h
        exact ⟨rfl, by simp only [length_append, length_cons]; omega, hb⟩
    | quoting q =>
      simp only [next] at h
      split at h
      · rename_i hd
        obtain ⟨rfl, rfl⟩ := hd
        unfold nextDollar at h
        split at h
        · rename_i hdig
          obtain ⟨rfl, rfl, rfl⟩ := h
          exact .inr ⟨cs, rfl, rfl, rfl, hdig, rfl, rfl⟩
        · left
          split at h
          · rename_i k hk
            have := scanDollarQuoteTag_lt hk
            obtain ⟨rfl, rfl, -⟩ := read_eq_some h
            exact ⟨rfl, by omega, by simp only [length_cons]; omega⟩
          · obtain ⟨rfl, rfl, -⟩ := read_eq_some h
            exact ⟨rfl, by omega, by simp⟩
      · left
        obtain ⟨ht, hn, -⟩ := read_eq_some h
        subst ht hn
        refine ⟨rfl, by split <;> omega, ?_⟩
        cases hl : q.look c cs.head? with
        | mk both q' =>
          cases both with
          | false => simp
          | true =>
            have h2 := Quoting.look_two hl
            cases cs with
            | nil => simp at h2
            | cons d cs => simp

def scanner : Scanner Char Ctl Tok where
  next := next
  progress := by
    intro s xs t n s' h
    rcases next_cases h with ⟨-, h0, hn⟩ | ⟨cs, -, -, rfl, -, -, rfl⟩
    · exact ⟨h0, hn⟩
    · have := (takeWhile_sublist isDigit (l := cs)).length_le
      simp only [length_cons]
      omega

theorem next_placeholder {cs : Text} (hd : cs.head?.any isDigit = true) :
    scanner.next .raw ('$' :: cs) =
      some (.placeholder (cs.takeWhile isDigit), (cs.takeWhile isDigit).length + 1, .raw) := by
  simp [scanner, next, nextDollar, hd]

/-- The parts the lexer cuts from tokens, `cur` being the text since the last cut. -/
def partsOf : Text → List Tok → List Part
  | cur, [] => if cur = [] then [] else [.text cur]
  | cur, .text _ s :: ts => partsOf (cur ++ s) ts
  | cur, .placeholder digits :: ts =>
    .text cur :: .placeholder (ordinal digits) :: partsOf [] ts

def Tok.visits : Tok → List Visit
  | .text ctl s => [⟨ctl.state, ctl.nested, ctl.tag, s⟩]
  | .placeholder digits =>
    ⟨.rawState, 0, [], ['$']⟩ :: digits.map fun d => ⟨.placeholderState, 0, [], [d]⟩

theorem isDigit_peek (cs : Text) : isDigit (decodeRuneInString cs).1 = cs.head?.any isDigit := by
  cases cs with
  | nil => decide
  | cons c cs => simp

/-- Outside dollar quotes and away from a raw `$`, one iteration is one decision. -/
theorem step_look (q : Quoting) (c : Char) (cs cur : Text) (num : Nat) (parts : List Part)
    (hd : ¬ (q = .raw ∧ c = '$')) {both : Bool} {q' : Quoting} (hl : q.look c cs.head? = (both, q')) :
    step (Ctl.quoting q).state ⟨cur, c :: cs, (Ctl.quoting q).nested, [], num, parts⟩ =
      (some (Ctl.quoting q').state,
        ⟨cur ++ (c :: cs).take (if both then 2 else 1), (c :: cs).drop (if both then 2 else 1),
          (Ctl.quoting q').nested, [], num, parts⟩) := by
  have hw : ¬ (c = runeError ∧ c.utf8Size ≠ replacementcharacterwidth) := by
    rintro ⟨rfl, h⟩
    exact h (by decide)
  have h1 := peek_eq_iff cs (d := '\'') (by decide)
  have h2 := peek_eq_iff cs (d := '"') (by decide)
  have h3 := peek_eq_iff cs (d := '-') (by decide)
  have h4 := peek_eq_iff cs (d := '*') (by decide)
  have h5 := peek_eq_iff cs (d := '/') (by decide)
  -- the tests of the state and those of `look` are the same
  cases q <;> simp only [Quoting.look, Quoting.closing] at hl <;>
    simp only [Ctl.state, Ctl.nested, step, rawState, singleQuoteState, doubleQuoteState, quotedState,
      escapeStringState, oneLineCommentState, multilineCommentState, decodeRune_cons, advance,
      peek, drop_one, tail_cons, ne_eq, h1, h2, h3, h4, h5, hw, if_false] <;>
    split_ifs at hl <;> cases hl <;> cases cs <;> simp_all

theorem step_nil (s : Ctl) (cur : Text) (num : Nat) (parts : List Part) :
    step s.state ⟨cur, [], s.nested, s.tag, num, parts⟩ =
      (none, (⟨cur, [], s.nested, s.tag, num, parts⟩ : SqlLexer).flush) := by
  cases s with
  | dollarQuote tag =>
    have hi : index [] ('$' :: tag ++ ['$']) = none := by simp [index]
    simp only [Ctl.state, step, dollarQuoteState, Ctl.tag, hi, advance, length_nil, take_nil,
      drop_nil, append_nil]
  | quoting q =>
    cases q <;> simp +decide [Ctl.state, step, rawState, singleQuoteState,
      doubleQuoteState, quotedState,
        escapeStringState, oneLineCommentState, multilineCommentState, advance]

/-- One iteration reads a text token. An unterminated dollar quote also ends the lexing. -/
theorem step_text {u : Text} (h : next s xs = some (.text s u, n, s')) (cur : Text) (num : Nat)
    (parts : List Part) :
    step s.state ⟨cur, xs, s.nested, s.tag, num, parts⟩ =
        (some s'.state, ⟨cur ++ xs.take n, xs.drop n, s'.nested, s'.tag, num, parts⟩) ∨
    (n = xs.length ∧ s' = s ∧ step s.state ⟨cur, xs, s.nested, s.tag, num, parts⟩ =
        (none, (⟨cur ++ xs, [], s.nested, s.tag, num, parts⟩ : SqlLexer).flush)) := by
  cases xs with
  | nil => simp [next] at h
  | cons c cs =>
    cases s with
    | dollarQuote tag =>
      simp only [next, nextDollarQuote] at h
      split at h
      · rename_i hi
        obtain ⟨-, rfl, rfl⟩ := read_eq_some h
        right
        simp only [Ctl.state, step, dollarQuoteState, Ctl.tag, hi, advance, take_length,
          drop_length, true_and]
      · rename_i idx hi
        obtain ⟨-, rfl, rfl⟩ := read_eq_some h
        left
        simp only [Ctl.state, step, dollarQuoteState, Ctl.tag, hi, advance, Ctl.nested]
    | quoting q =>
      left
      simp only [next] at h
      split at h
      · rename_i hd
        obtain ⟨rfl, rfl⟩ := hd
        unfold nextDollar at h
        split at h
        · simp at h
        · rename_i hdig
          have hp : isDigit (decodeRuneInString cs).1 = false := by
            rw [isDigit_peek]; simpa using hdig
          split at h
          all_goals
            rename_i hk
            obtain ⟨-, rfl, rfl⟩ := read_eq_some h
            simp [Ctl.state, step, rawState, advance, peek, hp, hk, Ctl.tag, Ctl.nested]
      · rename_i hd
        obtain ⟨-, rfl, rfl⟩ := read_eq_some h
        exact step_look q c cs cur num parts hd rfl

theorem visit_drop (h0 : 0 < n) (hn : n ≤ l.rest.length) (hr : l'.rest = l.rest.drop n) :
    visit st l l' = [⟨st, l.nested, l.dollarTag, l.rest.take n⟩] := by
  have hk : l.rest.length - l'.rest.length = n := by rw [hr, length_drop]; omega
  have hne : l.rest.take n ≠ [] := by
    intro he
    have := congrArg length he
    rw [length_take, length_nil] at this
    omega
  simp only [visit, hk, if_neg hne]

theorem visit_same (hr : l'.rest = l.rest) : visit st l l' = [] := by
  simp [visit, hr]

/-- The iterations from a state on, in as many rounds: what they read, and where they end. -/
inductive Run : Nat → StateFn → SqlLexer → List Visit → StateFn → SqlLexer → Prop where
  | stop {st : StateFn} {l l' : SqlLexer} (h : step st l = (none, l')) :
    Run 1 st l (visit st l l') st l'
  | next {st st' last : StateFn} {l l' final : SqlLexer} {visits : List Visit} {n : Nat}
      (h : step st l = (some st', l')) (hrest : Run n st' l' visits last final) :
      Run (n + 1) st l (visit st l l' ++ visits) last final

theorem Run.drive {visits : List Visit} {last : StateFn} (h : Run n st l visits last l')
    {fuel : Nat} (hf : n ≤ fuel) :
    Sanitize.drive fuel st l = (visits, some l') := by
  induction h generalizing fuel with
  | stop h =>
    obtain ⟨fuel, rfl⟩ := Nat.exists_eq_add_of_le' hf
    simp only [Sanitize.drive, h]
  | next h _ ih =>
    obtain ⟨fuel, rfl⟩ := Nat.exists_eq_add_of_le' (Nat.le_trans (Nat.le_add_left 1 _) hf)
    simp only [Sanitize.drive, h, ih (Nat.le_of_succ_le_succ hf)]

section

variable {st' last : StateFn} {final : SqlLexer} {visits : List Visit} {k : Nat}

theorem Run.silent (h : step st l = (some st', l')) (hr : l'.rest = l.rest)
    (hrest : Run n st' l' visits last final) :
    Run (n + 1) st l visits last final := by
  have hrun := Run.next h hrest
  rwa [visit_same hr] at hrun

theorem Run.read (h : step st l = (some st', l')) (hk : 0 < k) (hle : k ≤ l.rest.length)
    (hr : l'.rest = l.rest.drop k) (hrest : Run n st' l' visits last final) :
    Run (n + 1) st l (⟨st, l.nested, l.dollarTag, l.rest.take k⟩ :: visits) last final := by
  have hrun := Run.next h hrest
  rwa [visit_drop hk hle hr] at hrun

end

/-- The loop of `placeholderState` over the digits and the rune after them. -/
theorem Run.digits {digits ys : Text} (hd : ∀ d ∈ digits, isDigit d = true)
    (hy : ys.head?.any isDigit = false)
    {cur : Text} {num : Nat} {parts : List Part} {visits : List Visit} {last : StateFn}
    (h : Run n .rawState ⟨[], ys, 0, [], digits.foldl addDigit num,
      parts ++ [.placeholder (digits.foldl addDigit num)]⟩ visits last l') :
    Run (n + digits.length + 1) .placeholderState ⟨cur, digits ++ ys, 0, [], num, parts⟩
      ((digits.map fun d => ⟨.placeholderState, 0, [], [d]⟩) ++ visits) last l' := by
  induction digits generalizing cur num with
  | nil =>
    have hstep : step .placeholderState ⟨cur, ys, 0, [], num, parts⟩ =
        (some .rawState, ⟨[], ys, 0, [], num, parts ++ [.placeholder num]⟩) := by
      simp [step, placeholderState, peek, isDigit_peek, hy]
    exact .silent hstep rfl h
  | cons d digits ih =>
    have hdig : isDigit d = true := hd d (by simp)
    have hstep : step .placeholderState ⟨cur, d :: (digits ++ ys), 0, [], num, parts⟩ =
        (some .placeholderState,
          ⟨cur ++ [d], digits ++ ys, 0, [], addDigit num d, parts⟩) := by
      simp [step, placeholderState, peek, advance, hdig]
    exact .read (k := 1) hstep (by omega) (by simp) rfl (ih (fun x hx => hd x (by simp [hx])) h)

theorem head_dropWhile_isDigit (cs : Text) : (cs.dropWhile isDigit).head?.any isDigit = false := by
  have hnot := head?_dropWhile_not isDigit cs
  cases h : (cs.dropWhile isDigit).head? with
  | none => rfl
  | some c =>
    rw [h] at hnot
    simpa using hnot

/-- A raw `$` before a digit cuts the current text and starts a placeholder, which
ends at the first rune that is not a digit. -/
theorem Run.placeholder {cs : Text} (hd : cs.head?.any isDigit = true) {cur : Text} {num : Nat}
    {parts : List Part} {visits : List Visit} {last : StateFn}
    (h : Run n .rawState ⟨[], cs.dropWhile isDigit, 0, [], ordinal (cs.takeWhile isDigit),
      parts ++ [.text cur, .placeholder (ordinal (cs.takeWhile isDigit))]⟩ visits last l') :
    Run (n + (cs.takeWhile isDigit).length + 2) .rawState ⟨cur, '$' :: cs, 0, [], num, parts⟩
      ((Tok.placeholder (cs.takeWhile isDigit)).visits ++ visits) last l' := by
  have hstep : step .rawState ⟨cur, '$' :: cs, 0, [], num, parts⟩ =
      (some .placeholderState, ⟨[], cs, 0, [], 0, parts ++ [.text cur]⟩) := by
    simp [step, rawState, advance, peek, isDigit_peek, hd]
  have hdigits := @Run.digits _ _ (cs.takeWhile isDigit) _ (fun d hm => mem_takeWhile_imp hm)
    (head_dropWhile_isDigit cs) [] 0 (parts ++ [.text cur]) _ _ (by rw [append_assoc]; exact h)
  rw [takeWhile_append_dropWhile] at hdigits
  exact .read (k := 1) hstep (by omega) (by simp) rfl hdigits

theorem next_eq_none (h : next s xs = none) : xs = [] := by
  cases xs with
  | nil => rfl
  | cons c cs =>
    exfalso
    cases s with
    | dollarQuote tag =>
      simp only [next, nextDollarQuote, read] at h
      split at h <;> simp at h
    | quoting q =>
      simp only [next, nextDollar, read] at h
      split_ifs at h
      · split at h <;> simp at h

theorem flush_rest (l : SqlLexer) : l.flush.rest = l.rest := by
  unfold flush
  split <;> rfl

theorem flush_parts (l : SqlLexer) : l.flush.parts = l.parts ++ partsOf l.cur [] := by
  unfold flush partsOf
  split <;> simp

/-- The lexer ends in the scanner's final state; its parts and its trace are those of the tokens. -/
theorem run_tokens (s : Ctl) (xs : Text) :
    ∀ (cur : Text) (num : Nat) (parts : List Part), ∃ n l, n ≤ 2 * xs.length + 1 ∧
      Run n s.state ⟨cur, xs, s.nested, s.tag, num, parts⟩ ((scanner.tokens s xs).flatMap Tok.visits)
        (scanner.final s xs).state l ∧ l.parts = parts ++ partsOf cur (scanner.tokens s xs) := by
  induction s, xs using scanner.token_induction with
  | stop s xs hn =>
    intro cur num parts
    obtain rfl := next_eq_none hn
    have hrun := Run.stop (step_nil s cur num parts)
    rw [visit_same (flush_rest _)] at hrun
    exact ⟨1, _, Nat.le_refl 1, hrun, flush_parts _⟩
  | token s xs t n s' hn ih =>
    intro cur num parts
    have hlt := scanner.length_drop_lt hn
    rw [scanner.tokens_of_some hn, scanner.final_of_some hn]
    rcases next_cases hn with ⟨rfl, h0, hle⟩ | ⟨cs, rfl, rfl, rfl, hdig, rfl, rfl⟩
    · rcases step_text hn cur num parts with hs | ⟨rfl, rfl, hs⟩
      · obtain ⟨k, l, hk, hrest, hp⟩ := ih (cur ++ xs.take n) num parts
        exact ⟨k + 1, l, by omega, .read hs h0 hle rfl hrest, hp⟩
      · have hrun := Run.stop hs
        rw [visit_drop h0 hle (by rw [flush_rest, drop_length])] at hrun
        rw [drop_length]
        refine ⟨1, _, by omega, hrun, ?_⟩
        rw [flush_parts, take_length]
        rfl
    · have hcs := congrArg length (takeWhile_append_dropWhile (p := isDigit) (l := cs))
      have hdrop : ('$' :: cs).drop ((cs.takeWhile isDigit).length + 1) = cs.dropWhile isDigit := by
        rw [drop_succ_cons, drop_takeWhile]
      obtain ⟨k, l, hk, hrest, hp⟩ := ih [] (ordinal (cs.takeWhile isDigit))
        (parts ++ [.text cur, .placeholder (ordinal (cs.takeWhile isDigit))])
      rw [hdrop] at hk hrest hp ⊢
      simp only [length_append, length_cons] at hcs hk ⊢
      refine ⟨k + (cs.takeWhile isDigit).length + 2, l, by omega, .placeholder hdig hrest, ?_⟩
      rw [hp, append_assoc]
      rfl

theorem lex_tokens (sql : Text) :
    ∃ l, lex sql = ((scanner.tokens .raw sql).flatMap Tok.visits, some l) ∧
    l.parts = partsOf [] (scanner.tokens .raw sql) := by
  obtain ⟨n, l, hn, hrun, hp⟩ := run_tokens .raw sql [] 0 []
  exact ⟨l, hrun.drive hn, hp⟩

theorem newQuery_eq (sql : Text) : newQuery sql = partsOf [] (scanner.tokens .raw sql) := by
  obtain ⟨l, hl, hp⟩ := lex_tokens sql
  rw [newQuery, hl]
  exact hp

theorem lexTrace_eq (sql : Text) : lexTrace sql = (scanner.tokens .raw sql).flatMap Tok.visits := by
  obtain ⟨l, hl, -⟩ := lex_tokens sql
  rw [lexTrace, hl]

end Pgx.Sanitize
