import Mathlib.Data.List.TakeWhile
import Pgx.Lexing.Quoting
import Pgx.Lexing.Postgres
import Pgx.NamedArgs.Lexer

/-!
# The named-argument lexer as a scanner

As for the sanitizer, `scanner` keeps the decisions of the lexer and a name is one
token. U+FFFD is a decision too: it stops the scan, and what follows it is lost.
-/
namespace Pgx.NamedArgs

open Pgx.Go Pgx.Lexing Postgres List SqlLexer

variable {c : Char} {q : Quoting} {cs xs : Text}

inductive Ctl where
  | quoting (q : Quoting)
  | stopped
  deriving DecidableEq, Repr

namespace Ctl

abbrev raw : Ctl := quoting .raw

end Ctl

def stateOf : Quoting → StateFn
  | .raw => .rawState
  | .singleQuote => .singleQuoteState
  | .doubleQuote => .doubleQuoteState
  | .escapeString => .escapeStringState
  | .oneLineComment => .oneLineCommentState
  | .multilineComment _ => .multilineCommentState

def nestedOf : Quoting → Nat
  | .multilineComment n => n
  | _ => 0

inductive Tok where
  | text (q : Quoting) (s : Text)
  | name (s : Text)
  deriving DecidableEq, Repr

def nextName (cs : Text) : Tok × Nat × Ctl :=
  let w := cs.takeWhile nameCont
  if (cs.dropWhile nameCont).head? = some runeError then
    (.name (w ++ [runeError]), w.length + 2, .stopped)
  else (.name w, w.length + 1, .raw)

def next : Ctl → Text → Option (Tok × Nat × Ctl)
  | .stopped, _ => none
  | .quoting _, [] => none
  | .quoting q, c :: cs =>
    if q = .raw ∧ c = '@' ∧ cs.head?.any nameStart = true then some (nextName cs)
    else if c = runeError then some (.text q [c], 1, .stopped)
    else
      let (both, q') := q.look c cs.head?
      let n := if both then 2 else 1
      some (.text q ((c :: cs).take n), n, .quoting q')

inductive Shape : Quoting → Text → Tok → Nat → Ctl → Prop where
  | text {q q' : Quoting} {c : Char} {cs : Text} {both : Bool}
      (hat : ¬ (q = .raw ∧ c = '@' ∧ cs.head?.any nameStart = true)) (hc : c ≠ runeError)
      (hl : q.look c cs.head? = (both, q')) :
      Shape q (c :: cs) (.text q ((c :: cs).take (if both then 2 else 1)))
        (if both then 2 else 1) (.quoting q')
  | stop {q : Quoting} {cs : Text} :
      Shape q (runeError :: cs) (.text q [runeError]) 1 .stopped
  | name {cs : Text} (hs : cs.head?.any nameStart = true)
      (he : (cs.dropWhile nameCont).head? ≠ some runeError) :
      Shape .raw ('@' :: cs) (.name (cs.takeWhile nameCont))
        ((cs.takeWhile nameCont).length + 1) .raw
  | nameStop {cs : Text} (hs : cs.head?.any nameStart = true)
      (he : (cs.dropWhile nameCont).head? = some runeError) :
      Shape .raw ('@' :: cs) (.name (cs.takeWhile nameCont ++ [runeError]))
        ((cs.takeWhile nameCont).length + 2) .stopped

theorem next_shape {t : Tok} {n : Nat} {s' : Ctl} (h : next (.quoting q) xs = some (t, n, s')) :
    Shape q xs t n s' := by
  cases xs with
  | nil => simp [next] at h
  | cons c cs =>
    simp only [next] at h
    by_cases hat : q = .raw ∧ c = '@' ∧ cs.head?.any nameStart = true
    · rw [if_pos hat] at h
      obtain ⟨rfl, rfl, hs⟩ := hat
      unfold nextName at h
      by_cases he : (cs.dropWhile nameCont).head? = some runeError
      · simp only [if_pos he, Option.some.injEq, Prod.mk.injEq] at h
        obtain ⟨rfl, rfl, rfl⟩ := h
        exact .nameStop hs he
      · simp only [if_neg he, Option.some.injEq, Prod.mk.injEq] at h
        obtain ⟨rfl, rfl, rfl⟩ := h
        exact .name hs he
    · rw [if_neg hat] at h
      by_cases hc : c = runeError
      · subst hc
        obtain ⟨rfl, rfl, rfl⟩ := h
        exact .stop
      · cases hl : q.look c cs.head? with
        | mk both q' =>
          simp only [if_neg hc, hl, Option.some.injEq, Prod.mk.injEq] at h
          obtain ⟨rfl, rfl, rfl⟩ := h
          exact .text hat hc hl

theorem Shape.bound {t : Tok} {n : Nat} {s' : Ctl} (h : Shape q xs t n s') :
    0 < n ∧ n ≤ xs.length := by
  cases h with
  | @text _ _ c cs both hat hc hl =>
    cases both with
    | false => simp
    | true =>
      have h2 := Quoting.look_two hl
      cases cs with
      | nil => simp at h2
      | cons d cs => simp
  | stop => simp
  | @name cs hs he =>
    have := length_takeWhile_le nameCont cs
    simp only [length_cons]
    omega
  | @nameStop cs hs he =>
    have hcs := congrArg length (takeWhile_append_dropWhile (p := nameCont) (l := cs))
    obtain ⟨ds, hds⟩ := head?_eq_some_iff.mp he
    rw [hds] at hcs
    simp only [length_append, length_cons] at hcs ⊢
    omega

def scanner : Scanner Char Ctl Tok where
  next := next
  progress := by
    intro s xs t n s' h
    cases s with
    | stopped => simp [next] at h
    | quoting q => exact (next_shape h).bound

theorem tokens_stopped (xs : Text) : scanner.tokens .stopped xs = [] := scanner.tokens_of_none rfl

theorem next_eq_none (h : next (.quoting q) xs = none) : xs = [] := by
  cases xs with
  | nil => rfl
  | cons c cs =>
    simp only [next] at h
    split_ifs at h

/-- The parts cut from tokens, `cur` being the text since the last cut. -/
def partsOf : Text → List Tok → List Part
  | cur, [] => if cur = [] then [] else [.text cur]
  | cur, .text _ s :: ts => partsOf (cur ++ s) ts
  | cur, .name s :: ts => .text cur :: .namedArg s :: partsOf [] ts

def addName (m : Map Text Nat) (name : Text) : Map Text Nat :=
  if (m.lookup name).isSome then m else m.insert name (m.len + 1)

/-- The names among parts, in order and with repetitions. -/
def namesIn : List Part → List Text
  | [] => []
  | .text _ :: ps => namesIn ps
  | .namedArg name :: ps => name :: namesIn ps

theorem isLetter_eq : isLetter = Postgres.isLetter := rfl

theorem nameStart_peek (cs : Text) :
    (isLetter (decodeRuneInString cs).1 = true ∨ (decodeRuneInString cs).1 = '_') ↔
      cs.head?.any nameStart = true := by
  cases cs with
  | nil => exact ⟨by decide, by simp⟩
  | cons c cs => simp [nameStart, isLetter_eq]

/-- Away from names and U+FFFD, one iteration is one decision. -/
theorem step_look {q' : Quoting} {both : Bool}
    (hat : ¬ (q = .raw ∧ c = '@' ∧ cs.head?.any nameStart = true)) (hc : c ≠ runeError)
    (hl : q.look c cs.head? = (both, q')) (cur : Text) (parts : List Part) (m : Map Text Nat) :
    step (stateOf q) ⟨cur, c :: cs, nestedOf q, parts, m⟩ = (some (stateOf q'),
        ⟨cur ++ (c :: cs).take (if both then 2 else 1), (c :: cs).drop (if both then 2 else 1),
          nestedOf q', parts, m⟩) := by
  have h1 := peek_eq_iff cs (d := '\'') (by decide)
  have h2 := peek_eq_iff cs (d := '"') (by decide)
  have h3 := peek_eq_iff cs (d := '-') (by decide)
  have h4 := peek_eq_iff cs (d := '*') (by decide)
  have h5 := peek_eq_iff cs (d := '/') (by decide)
  have h6 := nameStart_peek cs
  cases q with
  | raw =>
    simp only [true_and, not_and] at hat
    simp only [Quoting.look] at hl
    simp only [stateOf, step, rawState, decodeRune_cons, advance, peek,
      drop_one, tail_cons, h1, h3, h4, h6, hc, if_false]
    by_cases hat' : c = '@'
    · have hn := hat hat'
      subst hat'
      simp at hl
      obtain ⟨rfl, rfl⟩ := hl
      simp [hn, nestedOf]
    · split_ifs at hl <;> cases hl <;> simp_all [nestedOf]
  | _ =>
    -- the tests of the state and those of `look` are the same
    simp only [Quoting.look, Quoting.closing] at hl
    simp only [stateOf, step, singleQuoteState, doubleQuoteState, quotedState, escapeStringState,
      oneLineCommentState, multilineCommentState, decodeRune_cons, advance, peek, drop_one,
      tail_cons, ne_eq, h1, h2, h4, h5, hc, if_false, nestedOf]
    split_ifs at hl <;> cases hl <;> cases cs <;> simp_all

/-- U+FFFD and the end of the text look the same and end the lexing. -/
theorem step_stop (q : Quoting) (hx : (decodeRuneInString xs).1 = runeError)
    (cur : Text) (parts : List Part) (m : Map Text Nat) :
    step (stateOf q) ⟨cur, xs, nestedOf q, parts, m⟩ =
      (none, (⟨cur ++ xs.take 1, xs.drop 1, nestedOf q, parts, m⟩ : SqlLexer).flush) := by
  cases q <;> simp +decide [stateOf, step, rawState, singleQuoteState, doubleQuoteState, quotedState,
      escapeStringState, oneLineCommentState, multilineCommentState, advance, hx]

theorem drive_some {st st' : StateFn} {l l' : SqlLexer} (h : step st l = (some st', l'))
    (fuel : Nat) : drive (fuel + 1) st l = drive fuel st' l' := by
  simp only [drive, h]

theorem drive_none {st : StateFn} {l l' : SqlLexer} (h : step st l = (none, l')) (fuel : Nat) :
    drive (fuel + 1) st l = some l' := by
  simp only [drive, h]

theorem flush_parts (l : SqlLexer) : l.flush.parts = l.parts ++ partsOf l.cur [] := by
  unfold flush partsOf
  split <;> simp

theorem flush_names (l : SqlLexer) : l.flush.nameToOrdinal = l.nameToOrdinal := by
  unfold flush
  split <;> rfl

theorem drive_nameRunes (fuel : Nat) {w : Text} (hw : ∀ c ∈ w, nameCont c = true)
    (cur ys : Text) (parts : List Part) (m : Map Text Nat) :
    drive (fuel + w.length) .namedArgState ⟨cur, w ++ ys, 0, parts, m⟩ =
      drive fuel .namedArgState ⟨cur ++ w, ys, 0, parts, m⟩ := by
  induction w generalizing cur with
  | nil => simp
  | cons c w ih =>
    have hc : nameCont c = true := hw c (.head _)
    have hne : c ≠ runeError := by
      rintro rfl
      exact absurd hc (by decide)
    have hstep : step .namedArgState ⟨cur, c :: (w ++ ys), 0, parts, m⟩ =
        (some .namedArgState, ⟨cur ++ [c], w ++ ys, 0, parts, m⟩) := by
      have hl : (isLetter c || isDigit c || (c = '_' : Bool)) = true := by
        rw [← hc, nameCont, nameStart, isLetter_eq, Bool.or_right_comm]
      change (if c = runeError then _ else
        if (!(isLetter c || isDigit c || (c = '_' : Bool))) = true then _ else _) = _
      rw [if_neg hne, hl]
      rfl
    rw [cons_append, length_cons, ← Nat.add_assoc, drive_some hstep,
      ih (fun x hx => hw x (.tail _ hx)), append_assoc]
    rfl

/-- The `@`, which cuts the text before it, and the runes of the name. -/
theorem drive_at (fuel : Nat) (hs : cs.head?.any nameStart = true) (cur : Text) (parts : List Part)
    (m : Map Text Nat) :
    drive (fuel + (cs.takeWhile nameCont).length + 1) .rawState ⟨cur, '@' :: cs, 0, parts, m⟩ =
      drive fuel .namedArgState ⟨cs.takeWhile nameCont, cs.dropWhile nameCont, 0,
        parts ++ [.text cur], m⟩ := by
  have hstep : step .rawState ⟨cur, '@' :: cs, 0, parts, m⟩ =
      (some .namedArgState, ⟨[], cs, 0, parts ++ [.text cur], m⟩) := by
    have hp := (nameStart_peek cs).mpr hs
    simp [step, rawState, advance, peek, hp]
  have hrunes := drive_nameRunes fuel (w := cs.takeWhile nameCont)
    (fun c hc => mem_takeWhile_imp hc) [] (cs.dropWhile nameCont) (parts ++ [.text cur]) m
  rw [takeWhile_append_dropWhile, nil_append] at hrunes
  rw [drive_some hstep, hrunes]

theorem nameCont_of_nameStart (h : nameStart c = true) : nameCont c = true := by
  simp [nameCont, h]

theorem takeWhile_name_ne_nil (hs : cs.head?.any nameStart = true) : cs.takeWhile nameCont ≠ [] := by
  cases cs with
  | nil => simp at hs
  | cons c cs =>
    have hc : nameCont c = true := nameCont_of_nameStart (by simpa using hs)
    simp [hc]

theorem step_nameEnd (hc : c ≠ runeError) (hn : nameCont c = false)
    (ys cur : Text) (parts : List Part) (m : Map Text Nat) :
    step .namedArgState ⟨cur, c :: ys, 0, parts, m⟩ =
      (some .rawState, ⟨[], c :: ys, 0, parts ++ [.namedArg cur], addName m cur⟩) := by
  have hl : (isLetter c || isDigit c || (c = '_' : Bool)) = false := by
    rw [← hn, nameCont, nameStart, isLetter_eq, Bool.or_right_comm]
  change (if c = runeError then _ else
    if (!(isLetter c || isDigit c || (c = '_' : Bool))) = true then _ else _) = _
  rw [if_neg hc, hl]
  rfl

theorem step_nameStop (ys : Text) (hy : (decodeRuneInString ys).1 = runeError) {cur : Text}
    (hne : cur ≠ []) (parts : List Part) (m : Map Text Nat) :
    step .namedArgState ⟨cur, ys, 0, parts, m⟩ =
      (none, ⟨[], ys.drop 1, 0, parts ++ [.namedArg (cur ++ ys.take 1)],
        addName m (cur ++ ys.take 1)⟩) := by
  have hcur : cur ++ ys.take 1 ≠ [] := by simp [hne]
  change (if (decodeRuneInString ys).1 = runeError then
    (none, if cur ++ ys.take 1 = [] then _ else _) else _) = _
  rw [if_pos hy, if_neg hcur]
  rfl

theorem not_nameCont_head (h : (cs.dropWhile nameCont).head? = some c) : nameCont c = false := by
  have hnot := head?_dropWhile_not nameCont cs
  rw [h] at hnot
  simpa using hnot

theorem namesIn_partsOf_nil (cur : Text) : namesIn (partsOf cur []) = [] := by
  unfold partsOf
  split <;> rfl

/-- The lexer ends, its parts are those of the tokens, and its map numbers their names. -/
theorem drive_tokens (s : Ctl) (xs : Text) :
    ∀ q, s = .quoting q → ∀ (fuel : Nat) (cur : Text) (parts : List Part) (m : Map Text Nat),
    2 * xs.length + 1 ≤ fuel →
      ∃ l, drive fuel (stateOf q) ⟨cur, xs, nestedOf q, parts, m⟩ = some l ∧
        l.parts = parts ++ partsOf cur (scanner.tokens s xs) ∧
        l.nameToOrdinal = (namesIn (partsOf cur (scanner.tokens s xs))).foldl addName m := by
  induction s, xs using scanner.scan_induction with
  | step s xs ih =>
    rintro q rfl fuel cur parts m hf
    obtain ⟨fuel, rfl⟩ : ∃ k, fuel = k + 1 := ⟨fuel - 1, by omega⟩
    cases hn : scanner.next (.quoting q) xs with
    | none =>
      obtain rfl := next_eq_none hn
      rw [drive_none (step_stop q rfl cur parts m), scanner.tokens_of_none hn]
      refine ⟨_, rfl, ?_, ?_⟩
      · rw [flush_parts, take_nil, append_nil]
      · rw [flush_names, namesIn_partsOf_nil]
        rfl
    | some r =>
      obtain ⟨t, n, s'⟩ := r
      rw [scanner.tokens_of_some hn]
      have hlt := scanner.length_drop_lt hn
      cases next_shape hn with
      | @text _ q' c cs both hat hc hl =>
        obtain ⟨l, hd, hp, hm⟩ := ih _ _ _ hn q' rfl fuel
          (cur ++ (c :: cs).take (if both then 2 else 1)) parts m (by omega)
        exact ⟨l, by rw [drive_some (step_look hat hc hl cur parts m), hd], hp, hm⟩
      | stop =>
        rw [drive_none (step_stop q rfl cur parts m), tokens_stopped]
        refine ⟨_, rfl, flush_parts _, ?_⟩
        rw [flush_names]
        exact (congrArg (·.foldl addName m) (namesIn_partsOf_nil _)).symm
      | @name cs hs he =>
        have hcs := congrArg length (takeWhile_append_dropWhile (p := nameCont) (l := cs))
        simp only [length_append, length_cons] at hcs hf
        have hne := takeWhile_name_ne_nil hs
        obtain ⟨more, rfl⟩ : ∃ k, fuel = k + 1 + (cs.takeWhile nameCont).length :=
          ⟨fuel - (cs.takeWhile nameCont).length - 1, by omega⟩
        have hdrop : ('@' :: cs).drop ((cs.takeWhile nameCont).length + 1) =
            cs.dropWhile nameCont := by rw [drop_succ_cons, drop_takeWhile]
        obtain ⟨l, hd, hp, hm⟩ :=
          ih _ _ _ hn .raw rfl more [] (parts ++ [.text cur, .namedArg (cs.takeWhile nameCont)])
          (addName m (cs.takeWhile nameCont)) (by rw [hdrop]; omega)
        rw [hdrop] at hd hp hm ⊢
        have hat := drive_at (more + 1) hs cur parts m
        cases hrest : cs.dropWhile nameCont with
        | nil =>
          rw [hrest] at hat
          have hstop := step_nameStop [] rfl hne (parts ++ [.text cur]) m
          rw [take_nil, append_nil, append_assoc] at hstop
          refine ⟨_, hat.trans (drive_none hstop more), ?_, rfl⟩
          rfl
        | cons c ys =>
          have hc : c ≠ runeError := by
            rintro rfl
            exact he (by rw [hrest]; rfl)
          have hcont : nameCont c = false := not_nameCont_head (by rw [hrest]; rfl)
          have hend := step_nameEnd hc hcont ys (cs.takeWhile nameCont) (parts ++ [.text cur]) m
          rw [append_assoc] at hend
          rw [hrest] at hat hd hp hm
          refine ⟨l, ?_, ?_, hm⟩
          · exact hat.trans ((drive_some hend more).trans hd)
          · rw [hp, append_assoc]
            rfl
      | @nameStop cs hs he =>
        have hcs := congrArg length (takeWhile_append_dropWhile (p := nameCont) (l := cs))
        simp only [length_append, length_cons] at hcs hf
        have hne := takeWhile_name_ne_nil hs
        obtain ⟨more, rfl⟩ : ∃ k, fuel = k + 1 + (cs.takeWhile nameCont).length :=
          ⟨fuel - (cs.takeWhile nameCont).length - 1, by omega⟩
        obtain ⟨ys, hys⟩ := head?_eq_some_iff.mp he
        have hat := drive_at (more + 1) hs cur parts m
        have hstop := step_nameStop (runeError :: ys) rfl hne (parts ++ [.text cur]) m
        rw [hys] at hat
        rw [append_assoc] at hstop
        rw [tokens_stopped]
        exact ⟨_, hat.trans (drive_none hstop more), rfl, rfl⟩

def numbered (parts : List Part) : Map Text Nat := (namesIn parts).foldl addName ∅

def partsIn (sql : Text) : List Part := partsOf [] (scanner.tokens .raw sql)

theorem lex_parts (sql : Text) : (lex sql).parts = partsIn sql := by
  obtain ⟨l, hl, hp, -⟩ := drive_tokens .raw sql .raw rfl _ [] [] ∅ le_rfl
  have hd : drive (2 * sql.length + 1) .rawState (initial sql) = some l := hl
  rw [lex, hd]
  exact hp

theorem lex_nameToOrdinal (sql : Text) : (lex sql).nameToOrdinal = numbered (partsIn sql) := by
  obtain ⟨l, hl, -, hm⟩ := drive_tokens .raw sql .raw rfl _ [] [] ∅ le_rfl
  have hd : drive (2 * sql.length + 1) .rawState (initial sql) = some l := hl
  rw [lex, hd]
  exact hm

end Pgx.NamedArgs
