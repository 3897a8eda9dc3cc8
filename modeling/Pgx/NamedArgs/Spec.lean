import Pgx.Lexing.Reader
import Pgx.NamedArgs.Rewrite

/-!
# Named arguments against PostgreSQL's lexical rules

`pgNameParts` cuts a text at the names that lie outside PostgreSQL's strings,
quoted identifiers, dollar-quoted strings and comments. `rewriteQuery` numbers and
replaces these names unless the text holds U+FFFD or a token that its lexer reads
differently; dollar-quoted strings are such tokens, since it does not know them.
-/
namespace Pgx.NamedArgs

open Pgx.Go Pgx.Lexing Postgres

variable {c : Char} {k : Kind} {n : Nat} {cs : Text}

def nameParts : Text → List Token → List Part
  | cur, [] => if cur = [] then [] else [.text cur]
  | cur, t :: ts =>
    match t.kind with
    | .name n => .text cur :: .namedArg n :: nameParts [] ts
    | _ => nameParts (cur ++ t.text) ts

def pgNameParts (sql : Text) : List Part := nameParts [] (Postgres.tokens true sql)

def sourceOf (parts : List Part) : Text :=
  parts.flatMap fun
    | .text s => s
    | .namedArg n => '@' :: n

def hole : Text → Bool
  | [] => false
  | c :: cs => c = '@' && cs.head?.any nameStart

/-- A rune that starts something in the raw state, with the rune after it. -/
def opens (c : Char) (d : Option Char) : Bool :=
  c = '\'' || c = '"' || (c = '@' && d.any nameStart) || (c = '-' && d = some '-') ||
    (c = '/' && d = some '*')

def opensSomething : Text → Bool
  | [] => false
  | c :: cs => opens c cs.head? || opensSomething cs

/-- A token of this kind and length is read differently: an identifier that ends in E
before a string with a backslash, a line comment that ends in an escaped newline, an
escape string that is continued on a later line, a dollar-quoted string in which
something opens. -/
def defectOf (c : Char) (cs : Text) (n : Nat) : Kind → Bool
  | .identifier => Reader.identMisread hole (c :: cs)
  | .lineComment => Reader.escapedNewline (cs.drop 1)
  | .escapeString => continued (cs.drop 1)
  | .dollarString _ => opensSomething ((c :: cs).take n)
  | _ => false

def defect : Text → Bool
  | [] => false
  | c :: cs => defectOf c cs (classify true c cs).2 (classify true c cs).1

/-! ## The lexer as a reader -/

def cuts (q : Quoting) (cur xs : Text) : List Part := partsOf cur (scanner.tokens (.quoting q) xs)

theorem hole_of_ne (hc : c ≠ '@') (cs : Text) : hole (c :: cs) = false := by
  simp [hole, hc]

theorem hole_quiet (d : Char) (ds : Text) (h : d = '\'' ∨ isNewline d = true) :
    hole (d :: ds) = false := by
  apply hole_of_ne
  rintro rfl
  exact absurd h (by decide)

def reader : Reader (List Part) where
  cuts := cuts
  hole := hole
  ok xs := runeError ∉ xs
  ok_drop n h hm := h (List.mem_of_mem_drop hm)
  step := by
    intro q r c cs both cur ho hh hl
    have hc : c ≠ runeError := by
      rintro rfl
      exact ho List.mem_cons_self
    have hat : ¬ (q = .raw ∧ c = '@' ∧ cs.head?.any nameStart = true) := by
      rintro ⟨hq, hat, hs⟩
      exact hh ⟨hq, by simp [hole, hat, hs]⟩
    have hn : scanner.next (.quoting q) (c :: cs) =
        some (.text q ((c :: cs).take (if both then 2 else 1)), if both then 2 else 1,
          .quoting r) := by
      simp only [scanner, next, if_neg hat, if_neg hc, hl]
    simp only [cuts]
    rw [scanner.tokens_of_some hn]
    rfl
  finish q r cur := rfl

theorem cuts_name (ho : runeError ∉ '@' :: cs) (hs : cs.head?.any nameStart = true) (cur : Text) :
    cuts .raw cur ('@' :: cs) = .text cur :: .namedArg (cs.takeWhile nameCont) ::
        cuts .raw [] (('@' :: cs).drop ((cs.takeWhile nameCont).length + 1)) := by
  have he : (cs.dropWhile nameCont).head? ≠ some runeError := by
    intro he
    have hm := (List.dropWhile_sublist nameCont).subset (List.mem_of_mem_head? he)
    exact ho (.tail _ hm)
  have hn : scanner.next .raw ('@' :: cs) =
      some (.name (cs.takeWhile nameCont), (cs.takeWhile nameCont).length + 1, .raw) := by
    simp [scanner, next, nextName, hs, he]
  rw [cuts, scanner.tokens_of_some hn]
  rfl

theorem look_inert {d : Option Char} (hc : opens c d = false)
    (he : c = 'e' ∨ c = 'E' → d ≠ some '\'') : Quoting.raw.look c d = (false, .raw) := by
  simp only [opens, Bool.or_eq_false_iff, Bool.and_eq_false_imp, decide_eq_true_eq,
    decide_eq_false_iff_not] at hc
  obtain ⟨⟨⟨⟨h1, h2⟩, -⟩, h3⟩, h4⟩ := hc
  simp only [Quoting.look, h1, h2, if_false]
  split_ifs <;> simp_all

/-- A rune that opens nothing, whatever follows it. -/
def inert (c : Char) : Prop := c = '$' ∨ isDigit c = true

theorem opens_of_inert (hc : inert c) (d : Option Char) :
    opens c d = false ∧ c ≠ 'e' ∧ c ≠ 'E' := by
  have hne : ∀ x, x ≠ '$' → isDigit x = false → c ≠ x := by
    rintro x hx hd rfl
    rcases hc with rfl | hc
    · exact hx rfl
    · rw [hd] at hc
      exact Bool.noConfusion hc
  have h1 := hne '\'' (by decide) (by decide)
  have h2 := hne '"' (by decide) (by decide)
  have h3 := hne '@' (by decide) (by decide)
  have h4 := hne '-' (by decide) (by decide)
  have h5 := hne '/' (by decide) (by decide)
  refine ⟨?_, hne _ (by decide) (by decide), hne _ (by decide) (by decide)⟩
  simp [opens, h1, h2, h3, h4, h5]

/-- Text in which nothing opens is passed, if its last rune opens nothing with what follows. -/
theorem cuts_inert {u ys : Text} (ho : runeError ∉ u ++ ys) (hu : opensSomething u = false)
    (hlast : ys = [] ∨ ∀ c, u.getLast? = some c → inert c) (cur : Text) :
    cuts .raw cur (u ++ ys) = cuts .raw (cur ++ u) ys := by
  induction u generalizing cur with
  | nil => simp
  | cons c u ih =>
    simp only [opensSomething, Bool.or_eq_false_iff] at hu
    have hopen : opens c (u ++ ys).head? = false ∧
        (c = 'e' ∨ c = 'E' → (u ++ ys).head? ≠ some '\'') := by
      cases u with
      | nil =>
        rcases hlast with rfl | hlast
        · exact ⟨hu.1, fun _ => by simp⟩
        · obtain ⟨hno, h1, h2⟩ := opens_of_inert (hlast c rfl) ys.head?
          exact ⟨hno, fun hc => absurd hc (by simp [h1, h2])⟩
      | cons d u =>
        refine ⟨hu.1, fun _ hq => ?_⟩
        obtain rfl : d = '\'' := by simpa using hq
        simp [opensSomething, opens] at hu
    have hhole : hole (c :: (u ++ ys)) = false := by
      have h := hopen.1
      simp only [opens, Bool.or_eq_false_iff] at h
      exact h.1.1.2
    have hstep := reader.step_one cur ho (by simp [reader, hhole])
      (look_inert hopen.1 hopen.2)
    refine hstep.trans ((ih (fun hm => ho (.tail _ hm)) hu.2 ?_ _).trans ?_)
    · refine hlast.imp_right fun hlast x hx => hlast x ?_
      cases u with
      | nil => simp at hx
      | cons d u => simpa using hx
    · rw [List.append_assoc]
      rfl

/-- A dollar-quoted string ends in a `$`, or at the end of the text. -/
theorem dollarString_last (cs : Text) (k : Nat) :
    ('$' :: cs).drop (dollarLen (cs.take k) (cs.drop (k + 1)) + (k + 2)) = [] ∨
      (('$' :: cs).take (dollarLen (cs.take k) (cs.drop (k + 1)) + (k + 2))).getLast? = some '$' := by
  have hsplit : ∀ n, ('$' :: cs).take (n + (k + 2)) = ('$' :: cs).take
      (k + 2) ++ (cs.drop (k + 1)).take n := by
    intro n
    rw [Nat.add_comm, List.take_add]
    rfl
  cases hi : index (cs.drop (k + 1)) ('$' :: cs.take k ++ ['$']) with
  | none =>
    left
    simp only [dollarLen, hi, List.length_drop]
    apply List.drop_eq_nil_of_le
    simp only [List.length_cons]
    omega
  | some idx =>
    right
    obtain ⟨rest, hrest⟩ := (index_spec hi).2
    have htake : (cs.drop (k + 1)).take (idx + ('$' :: cs.take k ++ ['$']).length) =
        (cs.drop (k + 1)).take idx ++ ('$' :: cs.take k ++ ['$']) := by
      rw [List.take_add, ← hrest, List.take_left]
    simp only [dollarLen, hi]
    rw [hsplit, htake, ← List.append_assoc, ← List.append_assoc]
    exact List.getLast?_concat

theorem nameParts_text (hk : ∀ n, k ≠ .name n) (cur u : Text) (ts : List Token) :
    nameParts cur (⟨k, u⟩ :: ts) = nameParts (cur ++ u) ts := by
  cases k with
  | name n => exact absurd rfl (hk n)
  | _ => rfl

theorem hole_plain (h : Classified true c cs k n) (hk : ∀ n, k ≠ .name n) :
    hole (c :: cs) = false := by
  cases h with
  | escapeString hc => exact hole_of_ne (by rintro rfl; simp at hc) _
  | identifier hc => exact hole_of_ne (by rintro rfl; exact absurd hc (by decide)) _
  | name hn hs => exact absurd rfl (hk _)
  | @other c cs hi h1 h2 h3 h4 h5 h6 =>
    by_cases hat : c = '@'
    · simp [hole, h6 rfl hat]
    · exact hole_of_ne hat _
  | _ => rfl

theorem cuts_take {xs : Text} (ho : runeError ∉ xs) (hu : opensSomething (xs.take n) = false)
    (hlast : xs.drop n = [] ∨ ∀ c, (xs.take n).getLast? = some c → inert c) (cur : Text) :
    cuts .raw cur xs = cuts .raw (cur ++ xs.take n) (xs.drop n) := by
  have hin : cuts .raw cur (xs.take n ++ xs.drop n) = cuts .raw (cur ++ xs.take n) (xs.drop n) :=
    cuts_inert (by rwa [List.take_append_drop]) hu hlast cur
  rwa [List.take_append_drop] at hin

theorem opensSomething_of_inert {u : Text} (h : ∀ c ∈ u, inert c) : opensSomething u = false := by
  induction u with
  | nil => rfl
  | cons c u ih =>
    rw [opensSomething, (opens_of_inert (h c (.head _)) _).1, Bool.false_or]
    exact ih fun d hd => h d (.tail _ hd)

theorem cuts_param (ho : runeError ∉ '$' :: cs) (cur : Text) : cuts .raw cur ('$' :: cs) =
      cuts .raw (cur ++ ('$' :: cs).take ((cs.takeWhile isDigit).length + 1))
        (('$' :: cs).drop ((cs.takeWhile isDigit).length + 1)) := by
  have hall : ∀ c ∈ '$' :: cs.takeWhile isDigit, inert c := by
    intro c hc
    rcases List.mem_cons.mp hc with rfl | hc
    · exact .inl rfl
    · exact .inr (List.mem_takeWhile_imp hc)
  apply cuts_take ho
  · rw [List.take_succ_cons, take_takeWhile]
    exact opensSomething_of_inert hall
  · right
    intro c hc
    rw [List.take_succ_cons, take_takeWhile] at hc
    exact hall c (List.mem_of_getLast? hc)

/-- The token at the head of the text, unless it is read differently. -/
theorem cuts_head (hcl : Classified true c cs k n)
    (ho : runeError ∉ c :: cs) (hdef : defectOf c cs n k = false) {ts : List Token}
    (hrest : ∀ cur, cuts .raw cur ((c :: cs).drop n) = nameParts cur ts) (cur : Text) :
    cuts .raw cur (c :: cs) = nameParts cur (⟨k, (c :: cs).take n⟩ :: ts) := by
  by_cases hname : ∃ m, k = .name m
  · obtain ⟨m, rfl⟩ := hname
    cases hcl with
    | name hn hs => rw [cuts_name ho hs, hrest]; rfl
  have hnot : ∀ m, k ≠ .name m := fun m hm => hname ⟨m, hm⟩
  rw [nameParts_text hnot, ← hrest]
  by_cases hk : Reader.Kind.isPlain k = true
  · refine reader.cuts_token hcl hk ho (hole_plain hcl hnot) hole_quiet ?_ ?_ ?_ cur
    all_goals
      rintro rfl
      exact hdef
  · cases hcl with
    | param hd => exact cuts_param ho cur
    | @dollarString cs k hd ht =>
      refine cuts_take ho hdef ?_ cur
      rcases dollarString_last cs k with hnil | hlast
      · exact .inl hnil
      · right
        intro c hc
        rw [hlast, Option.some.injEq] at hc
        exact .inl hc.symm
    | name hn hs => exact absurd rfl (hnot _)
    | _ => simp [Reader.Kind.isPlain] at hk

/-- A token covers its text, and a name stands for an `@` and the name. -/
theorem sourceOf_head {names : Bool} (hcl : Classified names c cs k n) {ts : List Token}
    (hrest : ∀ cur, sourceOf (nameParts cur ts) = cur ++ (c :: cs).drop n) (cur : Text) :
    sourceOf (nameParts cur (⟨k, (c :: cs).take n⟩ :: ts)) = cur ++ c :: cs := by
  by_cases hname : ∃ m, k = .name m
  · obtain ⟨m, rfl⟩ := hname
    cases hcl with
    | name hn hs =>
      have hnil := hrest []
      rw [List.nil_append, List.drop_succ_cons, drop_takeWhile] at hnil
      have hsrc : sourceOf (.text cur :: .namedArg (cs.takeWhile nameCont) :: nameParts [] ts) =
          cur ++ '@' :: cs.takeWhile nameCont ++ sourceOf (nameParts [] ts) := by
        simp [sourceOf]
      refine hsrc.trans ?_
      rw [hnil, List.append_assoc, List.cons_append, List.takeWhile_append_dropWhile]
  · rw [nameParts_text fun m hm => hname ⟨m, hm⟩, hrest, List.append_assoc, List.take_append_drop]

theorem sourceOf_pgNameParts (sql : Text) : sourceOf (pgNameParts sql) = sql := by
  suffices hall :
      ∀ u xs cur, sourceOf (nameParts cur ((Postgres.scanner true).tokens u xs)) = cur ++ xs from
    hall () sql []
  intro u xs
  induction u, xs using (Postgres.scanner true).scan_induction with
  | step u xs ih =>
    intro cur
    cases xs with
    | nil =>
      simp only [Scanner.tokens_nil, nameParts, List.append_nil]
      split <;> simp_all [sourceOf]
    | cons c cs =>
      have hnext : (Postgres.scanner true).next u (c :: cs) =
          some (⟨(classify true c cs).1, (c :: cs).take (classify true c cs).2⟩,
            (classify true c cs).2, ()) := rfl
      rw [(Postgres.scanner true).tokens_of_some hnext]
      exact sourceOf_head (classified true c cs) (ih _ _ _ hnext) cur

end Pgx.NamedArgs
