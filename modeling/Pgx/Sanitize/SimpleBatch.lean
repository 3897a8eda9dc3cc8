import Mathlib.Data.List.Forall2
import Pgx.Sanitize.Relex

/-!
# Batches in the simple protocol

`sendBatchQueryExecModeSimpleProtocol` sends the sanitized queries of a batch as one
text, with a semicolon between two queries. The lexer reads that text as the queries
one after another exactly when it is back in the raw state at the end of every query
but the last: a query that ends inside a line comment takes the semicolon and the
next query into its comment.
-/
namespace Pgx.Sanitize

open Pgx.Go Pgx.Lexing List

variable {s : Ctl} {out xs : Text}

/-- What the simple protocol asks of the connection: two parameter statuses, and the text
encoding of an argument by the type map, `none` for NULL. -/
structure SimpleConn (α : Type) where
  standardConformingStrings : Text
  clientEncoding : Text
  encodeText : α → Except String (Option Text)

namespace SimpleConn

variable {α : Type} (c : SimpleConn α)

def convertSimpleArgument (arg : α) : Except String Arg :=
  match c.encodeText arg with
  | .error e => .error e
  | .ok none => .ok .nil
  | .ok (some s) => .ok (.string s)

def sanitizeForSimpleQuery (sql : Text) (args : List α) : Except String Text :=
  if c.standardConformingStrings ≠ "on".toList then
    .error "simple protocol queries must be run with standard_conforming_strings=on"
  else if c.clientEncoding ≠ "UTF8".toList then
    .error "simple protocol queries must be run with client_encoding=UTF8"
  else
    match args.mapM c.convertSimpleArgument with
    | .error e => .error e
    | .ok valueArgs => sanitizeSQL sql valueArgs

/-- The loop over the queued queries; `sb` is what was written so far. -/
def writeBatch : Nat → Text → List (Text × List α) → Except String Text
  | _, sb, [] => .ok sb
  | i, sb, (sql, args) :: queries =>
    let sb := if 0 < i then sb ++ [';'] else sb
    match c.sanitizeForSimpleQuery sql args with
    | .error e => .error e
    | .ok text => writeBatch (i + 1) (sb ++ text) queries

/-- The text that `sendBatchQueryExecModeSimpleProtocol` sends. -/
def sendBatchQueryExecModeSimpleProtocol (queries : List (Text × List α)) : Except String Text :=
  c.writeBatch 0 [] queries

end SimpleConn

def driveEnd : Nat → StateFn → SqlLexer → Option StateFn
  | 0, _, _ => none
  | fuel + 1, st, l =>
    match step st l with
    | (none, _) => some st
    | (some st', l') => driveEnd fuel st' l'

def endState (sql : Text) : Option StateFn := driveEnd (fuelFor sql) .rawState (initial sql)

theorem Run.driveEnd {n : Nat} {st last : StateFn} {l l' : SqlLexer} {visits : List Visit}
    (h : Run n st l visits last l')
    {fuel : Nat} (hf : n ≤ fuel) : Sanitize.driveEnd fuel st l = some last := by
  induction h generalizing fuel with
  | stop h =>
    obtain ⟨fuel, rfl⟩ := Nat.exists_eq_add_of_le' hf
    simp only [Sanitize.driveEnd, h]
  | next h _ ih =>
    obtain ⟨fuel, rfl⟩ := Nat.exists_eq_add_of_le' (Nat.le_trans (Nat.le_add_left 1 _) hf)
    simp only [Sanitize.driveEnd, h, ih (Nat.le_of_succ_le_succ hf)]

theorem endState_eq (sql : Text) : endState sql = some (scanner.final .raw sql).state := by
  obtain ⟨n, l, hn, hrun, -⟩ := run_tokens .raw sql [] 0 []
  exact hrun.driveEnd hn

def endOf (s : Ctl) (ts : List Tok) : Ctl :=
  match ts.getLast? with
  | none => s
  | some (.placeholder _) => .raw
  | some (.text ctl u) => ((next ctl u).map (·.2.2)).getD .raw

theorem final_eq_endOf (s : Ctl) (xs : Text) :
    scanner.final s xs = endOf s (scanner.tokens s xs) := by
  induction s, xs using scanner.token_induction with
  | stop s xs hn =>
    obtain rfl := next_eq_none hn
    rfl
  | token s xs t n s' hn ih =>
    rw [scanner.final_of_some hn, scanner.tokens_of_some hn]
    cases hrest : scanner.next s' (xs.drop n) with
    | none =>
      have hnil := next_eq_none hrest
      rw [hnil]
      rcases next_cases hn with ⟨rfl, -, hle⟩ | ⟨cs, -, rfl, -, -, rfl, -⟩
      · have hall : xs.take n = xs := by
          rw [← append_nil (xs.take n), ← hnil, take_append_drop]
        have hnext : next s xs = some (.text s (xs.take n), n, s') := hn
        simp [endOf, hall, hnext]
      · rfl
    | some r' =>
      obtain ⟨t', n', s''⟩ := r'
      rw [ih, scanner.tokens_of_some hrest]
      have hlast := getLast?_eq_some_getLast
          (cons_ne_nil t' (scanner.tokens s'' ((xs.drop n).drop n')))
      unfold endOf
      rw [getLast?_cons_cons, hlast]
      cases (t' :: scanner.tokens s'' ((xs.drop n).drop n')).getLast nofun <;> rfl

/-- Substituting arguments does not change where the lexer stops. -/
theorem final_sanitizeSQL {sql : Text} {args : List Arg} (h : sanitizeSQL sql args = .ok out) :
    scanner.final .raw out = scanner.final .raw sql := by
  rw [final_eq_endOf, final_eq_endOf, tokens_sanitizeSQL h]
  rcases eq_nil_or_concat (scanner.tokens .raw sql) with hnil | ⟨ts, t, hts⟩
  · rw [hnil]
    rfl
  · rw [hts, concat_eq_append, flatMap_append, flatMap_singleton]
    unfold endOf
    rw [getLast?_concat]
    cases t with
    | text ctl s => rw [rescanned, getLast?_concat]
    | placeholder digits =>
      rw [rescanned, ← append_assoc, getLast?_concat]
      rfl

theorem look_semicolon (q : Quoting) (c : Char) : q.look c (some ';') = q.look c none ∨
      (c = '\\' ∧ (q = .escapeString ∨ q = .oneLineComment) ∧ q.look c none = (false, q) ∧
        q.look c (some ';') = (true, q)) := by
  cases q with
  | raw => simp [Quoting.look]
  | singleQuote => simp [Quoting.look, Quoting.closing]
  | doubleQuote => simp [Quoting.look, Quoting.closing]
  | escapeString =>
    by_cases hc : c = '\\'
    · right
      simp [Quoting.look, hc]
    · left
      simp [Quoting.look, Quoting.closing, hc]
  | oneLineComment =>
    by_cases hc : c = '\\'
    · right
      simp [Quoting.look, hc]
    · left
      simp [Quoting.look, hc]
  | multilineComment n => simp [Quoting.look]

theorem scanDollarQuoteTag_semicolon {first : Bool} {cs : Text}
    (h : scanDollarQuoteTag first cs = none)
    (zs : Text) : scanDollarQuoteTag first (cs ++ ';' :: zs) = none := by
  induction cs generalizing first with
  | nil => simp [scanDollarQuoteTag, isDollarTagRune, isDigit]
  | cons c cs ih =>
    rw [cons_append]
    unfold scanDollarQuoteTag at h ⊢
    by_cases hd : c = '$'
    · simp [hd] at h
    · rw [if_neg hd] at h ⊢
      by_cases ht : isDollarTagRune c first = true
      · rw [if_pos ht, Option.map_eq_none_iff] at h
        rw [if_pos ht, ih h, Option.map_none]
      · rw [if_neg ht]

/-- A semicolon behind the text does not change a decision, unless the text ends in a quoted
or commented stretch that does not stop at its end. -/
theorem next_semicolon {t : Tok} {n : Nat} {s' : Ctl} (h : next s xs = some (t, n, s')) (zs : Text) :
    next s (xs ++ ';' :: zs) = some (t, n, s') ∨
      (n = xs.length ∧ s' = s ∧ s ≠ .raw ∧ (s = .quoting .oneLineComment →
        t = .text s ['\\'] ∧ next s (xs ++ ';' :: zs) = some (.text s ['\\', ';'], 2, s))) := by
  cases xs with
  | nil => simp [next] at h
  | cons c cs =>
    cases s with
    | dollarQuote tag =>
      cases hi : index (c :: cs) ('$' :: tag ++ ['$']) with
      | none =>
        right
        simp only [next, nextDollarQuote, hi] at h
        obtain ⟨-, rfl, rfl⟩ := read_eq_some h
        exact ⟨rfl, rfl, Ctl.noConfusion, Ctl.noConfusion⟩
      | some idx =>
        left
        simp only [next, nextDollarQuote, hi] at h
        obtain ⟨rfl, rfl, rfl⟩ := read_eq_some h
        have hlen := length_take_of_le (index_bound hi)
        have hi' := hi
        rw [← take_append_drop (idx + ('$' :: tag ++ ['$']).length) (c :: cs)] at hi'
        have happ : index (c :: cs ++ ';' :: zs) ('$' :: tag ++ ['$']) = some idx := by
          rw [← take_append_drop (idx + ('$' :: tag ++ ['$']).length) (c :: cs), append_assoc]
          exact index_append_congr hi' hlen
        rw [cons_append] at happ ⊢
        simp only [next, nextDollarQuote, happ, read]
        rw [← cons_append, take_append_of_le_length (index_bound hi)]
    | quoting q =>
      by_cases hdollar : q = .raw ∧ c = '$'
      · left
        obtain ⟨rfl, rfl⟩ := hdollar
        have hhead : (cs ++ ';' :: zs).head?.any isDigit = cs.head?.any isDigit := by
          cases cs with
          | nil => rfl
          | cons d cs => rfl
        simp only [next, and_self, if_true, nextDollar] at h
        simp only [cons_append, next, and_self, if_true, nextDollar, hhead]
        by_cases hdig : cs.head?.any isDigit = true
        · rw [if_pos hdig] at h ⊢
          have htake : (cs ++ ';' :: zs).takeWhile isDigit = cs.takeWhile isDigit := by
            rw [takeWhile_append]
            split
            · rename_i hall
              have hstop : (';' :: zs).takeWhile isDigit = [] := rfl
              rw [hstop, append_nil]
              exact (takeWhile_sublist isDigit).eq_of_length hall |>.symm
            · rfl
          rw [htake]
          exact h
        · rw [if_neg hdig] at h ⊢
          cases htag : scanDollarQuoteTag true cs with
          | none =>
            rw [htag] at h
            rw [scanDollarQuoteTag_semicolon htag]
            obtain ⟨rfl, rfl, rfl⟩ := read_eq_some h
            rfl
          | some k =>
            have hk := scanDollarQuoteTag_lt htag
            have happ := scanDollarQuoteTag_append htag (cs.drop (k + 1) ++ ';' :: zs)
            rw [← append_assoc, take_append_drop] at happ
            rw [htag] at h
            rw [happ]
            obtain ⟨rfl, rfl, rfl⟩ := read_eq_some h
            simp only [read]
            rw [take_append_of_le_length (by omega), ← cons_append,
              take_append_of_le_length (by rw [length_cons]; omega)]
      · cases hl : q.look c cs.head? with
        | mk both r =>
          obtain ⟨rfl, rfl, rfl⟩ := read_eq_some ((next_look hdollar hl).symm.trans h)
          cases cs with
          | cons d cs =>
            left
            have hl' : q.look c (d :: cs ++ ';' :: zs).head? = (both, r) := hl
            refine (next_look hdollar hl').trans ?_
            cases both <;> rfl
          | nil =>
            rcases look_semicolon q c with hsame | ⟨rfl, hq, hnone, hboth⟩
            · left
              have hl' : q.look c ([] ++ ';' :: zs).head? = (both, r) := hsame.trans hl
              refine (next_look hdollar hl').trans ?_
              cases both with
              | false => rfl
              | true => cases Quoting.look_two hl
            · right
              have hl' : q.look '\\' ([] ++ ';' :: zs).head? = (true, q) := hboth
              obtain ⟨rfl, rfl⟩ := Prod.mk.inj (hl.symm.trans hnone)
              refine ⟨rfl, rfl, ?_, fun _ => ⟨rfl, ?_⟩⟩
              · intro hraw
                obtain rfl := Ctl.quoting.inj hraw
                rcases hq with hq | hq <;> cases hq
              · exact next_look hdollar hl'

/-! ## Queries one after another -/

/-- Behind a query that ends in the raw state, the lexer goes on in the raw state. -/
theorem tokens_semicolon (h : scanner.final s xs = .raw) (zs : Text) :
    scanner.tokens s (xs ++ ';' :: zs) = scanner.tokens s xs ++ scanner.tokens .raw (';' :: zs) := by
  induction s, xs using scanner.token_induction with
  | stop s xs hn =>
    obtain rfl := next_eq_none hn
    obtain rfl : s = .raw := h
    rfl
  | token s xs t n s' hn ih =>
    have hle := (scanner.progress hn).2
    rw [scanner.final_of_some hn] at h
    rcases next_semicolon hn zs with hsame | ⟨hall, rfl, hraw, -⟩
    · rw [scanner.tokens_of_some hn, scanner.tokens_of_some hsame, drop_append_of_le_length hle,
        ih h, cons_append]
    · rw [hall, drop_length] at h
      exact absurd h hraw

def semicolon : Visit := ⟨.rawState, 0, [], [';']⟩

/-- Behind a query that ends in a line comment, the semicolon is not read in the raw state. -/
theorem visits_comment_ne (h : scanner.final s xs = .quoting .oneLineComment) (zs : Text)
    (vs : List Visit) :
    (scanner.tokens s (xs ++ ';' :: zs)).flatMap Tok.visits ≠
      (scanner.tokens s xs).flatMap Tok.visits ++ semicolon :: vs := by
  induction s, xs using scanner.token_induction with
  | stop s xs hn =>
    obtain rfl := next_eq_none hn
    obtain rfl : s = .quoting .oneLineComment := h
    have hnext : scanner.next (.quoting .oneLineComment) (';' :: zs) =
        some (.text (.quoting .oneLineComment) [';'], 1, .quoting .oneLineComment) := rfl
    rw [nil_append, scanner.tokens_of_some hnext]
    intro heq
    exact absurd (congrArg Visit.state (cons.inj heq).1) (by decide)
  | token s xs t n s' hn ih =>
    have hle := (scanner.progress hn).2
    rw [scanner.final_of_some hn] at h
    rcases next_semicolon hn zs with hsame | ⟨hall, rfl, -, hcomment⟩
    · rw [scanner.tokens_of_some hn, scanner.tokens_of_some hsame, drop_append_of_le_length hle,
        flatMap_cons, flatMap_cons, append_assoc]
      intro heq
      exact ih h (append_cancel_left heq)
    · rw [hall, drop_length] at h
      obtain ⟨rfl, hnext⟩ := hcomment h
      rw [scanner.tokens_of_some hn, scanner.tokens_of_some hnext]
      intro heq
      have hconsumed : (['\\', ';'] : Text) = ['\\'] := congrArg Visit.consumed (cons.inj heq).1
      exact absurd hconsumed (by decide)

def joined (outs : List Text) : Text := intercalate [';'] outs

/-- Each query is lexed as on its own, and each semicolon between two of them in the raw state. -/
def LexedApart (outs : List Text) (text : Text) : Prop :=
  lexTrace text = intercalate [semicolon] (outs.map lexTrace)

theorem lexedApart_cons (h : scanner.final .raw out = .raw) (out' : Text) (outs : List Text) :
    LexedApart (out :: out' :: outs) (joined (out :: out' :: outs)) ↔
      LexedApart (out' :: outs) (joined (out' :: outs)) := by
  have hjoin : joined (out :: out' :: outs) = out ++ ';' :: joined (out' :: outs) := by
    simp [joined, intercalate]
  have hnext : scanner.next .raw (';' :: joined (out' :: outs)) = some
      (.text .raw [';'], 1, .raw) := rfl
  unfold LexedApart
  rw [hjoin, lexTrace_eq, tokens_semicolon h, scanner.tokens_of_some hnext, flatMap_append,
    flatMap_cons, ← lexTrace_eq, drop_one, tail_cons, ← lexTrace_eq]
  simp only [map_cons, intercalate, intersperse_cons_cons, flatten_cons]
  rw [append_cancel_left_eq]
  exact (append_cancel_left_eq [semicolon] _ _).to_iff

/-- The text of a batch is lexed as its queries exactly when all but the last end raw. -/
theorem lexedApart_iff {outs : List Text}
    (h : ∀ out ∈ outs, scanner.final .raw out = .raw ∨
      scanner.final .raw out = .quoting .oneLineComment) :
    LexedApart outs (joined outs) ↔ ∀ out ∈ outs.dropLast, scanner.final .raw out = .raw := by
  induction outs with
  | nil => simp [LexedApart, joined, intercalate, lexTrace_eq]
  | cons out outs ih =>
    cases outs with
    | nil => simp [LexedApart, joined, intercalate]
    | cons out' outs =>
      rw [dropLast_cons_cons, forall_mem_cons]
      rcases h out (.head _) with hraw | hcomment
      · rw [lexedApart_cons hraw, ih fun o ho => h o (.tail _ ho)]
        simp [hraw]
      · have hjoin : joined (out :: out' :: outs) = out ++ ';' :: joined (out' :: outs) := by
          simp [joined, intercalate]
        constructor
        · intro heq
          unfold LexedApart at heq
          rw [hjoin, lexTrace_eq] at heq
          simp only [map_cons, intercalate, intersperse_cons_cons, flatten_cons] at heq
          rw [lexTrace_eq out] at heq
          exact absurd heq (visits_comment_ne hcomment _ _)
        · rintro ⟨hraw, -⟩
          exact nomatch hcomment.symm.trans hraw

namespace SimpleConn

variable {α : Type} (c : SimpleConn α)

/-- The queries are sanitized one by one and written with semicolons between them. -/
theorem writeBatch_eq_ok {i : Nat} {sb text : Text} {queries : List (Text × List α)}
    (h : c.writeBatch i sb queries = .ok text) :
    ∃ outs, Forall₂ (fun q out => c.sanitizeForSimpleQuery q.1 q.2 = .ok out) queries outs ∧
      text = sb ++ (if 0 < i ∧ outs ≠ [] then [';'] else []) ++ joined outs := by
  induction queries generalizing i sb with
  | nil =>
    obtain rfl := Except.ok.inj h
    exact ⟨[], .nil, by simp [joined, intercalate]⟩
  | cons q queries ih =>
    obtain ⟨sql, args⟩ := q
    unfold writeBatch at h
    cases hout : c.sanitizeForSimpleQuery sql args with
    | error e =>
      rw [hout] at h
      exact nomatch h
    | ok out =>
      rw [hout] at h
      obtain ⟨outs, hall, htext⟩ := ih h
      refine ⟨out :: outs, .cons hout hall, ?_⟩
      rw [htext]
      cases outs with
      | nil => by_cases hi : 0 < i <;> simp [joined, intercalate, hi]
      | cons out' outs => by_cases hi : 0 < i <;> simp [joined, intercalate, hi]

end SimpleConn

theorem endState_eq_raw_iff (sql : Text) : endState sql = some .rawState ↔
    scanner.final .raw sql = .raw := by
  rw [endState_eq]
  rcases scanner.final .raw sql with (_ | _ | _ | _ | _ | _) | _ <;> simp [Ctl.state]

theorem endState_eq_comment_iff (sql : Text) :
    endState sql = some .oneLineCommentState ↔ scanner.final .raw sql = .quoting .oneLineComment := by
  rw [endState_eq]
  rcases scanner.final .raw sql with (_ | _ | _ | _ | _ | _) | _ <;> simp [Ctl.state]

section

variable {α β : Type} {R : α → β → Prop} {as : List α} {bs : List β} (h : Forall₂ R as bs)

include h

theorem exists_of_mem_left {a : α} (ha : a ∈ as) : ∃ b ∈ bs, R a b := by
  induction h with
  | nil => exact nomatch ha
  | cons hab _ ih =>
    rcases mem_cons.mp ha with rfl | ha
    · exact ⟨_, mem_cons_self .., hab⟩
    · obtain ⟨b, hb, hr⟩ := ih ha
      exact ⟨b, .tail _ hb, hr⟩

theorem exists_of_mem_right {b : β} (hb : b ∈ bs) : ∃ a ∈ as, R a b := exists_of_mem_left h.flip hb

end

def textConn : SimpleConn Text :=
  { standardConformingStrings := "on".toList
    clientEncoding := "UTF8".toList
    encodeText := fun s => .ok (some s) }

end Pgx.Sanitize
