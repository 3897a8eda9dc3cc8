import Pgx.NamedArgs.Rewrite
import Pgx.Sanitize.Placeholders

/-!
# Named arguments in the simple protocol

The output of `rewriteQuery` goes through the sanitizer when a query is run in the
simple protocol. Without `$` and U+FFFD in the text the two lexers take the same
decisions, and each `$k` that one wrote is read as one placeholder by the other.
-/
namespace Pgx.NamedArgs

open Pgx.Go Pgx.Lexing Postgres List Sanitize

variable {c : Char} {s : Ctl} {parts : List Part} {ns : List Text} {count : Nat} {n ys : Text}

/-- What `rewriteQuery` writes for a part, as a part of the new query. -/
def emitted (nameToOrdinal : Map Text Nat) : Part → Sanitize.Part
  | .text s => .text s
  | .namedArg n => .placeholder ((nameToOrdinal.lookup n).getD 0)

/-- The parts with every name replaced by the text of its own value. -/
def substituted (na : Map Text Sanitize.Arg) (parts : List Part) : Text :=
  parts.flatMap fun
    | .text s => s
    | .namedArg n =>
      ' ' :: (Sanitize.argText (valueOf .nil na n)).toOption.getD [] ++ [' ']

/-- A part of the new query as the placeholder loop reads it. -/
def asReadPart (names : List Text) : Part → Sanitize.Part
  | .text s => .text s
  | .namedArg n =>
    .placeholder (if numberOf names n ≤ 2147483639 then numberOf names n else Sanitize.maxInt32)

def written (names : List Text) : Tok → Text
  | .text _ s => s
  | .name n => '$' :: formatUint (numberOf names n)

/-- The sanitizer's reading of a token that was written out. -/
def rescanned (names : List Text) : Tok → List Sanitize.Tok
  | .text q s => [.text (.quoting q) s]
  | .name n => [.placeholder (formatUint (numberOf names n))]

def ctlOf : Ctl → Sanitize.Ctl
  | .quoting q => .quoting q
  | .stopped => .raw

/-- The text ahead has neither a `$` nor U+FFFD, and the lexer has not stopped. -/
def Tame (s : Ctl) (xs : Text) : Prop := s ≠ .stopped ∧ '$' ∉ xs ∧ runeError ∉ xs

theorem Tame.drop {s' : Ctl} {xs : Text} (h : Tame s xs) (hs : s' ≠ .stopped) (n : Nat) :
    Tame s' (xs.drop n) :=
  ⟨hs, fun hm => h.2.1 (mem_of_mem_drop hm), fun hm => h.2.2 (mem_of_mem_drop hm)⟩

/-- The rune after a token is the original one, or a `$` in place of an `@`. -/
theorem head_emit (names : List Text) (ht : Tame s ys) :
    (scanner.emit (written names) s ys).head? = ys.head? ∨
      (ys.head? = some '@' ∧ (scanner.emit (written names) s ys).head? = some '$') := by
  obtain ⟨hs, -, -⟩ := ht
  cases s with
  | stopped => exact absurd rfl hs
  | quoting q =>
    cases hn : scanner.next (.quoting q) ys with
    | none =>
      obtain rfl := next_eq_none hn
      left
      rfl
    | some r =>
      obtain ⟨t, n, s'⟩ := r
      rw [scanner.emit_of_some hn]
      cases next_shape hn with
      | @text _ _ c cs both hat hc hl =>
        left
        cases both <;> rfl
      | stop => left; rfl
      | name hs he => right; exact ⟨rfl, rfl⟩
      | nameStop hs he => right; exact ⟨rfl, rfl⟩

theorem look_emit (names : List Text) (ht : Tame s ys) (q : Quoting)
    (c : Char) : q.look c (scanner.emit (written names) s ys).head? = q.look c ys.head? := by
  rcases head_emit names ht with h | ⟨hy, hz⟩
  · rw [h]
  · rw [hy, hz]
    apply Quoting.look_congr
    · simp [Quoting.watched]
    · simp [Quoting.watched]
    · rfl

theorem tokens_text (names : List Text) {q q' : Quoting} {cs : Text} {both : Bool}
    (ht : Tame (.quoting q) (c :: cs)) (hl : q.look c cs.head? = (both, q')) :
    Sanitize.scanner.tokens (.quoting q) ((c :: cs).take (if both then 2 else 1) ++
        scanner.emit (written names) (.quoting q') ((c :: cs).drop (if both then 2 else 1))) =
      .text (.quoting q) ((c :: cs).take (if both then 2 else 1)) ::
        Sanitize.scanner.tokens (.quoting q')
          (scanner.emit (written names) (.quoting q') ((c :: cs).drop (if both then 2 else 1))) := by
  have hd : ¬ (q = .raw ∧ c = '$') := by
    rintro ⟨-, rfl⟩
    exact ht.2.1 (.head _)
  cases both with
  | false =>
    have htail : Tame (.quoting q') cs := ht.drop (by simp) 1
    have hl' : q.look c (scanner.emit (written names) (.quoting q') cs).head? = (false, q') := by
      rw [look_emit names htail]
      exact hl
    apply Sanitize.scanner.tokens_of_some (n := 1)
    simp [Sanitize.scanner, Sanitize.next, hd, hl', Sanitize.read]
  | true =>
    have hsome := Quoting.look_two hl
    cases cs with
    | nil => simp at hsome
    | cons d cs =>
      have hl' : q.look c (some d) = (true, q') := hl
      apply Sanitize.scanner.tokens_of_some (n := 2)
      simp [Sanitize.scanner, Sanitize.next, hd, hl', Sanitize.read]

theorem formatUint_head (k : Nat) : (formatUint k).head?.any isDigit = true := by
  cases h : formatUint k with
  | nil => exact absurd h Nat.toDigits_ne_nil
  | cons c cs =>
    have : c ∈ formatUint k := by rw [h]; exact (.head _)
    simpa using isDigit_of_mem_formatUint this

theorem tokens_placeholder (k : Nat) {zs : Text} (hz : zs.head?.any isDigit = false) :
    Sanitize.scanner.tokens .raw ('$' :: formatUint k ++ zs) =
      .placeholder (formatUint k) :: Sanitize.scanner.tokens .raw zs := by
  have htake : (formatUint k ++ zs).takeWhile isDigit = formatUint k := by
    rw [takeWhile_append_of_pos fun c hc => isDigit_of_mem_formatUint hc]
    cases zs with
    | nil => simp
    | cons z zs =>
      have : isDigit z = false := by simpa using hz
      simp [this]
  have hhead : (formatUint k ++ zs).head?.any isDigit = true := by
    have hk := formatUint_head k
    cases h : formatUint k with
    | nil => simp [h] at hk
    | cons c cs => rw [h] at hk; exact hk
  have hn := next_placeholder hhead
  rw [htake] at hn
  rw [cons_append, Sanitize.scanner.tokens_of_some hn]
  simp

theorem isDigit_head_emit (names : List Text) (ht : Tame s ys) (h : ys.head?.any isDigit = false) :
    (scanner.emit (written names) s ys).head?.any isDigit = false := by
  rcases head_emit names ht with he | ⟨-, hz⟩
  · rw [he, h]
  · rw [hz]
    decide

theorem isDigit_head_dropWhile (cs : Text) : (cs.dropWhile nameCont).head?.any isDigit = false := by
  cases h : (cs.dropWhile nameCont).head? with
  | none => rfl
  | some c =>
    have hc := not_nameCont_head h
    simp only [nameCont, Bool.or_eq_false_iff] at hc
    exact hc.2

/-- The sanitizer's lexer reads the rewritten text token by token. -/
theorem tokens_written (names : List Text) (sql : Text) (hd : '$' ∉ sql) (hr : runeError ∉ sql) :
    Sanitize.scanner.tokens .raw (scanner.emit (written names) .raw sql) =
      (scanner.tokens .raw sql).flatMap (rescanned names) := by
  refine scanner.tokens_emit Sanitize.scanner (written names)
    (rescanned names) ctlOf Tame ?_ .raw sql ⟨by simp, hd, hr⟩
  intro s xs t n s' ht hn
  cases s with
  | stopped => exact absurd rfl ht.1
  | quoting q =>
    cases next_shape hn with
    | @text _ q' c cs both hat hc hl =>
      exact ⟨ht.drop (by simp) _, tokens_text names ht hl⟩
    | stop => exact absurd (.head _) ht.2.2
    | @name cs hs he =>
      refine ⟨ht.drop (by simp) _, ?_⟩
      have htail : Tame .raw (('@' :: cs).drop ((cs.takeWhile nameCont).length + 1)) :=
        ht.drop (by simp) _
      apply tokens_placeholder
      apply isDigit_head_emit names htail
      rw [drop_succ_cons, drop_takeWhile]
      exact isDigit_head_dropWhile cs
    | @nameStop cs hs he =>
      have hm := (dropWhile_sublist nameCont).subset (mem_of_mem_head? he)
      exact absurd (.tail _ hm) ht.2.2

theorem decimalValue_formatUint (k : Nat) : decimalValue (formatUint k) = k := by
  have h := Nat.ofDigitChars_ten_toDigits (n := k)
  unfold Nat.ofDigitChars at h
  simpa [decimalValue, formatUint, Nat.mul_comm] using h

theorem ordinal_formatUint (k : Nat) : ordinal
    (formatUint k) = if k ≤ 2147483639 then k else maxInt32 := by
  rw [ordinal_eq_paramNumber fun d hd => isDigit_of_mem_formatUint hd, paramNumber,
    decimalValue_formatUint]

theorem partsOf_rescanned (names : List Text) (cur : Text) (ts : List Tok) :
    Sanitize.partsOf cur (ts.flatMap (rescanned names)) = (partsOf cur ts).map
      (asReadPart names) := by
  induction ts generalizing cur with
  | nil =>
    simp only [flatMap_nil, Sanitize.partsOf, partsOf]
    split <;> rfl
  | cons t ts ih =>
    cases t with
    | text q s => exact ih _
    | name n =>
      simp only [flatMap_cons, rescanned, cons_append, nil_append,
        Sanitize.partsOf, partsOf, map_cons, asReadPart, ih, ordinal_formatUint]

theorem rewritten_eq_emit (names : List Text) (sql : Text) :
    rewritten names (partsIn sql) = scanner.emit (written names) .raw sql := by
  suffices hall : ∀ cur ts, rewritten names (partsOf cur ts) = cur ++ ts.flatMap
      (written names) from hall [] _
  intro cur ts
  induction ts generalizing cur with
  | nil =>
    unfold partsOf
    split <;> simp_all [rewritten]
  | cons t ts ih =>
    cases t with
    | text q s =>
      rw [partsOf, ih, flatMap_cons, append_assoc]
      rfl
    | name n =>
      have hrest := ih []
      rw [nil_append] at hrest
      rw [partsOf, flatMap_cons, ← hrest]
      simp [rewritten, written]

/-- The sanitizer's lexer cuts the rewritten text into the same fragments, with the
number of each name as it accumulates it. -/
theorem newQuery_rewritten (names : List Text) (sql : Text) (hd : '$' ∉ sql) (hr : runeError ∉ sql) :
    newQuery (rewritten names (partsIn sql)) = (partsIn sql).map (asReadPart names) := by
  rw [newQuery_eq, rewritten_eq_emit, tokens_written names sql hd hr, partsOf_rescanned]
  rfl

theorem mem_namesIn : n ∈ namesIn parts ↔ .namedArg n ∈ parts := by
  induction parts with
  | nil => simp [namesIn]
  | cons p parts ih =>
    cases p with
    | text s => simp [namesIn, ih]
    | namedArg k => simp [namesIn, ih]

theorem numberOf_le {names : List Text} (h : n ∈ names) : numberOf names n ≤ names.length :=
    idxOf_lt_length_of_mem h

theorem emitted_eq {sql : Text} {p : Part} (hp : p ∈ partsIn sql)
    (hlen : (distinct (namesIn (partsIn sql))).length ≤ 2147483639) :
    asReadPart (distinct (namesIn (partsIn sql))) p = emitted (lex sql).nameToOrdinal p := by
  cases p with
  | text s => rfl
  | namedArg n =>
    have hn : n ∈ distinct (namesIn (partsIn sql)) := mem_distinct.mpr (mem_namesIn.mpr hp)
    have hle := numberOf_le hn
    have hlook := (numbers_distinct (namesIn (partsIn sql))).lookup n
    rw [if_pos hn] at hlook
    rw [lex_nameToOrdinal, numbered, asReadPart, emitted, hlook, if_pos (by omega)]
    rfl

section Values

variable {na : Map Text Sanitize.Arg} {names : List Text}

theorem argTextAt_value (hn : n ∈ names) : argTextAt (names.map (valueOf .nil na))
    (numberOf names n) =
      (argText (valueOf .nil na n)).toOption.getD [] := by
  have hlt := idxOf_lt_length_of_mem hn
  rw [argTextAt, numberOf, Nat.add_sub_cancel, getElem?_map, getElem?_eq_getElem hlt,
    getElem_idxOf hlt]
  rfl

theorem supplied_value (hn : n ∈ names) : Sanitize.Supplied (names.map (valueOf .nil na))
    (numberOf names n) ↔
      ∃ p, argText (valueOf .nil na n) = .ok p := by
  have hlt := idxOf_lt_length_of_mem hn
  have hget : (names.map (valueOf .nil na))[numberOf names n - 1]? = some (valueOf .nil na n) := by
    rw [numberOf, Nat.add_sub_cancel, getElem?_map, getElem?_eq_getElem hlt, getElem_idxOf hlt]
    rfl
  constructor
  · rintro ⟨-, arg, harg, htext⟩
    rw [hget, Option.some.injEq] at harg
    subst harg
    exact ⟨_, htext⟩
  · rintro ⟨p, hp⟩
    refine ⟨Nat.succ_pos _, _, hget, ?_⟩
    rw [argTextAt_value hn, hp]
    rfl

/-- `Sanitize` replaces each placeholder by the text of the name it stands for. -/
theorem writtenParts_eq (hp : ∀ n ∈ namesIn parts, n ∈ names) (hlen : names.length ≤ 2147483639) :
    (parts.map (asReadPart names)).flatMap (writtenPart (names.map (valueOf .nil na))) =
      substituted na parts := by
  induction parts with
  | nil => rfl
  | cons p parts ih =>
    cases p with
    | text s => exact congrArg (s ++ ·) (ih hp)
    | namedArg n =>
      have hn : n ∈ names := hp n (.head _)
      have hle := numberOf_le hn
      have hrest := ih fun k hk => hp k (.tail _ hk)
      simp only [map_cons, flatMap_cons, asReadPart,
        if_pos (Nat.le_trans hle hlen), writtenPart, argTextAt_value hn, hrest]
      rfl

theorem placeholder_mem {k : Nat}
    (h : .placeholder k ∈ parts.map (asReadPart names)) (hp : ∀ n ∈ namesIn parts, n ∈ names)
    (hlen : names.length ≤ 2147483639) : ∃ n ∈ namesIn parts, k = numberOf names n := by
  obtain ⟨p, hmem, hk⟩ := mem_map.mp h
  cases p with
  | text s => simp [asReadPart] at hk
  | namedArg n =>
    have hn := mem_namesIn.mpr hmem
    have hle := numberOf_le (hp n hn)
    rw [asReadPart, if_pos (by omega), Sanitize.Part.placeholder.injEq] at hk
    exact ⟨n, hn, hk.symm⟩

theorem sanitize_values (hp : ∀ n, n ∈ namesIn parts ↔ n ∈ names)
    (hnd : names.Nodup) (hlen : names.length ≤ 2147483639) (out : Text) :
    sanitize (parts.map (asReadPart names)) (names.map (valueOf .nil na)) = .ok out ↔
      (∀ n ∈ namesIn parts, ∃ p, argText (valueOf .nil na n) = .ok p) ∧
      out = substituted na parts := by
  have hmem : ∀ n ∈ namesIn parts, .placeholder (numberOf names n) ∈ parts.map
      (asReadPart names) := by
    intro n hn
    have hle := numberOf_le ((hp n).mp hn)
    refine mem_map.mpr ⟨.namedArg n, mem_namesIn.mp hn, ?_⟩
    rw [asReadPart, if_pos (by omega)]
  have hw : (parts.map (asReadPart names)).flatMap (writtenPart (names.map (valueOf .nil na))) =
      substituted na parts :=
    writtenParts_eq (fun n hn => (hp n).mp hn) hlen
  constructor
  · intro hok
    obtain ⟨hout, hsup⟩ := sanitize_eq_ok hok
    refine ⟨?_, hout.trans hw⟩
    intro n hn
    exact (supplied_value ((hp n).mp hn)).mp (hsup _ (hmem n hn))
  · rintro ⟨hval, rfl⟩
    rw [← hw]
    apply sanitize_ok
    · intro k hk
      obtain ⟨n, hn, rfl⟩ := placeholder_mem hk (fun n hn => (hp n).mp hn) hlen
      exact (supplied_value ((hp n).mp hn)).mpr (hval n hn)
    · intro i hi
      rw [length_map] at hi
      have := hmem names[i] ((hp _).mpr (getElem_mem hi))
      rwa [numberOf, hnd.idxOf_getElem] at this

end Values

/-- The sanitizer's lexer reads the rewritten query as the placeholders and fragments
that `rewriteQuery` wrote, and sanitizing it replaces each name by its own value. -/
theorem rewriteQuery_simple (ord : RangeOrder) (na : Map Text Sanitize.Arg) (sql : Text)
    (isStrict : Bool) (newSQL : Text) (newArgs : List Sanitize.Arg) (hd : '$' ∉ sql)
    (hr : runeError ∉ sql)
    (hok : rewriteQuery .nil ord na sql isStrict = .ok (newSQL, newArgs))
    (hlen : (lex sql).nameToOrdinal.len ≤ 2147483639) :
    Sanitize.newQuery newSQL = (lex sql).parts.map (emitted (lex sql).nameToOrdinal) ∧
    ∀ out, Sanitize.sanitizeSQL newSQL newArgs = .ok out ↔
      (∀ n ∈ namesIn (lex sql).parts, ∃ p, Sanitize.argText (valueOf .nil na n) = .ok p) ∧
        out = substituted na (lex sql).parts := by
  have hnum := numbers_distinct (namesIn (partsIn sql))
  have hlen' : (distinct (namesIn (partsIn sql))).length ≤ 2147483639 := by
    rw [← hnum.len]
    rw [lex_nameToOrdinal] at hlen
    exact hlen
  obtain ⟨rfl, rfl⟩ := rewriteQuery_eq_ok .nil na hok
  have hq := newQuery_rewritten (distinct (namesIn (partsIn sql))) sql hd hr
  refine ⟨?_, ?_⟩
  · rw [hq, lex_parts]
    exact map_congr_left fun p hp => emitted_eq hp hlen'
  · intro out
    rw [Sanitize.sanitizeSQL, hq, lex_parts]
    exact sanitize_values (fun n => mem_distinct.symm) hnum.nodup hlen' out

/-- The name in the comment is no name; `b` has no value. -/
theorem rewriteQuery_simple_two_names :
    Sanitize.sanitizeSQL "$1--@c\n$2$1".toList [.int64 7, .nil] =
      .ok " 7 --@c\n null  7 ".toList := by
  have hparts : partsIn "@a--@c\n@b@a".toList =
      [.text [], .namedArg "a".toList, .text "--@c\n".toList, .namedArg "b".toList, .text [],
        .namedArg "a".toList] := by decide +kernel
  have hok := rewriteQuery_ok Sanitize.Arg.nil ((∅ : Map Text Sanitize.Arg).insert "a".toList
    (.int64 7)) RangeOrder.listed "@a--@c\n@b@a".toList false (by simp)
  have hlen : (lex "@a--@c\n@b@a".toList).nameToOrdinal.len ≤ 2147483639 := by
    decide
  have hall := (rewriteQuery_simple RangeOrder.listed _ "@a--@c\n@b@a".toList false _ _ (by decide)
    (by decide) hok hlen).2 " 7 --@c\n null  7 ".toList
  rw [lex_parts, hparts] at hall
  refine hall.mpr ⟨?_, rfl⟩
  intro n hn
  simp only [namesIn, mem_cons, not_mem_nil, or_false] at hn
  rcases hn with rfl | rfl | rfl
  · exact ⟨_, rfl⟩
  · exact ⟨_, rfl⟩
  · exact ⟨_, rfl⟩

/-! ## More names than an int32 can number -/

/-- `@n ` for every name of the list. -/
def mention (ns : List Text) : Text := ns.flatMap fun n => '@' :: n ++ [' ']

def IsName (n : Text) : Prop := n.head?.any nameStart = true ∧ ∀ c ∈ n, nameCont c = true

theorem partsIn_mention (h : ∀ n ∈ ns, IsName n) : namesIn (partsIn (mention ns)) = ns := by
  suffices hall : ∀ cur, namesIn (partsOf cur (scanner.tokens .raw (mention ns))) = ns from hall []
  induction ns with
  | nil => exact fun cur => namesIn_partsOf_nil cur
  | cons n ns ih =>
    intro cur
    obtain ⟨hs, hcont⟩ := h n (.head _)
    have hmention : mention (n :: ns) = '@' :: (n ++ ' ' :: mention ns) := by
      simp [mention]
    have htake : (n ++ ' ' :: mention ns).takeWhile nameCont = n := by
      rw [takeWhile_append_of_pos hcont]
      have : nameCont ' ' = false := by decide
      simp [this]
    have hdrop : (n ++ ' ' :: mention ns).dropWhile nameCont = ' ' :: mention ns := by
      rw [← drop_takeWhile, htake, drop_left]
    have hhead : (n ++ ' ' :: mention ns).head?.any nameStart = true := by
      cases n with
      | nil => simp at hs
      | cons c n => exact hs
    have hn : scanner.next .raw (mention (n :: ns)) = some (.name n, n.length + 1, .raw) := by
      rw [hmention]
      simp only [scanner, next]
      rw [if_pos ⟨trivial, trivial, hhead⟩, nextName, hdrop, htake]
      rfl
    rw [scanner.tokens_of_some hn, hmention, drop_succ_cons, drop_left]
    exact congrArg (n :: ·) (ih (fun k hk => h k (.tail _ hk)) _)

theorem distinct_of_nodup (h : ns.Nodup) : distinct ns = ns := by
  suffices hall : ∀ ds : List Text, (ds ++ ns).Nodup →
      ns.foldl (fun ds n => if n ∈ ds then ds else ds ++ [n]) ds = ds ++ ns from
    hall [] h
  clear h
  induction ns with
  | nil => simp
  | cons n ns ih =>
    intro ds hnd
    have hn : n ∉ ds := by
      intro hm
      exact (nodup_append.mp hnd).2.2 n hm n (.head _) rfl
    rw [foldl_cons, if_neg hn, ih (ds ++ [n]) (by simpa using hnd)]
    simp

/-- The names `a0`, `a1` and so on. -/
def manyNames (count : Nat) : List Text := (range count).map fun i => 'a' :: formatUint i

theorem manyNames_nodup (count : Nat) : (manyNames count).Nodup := by
  apply Nodup.map_on _ nodup_range
  intro i _ j _ h
  have hi := decimalValue_formatUint i
  rw [(cons.inj h).2, decimalValue_formatUint] at hi
  exact hi.symm

theorem isName_manyNames (h : n ∈ manyNames count) : IsName n := by
  obtain ⟨i, -, rfl⟩ := mem_map.mp h
  refine ⟨rfl, ?_⟩
  intro c hc
  rcases mem_cons.mp hc with rfl | hc
  · decide
  · have hd := isDigit_of_mem_formatUint hc
    simp [nameCont, hd]

theorem nameCont_mention (h : ∀ n ∈ ns, IsName n) (hc : c ∈ mention ns) :
    nameCont c = true ∨ c = '@' ∨ c = ' ' := by
  obtain ⟨n, hn, hm⟩ := mem_flatMap.mp hc
  simp only [cons_append, mem_cons, mem_append, not_mem_nil, or_false] at hm
  rcases hm with rfl | hm | rfl
  · exact .inr (.inl rfl)
  · exact .inl ((h n hn).2 c hm)
  · exact .inr (.inr rfl)

theorem not_mem_mention (h : ∀ n ∈ ns, IsName n) (hc : ¬ (nameCont c = true ∨ c = '@' ∨ c = ' ')) :
    c ∉ mention ns :=
  fun hm => hc (nameCont_mention h hm)

theorem numberOf_manyNames {i : Nat} (hi : i < count) :
    numberOf (manyNames count) ('a' :: formatUint i) = i + 1 := by
  have hlt : i < (manyNames count).length := by simpa [manyNames] using hi
  have hget : (manyNames count)[i] = 'a' :: formatUint i := by simp [manyNames]
  rw [numberOf, ← hget, (manyNames_nodup count).idxOf_getElem]

/-- The name with number 2147483640 is written as `$2147483640`, which the placeholder
loop clamps to `math.MaxInt32`. -/
theorem newQuery_manyNames (hcount : 2147483639 < count) :
    newQuery (rewritten (manyNames count) (partsIn (mention (manyNames count)))) ≠
      (lex (mention (manyNames count))).parts.map
        (emitted (lex (mention (manyNames count))).nameToOrdinal) := by
  have hname : ∀ n ∈ manyNames count, IsName n := fun n hn => isName_manyNames hn
  have hin := partsIn_mention hname
  have hdist := distinct_of_nodup (manyNames_nodup count)
  have hnum := numbers_distinct (manyNames count)
  intro heq
  rw [newQuery_rewritten _ _ (not_mem_mention hname (by decide))
    (not_mem_mention hname (by decide)), lex_parts, lex_nameToOrdinal, numbered, hin] at heq
  have hmem : ('a' :: formatUint 2147483639) ∈ manyNames count :=
    mem_map.mpr ⟨2147483639, mem_range.mpr hcount, rfl⟩
  have hpart := mem_namesIn.mp (hin.symm ▸ hmem)
  have hsame := map_inj_left.mp heq _ hpart
  rw [asReadPart, emitted, hnum.lookup, hdist, if_pos hmem, numberOf_manyNames hcount] at hsame
  simp [maxInt32] at hsame

/-- With 2147483640 distinct names the two lexers disagree about the last one. -/
theorem rewriteQuery_clamped : ∃ (sql newSQL : Text) (newArgs : List Sanitize.Arg), '$' ∉ sql ∧
    runeError ∉ sql ∧
      rewriteQuery .nil RangeOrder.listed ∅ sql false = .ok (newSQL, newArgs) ∧
      Sanitize.newQuery newSQL ≠ (lex sql).parts.map (emitted (lex sql).nameToOrdinal) := by
  obtain ⟨count, hcount⟩ : ∃ n, n = 2147483640 := ⟨_, rfl⟩
  have hname : ∀ n ∈ manyNames count, IsName n := fun n hn => isName_manyNames hn
  have hne := newQuery_manyNames (by omega : 2147483639 < count)
  refine ⟨mention (manyNames count), _, _, not_mem_mention hname (by decide),
    not_mem_mention hname (by decide), rewriteQuery_ok Sanitize.Arg.nil ∅ _ _ false (by simp), ?_⟩
  rw [partsIn_mention hname, distinct_of_nodup (manyNames_nodup count)]
  exact hne

end Pgx.NamedArgs
