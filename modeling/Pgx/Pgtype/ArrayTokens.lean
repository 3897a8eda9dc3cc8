import Pgx.Pgtype.TextArray

/-!
# The texts that are arrays

A text is an array if it is a list of tokens in which the first opening brace is closed by the last
token. Its elements are the values among the tokens. The inferred length of a dimension is the
number of values and groups directly inside the first group of its depth.
-/
namespace Pgx.Pgtype

open Pgx.Go List

variable {toks : List Token} {counter current : Nat} {buf : Text}

/-- The text is read as these tokens, up to this rest. -/
inductive Lexes : Text → List Token → Text → Prop where
  | nil (buf : Text) : Lexes buf [] buf
  | cons {buf mid rest : Text} {tok : Token} {toks : List Token}
    (head : nextToken buf = .ok (tok, mid))
      (tail : Lexes mid toks rest) : Lexes buf (tok :: toks) rest

/-- The last token closes the group that is this many groups above the current one, and no other
does. -/
def Closes : Nat → List Token → Prop
  | _, [] => False
  | depth, .opening :: toks => Closes (depth + 1) toks
  | 0, .closing :: toks => toks = []
  | depth + 1, .closing :: toks => Closes depth toks
  | depth, .comma :: toks => Closes depth toks
  | depth, .value _ _ :: toks => Closes depth toks

def Token.values : Token → List (Text × Bool)
  | .value text quoted => [(text, quoted)]
  | _ => []

def values (toks : List Token) : List (Text × Bool) := toks.flatMap Token.values

/-- The values and groups that stand directly in a group, from a place that is this deep in it -/
def groupSize : (depth : Nat) → List Token → Nat
  | _, [] => 0
  | depth, .comma :: toks => groupSize depth toks
  | 0, .value _ _ :: toks => groupSize 0 toks + 1
  | depth + 1, .value _ _ :: toks => groupSize (depth + 1) toks
  | 0, .opening :: toks => groupSize 1 toks + 1
  | depth + 1, .opening :: toks => groupSize (depth + 2) toks
  | 0, .closing :: _ => 0
  | depth + 1, .closing :: toks => groupSize depth toks

@[simp] theorem closes_comma (depth : Nat) (toks : List Token) :
    Closes depth (.comma :: toks) ↔ Closes depth toks := by
  cases depth <;> simp [Closes]

@[simp] theorem closes_opening (depth : Nat) (toks : List Token) :
    Closes depth (.opening :: toks) ↔ Closes (depth + 1) toks := by
  simp [Closes]

@[simp] theorem groupSize_comma (depth : Nat) (toks : List Token) :
    groupSize depth (.comma :: toks) = groupSize depth toks := by
  cases depth <;> simp [groupSize]

theorem values_cons (tok : Token) (toks : List Token) :
    values (tok :: toks) = tok.values ++ values toks := rfl

/-- The dimensions at the end, counted from the dimensions now. Groups above the current one and up
to the counter's depth are the first of their depth. -/
def grow (current counter : Nat) (toks : List Token) (dims : List ArrayDimension) :
    List ArrayDimension :=
  dims.mapIdx fun k d =>
    if k ≤ counter then
      { d with length := d.length + Int32.ofNat (groupSize (current - k) toks) } else d

structure ParseState.At (st : ParseState) (current counter : Nat) : Prop where
  isCurrent : st.currentDim = current
  isCounter : st.counterDim = counter
  le : counter ≤ current
  lt : counter < st.implicitDimensions.length

def bump (current counter : Nat) (dims : List ArrayDimension) : List ArrayDimension :=
  if current = counter then dims.modify counter fun d => { d with length := d.length + 1 } else dims

theorem ParseState.At.counted {st : ParseState} (h : st.At current counter) :
    st.counted = .ok (bump current counter st.implicitDimensions) := by
  have hlt := h.lt
  unfold ParseState.counted bump
  rw [h.isCurrent, h.isCounter]
  by_cases heq : current = counter
  · rw [if_pos (by omega), if_pos heq, incLength, if_pos ⟨by omega, by omega⟩, heq, Int.toNat_natCast]
  · rw [if_neg (by omega), if_neg heq]

theorem grow_bump (hle : counter ≤ current) {tok : Token} {current' : Nat}
    (hin : groupSize 0 (tok :: toks) = groupSize (current' - current) toks + 1)
    (hout : ∀ k, k < current → groupSize (current - k) (tok :: toks) = groupSize (current' - k) toks)
    (dims : List ArrayDimension) :
    grow current counter (tok :: toks) dims = grow current' counter toks
      (bump current counter dims) := by
  apply ext_getElem?
  intro k
  unfold grow bump
  by_cases heq : current = counter
  · subst heq
    rw [if_pos rfl, getElem?_mapIdx, getElem?_mapIdx, getElem?_modify]
    by_cases hk : k = current
    · subst hk
      cases dims[k]? with
      | none => rfl
      | some d => simp [hin, Int32.add_assoc, Int32.add_comm (Int32.ofNat _) 1]
    · cases dims[k]? with
      | none => rfl
      | some d =>
        rcases Nat.lt_or_ge k current with hlt | hge
        · simp [Ne.symm hk, hlt.le, hout k hlt]
        · simp [Ne.symm hk, Nat.not_le.mpr (Nat.lt_of_le_of_ne hge (Ne.symm hk))]
  · rw [if_neg heq, getElem?_mapIdx, getElem?_mapIdx]
    cases dims[k]? with
    | none => rfl
    | some d =>
      by_cases hk : k ≤ counter
      · simp [hk, hout k (by omega)]
      · simp [hk]

theorem grow_opening (hle : counter ≤ current) (toks : List Token) (dims : List ArrayDimension) :
    grow current counter (.opening :: toks) dims = grow (current + 1) counter toks
      (bump current counter dims) := by
  refine grow_bump hle ?_ (fun k hk => ?_) dims
  · simp [groupSize]
  · obtain ⟨m, hm⟩ := Nat.exists_eq_succ_of_ne_zero (Nat.sub_ne_zero_of_lt hk)
    rw [hm, show current + 1 - k = m + 2 by omega]
    rfl

theorem grow_closing (toks : List Token) (dims : List ArrayDimension) :
    grow (current + 1) counter (.closing :: toks) dims = grow current
      (min counter current) toks dims := by
  apply ext_getElem?
  intro k
  unfold grow
  rw [getElem?_mapIdx, getElem?_mapIdx]
  cases dims[k]? with
  | none => rfl
  | some d =>
    rcases Nat.lt_or_ge current k with hlt | hge
    · -- the group that is closed counts no more
      have hnot : ¬ k ≤ min counter current := by omega
      have hzero : current + 1 - k = 0 := by omega
      simp [hnot, hzero, groupSize]
    · have hsub : current + 1 - k = current - k + 1 := by omega
      have hiff : k ≤ min counter current ↔ k ≤ counter := by omega
      simp [hiff, hsub, groupSize]

theorem grow_last (counter : Nat) (toks : List Token) (dims : List ArrayDimension) :
    grow 0 counter (.closing :: toks) dims = dims := by
  apply ext_getElem?
  intro k
  unfold grow
  rw [getElem?_mapIdx]
  cases dims[k]? with
  | none => rfl
  | some d => simp [groupSize]

/-- What a round does: it closes the first group, or the loop goes on and what is still to be
counted fits. -/
theorem ParseState.At.step {st : ParseState} (h : st.At current counter) (tok : Token) :
    ∃ st', st.step tok = .ok st' ∧ st'.elements = st.elements ++ tok.values ∧
      ((tok = .closing ∧ current = 0 ∧ st'.currentDim < 0 ∧
        st'.implicitDimensions = st.implicitDimensions) ∨
       ∃ current' counter', st'.At current' counter' ∧
       (∀ toks, Closes current (tok :: toks) ↔ Closes current' toks) ∧
        ∀ toks, grow current counter (tok :: toks) st.implicitDimensions =
          grow current' counter' toks st'.implicitDimensions) := by
  have hlen : (bump current counter st.implicitDimensions).length = st.implicitDimensions.length := by
    unfold bump
    split <;> simp
  cases tok with
  | opening =>
    refine ⟨{ st with
        implicitDimensions := bump current counter st.implicitDimensions
        currentDim := st.currentDim + 1 },
      ?_, by simp [Token.values], .inr ⟨current + 1, counter, ?_, fun _ => by simp [Closes], ?_⟩⟩
    · simp only [ParseState.step, h.counted]
      rfl
    · exact ⟨by simp [h.isCurrent], h.isCounter, Nat.le_succ_of_le h.le, by rw [hlen]; exact h.lt⟩
    · exact fun toks => grow_opening h.le toks _
  | comma =>
    refine ⟨st, rfl, by simp [Token.values], .inr ⟨current, counter, h, fun _ => ?_, fun toks => ?_⟩⟩
    · cases current <;> simp [Closes]
    · cases current <;> simp [grow, groupSize]
  | closing =>
    refine ⟨_, rfl, by simp [Token.values], ?_⟩
    cases current with
    | zero => exact .inl ⟨rfl, rfl, by simp [h.isCurrent], rfl⟩
    | succ current =>
      refine .inr ⟨current, min counter current, ⟨?_, ?_, Nat.min_le_right _ _, ?_⟩, fun _ => ?_, ?_⟩
      · simp [h.isCurrent]
      · simp only [h.isCurrent, h.isCounter]
        split <;> omega
      · exact lt_of_le_of_lt (Nat.min_le_left _ _) h.lt
      · simp [Closes]
      · exact fun toks => grow_closing toks _
  | value text quoted =>
    refine ⟨{ st with
        implicitDimensions := bump current counter st.implicitDimensions
        elements := st.elements ++ [(text, quoted)] },
      ?_, by simp [Token.values], .inr ⟨current, counter, ?_, fun _ => by cases current <;> simp [Closes], ?_⟩⟩
    · simp only [ParseState.step, h.counted]
      rfl
    · exact ⟨h.isCurrent, h.isCounter, h.le, by rw [hlen]; exact h.lt⟩
    · intro toks
      refine grow_bump h.le ?_ (fun k hk => ?_) _
      · simp [groupSize]
      · obtain ⟨m, hm⟩ := Nat.exists_eq_succ_of_ne_zero (Nat.sub_ne_zero_of_lt hk)
        rw [hm]
        rfl

/-- The loop goes through tokens that close the first group. -/
theorem parseElements_lexes {rest : Text} (hlex : Lexes buf toks rest) :
    ∀ {st : ParseState} {current counter : Nat}, st.At current counter → Closes current toks →
      ∃ st', parseElements st buf = .ok (st', rest) ∧ st'.elements = st.elements ++ values toks ∧
        st'.implicitDimensions = grow current counter toks st.implicitDimensions := by
  induction hlex with
  | nil buf => exact fun _ hclose => absurd hclose (by simp [Closes])
  | cons head tail ih =>
    rename_i buf mid rest tok toks
    intro st current counter hst hclose
    obtain ⟨st₁, hstep, helems, hcase⟩ := hst.step tok
    have heq : parseElements st buf = if st₁.currentDim < 0 then .ok
        (st₁, mid) else parseElements st₁ mid := by
      rw [parseElements]
      split
      · rename_i e he
        rw [head] at he
        cases he
      · rename_i tok' mid' he
        rw [head] at he
        cases he
        simp only [hstep]
    have hvalues : st₁.elements ++ values toks = st.elements ++ values (tok :: toks) := by
      rw [helems, append_assoc]
      rfl
    rcases hcase with ⟨rfl, rfl, hneg, hdims⟩ | ⟨current', counter', hst₁, hcloses, hgrow⟩
    · subst hclose
      cases tail
      refine ⟨st₁, by rw [heq, if_pos hneg], by simpa [values] using hvalues, ?_⟩
      rw [hdims, grow_last]
    · obtain ⟨st', hrun, helems', hdims'⟩ := ih hst₁ ((hcloses toks).mp hclose)
      refine ⟨st', ?_, helems'.trans hvalues, hdims'.trans (hgrow toks).symm⟩
      rw [heq, if_neg (by rw [hst₁.isCurrent]; omega), hrun]

theorem parseElements_inv (st : ParseState) (buf : Text) :
    ∀ {current counter : Nat}, st.At current counter →
    NoPanic (parseElements st buf) ∧ ∀ st' rest, parseElements st buf = .ok (st', rest) →
      ∃ toks, Lexes buf toks rest ∧ Closes current toks := by
  fun_induction parseElements st buf with
  | case1 st buf e he =>
    intro current counter hst
    have hnp := nextToken_noPanic buf
    rw [he] at hnp
    exact ⟨fun h => hnp (by cases h; rfl), nofun⟩
  | case2 st buf tok mid head e he =>
    intro current counter hst
    obtain ⟨st₁, hstep, -⟩ := hst.step tok
    rw [hstep] at he
    cases he
  | case3 st buf tok mid head st₁ hstep hneg =>
    intro current counter hst
    refine ⟨noPanic_ok _, ?_⟩
    rintro st' rest ⟨⟩
    obtain ⟨st₂, hstep', -, ⟨rfl, rfl, -⟩ | ⟨current', counter', hst', -⟩⟩ := hst.step tok
    · exact ⟨[.closing], .cons head (.nil _), rfl⟩
    · cases hstep.symm.trans hstep'
      have := hst'.isCurrent
      omega
  | case4 st buf tok mid head st₁ hstep hneg ih =>
    intro current counter hst
    obtain ⟨st₂, hstep', -, ⟨-, -, hneg', -⟩ | ⟨current', counter', hst', hcloses, -⟩⟩ := hst.step tok
    · cases hstep.symm.trans hstep'
      exact absurd hneg' hneg
    · cases hstep.symm.trans hstep'
      obtain ⟨hnp, hinv⟩ := ih hst'
      refine ⟨hnp, fun st' rest hrun => ?_⟩
      obtain ⟨toks, hlex, hclose⟩ := hinv st' rest hrun
      exact ⟨tok :: toks, .cons head hlex, (hcloses toks).mpr hclose⟩

/-! ## The braces at the start -/

/-- The dimensions after this many further opening braces -/
def openedDims (m : Nat) : List ArrayDimension := replicate m ⟨1, 1⟩ ++ [⟨0, 1⟩]

theorem modify_last {α : Type} (f : α → α) (x : α) (xs : List α) :
    (xs ++ [x]).modify xs.length f = xs ++ [f x] := by
  induction xs with
  | nil => rfl
  | cons y ys ih => simp [ih]

theorem openDimension_openedDims (m : Nat) : openDimension (openedDims m) = openedDims (m + 1) := by
  have hlast := modify_last (fun d : ArrayDimension => { d with length := 1 }) ⟨0, 1⟩
      (replicate m ⟨1, 1⟩)
  have hlen : (openedDims m).length - 1 = (replicate m (⟨1, 1⟩ : ArrayDimension)).length := by
    simp [openedDims]
  rw [openDimension, hlen, openedDims, hlast, openedDims, replicate_succ']

theorem nextToken_opening (buf : Text) : nextToken ('{' :: buf) = .ok (.opening, buf) := rfl

theorem openingBrackets_inv {mid : Text} : ∀ {m : Nat} {dims : List ArrayDimension},
    openingBrackets (openedDims m) buf = .ok (dims, mid) → ∃ n, dims = openedDims (m + n) ∧
        ∀ toks rest, Lexes mid toks rest → Lexes buf (replicate n .opening ++ toks) rest := by
  induction buf with
  | nil => exact nofun
  | cons r buf ih =>
    intro m dims h
    simp only [openingBrackets] at h
    split at h
    · rename_i hr
      rw [openDimension_openedDims] at h
      obtain ⟨n, hdims, hlex⟩ := ih h
      refine ⟨n + 1, by rw [hdims, Nat.add_right_comm, Nat.add_assoc], fun toks rest htoks => ?_⟩
      rw [hr]
      exact .cons (nextToken_opening buf) (hlex toks rest htoks)
    · cases h
      exact ⟨0, rfl, fun toks rest htoks => by simpa using htoks⟩

/-- Tokens that do not start with an opening brace come from a text that does not. -/
theorem nextToken_ne_opening {r : Char} {mid : Text} {tok : Token}
    (h : nextToken (r :: buf) = .ok (tok, mid)) :
    r = '{' ↔ tok = .opening := by
  simp only [nextToken] at h
  split at h
  · cases h
    simp_all
  · rename_i hr
    refine ⟨fun h => absurd h hr, ?_⟩
    rintro rfl
    split at h
    · cases h
    split at h
    · cases h
    cases hv : arrayParseValue (r :: buf) with
    | error e => simp [hv, Functor.map, Except.map] at h
    | ok v => simp [hv, Functor.map, Except.map] at h

theorem openingBrackets_lexes {rest : Text} (hlex : Lexes buf toks rest) :
    ∀ {m depth : Nat}, Closes depth toks →
      ∃ n toks' mid, toks = replicate n .opening ++ toks' ∧ toks'.head? ≠ some .opening ∧
        openingBrackets (openedDims m) buf = .ok (openedDims (m + n), mid) ∧ Lexes mid toks' rest ∧
          Closes (depth + n) toks' := by
  induction hlex with
  | nil buf => exact fun hclose => absurd hclose (by simp [Closes])
  | cons head tail ih =>
    rename_i buf mid rest tok toks
    intro m depth hclose
    cases buf with
    | nil => cases head
    | cons r buf =>
      have hiff := nextToken_ne_opening head
      by_cases hr : r = '{'
      · have htok := hiff.mp hr
        subst hr htok
        cases (nextToken_opening buf).symm.trans head
        obtain ⟨n, toks', mid', htoks, hhead, hopen, hlex', hclose'⟩ := ih (m := m + 1) hclose
        refine ⟨n + 1, toks', mid', ?_, hhead, ?_, hlex', ?_⟩
        · rw [htoks, replicate_succ, cons_append]
        · simp only [openingBrackets, if_true]
          rw [openDimension_openedDims, hopen, Nat.add_right_comm, Nat.add_assoc]
        · rw [Nat.add_right_comm] at hclose'
          exact hclose'
      · refine ⟨0, tok :: toks, r :: buf, rfl, ?_, if_neg hr, .cons head tail, hclose⟩
        simpa using fun h => hr (hiff.mpr h)

theorem closes_openings (toks : List Token) :
    ∀ n depth, Closes depth (replicate n .opening ++ toks) ↔ Closes (depth + n) toks
  | 0, depth => Iff.rfl
  | n + 1, depth => by
    rw [replicate_succ, cons_append, Nat.add_comm n, ← Nat.add_assoc,
      ← closes_openings toks n (depth + 1)]
    simp [Closes]

/-- For each depth that the text starts with, the size of its first group -/
def firstGroups (toks : List Token) : List ArrayDimension :=
  (range (toks.takeWhile (· = .opening)).length).map fun k =>
    ⟨Int32.ofNat (groupSize 0 (toks.drop (k + 1))), 1⟩

theorem groupSize_openings (toks : List Token) :
    ∀ j depth, groupSize (depth + 1) (replicate j .opening ++ toks) = groupSize (depth + 1 + j) toks
  | 0, depth => rfl
  | j + 1, depth => by
    rw [replicate_succ, cons_append]
    show groupSize (depth + 1 + 1) _ = _
    rw [groupSize_openings toks j (depth + 1)]
    congr 1
    omega

theorem firstGroups_eq (n : Nat) (hhead : toks.head? ≠ some .opening) :
    firstGroups (.opening :: (replicate n .opening ++ toks)) = grow n n toks (openedDims n) := by
  have hlead : ((.opening :: (replicate n .opening ++ toks)).takeWhile
      (· = .opening)).length = n + 1 := by
    have hnone : toks.takeWhile (· = .opening) = [] := by
      cases toks with
      | nil => rfl
      | cons t ts =>
        have hne : t ≠ .opening := by simpa using hhead
        simp [hne]
    rw [← cons_append, ← replicate_succ, takeWhile_append_of_pos (by simp), hnone]
    simp
  apply ext_getElem
  · simp only [firstGroups, length_map, length_range, hlead, grow, length_mapIdx, openedDims,
      length_append, length_replicate, length_singleton]
  · intro k hk hk'
    simp only [firstGroups, length_map, length_range, hlead] at hk
    simp only [firstGroups, grow, openedDims, getElem_map, getElem_range, getElem_mapIdx,
      drop_succ_cons]
    rw [if_pos (by omega), drop_append_of_le_length (by simp; omega), drop_replicate]
    by_cases hlast : k = n
    · subst hlast
      simp
    · obtain ⟨j, hj⟩ := Nat.exists_eq_succ_of_ne_zero (show n - k ≠ 0 by omega)
      have hsize : groupSize 0 (replicate (n - k) .opening ++ toks) = groupSize (n - k) toks + 1 := by
        rw [hj, replicate_succ, cons_append]
        show groupSize 1 _ + 1 = _
        rw [groupSize_openings toks j 0]
        congr 2
        omega
      rw [hsize, getElem_append_left (by simp; omega)]
      simp [Int32.add_comm]

/-- The text has these bounds, which may be none, then these tokens, and nothing but space around
them. -/
def Written (src : Text) (bounds : List ArrayDimension) (toks : List Token) : Prop :=
  ∃ buf rest, explicitPart (skipWhitespace src) = .ok (bounds, buf) ∧
  Lexes buf (.opening :: toks) rest ∧
    Closes 0 toks ∧ skipWhitespace rest = []

/-- No dimensions if there are no elements, the bounds if there are any, and else the sizes of the
first groups -/
def dimensionsOf (bounds : List ArrayDimension) (toks : List Token) : List ArrayDimension :=
  if values toks = [] then [] else if bounds ≠ [] then bounds else firstGroups (.opening :: toks)

theorem openedDims_at (n : Nat) : let dim : Int := (openedDims n).length - 1
    (ParseState.mk dim dim (openedDims n) []).At n n :=
  ⟨by simp [openedDims], by simp [openedDims], Nat.le_refl n, by simp [openedDims]⟩

theorem values_replicate_opening (n : Nat) (toks : List Token) :
    values (replicate n .opening ++ toks) = values toks := by
  unfold values
  simp [Token.values]

/-- The values and dimensions are those of the tokens. -/
theorem parse_of_written {src : Text} {bounds : List ArrayDimension} (h : Written src bounds toks) :
    parseUntypedTextArray src = .ok ⟨values toks, dimensionsOf bounds toks⟩ := by
  obtain ⟨buf, rest, hexplicit, hlex, hclose, hrest⟩ := h
  cases hlex with
  | cons head tail =>
    rename_i mid
    cases buf with
    | nil => cases head
    | cons r buf =>
      have hr := (nextToken_ne_opening head).mpr rfl
      subst hr
      cases (nextToken_opening buf).symm.trans head
      obtain ⟨n, toks', mid, rfl, hhead, hopen, hlex', hclose'⟩ :=
        openingBrackets_lexes tail (m := 0) hclose
      rw [Nat.zero_add] at hopen hclose'
      obtain ⟨st, hrun, helems, hdims⟩ := parseElements_lexes hlex' (openedDims_at n) hclose'
      unfold parseUntypedTextArray
      rw [hexplicit]
      simp only [bind, Except.bind, expect, if_true]
      rw [show ([⟨0, 1⟩] : List ArrayDimension) = openedDims 0 from rfl, hopen]
      simp only [hrun, finishArray, hrest]
      rw [helems, hdims, dimensionsOf, values_replicate_opening, firstGroups_eq n hhead]
      simp

theorem written_of_parse {src : Text} {uta : UntypedTextArray}
    (h : parseUntypedTextArray src = .ok uta) :
    ∃ bounds toks, Written src bounds toks := by
  unfold parseUntypedTextArray at h
  cases hexplicit : explicitPart (skipWhitespace src) with
  | error e => simp [hexplicit, bind, Except.bind] at h
  | ok r =>
    obtain ⟨bounds, buf⟩ := r
    cases hbrace : expect '{' "'\x7b'" buf with
    | error e => simp [hexplicit, hbrace, bind, Except.bind] at h
    | ok buf₁ =>
      cases hopen : openingBrackets [⟨0, 1⟩] buf₁ with
      | error e => simp [hexplicit, hbrace, hopen, bind, Except.bind] at h
      | ok r₁ =>
        obtain ⟨dims, mid⟩ := r₁
        simp only [hexplicit, hbrace, hopen, bind, Except.bind] at h
        obtain ⟨n, hdims, hlex⟩ := openingBrackets_inv (m := 0) hopen
        rw [Nat.zero_add] at hdims
        subst hdims
        split at h
        · cases h
        · rename_i r₂ hrun
          obtain ⟨toks, htoks, hclose⟩ := (parseElements_inv _ _ (openedDims_at n)).2 r₂.1 r₂.2 hrun
          rw [expect_ok] at hbrace
          subst hbrace
          refine ⟨bounds, replicate n .opening ++ toks, _, r₂.2, hexplicit,
            .cons (nextToken_opening buf₁) (hlex toks r₂.2 htoks), ?_, ?_⟩
          · rw [closes_openings, Nat.zero_add]
            exact hclose
          · unfold finishArray at h
            split at h
            · cases h
            · assumption

/-- The texts that are accepted, and what they are parsed to -/
theorem parse_ok_iff (src : Text) (uta : UntypedTextArray) : parseUntypedTextArray src = .ok uta ↔
      ∃ bounds toks, Written src bounds toks ∧ uta = ⟨values toks, dimensionsOf bounds toks⟩ := by
  constructor
  · intro h
    obtain ⟨bounds, toks, hw⟩ := written_of_parse h
    exact ⟨bounds, toks, hw, Except.ok.inj (h.symm.trans (parse_of_written hw))⟩
  · rintro ⟨bounds, toks, hw, rfl⟩
    exact parse_of_written hw

theorem parseUntypedTextArray_noPanic (src : Text) : NoPanic (parseUntypedTextArray src) := by
  refine noPanic_bind (explicitPart_noPanic _) fun r _ => ?_
  refine noPanic_bind (expect_noPanic _ _ _) fun buf _ => ?_
  refine noPanic_bind (openingBrackets_noPanic _ _) fun r₁ hopen => ?_
  obtain ⟨n, hdims, -⟩ := openingBrackets_inv (m := 0) hopen
  rw [Nat.zero_add] at hdims
  have hrun := (parseElements_inv _ r₁.2 (openedDims_at n)).1
  rw [← hdims] at hrun
  refine noPanic_bind hrun ?_
  rintro ⟨st, buf⟩ -
  show NoPanic (finishArray _ st buf)
  unfold finishArray
  split
  · exact noPanic_returned _
  · exact noPanic_ok _

end Pgx.Pgtype
