import Mathlib.Algebra.BigOperators.Group.List.Basic
import Pgx.Pgtype.ArrayTokens

/-!
# Rows within rows

The encoder writes the elements one after the other and decides at each index which braces stand
before and behind it. `flat_eq_group` says that this writes rows within rows; what the parser makes
of the tokens is then a fact about rows.
-/
namespace Pgx.Pgtype

variable {counts : List Nat} {i m size : Nat}

/-- Further rows of this many elements, each behind a comma -/
def moreRows (row : List Token → List Token) (size : Nat) : Nat → List Token → List Token
  | 0, _ => []
  | n + 1, es => .comma :: (row (es.take size) ++ moreRows row size n (es.drop size))

/-- The elements in rows of these lengths, the outermost first -/
def group : List Nat → List Token → List Token
  | [], es => es
  | l :: ls, es =>
    .opening :: (group ls (es.take ls.prod) ++
      (moreRows (group ls) ls.prod (l - 1) (es.drop ls.prod) ++ [.closing]))

theorem moreRows_append (row : List Token → List Token) (size : Nat) (toks : List Token) : ∀ n es,
    moreRows row size (n + 1) es ++ toks =
      .comma :: (row (es.take size) ++ (moreRows row size n (es.drop size) ++ toks)) := by
  intro n es
  simp [moreRows]

theorem group_cons_append (l : Nat) (ls : List Nat) (es toks : List Token) :
    group (l :: ls) es ++ toks =
      .opening :: (group ls (es.take ls.prod) ++
        (moreRows (group ls) ls.prod (l - 1) (es.drop ls.prod) ++ (.closing :: toks))) := by
  simp [group]

/-! ## A group is one item -/

/-- The tokens are values, as many as the lengths multiply to, and no length is zero. -/
structure Rows (ls : List Nat) (es : List Token) : Prop where
  pos : ∀ l ∈ ls, 1 ≤ l
  count : es.length = ls.prod
  isValue : ∀ t ∈ es, ∃ s quoted, t = .value s quoted

section Rows

variable {l : Nat} {ls : List Nat} {es : List Token}

theorem Rows.single (h : Rows [] es) : ∃ s quoted, es = [.value s quoted] := by
  have hlen : es.length = 1 := h.count
  obtain ⟨t, rfl⟩ := List.length_eq_one_iff.mp hlen
  obtain ⟨s, quoted, rfl⟩ := h.isValue t (by simp)
  exact ⟨s, quoted, rfl⟩

structure MoreRows (ls : List Nat) (n : Nat) (es : List Token) : Prop where
  pos : ∀ l ∈ ls, 1 ≤ l
  count : es.length = n * ls.prod
  isValue : ∀ t ∈ es, ∃ s quoted, t = .value s quoted

theorem MoreRows.head {n : Nat} (h : MoreRows ls (n + 1) es) : Rows ls (es.take ls.prod) := by
  refine ⟨h.pos, ?_, fun t ht => h.isValue t (List.mem_of_mem_take ht)⟩
  rw [List.length_take, h.count, Nat.add_mul]
  omega

theorem MoreRows.tail {n : Nat} (h : MoreRows ls (n + 1) es) : MoreRows ls n (es.drop ls.prod) := by
  refine ⟨h.pos, ?_, fun t ht => h.isValue t (List.mem_of_mem_drop ht)⟩
  rw [List.length_drop, h.count, Nat.add_mul]
  omega

theorem Rows.more (h : Rows (l :: ls) es) : MoreRows ls (l - 1 + 1) es := by
  have hl := h.pos l (by simp)
  refine ⟨fun l' hl' => h.pos l' (.tail _ hl'), ?_, h.isValue⟩
  rw [h.count, List.prod_cons, Nat.sub_add_cancel hl]

theorem closes_group (toks : List Token) : ∀ {ls : List Nat} {es : List Token}, Rows ls es →
    ∀ depth, Closes depth (group ls es ++ toks) ↔ Closes depth toks := by
  intro ls
  induction ls generalizing toks with
  | nil =>
    intro es h depth
    obtain ⟨s, quoted, rfl⟩ := h.single
    cases depth <;> simp [group, Closes]
  | cons l ls ih =>
    have hmore : ∀ n es toks, MoreRows ls n es → ∀ depth,
        Closes depth (moreRows (group ls) ls.prod n es ++ toks) ↔ Closes depth toks := by
      intro n
      induction n with
      | zero => exact fun _ _ _ _ => Iff.rfl
      | succ n ihn =>
        intro es toks h depth
        rw [moreRows_append, closes_comma, ih _ h.head, ihn _ _ h.tail]
    intro es h depth
    rw [group_cons_append, closes_opening, ih _ h.more.head, hmore _ _ _ h.more.tail]
    simp [Closes]

theorem closes_moreRows (toks : List Token) :
    ∀ (n : Nat) {es : List Token}, MoreRows ls n es → ∀ depth,
    Closes depth (moreRows (group ls) ls.prod n es ++ toks) ↔ Closes depth toks
  | 0, _, _, _ => Iff.rfl
  | n + 1, es, h, depth => by
    rw [moreRows_append, closes_comma, closes_group _ h.head, closes_moreRows toks n h.tail]

/-- Inside a deeper group it counts for nothing, and else for one. -/
theorem groupSize_group (toks : List Token) : ∀ {ls : List Nat} {es : List Token}, Rows ls es →
    (∀ depth, groupSize (depth + 1) (group ls es ++ toks) = groupSize (depth + 1) toks) ∧
      groupSize 0 (group ls es ++ toks) = groupSize 0 toks + 1 := by
  intro ls
  induction ls generalizing toks with
  | nil =>
    intro es h
    obtain ⟨s, quoted, rfl⟩ := h.single
    exact ⟨fun _ => rfl, rfl⟩
  | cons l ls ih =>
    have hmore : ∀ n es toks, MoreRows ls n es → ∀ depth,
        groupSize (depth + 1) (moreRows (group ls) ls.prod n es ++ toks) = groupSize
          (depth + 1) toks := by
      intro n
      induction n with
      | zero => exact fun _ _ _ _ => rfl
      | succ n ihn =>
        intro es toks h depth
        rw [moreRows_append, groupSize_comma, (ih _ h.head).1, ihn _ _ h.tail]
    intro es h
    rw [group_cons_append]
    constructor
    · intro depth
      show groupSize (depth + 2) _ = _
      rw [(ih _ h.more.head).1, hmore _ _ _ h.more.tail]
      rfl
    · show groupSize 1 _ + 1 = _
      rw [(ih _ h.more.head).1, hmore _ _ _ h.more.tail]
      rfl

theorem groupSize_moreRows (toks : List Token) : ∀ (n : Nat) {es : List Token}, MoreRows ls n es →
    groupSize 0 (moreRows (group ls) ls.prod n es ++ .closing :: toks) = n
  | 0, _, _ => rfl
  | n + 1, es, h => by
    rw [moreRows_append, groupSize_comma, (groupSize_group _ h.head).2,
      groupSize_moreRows toks n h.tail]

theorem firstGroups_cons (toks : List Token) :
    firstGroups (.opening :: toks) = ⟨Int32.ofNat (groupSize 0 toks), 1⟩ :: firstGroups toks := by
  simp [firstGroups, List.range_succ_eq_map, Function.comp_def]

/-- The dimensions that are inferred are the lengths of the rows. -/
theorem firstGroups_group (toks : List Token) : ∀ {ls : List Nat} {es : List Token}, Rows ls es →
    firstGroups (group ls es ++ toks) = ls.map fun l => ⟨Int32.ofNat l, 1⟩ := by
  intro ls
  induction ls generalizing toks with
  | nil =>
    intro es h
    obtain ⟨s, quoted, rfl⟩ := h.single
    simp [group, firstGroups]
  | cons l ls ih =>
    intro es h
    have hl := h.pos l (by simp)
    rw [group_cons_append, firstGroups_cons, ih _ h.more.head, (groupSize_group _ h.more.head).2,
      groupSize_moreRows toks _ h.more.tail, Nat.sub_add_cancel hl, List.map_cons]

theorem values_append (a b : List Token) : values (a ++ b) = values a ++ values b :=
    List.flatMap_append

theorem values_group (toks : List Token) : ∀ {ls : List Nat} {es : List Token}, Rows ls es →
    values (group ls es ++ toks) = values es ++ values toks := by
  intro ls
  induction ls generalizing toks with
  | nil => exact fun _ => values_append _ _
  | cons l ls ih =>
    have hmore : ∀ n es toks, MoreRows ls n es →
        values (moreRows (group ls) ls.prod n es ++ toks) = values es ++ values toks := by
      intro n
      induction n with
      | zero =>
        intro es toks h
        have hnil : es = [] := List.length_eq_zero_iff.mp (by simpa using h.count)
        rw [hnil]
        rfl
      | succ n ihn =>
        intro es toks h
        rw [moreRows_append, values_cons, ih _ h.head, ihn _ _ h.tail,
          ← List.append_assoc (values _), ← values_append, List.take_append_drop]
        rfl
    intro es h
    rw [group_cons_append, values_cons, ih _ h.more.head, hmore _ _ _ h.more.tail,
      ← List.append_assoc (values _), ← values_append, List.take_append_drop]
    rfl

end Rows

/-! ## Braces by index -/

/-- The token of the element at this index, with what stands before and behind it -/
def itemTokens (counts : List Nat) (i : Nat) (t : Token) : List Token :=
  (if 0 < i then [.comma] else []) ++ List.replicate (counts.countP (· ∣ i)) .opening ++ [t] ++
    List.replicate (counts.countP (· ∣ i + 1)) .closing

def flat (counts : List Nat) : Nat → List Token → List Token
  | _, [] => []
  | i, t :: ts => itemTokens counts i t ++ flat counts (i + 1) ts

theorem flat_append (counts : List Nat) (a b : List Token) :
    ∀ i, flat counts i (a ++ b) = flat counts i a ++ flat counts (i + a.length) b := by
  induction a with
  | nil => simp [flat]
  | cons t ts ih =>
    intro i
    rw [List.cons_append, flat, flat, ih, List.append_assoc, List.length_cons, Nat.add_assoc,
      Nat.add_comm 1]

theorem itemTokens_add (hm : ∀ c ∈ counts, c ∣ m) (hi : 0 < i) (t : Token) :
    itemTokens counts (m + i) t = itemTokens counts i t := by
  have h1 : counts.countP (· ∣ m + i) = counts.countP (· ∣ i) :=
    List.countP_congr fun c hc => by simp [Nat.dvd_add_right (hm c hc)]
  have h2 : counts.countP (· ∣ m + i + 1) = counts.countP (· ∣ i + 1) :=
    List.countP_congr fun c hc => by simp [Nat.add_assoc, Nat.dvd_add_right (hm c hc)]
  unfold itemTokens
  rw [h1, h2, if_pos hi, if_pos (by omega)]

theorem flat_add (hm : ∀ c ∈ counts, c ∣ m) (ts : List Token) :
    ∀ {i : Nat}, 0 < i → flat counts (m + i) ts = flat counts i ts := by
  induction ts with
  | nil => simp [flat]
  | cons t ts ih =>
    intro i hi
    rw [flat, flat, itemTokens_add hm hi, Nat.add_assoc, ih (by omega)]

theorem flat_period (hm : ∀ c ∈ counts, c ∣ m) (hpos : 0 < m) {ts : List Token} (hts : ts ≠ []) :
    flat counts m ts = .comma :: flat counts 0 ts := by
  cases ts with
  | nil => exact absurd rfl hts
  | cons t ts =>
    have h1 : counts.countP (· ∣ m) = counts.countP (· ∣ 0) := List.countP_congr fun c hc => by
      simp [hm c hc]
    have h2 : counts.countP (· ∣ m + 1) = counts.countP (· ∣ 0 + 1) :=
      List.countP_congr fun c hc => by simp [Nat.dvd_add_right (hm c hc)]
    have h3 : flat counts (m + 1) ts = flat counts (0 + 1) ts := flat_add hm ts (by omega)
    simp only [flat, itemTokens, h1, h2, h3, if_pos hpos]
    simp

/-- The outermost closing brace stands behind the last element. -/
theorem flat_outer_tail (counts : List Nat) (ts : List Token) : ∀ {i : Nat}, 0 < i → ts ≠ [] →
    i + ts.length = size → flat (size :: counts) i ts = flat counts i ts ++ [.closing] := by
  induction ts with
  | nil => exact fun _ h => absurd rfl h
  | cons t ts ih =>
    intro i hi _ hsize
    rw [List.length_cons] at hsize
    have hno : ¬ size ∣ i := Nat.not_dvd_of_pos_of_lt hi (by omega)
    cases ts with
    | nil =>
      have hlast : size = i + 1 := by simpa using hsize.symm
      subst hlast
      simp [flat, itemTokens, hno, List.replicate_succ']
    | cons t' ts' =>
      rw [List.length_cons] at hsize
      have hno' : ¬ size ∣ i + 1 := Nat.not_dvd_of_pos_of_lt (by omega) (by omega)
      have htail := ih (i := i + 1) (by omega) (by simp) (by simp; omega)
      rw [flat, htail]
      simp [flat, itemTokens, hno, hno']

theorem itemTokens_first (h : ¬ size ∣ 0 + 1) (t : Token) :
    itemTokens (size :: counts) 0 t = .opening :: itemTokens counts 0 t := by
  have hone : ¬ size = 1 := by
    rintro rfl
    exact h (Nat.dvd_refl _)
  simp [itemTokens, hone, List.replicate_succ]

theorem flat_outer {ts : List Token} (hts : ts ≠ []) (hsize : ts.length = size) :
    flat (size :: counts) 0 ts = .opening :: (flat counts 0 ts ++ [.closing]) := by
  cases ts with
  | nil => exact absurd rfl hts
  | cons t ts =>
    rw [List.length_cons] at hsize
    cases ts with
    | nil =>
      have hone : size = 1 := by simpa using hsize.symm
      subst hone
      simp [flat, itemTokens, ← List.replicate_succ', List.replicate_succ]
    | cons t' ts' =>
      rw [List.length_cons] at hsize
      have hno : ¬ size ∣ 0 + 1 := Nat.not_dvd_of_pos_of_lt (by omega) (by omega)
      have htail := flat_outer_tail counts (t' :: ts') (i := 0 + 1) (by omega) (by simp)
          (show _ = size by simp; omega)
      rw [flat, htail, itemTokens_first hno, List.cons_append, ← List.append_assoc]
      rfl

/-- The elements in an array of each number of innermost dimensions -/
def elemCounts : List Nat → List Nat
  | [] => []
  | l :: ls => (l :: ls).prod :: elemCounts ls

theorem elemCounts_dvd (ls : List Nat) : ∀ c ∈ elemCounts ls, c ∣ ls.prod := by
  induction ls with
  | nil => simp [elemCounts]
  | cons l ls ih =>
    intro c hc
    rcases List.mem_cons.mp hc with rfl | hc
    · exact Nat.dvd_refl _
    · exact (ih c hc).trans (by simp [List.prod_cons])

theorem prod_pos_of_pos {ls : List Nat} (h : ∀ l ∈ ls, 1 ≤ l) : 0 < ls.prod := by
  induction ls with
  | nil => simp
  | cons l ls ih =>
    have hl := h l (by simp)
    have hls := ih fun l' hl' => h l' (.tail _ hl')
    exact Nat.mul_pos hl hls

theorem flat_eq_group : ∀ {ls : List Nat} {es : List Token}, Rows ls es →
    flat (elemCounts ls) 0 es = group ls es := by
  intro ls
  induction ls with
  | nil =>
    intro es h
    obtain ⟨s, quoted, rfl⟩ := h.single
    rfl
  | cons l ls ih =>
    have hmore : ∀ n es, MoreRows ls n es → ∀ k, 0 < k →
        flat (elemCounts ls) (k * ls.prod) es = moreRows (group ls) ls.prod n es := by
      intro n
      induction n with
      | zero =>
        intro es h k _
        have hnil : es = [] := List.length_eq_zero_iff.mp (by simpa using h.count)
        rw [hnil]
        rfl
      | succ n ihn =>
        intro es h k hk
        have hpos := prod_pos_of_pos h.pos
        have hhead := h.head
        have hne : es.take ls.prod ≠ [] := by
          intro hnil
          have := hhead.count
          rw [hnil] at this
          simp at this
          omega
        have hdvd : ∀ c ∈ elemCounts ls, c ∣ k * ls.prod :=
          fun c hc => (elemCounts_dvd ls c hc).mul_left k
        conv_lhs => rw [← List.take_append_drop ls.prod es]
        rw [flat_append, flat_period hdvd (Nat.mul_pos hk hpos) hne, ih hhead, hhead.count,
          ← Nat.succ_mul, ihn _ h.tail _ (by omega), moreRows, List.cons_append]
    intro es h
    have hpos := prod_pos_of_pos h.pos
    have hne : es ≠ [] := by
      intro hnil
      have := h.count
      rw [hnil] at this
      simp only [List.length_nil] at this
      omega
    have hhead := h.more.head
    rw [elemCounts, flat_outer hne h.count]
    conv_lhs => rw [← List.take_append_drop ls.prod es]
    have hrest := hmore _ _ h.more.tail 1 (by omega)
    rw [Nat.one_mul] at hrest
    rw [flat_append, ih hhead, hhead.count, Nat.zero_add, hrest, group, List.append_assoc]

end Pgx.Pgtype
