import Mathlib.Data.List.Basic
import Mathlib.Tactic.Common

/-!
# Scanners with lookahead

A scanner reads a list from the left under a control state. One step inspects
the whole remaining input, so lookahead is unrestricted, and reports a token,
the number of items it consumed and the next control state. Progress is part of
the structure: a step consumes something and never more than there is. The
token list is therefore total without a fuel argument at its use sites.
-/
namespace Pgx.Lexing

structure Scanner (α σ τ : Type*) where
  next : σ → List α → Option (τ × Nat × σ)
  progress : ∀ {s : σ} {xs : List α} {t : τ} {n : Nat} {s' : σ},
    next s xs = some (t, n, s') → 0 < n ∧ n ≤ xs.length

namespace Scanner

variable {α σ τ σ' τ' : Type*} (S : Scanner α σ τ)

/-- At most `fuel` steps; `tokens` supplies the length, which is always enough. -/
def run : Nat → σ → List α → List τ
  | 0, _, _ => []
  | fuel + 1, s, xs =>
    match S.next s xs with
    | none => []
    | some (t, n, s') => t :: run fuel s' (xs.drop n)

def tokens (s : σ) (xs : List α) : List τ := S.run xs.length s xs

theorem next_nil (s : σ) : S.next s [] = none := by
  cases h : S.next s [] with
  | none => rfl
  | some r =>
    obtain ⟨t, n, s'⟩ := r
    have hp := S.progress h
    simp only [List.length_nil] at hp
    omega

variable {xs : List α}

variable {n : Nat}

variable {s' : σ}

theorem length_drop_lt {s : σ} {t : τ} (h : S.next s xs = some (t, n, s')) :
    (xs.drop n).length < xs.length := by
  have hp := S.progress h
  rw [List.length_drop]
  omega

theorem run_of_length_le (fuel : Nat) :
    ∀ (s : σ) (xs : List α), xs.length ≤ fuel → S.run fuel s xs = S.tokens s xs := by
  induction fuel using Nat.strongRecOn with
  | ind fuel ih =>
    intro s xs hf
    cases hx : xs.length with
    | zero =>
      have he : xs = [] := List.length_eq_zero_iff.mp hx
      subst he
      cases fuel with
      | zero => rfl
      | succ fuel => simp only [run, next_nil, tokens, List.length_nil]
    | succ m =>
      obtain ⟨fuel, rfl⟩ : ∃ k, fuel = k + 1 := ⟨fuel - 1, by omega⟩
      rw [tokens, hx]
      simp only [run]
      cases hn : S.next s xs with
      | none => rfl
      | some r =>
        obtain ⟨t, n, s'⟩ := r
        have hd := S.length_drop_lt hn
        simp only [List.cons.injEq, true_and]
        rw [ih fuel (by omega) s' _ (by omega)]
        rcases Nat.lt_or_ge m fuel with hm | hm
        · exact (ih m (by omega) s' _ (by omega)).symm
        · rw [show m = fuel from by omega, ih fuel (by omega) s' _ (by omega)]

theorem tokens_of_none {s : σ} (h : S.next s xs = none) : S.tokens s xs = [] := by
  unfold tokens
  cases xs.length with
  | zero => rfl
  | succ n => simp only [run, h]

@[simp] theorem tokens_nil (s : σ) : S.tokens s [] = [] := rfl

/-- The first token and the rest -/
theorem tokens_of_some {s : σ} {t : τ} (h : S.next s xs = some (t, n, s')) :
    S.tokens s xs = t :: S.tokens s' (xs.drop n) := by
  have hd := S.length_drop_lt h
  rw [tokens]
  obtain ⟨m, hm⟩ : ∃ m, xs.length = m + 1 := ⟨xs.length - 1, by omega⟩
  rw [hm]
  simp only [run, h]
  rw [S.run_of_length_le m s' _ (by omega)]

theorem scan_induction {P : σ → List α → Prop}
    (step : ∀ s xs, (∀ t n s', S.next s xs = some (t, n, s') → P s' (xs.drop n)) → P s xs) :
    ∀ s xs, P s xs := by
  intro s xs
  induction hl : xs.length using Nat.strongRecOn generalizing s xs with
  | ind l ih =>
    apply step
    intro t n s' hn
    have hd := S.length_drop_lt hn
    exact ih _ (by omega) s' _ rfl

/-- Induction from token to token -/
theorem token_induction {P : σ → List α → Prop} (stop : ∀ s xs, S.next s xs = none → P s xs)
    (token : ∀ s xs t n s', S.next s xs = some (t, n, s') → P s' (xs.drop n) → P s xs) (s : σ)
    (xs : List α) : P s xs := by
  induction s, xs using S.scan_induction with
  | step s xs ih =>
    cases hn : S.next s xs with
    | none => exact stop s xs hn
    | some r => exact token s xs _ _ _ hn (ih _ _ _ hn)

/-- The control state in which a scan of at most `fuel` steps ends. -/
def finalWithin : Nat → σ → List α → σ
  | 0, s, _ => s
  | fuel + 1, s, xs =>
    match S.next s xs with
    | none => s
    | some (_, n, s') => finalWithin fuel s' (xs.drop n)

def final (s : σ) (xs : List α) : σ := S.finalWithin xs.length s xs

theorem finalWithin_of_length_le (fuel : Nat) :
    ∀ (s : σ) (xs : List α), xs.length ≤ fuel → S.finalWithin fuel s xs = S.final s xs := by
  have hmore : ∀ fuel s xs, xs.length ≤ fuel →
      S.finalWithin (fuel + 1) s xs = S.finalWithin fuel s xs := by
    intro fuel
    induction fuel with
    | zero =>
      intro s xs h
      obtain rfl : xs = [] := List.length_eq_zero_iff.mp (Nat.le_zero.mp h)
      simp only [finalWithin, next_nil]
    | succ fuel ih =>
      intro s xs h
      rw [finalWithin]
      conv_rhs => rw [finalWithin]
      cases hn : S.next s xs with
      | none => rfl
      | some r =>
        obtain ⟨t, n, s'⟩ := r
        have hd := S.length_drop_lt hn
        exact ih s' _ (by omega)
  intro s xs h
  induction fuel with
  | zero => rw [final, Nat.le_zero.mp h]
  | succ fuel ih =>
    rcases Nat.lt_or_ge fuel xs.length with hlt | hge
    · rw [final, show fuel + 1 = xs.length by omega]
    · rw [hmore fuel s xs hge, ih hge]

@[simp] theorem final_nil (s : σ) : S.final s [] = s := rfl

theorem final_of_some {s : σ} {t : τ} (h : S.next s xs = some (t, n, s')) :
    S.final s xs = S.final s' (xs.drop n) := by
  have hd := S.length_drop_lt h
  obtain ⟨m, hm⟩ : ∃ m, xs.length = m + 1 := ⟨xs.length - 1, by omega⟩
  rw [final, hm]
  simp only [finalWithin, h]
  exact S.finalWithin_of_length_le m s' _ (by omega)

/-- Every position at which the scanner is consulted, in order. -/
def visitedWithin : Nat → σ → List α → List (σ × List α)
  | 0, s, xs => [(s, xs)]
  | fuel + 1, s, xs =>
    (s, xs) :: match S.next s xs with
      | none => []
      | some (_, n, s') => visitedWithin fuel s' (xs.drop n)

def visited (s : σ) (xs : List α) : List (σ × List α) := S.visitedWithin xs.length s xs

/-- No position of the scan satisfies `bad`. -/
def Avoids (bad : σ → List α → Prop) (s : σ) (xs : List α) : Prop :=
  ∀ p ∈ S.visited s xs, ¬ bad p.1 p.2

instance (bad : σ → List α → Prop) [∀ s xs, Decidable (bad s xs)] (s : σ) (xs : List α) :
    Decidable (S.Avoids bad s xs) :=
  inferInstanceAs (Decidable (∀ p ∈ S.visited s xs, ¬ bad p.1 p.2))

theorem mem_visitedWithin_self (fuel : Nat) (s : σ) (xs : List α) :
    (s, xs) ∈ S.visitedWithin fuel s xs := by
  cases fuel <;> simp [visitedWithin]

theorem visitedWithin_mono (fuel : Nat) : ∀ {more : Nat} {s : σ} {xs : List α}, fuel ≤ more →
      S.visitedWithin fuel s xs ⊆ S.visitedWithin more s xs := by
  induction fuel with
  | zero =>
    intro more s xs _ p hp
    simp only [visitedWithin, List.mem_singleton] at hp
    exact hp ▸ S.mem_visitedWithin_self more s xs
  | succ fuel ih =>
    intro more s xs hm p hp
    obtain ⟨more, rfl⟩ : ∃ k, more = k + 1 := ⟨more - 1, by omega⟩
    simp only [visitedWithin, List.mem_cons] at hp ⊢
    rcases hp with hp | hp
    · exact .inl hp
    · right
      cases hn : S.next s xs with
      | none => simp [hn] at hp
      | some r =>
        obtain ⟨t, n, s'⟩ := r
        simp only [hn] at hp
        exact ih (by omega) hp

section

variable {bad : σ → List α → Prop} {s : σ} {xs : List α} (h : S.Avoids bad s xs)

include h

theorem Avoids.here : ¬ bad s xs := h (s, xs) (S.mem_visitedWithin_self _ s xs)

theorem Avoids.step {t : τ} (hn : S.next s xs = some (t, n, s')) : S.Avoids bad s' (xs.drop n) := by
  intro p hp
  have hd := S.length_drop_lt hn
  apply h p
  obtain ⟨m, hm⟩ : ∃ m, xs.length = m + 1 := ⟨xs.length - 1, by omega⟩
  rw [visited, hm]
  simp only [visitedWithin, hn, List.mem_cons]
  exact .inr (S.visitedWithin_mono _ (by omega) hp)

end

/-- What a scan writes when each token is rendered in turn. -/
def emit (render : τ → List α) (s : σ) (xs : List α) : List α :=
  (S.tokens s xs).flatMap render

theorem emit_of_some {render : τ → List α} {s : σ} {t : τ}
    (h : S.next s xs = some (t, n, s')) : S.emit render s xs = render t ++ S.emit render s'
      (xs.drop n) := by
  simp only [emit, S.tokens_of_some h, List.flatMap_cons]

/-- Rescanning a rendering. When a second scanner, placed before the rendering
of one token and whatever the rest of the scan writes, reads that token's image
and arrives in the matching control state, it reads the whole rendering as the
images in order. `inv` is an invariant of the positions of the first scan. -/
theorem tokens_emit (T : Scanner α σ' τ') (render : τ → List α) (image : τ → List τ')
    (ctl : σ → σ') (inv : σ → List α → Prop) (local_step :
    ∀ s xs t n s', inv s xs → S.next s xs = some (t, n, s') →
      inv s' (xs.drop n) ∧ T.tokens (ctl s) (render t ++ S.emit render s' (xs.drop n)) =
        image t ++ T.tokens (ctl s') (S.emit render s' (xs.drop n))) : ∀ s xs, inv s xs →
      T.tokens (ctl s) (S.emit render s xs) = (S.tokens s xs).flatMap image := by
  intro s xs
  induction s, xs using S.token_induction with
  | stop s xs hn => simp [emit, S.tokens_of_none hn]
  | token s xs t n s' hn ih =>
    intro hi
    obtain ⟨hi', hl⟩ := local_step s xs t n s' hi hn
    rw [S.emit_of_some hn, hl, ih hi', S.tokens_of_some hn, List.flatMap_cons]

end Scanner
end Pgx.Lexing
