import Mathlib.Logic.Function.Iterate
import Mathlib.Tactic.Common

/-!
# Computations with a budget of loop rounds

A loop whose end is not known in advance runs on a budget: every round takes one
unit of it, and a loop that would go on without budget gives nothing. `Spends x k a`
says that `x` returns `a` after exactly `k` rounds, whatever budget is left over,
and `Stuck x` that no budget is enough.
-/
namespace Pgx.Effect

variable {α β σ : Type}

abbrev Budget (α : Type) := StateT Nat Option α

namespace Budget

def rounds (body : σ → σ ⊕ β) : Nat → σ → Option (β × Nat)
  | 0, s =>
    match body s with
    | .inl _ => none
    | .inr b => some (b, 0)
  | n + 1, s =>
    match body s with
    | .inl s' => rounds body n s'
    | .inr b => some (b, n + 1)

/-- Run the body from `s` until it leaves the loop. -/
def loop (body : σ → σ ⊕ β) (s : σ) : Budget β := fun n => rounds body n s

/-- `for range k`. -/
def forRange (k : Nat) (f : σ → σ) (s : σ) : Budget σ :=
  loop (fun (i, s) => if i < k then .inl (i + 1, f s) else .inr s) (0, s)

def Spends (x : Budget α) (k : Nat) (a : α) : Prop :=
  ∀ n, x n = if k ≤ n then some (a, n - k) else none

def Stuck (x : Budget α) : Prop := ∀ n, x n = none

theorem Spends.pure (a : α) : Spends (Pure.pure a) 0 a := fun _ => rfl

variable {x : Budget α}

variable {f : α → Budget β}

theorem Spends.bind {k l : Nat} {a : α} {b : β}
    (hx : Spends x k a) (hf : Spends (f a) l b) : Spends (x >>= f) (k + l) b := by
  intro n
  show (x n).bind (fun p => f p.1 p.2) = _
  rw [hx n]
  by_cases hk : k ≤ n
  · rw [if_pos hk, Option.bind_some, hf (n - k)]
    by_cases hl : k + l ≤ n
    · rw [if_pos hl, if_pos (by omega), Nat.sub_add_eq]
    · rw [if_neg hl, if_neg (by omega)]
  · rw [if_neg hk, if_neg (by omega), Option.bind_none]

theorem Spends.bind_zero {k : Nat} {a : α} {b : β}
    (hx : Spends x k a) (hf : Spends (f a) 0 b) : Spends (x >>= f) k b := hx.bind hf

theorem Stuck.bind (hx : Stuck x) (f : α → Budget β) : Stuck (x >>= f) := by
  intro n
  show (x n).bind (fun p => f p.1 p.2) = none
  rw [hx, Option.bind_none]

theorem Spends.bind_stuck {k : Nat} {a : α} (hx : Spends x k a) (hf : Stuck (f a)) :
    Stuck (x >>= f) := by
  intro n
  show (x n).bind (fun p => f p.1 p.2) = none
  rw [hx n]
  by_cases hk : k ≤ n
  · rw [if_pos hk, Option.bind_some]
    exact hf _
  · rw [if_neg hk, Option.bind_none]

theorem Spends.exists_iff {k n : Nat} {a : α} (hx : Spends x k a) (h : k ≤ n)
    (P : α → Prop) : (∃ r left, x n = some (r, left) ∧ P r) ↔ P a := by
  rw [hx n, if_pos h]
  constructor
  · rintro ⟨r, left, heq, hr⟩
    obtain ⟨rfl, -⟩ := Prod.mk.inj (Option.some.inj heq)
    exact hr
  · intro ha
    exact ⟨a, n - k, rfl, ha⟩

variable {body : σ → σ ⊕ β}

theorem Spends.loop_step {s s' : σ} {k : Nat} {b : β} (hs : body s = .inl s')
    (h : Spends (loop body s') k b) : Spends (loop body s) (k + 1) b := by
  intro n
  show rounds body n s = _
  cases n with
  | zero => simp [rounds, hs]
  | succ n =>
    have hn : rounds body n s' = _ := h n
    unfold rounds
    rw [hs]
    show rounds body n s' = _
    rw [hn]
    simp

theorem Spends.loop_done {s : σ} {b : β} (hs : body s = .inr b) : Spends (loop body s) 0 b := by
  intro n
  show rounds body n s = _
  cases n <;> simp [rounds, hs]

theorem Spends.forRange (k : Nat) (f : σ → σ) (s : σ) :
    Spends (Budget.forRange k f s) k (f^[k] s) := by
  have hfrom : ∀ j i s, i + j = k →
      Spends (loop (fun (i, s) => if i < k then .inl (i + 1, f s) else .inr s) (i, s)) j
        (f^[j] s) := by
    intro j
    induction j with
    | zero =>
      intro i s hi
      exact .loop_done (if_neg (by omega))
    | succ j ih =>
      intro i s hi
      refine .loop_step (if_pos (by omega)) ?_
      exact ih (i + 1) (f s) (by omega)
  exact hfrom k 0 s (Nat.zero_add k)

theorem loop_stuck {I : σ → Prop}
    (hstep : ∀ s, I s → ∃ s', body s = .inl s' ∧ I s') {s : σ} (hs : I s) : Stuck (loop body s) := by
  intro n
  show rounds body n s = none
  induction n generalizing s with
  | zero =>
    obtain ⟨s', hbody, -⟩ := hstep s hs
    simp [rounds, hbody]
  | succ n ih =>
    obtain ⟨s', hbody, hs'⟩ := hstep s hs
    unfold rounds
    rw [hbody]
    exact ih hs'

end Budget

end Pgx.Effect
