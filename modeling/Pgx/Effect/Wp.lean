import Mathlib.Tactic.Common

/-!
# Stateful computations that can fail

A computation runs on a state and either returns or fails; what it did to the
state stays done when it fails. `wp x Q E s` says that `x`, started in `s`, ends
with `Q` when it returns and with `E` when it fails. The rules below take a
computation apart along its binds, so that proofs never unfold a callee.
-/
namespace Pgx.Effect

variable {σ ε ε' α β ι : Type}

/-- What holds after running `x` from `s`. -/
def wp (x : EStateM ε σ α) (Q : α → σ → Prop) (E : ε → σ → Prop) (s : σ) : Prop :=
  match x s with
  | .ok a s' => Q a s'
  | .error e s' => E e s'

theorem get_bind (f : σ → EStateM ε σ α) (s : σ) : (get >>= f) s = f s s := rfl

theorem set_bind (t : σ) (f : PUnit → EStateM ε σ α) (s : σ) : (set t >>= f) s = f ⟨⟩ t := rfl

theorem modify_bind (g : σ → σ) (f : PUnit → EStateM ε σ α) (s : σ) :
    (modify g >>= f) s = f ⟨⟩ (g s) := rfl

section Rules

variable {Q : β → σ → Prop} {E : ε → σ → Prop} {s : σ}

@[simp] theorem wp_pure (b : β) : wp (pure b) Q E s ↔ Q b s := Iff.rfl

@[simp] theorem wp_throw (e : ε) : wp (throw e) Q E s ↔ E e s := Iff.rfl

@[simp] theorem wp_bind (x : EStateM ε σ α) (f : α → EStateM ε σ β) :
    wp (x >>= f) Q E s ↔ wp x (fun a => wp (f a) Q E) E s := by
  simp only [wp, bind, EStateM.bind]
  cases x s <;> rfl

@[simp] theorem wp_map (x : EStateM ε σ α) (f : α → β) :
    wp (f <$> x) Q E s ↔ wp x (fun a => Q (f a)) E s := by
  simp only [wp, Functor.map, EStateM.map]
  cases x s <;> rfl

@[simp] theorem wp_get {Q : σ → σ → Prop} : wp get Q E s ↔ Q s s := Iff.rfl

@[simp] theorem wp_set {Q : PUnit → σ → Prop} (s' : σ) : wp (set s') Q E s ↔ Q ⟨⟩ s' := Iff.rfl

@[simp] theorem wp_modify {Q : PUnit → σ → Prop} (f : σ → σ) :
    wp (modify f) Q E s ↔ Q ⟨⟩ (f s) := Iff.rfl

variable {x : EStateM ε σ β}

theorem wp_and {Q' : β → σ → Prop} {E' : ε → σ → Prop} (h : wp x Q E s) (h' : wp x Q' E' s) :
    wp x (fun b t => Q b t ∧ Q' b t) (fun e t => E e t ∧ E' e t) s := by
  unfold wp at *
  cases hx : x s with
  | ok b t =>
    rw [hx] at h h'
    exact ⟨h, h'⟩
  | error e t =>
    rw [hx] at h h'
    exact ⟨h, h'⟩

theorem wp_true (x : EStateM ε σ β) : wp x (fun _ _ => True) (fun _ _ => True) s := by
  unfold wp
  split <;> trivial

theorem wp_mono {Q' : β → σ → Prop} {E' : ε → σ → Prop}
    (h : wp x Q E s) (hQ : ∀ b t, Q b t → Q' b t) (hE : ∀ e t, E e t → E' e t) : wp x Q' E' s := by
  unfold wp at *
  cases hx : x s with
  | ok b t =>
    rw [hx] at h
    exact hQ b t h
  | error e t =>
    rw [hx] at h
    exact hE e t h

abbrev never : ε → σ → Prop := fun _ _ => False

section Weaken

variable {x : EStateM ε σ β} {Q' : β → σ → Prop} {E' : ε → σ → Prop}

theorem wp_weaken (h : wp x Q E s) (hQ : ∀ b t, Q b t → Q' b t) : wp x Q' E s :=
    wp_mono h hQ fun _ _ he => he

theorem wp_weaken_error (h : wp x Q E s) (hE : ∀ e t, E e t → E' e t) : wp x Q E' s :=
    wp_mono h (fun _ _ hq => hq) hE

/-- What does not fail may be given any postcondition for errors. -/
theorem wp_total (h : wp x Q never s) (hQ : ∀ b t, Q b t → Q' b t) : wp x Q' E s :=
    wp_mono h hQ fun _ _ he => he.elim

theorem wp_fails (h : wp x never E s) (hE : ∀ e t, E e t → E' e t) : wp x Q E' s :=
    wp_mono h (fun _ _ hq => hq.elim) hE

end Weaken

theorem wp_of_ok {b : β} {t : σ} (h : wp x Q E s) (hx : x s = .ok b t) : Q b t := by
  unfold wp at h
  rwa [hx] at h

theorem wp_of_error {e : ε} {t : σ} (h : wp x Q E s) (hx : x s = .error e t) : E e t := by
  unfold wp at h
  rwa [hx] at h

end Rules

/-- Run `x` and return its outcome, as a caller that looks at the error does. Errors
that are `fatal` no caller looks at. -/
def attempt (fatal : ε → Bool) (x : EStateM ε σ α) : EStateM ε σ (Except ε α) := fun s =>
  match x s with
  | .ok a s' => .ok (.ok a) s'
  | .error e s' => if fatal e then .error e s' else .ok (.error e) s'

variable {E : ε → σ → Prop}

/-- An error that is not fatal becomes a value. -/
theorem wp_attempt_iff {fatal : ε → Bool} {x : EStateM ε σ α} {Q : Except ε α → σ → Prop} {s : σ} :
    wp (attempt fatal x) Q E s ↔
      wp x (fun a => Q (.ok a)) (fun e t => if fatal e then E e t else Q (.error e) t) s := by
  unfold wp attempt
  cases x s with
  | ok a t => rfl
  | error e t => cases hf : fatal e <;> simp [hf]

/-- For a caller to whom it makes no difference whether the error is fatal. -/
theorem wp_attempt {fatal : ε → Bool} {x : EStateM ε σ α} {Q : Except ε α → σ → Prop} {s : σ}
    (h : wp x (fun a => Q (.ok a)) (fun e t => E e t ∧ Q (.error e) t) s) :
    wp (attempt fatal x) Q E s := by
  rw [wp_attempt_iff]
  apply wp_mono h
  · exact fun _ _ ha => ha
  · intro e t he
    split
    · exact he.1
    · exact he.2

@[simp] theorem wp_ofExcept {Q : α → σ → Prop} {s : σ} (r : Except ε α) :
    wp (ofExcept r) Q E s ↔ match r with | .ok a => Q a s | .error e => E e s := by
  cases r <;> rfl

/-!
## Loops

A loop runs its body on a local value until the body leaves it. Each round that
goes on makes a measure of the state smaller.
-/

structure Loop (σ ε ι β : Type) where
  body : ι → EStateM ε σ (ι ⊕ β)
  measure : σ → Nat
  progress : ∀ i s j s', body i s = .ok (.inl j) s' → measure s' < measure s

namespace Loop

def iterate (L : Loop σ ε ι β) (i : ι) (s : σ) : EStateM.Result ε σ β :=
  match h : L.body i s with
  | .error e s' => .error e s'
  | .ok (.inr b) s' => .ok b s'
  | .ok (.inl j) s' =>
    have := L.progress i s j s' h
    L.iterate j s'
termination_by L.measure s

def run (L : Loop σ ε ι β) (i : ι) : EStateM ε σ β := L.iterate i

/-- One round of the loop, and the rest -/
theorem wp_run_round (L : Loop σ ε ι β) {Q : β → σ → Prop} {i : ι} {s : σ}
    (h : wp (L.body i) (fun r t => r.elim (fun j => wp (L.run j) Q E t) (fun b => Q b t)) E s) :
    wp (L.run i) Q E s := by
  unfold wp run
  fun_cases L.iterate i s with
  | case1 e t hb =>
    have he := wp_of_error h hb
    exact he
  | case2 b t hb =>
    have hd := wp_of_ok h hb
    exact hd
  | case3 j t hb =>
    have hd := wp_of_ok h hb
    exact hd

/-- What every round keeps holds when the loop is left, whichever way it is left. -/
theorem wp_run (L : Loop σ ε ι β) {I : ι → σ → Prop} {Q : β → σ → Prop}
    (hbody : ∀ i s, I i s → wp (L.body i) (fun r t => r.elim (fun j => I j t) (fun b => Q b t)) E s)
    {i : ι} {s : σ} (hi : I i s) : wp (L.run i) Q E s := by
  unfold wp run
  fun_induction L.iterate i s with
  | case1 i s e s' h =>
    show E e s'
    exact wp_of_error (hbody i s hi) h
  | case2 i s b s' h =>
    have hb := wp_of_ok (hbody i s hi) h
    exact hb
  | case3 i s j s' h hlt ih =>
    have hj := wp_of_ok (hbody i s hi) h
    exact ih hj

end Loop

end Pgx.Effect
