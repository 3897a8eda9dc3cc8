import Pgx.Effect.Wp

/-!
# Runs along a graded relation

A graded preorder is a family of relations between states. Nothing is gained by
staying, gains add up along a sequence, and a larger gain is also a smaller one.
`Gains R n x` says that a run of `x` gains `n` when it returns, and loses nothing
when it fails. A preorder is graded by itself: every gain is the same to it.
-/
namespace Pgx.Effect

variable {σ ε α β ι : Type}

class Graded (R : Int → σ → σ → Prop) : Prop where
  refl : ∀ s, R 0 s s
  trans : ∀ {m n s t u}, R m s t → R n t u → R (m + n) s u
  mono : ∀ {m n s t}, R n s t → m ≤ n → R m s t

instance {R : σ → σ → Prop} [Std.Refl R] [Trans R R R] : Graded fun _ => R where
  refl := Std.Refl.refl
  trans := Trans.trans
  mono := fun h _ => h

def Gains (R : Int → σ → σ → Prop) (n : Int) (x : EStateM ε σ α) : Prop :=
  ∀ s, wp x (fun _ => R n s) (fun _ => R 0 s) s

namespace Gains

variable {R : Int → σ → σ → Prop} {x : EStateM ε σ α} {k m n : Int}

theorem get_bind {f : σ → EStateM ε σ β} (hf : ∀ s, Gains R n (f s)) : Gains R n (get >>= f) :=
    fun s => hf s s

theorem modify {g : σ → σ} (hg : ∀ s, R n s (g s)) : Gains R n (modify g : EStateM ε σ PUnit) := hg

variable [Graded R]

theorem pure {a : α} : Gains R 0 (pure a : EStateM ε σ α) := Graded.refl

theorem throw {e : ε} : Gains R n (throw e : EStateM ε σ α) := fun s => Graded.refl (R := R) s

theorem weaken (h : Gains R n x) (hmn : m ≤ n) : Gains R m x :=
  fun s => wp_weaken (h s) fun _ _ ht => Graded.mono ht hmn

theorem after {s t : σ} (h : Gains R n x) (hst : R m s t) (hm : 0 ≤ m) (hk : k ≤ m + n) :
    wp x (fun _ => R k s) (fun _ => R 0 s) t := by
  apply wp_mono (h t)
  · exact fun _ _ hu => Graded.mono (Graded.trans hst hu) hk
  · exact fun _ _ hu => Graded.mono (Graded.trans hst hu) (by omega)

theorem bind {f : α → EStateM ε σ β} (h : Gains R m x) (hf : ∀ a, Gains R n (f a)) (hm : 0 ≤ m)
    (hk : k ≤ m + n) : Gains R k (x >>= f) := by
  intro s
  rw [wp_bind]
  exact wp_weaken (h s) fun a t ht => (hf a).after ht hm hk

theorem seq {f : α → EStateM ε σ β} (h : Gains R 0 x) (hf : ∀ a, Gains R n (f a)) :
    Gains R n (x >>= f) :=
  h.bind hf (Int.le_refl 0) (by omega)

theorem attempt_bind {fatal : ε → Bool} {f : Except ε α → EStateM ε σ β}
    (h : Gains R m x) (hm : 0 ≤ m)
    (hok : ∀ a, Gains R n (f (.ok a))) (hk : k ≤ m + n) (herr : ∀ e, Gains R k (f (.error e))) :
    Gains R k (attempt fatal x >>= f) := by
  intro s
  rw [wp_bind]
  apply wp_attempt
  apply wp_mono (h s)
  · exact fun a t ht => (hok a).after ht hm hk
  · exact fun e t ht => ⟨ht, (herr e).after ht (Int.le_refl 0) (by omega)⟩

theorem loop {L : Loop σ ε ι β} (hbody : ∀ i s, wp (L.body i)
      (fun r => R (r.elim (fun _ => 0) fun _ => n) s) (fun _ => R 0 s) s) (i : ι) :
      Gains R n (L.run i) := by
  intro s
  apply L.wp_run (I := fun _ => R 0 s)
  · intro j t ht
    apply wp_mono (hbody j t)
    · intro r u hu
      have hsu := Graded.trans ht hu
      cases r with
      | inl k => exact Graded.mono hsu (Int.le_refl 0)
      | inr b => exact Graded.mono hsu (by show n ≤ 0 + n; omega)
    · exact fun _ _ hu => Graded.mono (Graded.trans ht hu) (Int.le_refl 0)
  · exact Graded.refl s

theorem loop_zero {L : Loop σ ε ι β} (hbody : ∀ i, Gains R 0 (L.body i)) (i : ι) :
    Gains R 0 (L.run i) := by
  refine loop (fun j s => wp_weaken (hbody j s) fun r t ht => ?_) i
  cases r <;> exact ht

end Gains

end Pgx.Effect
