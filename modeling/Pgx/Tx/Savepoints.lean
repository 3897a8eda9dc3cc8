import Mathlib.Data.List.Pairwise
import Mathlib.Data.List.Sublists

/-!
# Transactions with savepoints

A server's transaction over some data. A statement changes the data or aborts the transaction. A
savepoint keeps the data as they are; to roll back to it restores them, also in an aborted
transaction, and forgets the savepoints made after it, but not itself. Names may be used again and
hide earlier ones.
-/
namespace Pgx.Tx

structure Transaction (ν σ : Type) where
  aborted : Bool
  data : σ
  /-- The latest first -/
  savepoints : List (ν × σ)

inductive Command (ν σ : Type) where
  /-- `none` for a statement that fails -/
  | statement (run : σ → Option σ)
  | savepoint (name : ν)
  | release (name : ν)
  | rollbackTo (name : ν)

section Savepoints

variable {ν σ : Type} [DecidableEq ν]

/-- The data of the latest savepoint with the name, and the savepoints made before it -/
def locate (name : ν) : List (ν × σ) → Option (σ × List (ν × σ))
  | [] => none
  | (n, data) :: earlier => if n = name then some (data, earlier) else locate name earlier

namespace Transaction

def abort (t : Transaction ν σ) : Transaction ν σ := { t with aborted := true }

/-- Whether the command succeeds, and the transaction after it -/
def exec (t : Transaction ν σ) : Command ν σ → Bool × Transaction ν σ
  | .statement run =>
    if t.aborted then (false, t)
    else
      match run t.data with
      | none => (false, t.abort)
      | some data => (true, { t with data := data })
  | .savepoint name => if t.aborted then (false, t) else
    (true, { t with savepoints := (name, t.data) :: t.savepoints })
  | .release name =>
    if t.aborted then (false, t)
    else
      match locate name t.savepoints with
      | none => (false, t.abort)
      | some (_, earlier) => (true, { t with savepoints := earlier })
  | .rollbackTo name =>
    match locate name t.savepoints with
    | none => (false, t.abort)
    | some (data, earlier) => (true, ⟨false, data, (name, data) :: earlier⟩)

end Transaction

/-- No savepoint with a name for which `p` holds is hidden by a later one. -/
def Unhidden (p : ν → Prop) (savepoints : List (ν × σ)) : Prop :=
  savepoints.Pairwise fun later earlier => p later.1 → later.1 ≠ earlier.1

theorem locate_sublist {name : ν} {data : σ} {savepoints earlier : List (ν × σ)}
    (h : locate name savepoints = some (data, earlier)) :
    ((name, data) :: earlier).Sublist savepoints := by
  induction savepoints with
  | nil => cases h
  | cons e es ih =>
    unfold locate at h
    split at h
    · rename_i hname
      cases h
      subst hname
      exact List.Sublist.refl _
    · exact .cons _ (ih h)

/-- A savepoint that is not hidden is found, with those that it was made after. -/
theorem locate_of_sublist {p : ν → Prop} {name : ν} {data : σ} {rest savepoints : List (ν × σ)}
    (hname : p name)
    (hunhidden : Unhidden p savepoints) (h : ((name, data) :: rest).Sublist savepoints) :
    ∃ earlier, locate name savepoints = some (data, earlier) ∧ rest.Sublist earlier := by
  induction savepoints with
  | nil => cases h
  | cons e es ih =>
    obtain ⟨hhead, htail⟩ := List.pairwise_cons.mp hunhidden
    cases h with
    | cons _ h =>
      have hmem : (name, data) ∈ es := h.subset (.head _)
      have hne : e.1 ≠ name := by
        intro heq
        exact hhead _ hmem (heq ▸ hname) heq
      obtain ⟨earlier, hloc, hsub⟩ := ih htail h
      exact ⟨earlier, by rw [locate, if_neg hne, hloc], hsub⟩
    | cons_cons _ h => exact ⟨es, if_pos rfl, h⟩

namespace Transaction

variable {t : Transaction ν σ}

theorem exec_of_aborted {c : Command ν σ} (h : t.aborted = true)
    (hc : ∀ name, c ≠ .rollbackTo name) : t.exec c = (false, t) := by
  cases c with
  | rollbackTo name => exact absurd rfl (hc name)
  | statement | savepoint | release => simp [exec, h]

theorem exec_savepoint (h : t.aborted = false) (name : ν) :
    t.exec (.savepoint name) = (true, { t with savepoints := (name, t.data) :: t.savepoints }) := by
  simp [exec, h]

/-- A savepoint that is released, or rolled back to, leaves those made before it. -/
theorem exec_savepoints {c : Command ν σ} {name : ν} (hc : c = .release name ∨ c = .rollbackTo name) :
    (t.exec c).2.savepoints = t.savepoints ∨ ∃ data earlier,
    locate name t.savepoints = some (data, earlier) ∧
        earlier.Sublist (t.exec c).2.savepoints ∧ (t.exec c).2.savepoints.Sublist t.savepoints := by
  cases hloc : locate name t.savepoints with
  | none => rcases hc with rfl | rfl <;> cases h : t.aborted <;> simp [exec, hloc, h, abort]
  | some r =>
    obtain ⟨data, earlier⟩ := r
    have hsub := locate_sublist hloc
    rcases hc with rfl | rfl
    · cases h : t.aborted with
      | true =>
        rw [exec_of_aborted h (by simp)]
        exact .inl rfl
      | false =>
        simp only [exec, h, hloc, Bool.false_eq_true, if_false]
        exact .inr ⟨data, earlier, rfl, .refl _, (List.sublist_cons_self ..).trans hsub⟩
    · simp only [exec, hloc]
      exact .inr ⟨data, earlier, rfl, List.sublist_cons_self .., hsub⟩

end Transaction

end Savepoints

end Pgx.Tx
