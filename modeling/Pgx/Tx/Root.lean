import Pgx.Tx.Nested

/-!
# Root transactions

`dbTx` and `BeginFunc` on a connection whose user sends no transaction control and begins no nested
transaction. The data of a transaction is lost when one of its statements fails. A `CommitQuery` is
any command; the results are about transactions without one, since nothing makes it end the
transaction.
-/
namespace Pgx.Tx.Root

variable {σ : Type}

structure Server (σ : Type) where
  committed : σ
  inTx : Option (Option σ)

inductive Command (σ : Type) where
  /-- No transaction control, and no savepoint. -/
  | statement (f : σ → Option σ)
  /-- A deferred constraint makes it fail. -/
  | commit (fails : Bool)
  | rollback

/-- An error, or whether the command tag is `ROLLBACK`. -/
def Server.exec (s : Server σ) : Command σ → Option Bool × Server σ
  | .statement f =>
    match s.inTx with
    | some t => ((t.bind f).map fun _ => false, { s with inTx := some (t.bind f) })
    | none => ((f s.committed).map fun _ => false,
      { s with committed := (f s.committed).getD s.committed })
  | .commit fails =>
    match s.inTx with
    | some (some data) =>
      if fails then (none, { s with inTx := none }) else (some false, ⟨data, none⟩)
    | some none => (some true, { s with inTx := none })
    | none => (some false, s)
  | .rollback => (some true, { s with inTx := none })

inductive Fate where
  | answered
  /-- The context is done, or a result is still being read. -/
  | notSent
  /-- The connection is lost. -/
  | lost (reached : Bool)

inductive TxError where
  | txClosed
  | exec
  | commitRollback
  | callback
  deriving DecidableEq

structure Session (σ : Type) where
  server : Server σ
  connClosed : Bool
  closed : Bool
  commitQuery : Option (Command σ)

/-- `Conn.Exec` -/
def Session.exec (s : Session σ) (d : Fate) (c : Command σ) : Option Bool × Session σ :=
  if s.connClosed then (none, s)
  else
    match d with
    | .answered => ((s.server.exec c).1, { s with server := (s.server.exec c).2 })
    | .notSent => (none, s)
    | .lost reached => (none,
      { s with connClosed := true, server := if reached then (s.server.exec c).2 else s.server })

/-- What a method of `dbTx` sends. -/
def Session.sent (s : Session σ) : Command σ → Command σ
  | .commit fails => s.commitQuery.getD (.commit fails)
  | c => c

/-- A method of `dbTx`. The transaction status is not `'I'` as long as the server is in the
transaction. -/
def Session.call (s : Session σ) (d : Fate) (c : Command σ) : Option TxError × Session σ :=
  if s.closed then (some .txClosed, s)
  else
    let t := (s.exec d (s.sent c)).2
    match c, (s.exec d (s.sent c)).1 with
    | .statement _, r => (if r = none then some .exec else none, t)
    | .commit _, none =>
      (some .exec, { t with closed := true, connClosed := t.connClosed || t.server.inTx.isSome })
    | .commit _, some r => (if r then some .commitRollback else none, { t with closed := true })
    | .rollback, none => (some .exec, { t with closed := true, connClosed := true })
    | .rollback, some _ => (none, { t with closed := true })

/-- A transaction after `BeginTx`, and the calls of its methods. -/
def run (data : σ) (commitQuery : Option (Command σ)) (calls : List (Fate × Command σ)) : Session σ :=
  calls.foldl (fun s c => (s.call c.1 c.2).2) ⟨⟨data, some (some data)⟩, false, false, commitQuery⟩

def deferredRollback (d : Fate) (err : Option TxError) (s : Session σ) : Option TxError × Session σ :=
  match (s.call d .rollback).1 with
  | none | some .txClosed => (err, (s.call d .rollback).2)
  | rollbackErr => (rollbackErr, (s.call d .rollback).2)

/-- Behind the call of the callback -/
def beginFuncExec (s : Session σ) (fails : Bool) (d d' : Fate) : Outcome → Option TxError × Session σ
  | .returnsNil => deferredRollback d' (s.call d (.commit fails)).1 (s.call d (.commit fails)).2
  | .returnsError => deferredRollback d' (some .callback) (s.call d .rollback).2
  | .panics => deferredRollback d (some .callback) s

/-- Before its end the transaction has committed nothing. Then the server has ended it, or the
connection is closed. -/
structure Inv (data : σ) (s : Session σ) : Prop where
  before : s.closed = false → s.server.committed = data ∧ s.server.inTx.isSome = true
  after : s.closed = true → s.connClosed = true ∨ s.server.inTx = none
  commits : s.commitQuery = none

variable {data : σ} {s : Session σ} {d : Fate} {c : Command σ}
    {calls : List (Fate × Command σ)} {fails : Bool}

theorem call_of_closed (h : s.closed = true) : s.call d c = (some .txClosed, s) := if_pos h

theorem sent_eq (h : s.commitQuery = none) : s.sent c = c := by
  cases c <;> simp [Session.sent, h]

theorem Server.exec_control (s : Server σ) (hc : ∀ f, c ≠ .statement f) :
    (s.exec c).2.inTx = none := by
  cases c with
  | statement f => exact absurd rfl (hc f)
  | commit fails =>
    rw [Server.exec]
    split
    · split <;> rfl
    · rfl
    · assumption
  | rollback => rfl

theorem exec_answered {r : Bool} (h : (s.exec d c).1 = some r) :
    (s.server.exec c).1 = some r ∧ (s.exec d c).2.server = (s.server.exec c).2 := by
  unfold Session.exec at h ⊢
  split at h
  · cases h
  · next hopen =>
    rw [if_neg hopen]
    cases d with
    | answered => exact ⟨h, rfl⟩
    | _ => cases h

theorem Inv.exec_statement (h : Inv data s) (hclosed : s.closed = false) (d : Fate)
    (f : σ → Option σ) :
    Inv data (s.exec d (.statement f)).2 := by
  obtain ⟨hdata, hin⟩ := h.before hclosed
  obtain ⟨t, ht⟩ := Option.isSome_iff_exists.mp hin
  have hinv (b : Bool) :
      Inv data { s with connClosed := b, server := (s.server.exec (.statement f)).2 } := by
    rw [Server.exec, ht]
    exact ⟨fun _ => ⟨hdata, rfl⟩, fun hc => by simp [hclosed] at hc, h.commits⟩
  unfold Session.exec
  split
  · exact h
  · cases d with
    | answered => exact hinv s.connClosed
    | notSent => exact h
    | lost reached =>
      cases reached with
      | false => exact ⟨h.before, fun _ => .inl rfl, h.commits⟩
      | true => exact hinv true

theorem exec_commitQuery (s : Session σ) (d : Fate) (c : Command σ) :
    (s.exec d c).2.commitQuery = s.commitQuery := by
  unfold Session.exec
  split
  · rfl
  · cases d <;> rfl

theorem Inv.call (h : Inv data s) (d : Fate) (c : Command σ) : Inv data (s.call d c).2 := by
  cases hclosed : s.closed with
  | true => rwa [call_of_closed hclosed]
  | false =>
    -- A transaction that is closed is at its end: the server's state settles the rest.
    have hend (t : Session σ) (ht : t.closed = true) (hq : t.commitQuery = s.commitQuery)
        (hset : t.connClosed = true ∨ t.server.inTx = none) : Inv data t :=
      ⟨fun hc => by simp [ht] at hc, fun _ => hset, hq.trans h.commits⟩
    have hanswer {c : Command σ} {r : Bool} (hc : ∀ f, c ≠ .statement f)
        (hr : (s.exec d c).1 = some r) :
        (s.exec d c).2.server.inTx = none := (exec_answered hr).2 ▸ s.server.exec_control hc
    rw [Session.call, if_neg (by simp [hclosed]), sent_eq h.commits]
    dsimp only
    split
    · exact h.exec_statement hclosed d _
    · next fails _ =>
      refine hend _ rfl (exec_commitQuery s d _) ?_
      cases (s.exec d (.commit fails)).2.server.inTx with
      | none => exact .inr rfl
      | some t => exact .inl (Bool.or_true _)
    · next hr => exact hend _ rfl (exec_commitQuery s d _) (.inr (hanswer (fun _ h => by cases h) hr))
    · exact hend _ rfl (exec_commitQuery s d _) (.inl rfl)
    · next hr => exact hend _ rfl (exec_commitQuery s d _) (.inr (hanswer (fun _ h => by cases h) hr))

theorem run_inv : Inv data (run data none calls) :=
  List.foldlRecOn calls _ ⟨fun _ => ⟨rfl, rfl⟩, fun h => (by cases h), rfl⟩
    fun _ h c _ => h.call c.1 c.2

theorem Inv.commit_nil (h : Inv data s) (hnil : (s.call d (.commit fails)).1 = none) :
    ∃ result, s.server.inTx = some (some result) ∧
    (s.call d (.commit fails)).2.server = ⟨result, none⟩ := by
  cases hclosed : s.closed with
  | true => simp [call_of_closed hclosed] at hnil
  | false =>
    obtain ⟨t, ht⟩ := Option.isSome_iff_exists.mp (h.before hclosed).2
    rw [Session.call, if_neg (by simp [hclosed]), sent_eq h.commits] at hnil ⊢
    cases hr : (s.exec d (.commit fails)).1 with
    | none => simp [hr] at hnil
    | some r =>
      obtain ⟨hreply, hserver⟩ := exec_answered hr
      simp only [hr] at hnil ⊢
      rw [hserver]
      cases t <;> cases fails <;> simp_all [Server.exec]

/-- Whatever is called on a transaction without a `CommitQuery`, in whatever order: nothing is
committed before the transaction is closed, and then the server has ended it or the connection is
closed. `Commit` returns nil only if the server has committed. -/
theorem run_settles (data : σ) (calls : List (Fate × Command σ)) :
    Inv data (run data none calls) ∧ ∀ d fails,
    ((run data none calls).call d (.commit fails)).1 = none →
      ∃ result, (run data none calls).server.inTx = some (some result) ∧
        ((run data none calls).call d (.commit fails)).2.server = ⟨result, none⟩ :=
  ⟨run_inv, fun _ _ => run_inv.commit_nil⟩

theorem call_control_closed (hc : ∀ f, c ≠ .statement f) : (s.call d c).2.closed = true := by
  rw [Session.call]
  split
  · assumption
  · dsimp only
    split
    · exact absurd rfl (hc _)
    all_goals rfl

theorem deferredRollback_eq (d : Fate) (err : Option TxError) (s : Session σ) :
    (deferredRollback d err s).2 = (s.call d .rollback).2 ∧
    ((deferredRollback d err s).1 = none → err = none) := by
  unfold deferredRollback
  split
  · exact ⟨rfl, id⟩
  · exact ⟨rfl, id⟩
  · next hne _ => exact ⟨rfl, fun h => absurd h hne⟩

/-- `BeginFunc` leaves no transaction open on a connection that can be used, and returns nil only if
the callback did and the server has committed what it did. -/
theorem beginFuncExec_settles (data : σ) (calls : List (Fate × Command σ)) (fails : Bool)
    (d d' : Fate) (o : Outcome) :
    let r := beginFuncExec (run data none calls) fails d d' o
    (r.2.connClosed = true ∨ r.2.server.inTx = none) ∧ (r.1 = none → o = .returnsNil ∧
      ∃ result, (run data none calls).server.inTx = some (some result) ∧
      r.2.server = ⟨result, none⟩) := by
  have hinv : Inv data (run data none calls) := run_inv
  have hsettled {s : Session σ} (h : Inv data s) (d : Fate) (err : Option TxError) :
      (deferredRollback d err s).2.connClosed = true ∨
      (deferredRollback d err s).2.server.inTx = none := by
    rw [(deferredRollback_eq d err s).1]
    exact (h.call d .rollback).after (call_control_closed fun _ h => by cases h)
  cases o with
  | returnsNil =>
    refine ⟨hsettled (hinv.call d _) d' _, fun hnil => ⟨rfl, ?_⟩⟩
    rw [beginFuncExec, (deferredRollback_eq ..).1,
      call_of_closed (call_control_closed fun _ h => by cases h)]
    exact hinv.commit_nil ((deferredRollback_eq ..).2 hnil)
  | returnsError =>
    exact ⟨hsettled (hinv.call d _) d' _, fun hnil => by cases (deferredRollback_eq ..).2 hnil⟩
  | panics => exact ⟨hsettled hinv d _, fun hnil => by cases (deferredRollback_eq ..).2 hnil⟩

/-- The statements that were answered, up to the first `Commit` or `Rollback`. -/
def answered : List (Fate × Command σ) → List (σ → Option σ)
  | (.answered, .statement f) :: calls => f :: answered calls
  | (_, .statement _) :: calls => answered calls
  | _ => []

theorem foldl_server (h : s.closed = true ∨ s.connClosed = true) :
    (calls.foldl (fun s c => (s.call c.1 c.2).2) s).server = s.server := by
  refine (List.foldlRecOn (motive := fun t : Session σ => (t.closed = true ∨ t.connClosed = true) ∧
      t.server = s.server) calls _
    ⟨h, rfl⟩ fun t ht c _ => ?_).2
  obtain ⟨d, c⟩ := c
  unfold Session.call Session.exec
  cases c <;> cases hs : t.closed <;> simp_all

theorem foldl_atomic (t : Option σ) (hs : s = ⟨⟨data, some t⟩, false, false, none⟩) :
    (calls.foldl (fun s c => (s.call c.1 c.2).2) s).server.committed = data ∨
      (t.bind fun a => (answered calls).foldlM (fun a f => f a) a) =
        some (calls.foldl (fun s c => (s.call c.1 c.2).2) s).server.committed := by
  induction calls generalizing s t with
  | nil => exact .inl (by rw [hs]; rfl)
  | cons c calls ih =>
    subst hs
    obtain ⟨d, c⟩ := c
    rw [List.foldl_cons]
    cases c with
    | statement f =>
      cases d with
      | answered => exact (ih (t.bind f) rfl).imp_right (Option.bind_assoc ..).symm.trans
      | notSent => exact ih t rfl
      | lost reached =>
        rw [foldl_server (.inr rfl)]
        cases reached <;> exact .inl rfl
    | commit fails =>
      rw [foldl_server (.inl (call_control_closed fun _ h => by cases h))]
      rcases d with _ | _ | _ | _ <;> rcases t with _ | _ <;> cases fails <;>
        simp [Session.call, Session.sent, Session.exec, Server.exec, answered]
    | rollback =>
      rw [foldl_server (.inl (call_control_closed fun _ h => by cases h))]
      rcases d with _ | _ | _ | _ <;> exact .inl rfl

/-- What is committed is the data before the transaction, or what all of its statements have made of
it. -/
theorem run_atomic (data : σ) (calls : List (Fate × Command σ)) :
    (run data none calls).server.committed = data ∨
    (answered calls).foldlM (fun a f => f a) data = some (run data none calls).server.committed :=
  foldl_atomic (some data) rfl

end Pgx.Tx.Root
