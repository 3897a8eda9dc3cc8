import Pgx.Tx.Savepoints

/-!
# Nested transactions

A nested transaction is a savepoint on the server and a flag on the client. `Commit` and `Rollback`
set the flag whatever the server says. The savepoints of one root transaction are numbered by the
root, also those begun on a nested transaction.
-/
namespace Pgx.Tx

open Transaction

inductive SavepointName where
  /-- `sp_N` -/
  | sp (n : Int)
  /-- Any other name -/
  | user (name : String)
  deriving DecidableEq

/-- What becomes of an `Exec` before the server answers -/
inductive Delivery where
  | sent
  /-- An error without anything being sent: the context is done, or the connection is busy. -/
  | notSent
  /-- The connection is closed. -/
  | lost
  deriving DecidableEq

inductive TxError where
  /-- `ErrTxClosed` -/
  | txClosed
  /-- An error of `Conn.Exec` -/
  | exec
  /-- The callback's error -/
  | callback
  deriving DecidableEq

/-- `dbTx`; the `int64` would wrap after 2^63 savepoints. -/
structure DbTx where
  savepointNum : Int
  closed : Bool

/-- `dbSimulatedNestedTx` -/
structure NestedTx where
  savepointNum : Int
  closed : Bool

/-- A nested transaction that is not finished, and the server's data when it was begun -/
structure OpenTx (σ : Type) where
  tx : NestedTx
  began : σ

structure Session (σ : Type) where
  connClosed : Bool
  server : Transaction SavepointName σ
  tx : DbTx
  /-- The innermost first -/
  nested : List (OpenTx σ)

section Client

variable {σ : Type}

def Session.start (data : σ) : Session σ := ⟨false, ⟨false, data, []⟩, ⟨0, false⟩, []⟩

/-- `Conn.Exec` -/
def Session.exec (s : Session σ) (d : Delivery) (c : Command SavepointName σ) :
    Option TxError × Session σ :=
  if s.connClosed then (some .exec, s)
  else
    match d with
    | .notSent => (some .exec, s)
    | .lost => (some .exec, { s with connClosed := true })
    | .sent => (if (s.server.exec c).1 then none else some .exec,
      { s with server := (s.server.exec c).2 })

/-- `dbTx.Exec`, which a nested transaction's `Exec` calls -/
def Session.txExec (s : Session σ) (d : Delivery) (c : Command SavepointName σ) :
    Option TxError × Session σ :=
  if s.tx.closed then (some .txClosed, s) else s.exec d c

/-- `dbTx.Begin`, which a nested transaction's `Begin` calls -/
def Session.begin (s : Session σ) (d : Delivery) : Session σ :=
  if s.tx.closed then s
  else
    let s' := { s with tx := { s.tx with savepointNum := s.tx.savepointNum + 1 } }
    match s'.exec d (.savepoint (.sp s'.tx.savepointNum)) with
    | (some _, s'') => s''
    | (none, s'') => { s'' with nested := ⟨⟨s'.tx.savepointNum, false⟩, s.server.data⟩ :: s.nested }

/-- `dbSimulatedNestedTx.Commit` and `Rollback`, for the command that each of them sends -/
def NestedTx.finishBy (sp : NestedTx) (c : Command SavepointName σ) (d : Delivery) (s : Session σ) :
    Option TxError × NestedTx × Session σ :=
  if sp.closed then (some .txClosed, sp, s)
  else ((s.txExec d c).1, { sp with closed := true }, (s.txExec d c).2)

def NestedTx.commit (sp : NestedTx) : Delivery → Session σ → Option TxError × NestedTx × Session σ :=
  sp.finishBy (.release (.sp sp.savepointNum))

def NestedTx.rollback (sp : NestedTx) : Delivery → Session σ →
    Option TxError × NestedTx × Session σ :=
  sp.finishBy (.rollbackTo (.sp sp.savepointNum))

/-- What the callback of `BeginFunc` does in the end -/
inductive Outcome where
  | returnsNil
  | returnsError
  | panics
  deriving DecidableEq

/-- The deferred function: an error of the rollback other than `ErrTxClosed` replaces the one that
is returned. -/
def deferredRollback (d : Delivery) (err : Option TxError) (sp : NestedTx) (s : Session σ) :
    Option TxError × NestedTx × Session σ :=
  let (rollbackErr, sp, s) := sp.rollback d s
  (if rollbackErr.isSome ∧ rollbackErr ≠ some .txClosed then rollbackErr else err, sp, s)

/-- `beginFuncExec` behind the call of the callback; a panic goes on with the error of the deferred
function lost. -/
def beginFuncExec (d d' : Delivery) (sp : NestedTx) (s : Session σ) :
    Outcome → Option TxError × NestedTx × Session σ
  | .returnsNil =>
    let (err, sp, s) := sp.commit d s
    deferredRollback d' err sp s
  | .returnsError =>
    let (_, sp, s) := sp.rollback d s
    deferredRollback d' (some .callback) sp s
  | .panics => deferredRollback d (some .callback) sp s

inductive Finish where
  | commit
  | rollback
  | beginFunc (outcome : Outcome)
  deriving DecidableEq

/-- The call that finishes the transaction, with its error -/
def Finish.call (f : Finish) (d d' : Delivery) (sp : NestedTx) (s : Session σ) :
    Option TxError × NestedTx × Session σ :=
  match f with
  | .commit => sp.commit d s
  | .rollback => sp.rollback d s
  | .beginFunc outcome => beginFuncExec d d' sp s outcome

/-- The call is a `Commit`, or a `BeginFunc` that commits. -/
def Finish.Commits (f : Finish) : Prop := f = .commit ∨ f = .beginFunc .returnsNil

instance (f : Finish) : Decidable f.Commits := by
  unfold Finish.Commits
  infer_instance

/-- The call is a `Commit` or a `BeginFunc`, and it returned nil. -/
def Finish.Kept (f : Finish) (err : Option TxError) : Prop := f ≠ .rollback ∧ err = none

instance (f : Finish) (err : Option TxError) : Decidable (f.Kept err) := by
  unfold Finish.Kept
  infer_instance

inductive Op (σ : Type) where
  /-- A statement, through any of the transactions -/
  | statement (d : Delivery) (run : σ → Option σ)
  | savepoint (d : Delivery) (name : String)
  | release (d : Delivery) (name : String)
  | rollbackTo (d : Delivery) (name : String)
  | begin (d : Delivery)
  /-- The innermost transaction is finished. -/
  | finish (f : Finish) (d d' : Delivery)

def Session.step (s : Session σ) : Op σ → Session σ
  | .statement d run => (s.txExec d (.statement run)).2
  | .savepoint d name => (s.txExec d (.savepoint (.user name))).2
  | .release d name => (s.txExec d (.release (.user name))).2
  | .rollbackTo d name => (s.txExec d (.rollbackTo (.user name))).2
  | .begin d => s.begin d
  | .finish f d d' =>
    match s.nested with
    | [] => s
    | o :: rest => { (f.call d d' o.tx s).2.2 with nested := rest }

def Session.run (s : Session σ) (ops : List (Op σ)) : Session σ := ops.foldl Session.step s

/-- The savepoints of the transactions that are not finished -/
def Session.marks (s : Session σ) : List (SavepointName × σ) :=
    s.nested.map fun o => (.sp o.tx.savepointNum, o.began)

/-- A savepoint of the user's that a statement releases or rolls back to was made in the innermost
transaction. -/
def Session.Local (s : Session σ) : Op σ → Prop
  | .release _ name | .rollbackTo _ name =>
    ∀ data earlier, locate (.user name) s.server.savepoints = some (data, earlier) →
    s.marks.Sublist earlier
  | _ => True

def Session.LocalRun : Session σ → List (Op σ) → Prop
  | _, [] => True
  | s, op :: ops => s.Local op ∧ (s.step op).LocalRun ops

/-- The name is `sp_N`. -/
def IsSp (name : SavepointName) : Prop := ∃ n, name = .sp n

structure Session.Inv (s : Session σ) : Prop where
  rootOpen : s.tx.closed = false
  isOpen : ∀ o ∈ s.nested, o.tx.closed = false
  marked : s.marks.Sublist s.server.savepoints
  unhidden : Unhidden IsSp s.server.savepoints
  numbered : ∀ n data, (.sp n, data) ∈ s.server.savepoints → n ≤ s.tx.savepointNum

theorem start_inv (data : σ) : (Session.start data).Inv := by
  refine ⟨rfl, ?_, .slnil, .nil, ?_⟩ <;> simp [Session.start]

section

variable {s : Session σ} (h : s.Inv)

include h

/-- A change of the server that only forgets savepoints, none of them an open transaction's -/
theorem Session.Inv.forget {t : Transaction SavepointName σ}
    (hmarks : s.marks.Sublist t.savepoints) (hsub : t.savepoints.Sublist s.server.savepoints) :
    ({ s with server := t } : Session σ).Inv :=
  ⟨h.rootOpen, h.isOpen, hmarks, h.unhidden.sublist hsub, fun n data hmem =>
    h.numbered n data (hsub.subset hmem)⟩

theorem Session.Inv.finished {o : OpenTx σ} {rest : List (OpenTx σ)} (hs : s.nested = o :: rest) :
    ({ s with nested := rest } : Session σ).Inv := by
  have hmarks : (({ s with nested := rest } : Session σ).marks).Sublist s.marks := by
    simp only [Session.marks, hs, List.map_cons]
    exact List.sublist_cons_self ..
  refine ⟨h.rootOpen, fun o' ho' => h.isOpen o' ?_, hmarks.trans h.marked, h.unhidden, h.numbered⟩
  rw [hs]
  exact .tail _ ho'

theorem Session.Inv.exec (d : Delivery) {c : Command SavepointName σ}
    (hc : ({ s with server := (s.server.exec c).2 } : Session σ).Inv) : (s.exec d c).2.Inv := by
  unfold Session.exec
  split
  · exact h
  · cases d with
    | sent => exact hc
    | notSent => exact h
    | lost => exact ⟨h.rootOpen, h.isOpen, h.marked, h.unhidden, h.numbered⟩

theorem Session.Inv.txExec (d : Delivery) (c : Command SavepointName σ) :
    s.txExec d c = s.exec d c := by
  simp [Session.txExec, h.rootOpen]

/-- The innermost transaction's savepoint is on the server, behind those made after it. -/
theorem Session.Inv.located {o : OpenTx σ} {rest : List (OpenTx σ)} (hs : s.nested = o :: rest) :
    ∃ earlier, locate (.sp o.tx.savepointNum) s.server.savepoints = some (o.began, earlier) ∧
      (({ s with nested := rest } : Session σ).marks).Sublist earlier := by
  have hmarked := h.marked
  simp only [Session.marks, hs, List.map_cons] at hmarked
  exact locate_of_sublist ⟨_, rfl⟩ h.unhidden hmarked

end

section

variable {s : Session σ} (h : s.Inv)

include h

theorem Session.Inv.savepoint (name : SavepointName)
    (hnew : ∀ n, name = .sp n → s.tx.savepointNum < n) {num : Int} (hnum : s.tx.savepointNum ≤ num)
    (hle : ∀ n, name = .sp n → n ≤ num) :
    (({ s with server := { s.server with savepoints := (name, s.server.data) :: s.server.savepoints },
               tx := { s.tx with savepointNum := num } } : Session σ)).Inv := by
  refine ⟨h.rootOpen, h.isOpen, h.marked.trans (List.sublist_cons_self ..),
    List.pairwise_cons.mpr ⟨?_, h.unhidden⟩, ?_⟩
  · rintro ⟨name', data⟩ hmem ⟨n, hn⟩ heq
    have hlow := h.numbered n data (by rwa [← hn, heq])
    have := hnew n hn
    omega
  · intro n data hmem
    rcases List.mem_cons.mp hmem with heq | hmem
    · exact hle n (Prod.mk.inj heq).1.symm
    · exact Int.le_trans (h.numbered n data hmem) hnum

theorem Session.Inv.begin (d : Delivery) : (s.begin d).Inv := by
  have hnum : s.tx.savepointNum ≤ s.tx.savepointNum + 1 := by omega
  have hbumped :
      ({ s with tx := { s.tx with savepointNum := s.tx.savepointNum + 1 } } : Session σ).Inv :=
    ⟨h.rootOpen, h.isOpen, h.marked, h.unhidden, fun n data hmem =>
      Int.le_trans (h.numbered n data hmem) hnum⟩
  cases hclosed : s.connClosed with
  | true => simpa [Session.begin, Session.exec, hclosed, h.rootOpen] using hbumped
  | false =>
    cases d with
    | notSent => simpa [Session.begin, Session.exec, hclosed, h.rootOpen] using hbumped
    | lost =>
      simp only [Session.begin, Session.exec, hclosed, h.rootOpen, Bool.false_eq_true, if_false]
      exact ⟨rfl, hbumped.isOpen, hbumped.marked, hbumped.unhidden, hbumped.numbered⟩
    | sent =>
      cases haborted : s.server.aborted with
      | true =>
        have hexec : s.server.exec (.savepoint (.sp (s.tx.savepointNum + 1))) = (false, s.server) :=
          exec_of_aborted haborted (by simp)
        simpa [Session.begin, Session.exec, hclosed, hexec, h.rootOpen] using hbumped
      | false =>
        have hpushed :=
          h.savepoint (.sp (s.tx.savepointNum + 1)) (fun n hn => by cases hn; omega) hnum (by simp)
        simp only [Session.begin, Session.exec, hclosed, h.rootOpen, Bool.false_eq_true, if_false,
          exec_savepoint haborted]
        refine ⟨rfl, fun o ho => ?_, ?_, hpushed.unhidden, hpushed.numbered⟩
        · rcases List.mem_cons.mp ho with rfl | ho
          · rfl
          · exact h.isOpen o ho
        · exact h.marked.cons_cons _

theorem Session.Inv.control {c : Command SavepointName σ} {name : SavepointName}
    (hc : c = .release name ∨ c = .rollbackTo name)
    (hlocal : ∀ data earlier, locate name s.server.savepoints = some (data, earlier) →
      s.marks.Sublist earlier) :
    ({ s with server := (s.server.exec c).2 } : Session σ).Inv := by
  rcases exec_savepoints (t := s.server) hc with heq | ⟨data, earlier, hloc, hsub, hsup⟩
  · exact h.forget (heq ▸ h.marked) (heq ▸ .refl _)
  · exact h.forget ((hlocal data earlier hloc).trans hsub) hsup

/-- The command that finishes the innermost transaction keeps the savepoints of the others. -/
theorem Session.Inv.finish {o : OpenTx σ} {rest : List (OpenTx σ)} (hs : s.nested = o :: rest)
    {c : Command SavepointName σ} (hc : c = .release (.sp o.tx.savepointNum) ∨
      c = .rollbackTo (.sp o.tx.savepointNum))
    (d : Delivery) : ({ (s.exec d c).2 with nested := rest } : Session σ).Inv := by
  obtain ⟨earlier, hloc, hmarks⟩ := h.located hs
  have hrest := h.finished hs
  have hserver : ({ s with nested := rest, server := (s.server.exec c).2 } : Session σ).Inv :=
    hrest.control hc fun data earlier' hloc' => by
      rw [hloc] at hloc'
      cases hloc'
      exact hmarks
  unfold Session.exec
  split
  · exact hrest
  · cases d with
    | sent => exact hserver
    | notSent => exact hrest
    | lost => exact ⟨hrest.rootOpen, hrest.isOpen, hrest.marked, hrest.unhidden, hrest.numbered⟩

end

/-- The command of the call that reaches the connection: the flag is set after it, so there is only
one. -/
def Finish.command (f : Finish) (n : Int) : Command SavepointName σ :=
  if f.Commits then .release (.sp n) else .rollbackTo (.sp n)

/-- The error of the call, given that of its command -/
def Finish.error (f : Finish) (err : Option TxError) : Option TxError :=
  match f with
  | .commit | .rollback | .beginFunc .returnsNil => err
  | .beginFunc .returnsError => some .callback
  | .beginFunc .panics => if err.isSome then err else some .callback

theorem exec_error_ne_txClosed (s : Session σ) (d : Delivery) (c : Command SavepointName σ) :
    (s.exec d c).1 ≠ some .txClosed := by
  unfold Session.exec
  split
  · simp
  · cases d with
    | sent =>
      split <;> simp
    | notSent => simp
    | lost => simp

theorem call_eq (f : Finish) (d d' : Delivery) {sp : NestedTx} (h : sp.closed = false)
    {s : Session σ} (hroot : s.tx.closed = false) :
    f.call d d' sp s = (f.error (s.exec d (f.command sp.savepointNum)).1, { sp with closed := true },
      (s.exec d (f.command sp.savepointNum)).2) := by
  have hclosed : (s.exec d (.rollbackTo (.sp sp.savepointNum))).1 ≠ some .txClosed :=
    exec_error_ne_txClosed _ _ _
  have hexec : ∀ c, s.txExec d c = s.exec d c := fun c => by simp [Session.txExec, hroot]
  rcases f with _ | _ | outcome
  · simp [Finish.call, NestedTx.commit, NestedTx.finishBy, h, hexec, Finish.command,
      Finish.Commits, Finish.error]
  · simp [Finish.call, NestedTx.rollback, NestedTx.finishBy, h, hexec, Finish.command,
      Finish.Commits, Finish.error]
  · cases outcome <;>
      simp [Finish.call, beginFuncExec, NestedTx.commit, NestedTx.rollback, NestedTx.finishBy,
        deferredRollback, h, hexec, Finish.command, Finish.Commits, Finish.error, hclosed]

theorem Session.Inv.step {s : Session σ} (h : s.Inv) {op : Op σ} (hlocal : s.Local op) :
    (s.step op).Inv := by
  cases op with
  | statement d run =>
    have hsame : (s.server.exec (.statement run)).2.savepoints = s.server.savepoints := by
      simp only [Transaction.exec]
      split
      · rfl
      · split <;> rfl
    rw [Session.step, h.txExec]
    exact h.exec d (h.forget (hsame ▸ h.marked) (hsame ▸ .refl _))
  | savepoint d name =>
    rw [Session.step, h.txExec]
    refine h.exec d ?_
    cases haborted : s.server.aborted with
    | true =>
      rw [exec_of_aborted haborted (by simp)]
      exact h
    | false =>
      rw [exec_savepoint haborted]
      exact h.savepoint (.user name) (by simp) (Int.le_refl _) (by simp)
  | release d name =>
    rw [Session.step, h.txExec]
    exact h.exec d (h.control (.inl rfl) hlocal)
  | rollbackTo d name =>
    rw [Session.step, h.txExec]
    exact h.exec d (h.control (.inr rfl) hlocal)
  | begin d => exact h.begin d
  | finish f d d' =>
    unfold Session.step
    cases hs : s.nested with
    | nil => exact h
    | cons o rest =>
      have hopen := h.isOpen o (by rw [hs]; exact List.mem_cons_self ..)
      have hcommand : (f.command o.tx.savepointNum : Command SavepointName σ) = .release
          (.sp o.tx.savepointNum) ∨
          (f.command o.tx.savepointNum : Command SavepointName σ) = .rollbackTo
            (.sp o.tx.savepointNum) := by
        unfold Finish.command
        split
        · exact .inl rfl
        · exact .inr rfl
      simp only [call_eq f d d' hopen h.rootOpen]
      exact h.finish hs hcommand d

theorem run_inv {s : Session σ} (h : s.Inv) {ops : List (Op σ)} (hrun : s.LocalRun ops) :
    (s.run ops).Inv := by
  induction ops generalizing s with
  | nil => exact h
  | cons op ops ih => exact ih (h.step hrun.1) hrun.2

/-- The connection is closed, or the enclosing transaction is usable and has the effects of the
nested one exactly if a `Commit` or a `BeginFunc` returned nil. -/
def Settled (before : Session σ) (o : OpenTx σ) (f : Finish) (err : Option TxError)
    (after : Session σ) : Prop :=
  after.connClosed = true ∨
    after.server.aborted = false ∧ after.server.data =
      if f.Kept err then before.server.data else o.began

instance [DecidableEq σ] (before : Session σ) (o : OpenTx σ) (f : Finish) (err : Option TxError)
    (after : Session σ) :
    Decidable (Settled before o f err after) := by
  unfold Settled
  infer_instance

/-- The call's command is sent, and it is not a release in an aborted transaction; or nothing has to
be undone. -/
def Sound (s : Session σ) (o : OpenTx σ) (f : Finish) : Delivery → Prop
  | .lost => True
  | .sent => s.connClosed = true ∨ (f.Commits → s.server.aborted = false)
  | .notSent => s.connClosed = true ∨ s.server.aborted = false ∧ s.server.data = o.began

theorem error_not_kept (f : Finish) (err : TxError) : ¬ f.Kept (f.error (some err)) := by
  rcases f with _ | _ | (_ | _ | _) <;> simp [Finish.Kept, Finish.error]

theorem Finish.Commits.kept {f : Finish} (h : f.Commits) : f.Kept (f.error none) := by
  rcases h with rfl | rfl <;> simp [Finish.Kept, Finish.error]

theorem not_kept_of_not_commits {f : Finish} (h : ¬ f.Commits) (err : Option TxError) :
    ¬ f.Kept (f.error err) := by
  rcases f with _ | _ | (_ | _ | _) <;> cases err <;> simp_all
    [Finish.Kept, Finish.error, Finish.Commits]

/-- In every run, the innermost transaction is finished as it should be exactly if its command is
sent and is not a release in an aborted transaction. -/
theorem nested_settled_iff (data : σ) (ops : List (Op σ))
    (hrun : (Session.start data).LocalRun ops) (o : OpenTx σ)
    (rest : List (OpenTx σ)) (hopen : ((Session.start data).run ops).nested = o :: rest)
    (f : Finish) (d d' : Delivery) :
    Settled ((Session.start data).run ops) o f (f.call d d' o.tx ((Session.start data).run ops)).1
        (f.call d d' o.tx ((Session.start data).run ops)).2.2 ↔
      Sound ((Session.start data).run ops) o f d := by
  have hinv := run_inv (start_inv data) hrun
  generalize (Session.start data).run ops = s at hopen hinv
  have hclosed := hinv.isOpen o (by rw [hopen]; exact List.mem_cons_self ..)
  obtain ⟨earlier, hloc, -⟩ := hinv.located hopen
  rw [call_eq f d d' hclosed hinv.rootOpen]
  cases hconn : s.connClosed with
  | true =>
    have hexec : s.exec d (f.command o.tx.savepointNum) = (some .exec, s) := by
      simp [Session.exec, hconn]
    rw [hexec]
    exact iff_of_true (.inl hconn) (by cases d <;> simp [Sound, hconn])
  | false =>
    cases d with
    | lost => exact iff_of_true (.inl (by simp [Session.exec, hconn])) trivial
    | notSent =>
      have hexec : s.exec .notSent (f.command o.tx.savepointNum) = (some .exec, s) := by
        simp [Session.exec, hconn]
      rw [hexec]
      simp [Settled, Sound, hconn, error_not_kept]
    | sent =>
      by_cases hcommits : f.Commits
      · have hcommand : (f.command o.tx.savepointNum : Command SavepointName σ) = .release
            (.sp o.tx.savepointNum) :=
          if_pos hcommits
        cases haborted : s.server.aborted with
        | true =>
          have hserver : s.server.exec (.release (.sp o.tx.savepointNum)) = (false, s.server) :=
            Transaction.exec_of_aborted haborted (by simp)
          have hexec : s.exec .sent (f.command o.tx.savepointNum) = (some .exec, s) := by
            rw [hcommand, Session.exec, if_neg (by simp [hconn])]
            simp only [hserver]
            rfl
          rw [hexec]
          simp [Settled, Sound, hconn, haborted, hcommits]
        | false =>
          have hexec : s.exec .sent (f.command o.tx.savepointNum) =
              (none, { s with server := { s.server with savepoints := earlier } }) := by
            simp [Session.exec, hconn, hcommand, Transaction.exec, haborted, hloc]
          rw [hexec]
          simp [Settled, Sound, hconn, haborted, hcommits.kept]
      · have hcommand : (f.command o.tx.savepointNum : Command SavepointName σ) = .rollbackTo
            (.sp o.tx.savepointNum) :=
          if_neg hcommits
        have hexec : s.exec .sent (f.command o.tx.savepointNum) =
            (none, { s with server := ⟨false, o.began, (.sp o.tx.savepointNum, o.began) :: earlier⟩ }) := by
          simp [Session.exec, hconn, hcommand, Transaction.exec, hloc]
        rw [hexec]
        simp [Settled, Sound, hconn, hcommits, not_kept_of_not_commits hcommits]

end Client

def insertRow (n : Nat) : Op (List Nat) := .statement .sent fun rows => some (rows ++ [n])

def failingStatement : Op (List Nat) := .statement .sent fun _ => none

/-- The first transaction that is begun on an empty table, as it is finished after some statements
-/
def SettledAfter (ops : List (Op (List Nat))) (f : Finish) (d : Delivery) : Prop :=
  let s := (Session.start []).run ops
  Settled s ⟨⟨1, false⟩, []⟩ f (f.call d .sent ⟨1, false⟩ s).1 (f.call d .sent ⟨1, false⟩ s).2.2

instance (ops : List (Op (List Nat))) (f : Finish) (d : Delivery) :
    Decidable (SettledAfter ops f d) := by
  unfold SettledAfter
  infer_instance

/-- A row in a nested transaction that is committed -/
theorem committed_settled : SettledAfter [.begin .sent, insertRow 1] .commit .sent :=
  (nested_settled_iff [] [.begin .sent, insertRow 1] ⟨trivial, trivial, trivial⟩ ⟨⟨1, false⟩, []⟩
    [] rfl .commit .sent .sent).mpr
    (.inr fun _ => rfl)

/-- After a statement that failed, `Commit` and `BeginFunc` leave the enclosing transaction aborted.
A `Rollback` that is not sent does not undo the row. -/
theorem left_aborted : ¬ SettledAfter [.begin .sent, insertRow 1, failingStatement] .commit .sent ∧
    ¬ SettledAfter [.begin .sent, insertRow 1, failingStatement] (.beginFunc .returnsNil) .sent ∧
    ¬ SettledAfter [.begin .sent, insertRow 1] .rollback .notSent := by
  decide

end Pgx.Tx
