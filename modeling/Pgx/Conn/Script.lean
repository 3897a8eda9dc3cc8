import Pgx.Conn.Replies

/-!
# A server that follows a script

A server that answers one message after the other. Every query returns the same
rows, and binding the statement of one name is refused. It follows the protocol,
whatever it is sent.
-/
namespace Pgx.Conn

open Pgx.Go Pgx.Wire List

structure Script where
  columns : List FieldDescription := []
  rows : List (List (Option Bytes)) := []
  commandTag : Bytes := []
  /-- The prepared statement that cannot be bound. -/
  refused : Bytes
  err : PgError
  named : refused ≠ []

/-- What the server keeps in mind between messages. -/
structure ScriptState where
  skipping : Bool := false
  outcomes : List Outcome := []
  /-- The statement that was bound last was refused. -/
  refusing : Bool := false
  /-- The portal was described. -/
  described : Bool := false

namespace Script

variable (t : Script)

/-- The end of an item, with its outcome and the answer that goes with it. -/
def conclude (σ : ScriptState) (o : Outcome) (answer : List BackendMessage) :
    ScriptState × List BackendMessage :=
  ({ skipping := o.fails, outcomes := σ.outcomes ++ [o] }, answer)

def skip (σ : ScriptState) : ScriptState × List BackendMessage :=
  ({ skipping := true, outcomes := σ.outcomes ++ [.skipped] }, [])

def execute (σ : ScriptState) : ScriptState × List BackendMessage :=
  if σ.skipping then skip σ
  else if σ.refusing then conclude σ (.failed [] t.err) [.errorResponse t.err]
  else conclude σ
    (.executed (if σ.described then some t.columns else none) t.rows (.complete t.commandTag))
    (t.rows.map .dataRow ++ [.commandComplete t.commandTag])

def take (σ : ScriptState) : FrontendMessage → ScriptState × List BackendMessage
  | .parse _ _ _ =>
    ({ σ with refusing := false, described := false }, if σ.skipping then [] else [.parseComplete])
  | .bind name _ _ _ =>
    ({ σ with refusing := name = t.refused, described := false },
      if σ.skipping || name = t.refused then [] else [.bindComplete])
  | .describe kind _ =>
    if kind = 'S' then
      if σ.skipping then skip σ
      else conclude σ (.prepared [] none) [.parameterDescription [], .noData]
    else
      ({ σ with described := true },
        if σ.skipping || σ.refusing then [] else [.rowDescription t.columns])
  | .execute => t.execute σ
  | .close _ _ =>
    if σ.skipping then skip σ
    else if σ.refusing then conclude σ (.failed [] t.err) [.errorResponse t.err]
    else conclude σ .closed [.closeComplete]
  | .flush => if σ.skipping then skip σ else ({ σ with outcomes := σ.outcomes ++ [.flushed] }, [])
  | .sync => conclude σ (.synced none 73) [.readyForQuery 73]
  | _ => (σ, [])

def takeAll (t : Script) : ScriptState → List FrontendMessage → ScriptState × List BackendMessage
  | σ, [] => (σ, [])
  | σ, msg :: msgs =>
    let first := t.take σ msg
    let rest := takeAll t first.1 msgs
    (rest.1, first.2 ++ rest.2)

def sentOf : List Event → List FrontendMessage :=
  filterMap fun
    | .sent msg => some msg
    | .received _ => none

def state (wire : List Event) : ScriptState := (t.takeAll {} (sentOf wire)).1

def peer : Peer := fun wire msgs => (t.takeAll (t.state wire) msgs).2.map .message

def log (wire : List Event) : ServerLog :=
  { skipping := (t.state wire).skipping, outcomes := (t.state wire).outcomes }

theorem takeAll_append (σ : ScriptState) (ms ns : List FrontendMessage) :
    t.takeAll σ (ms ++ ns) = ((t.takeAll (t.takeAll σ ms).1 ns).1,
      (t.takeAll σ ms).2 ++ (t.takeAll (t.takeAll σ ms).1 ns).2) := by
  induction ms generalizing σ with
  | nil => rfl
  | cons m ms ih =>
    rw [cons_append, takeAll, ih, takeAll]
    simp

attribute [local simp] Request.messages takeAll take execute conclude Item.reply Item.prelude
    Request.prelude
  describeMessage Ending.message in
/-- One item: it is skipped, or answered with an outcome that it can have. -/
theorem takeAll_item (σ : ScriptState) (i : Item) :
    ∃ o, (t.takeAll σ i.messages).1.outcomes = σ.outcomes ++ [o] ∧
      (t.takeAll σ i.messages).2 = i.reply o ∧
      ((σ.skipping = true ∧ i ≠ .sync ∧ o = .skipped ∧ (t.takeAll σ i.messages).1.skipping = true) ∨
        ((σ.skipping = false ∨ i = .sync) ∧ Suits i o ∧
          (t.takeAll σ i.messages).1.skipping = o.fails)) := by
  obtain ⟨skipping, outcomes, refusing, described⟩ := σ
  cases skipping with
  | true =>
    have hskip : ∀ j : Item, j ≠ .sync →
        (t.takeAll ⟨true, outcomes, refusing, described⟩ j.messages).1.outcomes = outcomes ++
          [.skipped] ∧
        (t.takeAll ⟨true, outcomes, refusing, described⟩ j.messages).2 = j.reply .skipped ∧
        (t.takeAll ⟨true, outcomes, refusing, described⟩ j.messages).1.skipping = true := by
      intro j hj
      cases j with
      | request r => cases r <;> exact ⟨rfl, rfl, rfl⟩
      | flushRequest => exact ⟨rfl, rfl, rfl⟩
      | sync => exact absurd rfl hj
    by_cases hi : i = .sync
    · subst hi
      exact ⟨.synced none 73, rfl, rfl, .inr ⟨.inr rfl, .synced none 73, rfl⟩⟩
    · obtain ⟨ho, hr, hs⟩ := hskip i hi
      exact ⟨.skipped, ho, hr, .inl ⟨rfl, hi, rfl, hs⟩⟩
  | false =>
    cases i with
    | request r =>
      suffices h : ∃ o, Suits (.request r) o ∧
          t.takeAll ⟨false, outcomes, refusing, described⟩ r.messages =
          conclude ⟨false, outcomes, refusing, described⟩ o ((Item.request r).reply o) by
        obtain ⟨o, ho, hall⟩ := h
        rw [Item.messages, hall]
        exact ⟨o, rfl, rfl, .inr ⟨.inl rfl, ho, rfl⟩⟩
      cases r with
      | prepare name sql paramOIDs => exact ⟨_, .prepared [] none, rfl⟩
      | deallocate name =>
        cases refusing with
        | true => exact ⟨_, .closeFailed t.err, rfl⟩
        | false => exact ⟨_, .closed, rfl⟩
      | queryParams sql paramValues paramOIDs paramFormats resultFormats =>
        have hne : [] ≠ t.refused := fun h => t.named h.symm
        exact ⟨_, .rows t.columns t.rows (.complete t.commandTag) rfl nofun, by simp [hne]⟩
      | queryPrepared stmtName paramValues paramFormats resultFormats =>
        by_cases hb : stmtName = t.refused
        · exact ⟨_, .queryFailed [] t.err rfl nil_prefix, by simp [hb]⟩
        · exact ⟨_, .rows t.columns t.rows (.complete t.commandTag) rfl nofun, by simp [hb]⟩
      | queryStatement sd paramValues paramFormats resultFormats =>
        by_cases hb : sd.name = t.refused
        · exact ⟨_, .statementFailed [] t.err nil_prefix, by simp [hb]⟩
        · exact ⟨_, .statement t.rows (.complete t.commandTag) (.inr nofun) (.inr rfl), by simp [hb]⟩
    | flushRequest => exact ⟨.flushed, rfl, rfl, .inr ⟨.inl rfl, .flushed, rfl⟩⟩
    | sync => exact ⟨.synced none 73, rfl, rfl, .inr ⟨.inl rfl, .synced none 73, rfl⟩⟩

theorem takeAll_items (σ : ScriptState) (items : List Item) : ∃ os,
    Serves σ.skipping items os (t.takeAll σ (messagesOf items)).1.skipping ∧
      (t.takeAll σ (messagesOf items)).1.outcomes = σ.outcomes ++ os ∧
      (t.takeAll σ (messagesOf items)).2 = repliesOf items os := by
  induction items generalizing σ with
  | nil => exact ⟨[], .nil, (append_nil _).symm, rfl⟩
  | cons i is ih =>
    obtain ⟨o, ho, hreply, hcase⟩ := t.takeAll_item σ i
    obtain ⟨os, hserves, hos, hreplies⟩ := ih (t.takeAll σ i.messages).1
    have hall : t.takeAll σ (messagesOf (i :: is)) =
        ((t.takeAll (t.takeAll σ i.messages).1 (messagesOf is)).1,
          (t.takeAll σ i.messages).2 ++ (t.takeAll (t.takeAll σ i.messages).1 (messagesOf is)).2) :=
      t.takeAll_append σ i.messages (messagesOf is)
    refine ⟨o :: os, ?_, ?_, ?_⟩
    · rw [hall]
      rcases hcase with ⟨hs, hi, rfl, hs'⟩ | ⟨hs, hsuits, hs'⟩
      · rw [hs'] at hserves
        rw [hs]
        exact .skipped hi hserves
      · rw [hs'] at hserves
        exact .answered hs hsuits hserves
    · rw [hall, hos, ho, append_assoc]
      rfl
    · rw [hall, hreply, hreplies]
      rfl

theorem take_not_async (σ : ScriptState) (msg : FrontendMessage) :
    ∀ m ∈ (t.take σ msg).2, m.isAsync = false := by
  obtain ⟨skipping, outcomes, refusing, described⟩ := σ
  intro m hm
  cases msg with
  | parse name sql paramOIDs =>
    cases skipping <;> simp_all [take, BackendMessage.isAsync]
  | bind name formats params results =>
    by_cases hn : name = t.refused <;> cases skipping <;> simp_all [take, BackendMessage.isAsync]
  | describe kind name =>
    by_cases hk : kind = 'S'
    · cases skipping <;> simp [take, skip, conclude, hk] at hm
      rcases hm with rfl | rfl <;> rfl
    · cases skipping <;> cases refusing <;> simp_all [take, BackendMessage.isAsync]
  | execute =>
    cases skipping <;> cases refusing <;> simp_all
      [take, execute, skip, conclude, BackendMessage.isAsync]
    rcases hm with ⟨values, -, rfl⟩ | rfl <;> rfl
  | close kind name =>
    cases skipping <;> cases refusing <;> simp_all [take, skip, conclude, BackendMessage.isAsync]
  | flush => cases skipping <;> simp_all [take, skip]
  | sync => simp_all [take, conclude, BackendMessage.isAsync]
  | _ => cases hm

theorem takeAll_not_async (σ : ScriptState) (msgs : List FrontendMessage) :
    ∀ m ∈ (t.takeAll σ msgs).2, m.isAsync = false := by
  induction msgs generalizing σ with
  | nil => exact nofun
  | cons msg msgs ih =>
    intro m hm
    rcases mem_append.mp hm with hm | hm
    · exact t.take_not_async σ msg m hm
    · exact ih _ m hm

theorem served : Served t.peer t.log where
  received wire msg := by
    have hsent : sentOf (wire ++ [.received msg]) = sentOf wire := by
      unfold sentOf
      rw [filterMap_append]
      exact append_nil _
    unfold log state
    rw [hsent]
  sent wire items _ := by
    obtain ⟨os, hserves, hos, hreplies⟩ := t.takeAll_items (t.state wire) items
    have hstate : t.state (wire ++ (messagesOf items).map .sent) =
        (t.takeAll (t.state wire) (messagesOf items)).1 := by
      have hsent : sentOf (wire ++ (messagesOf items).map .sent) = sentOf wire ++
          messagesOf items := by
        unfold sentOf
        rw [filterMap_append, filterMap_map]
        congr 1
        exact filterMap_some
      unfold state
      rw [hsent, takeAll_append]
    refine ⟨os, repliesOf items os, ?_, ?_, ?_, (append_nil _).symm, fun _ _ => rfl, fun _ _ => rfl⟩
    · unfold log
      rw [hstate]
      exact hserves
    · unfold log
      rw [hstate]
      exact hos
    · rw [← hreplies]
      refine filter_eq_self.mpr fun i hi => ?_
      obtain ⟨m, hm, rfl⟩ := mem_map.mp hi
      show (!m.isAsync) = true
      rw [t.takeAll_not_async _ _ m hm]
      rfl

/-- A connection to the server that has not been used. -/
def conn : PgConn := { peer := t.peer, inbox := [], status := .idle }

end Script

end Pgx.Conn
