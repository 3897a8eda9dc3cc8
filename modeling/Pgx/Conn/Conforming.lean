import Pgx.Conn.Operations

/-!
# A server that follows the protocol

Every `Query` and every `Sync` is answered by one `ReadyForQuery`, which ends the
answer. What is in the answer before it is left open, and so is where in the
answer an error stands. A server may still owe the `ReadyForQuery` when it waits
for copy data, and when it breaks the connection.
-/
namespace Pgx.Conn

open Pgx.Go Pgx.Wire Pgx.Effect List

variable {l m : List Incoming}

/-- Messages that the server sends at any time, and failures to read one. -/
def Incoming.isAsync : Incoming → Bool
  | .message msg => msg.isAsync
  | .failure _ _ => true

/-- The number of `ReadyForQuery` messages. -/
def readyCount (l : List Incoming) : Nat := l.countP Incoming.isReady

/-- What follows the last `ReadyForQuery`. -/
def afterReady : List Incoming → List Incoming
  | [] => []
  | i :: l => if readyCount (i :: l) = 0 then i :: l else afterReady l

/-- Nothing but messages that the server sends at any time. -/
def AllAsync (l : List Incoming) : Prop := ∀ i ∈ l, i.isAsync = true

/-- A flush of the operations outside pipeline mode: one request at the end, or copy messages. -/
def Requests (msgs : List FrontendMessage) : Prop :=
  (∃ init last, msgs = init ++ [last] ∧ last.asks = true ∧ ∀ msg ∈ init, msg.asks = false) ∨
  (∀ msg ∈ msgs, msg.isCopy = true)

def askCount (msgs : List FrontendMessage) : Nat := msgs.countP FrontendMessage.asks

def sentAsks (wire : List Event) : Nat :=
  wire.countP fun
    | .sent msg => msg.asks
    | .received _ => false

/-- How many `ReadyForQuery` messages the driver has consumed. -/
def readySeen (wire : List Event) : Nat :=
  wire.countP fun
    | .sent _ => false
    | .received msg => msg.isReadyForQuery

structure Conforming (peer : Peer) (owed : List Event → Nat) : Prop where
  start : owed [] = 0
  received : ∀ wire msg, owed (wire ++ [.received msg]) = owed wire
  /-- One answer for each request. -/
  balance : ∀ wire msgs, Requests msgs →
    owed (wire ++ msgs.map .sent) + readyCount (peer wire msgs) = owed wire + askCount msgs
  /-- Nothing follows an answer. -/
  settled : ∀ wire msgs, Requests msgs → owed (wire ++ msgs.map .sent) = 0 →
    AllAsync (afterReady (peer wire msgs))

/-! ## Counting -/

@[simp] theorem readyCount_nil : readyCount [] = 0 := rfl

theorem readyCount_cons (i : Incoming) (l : List Incoming) :
    readyCount (i :: l) = readyCount l + if i.isReady then 1 else 0 := by
  simp [readyCount, countP_cons]

theorem readyCount_append (l m : List Incoming) :
    readyCount (l ++ m) = readyCount l + readyCount m := countP_append

theorem sentAsks_sent (wire : List Event) (msgs : List FrontendMessage) :
    sentAsks (wire ++ msgs.map .sent) = sentAsks wire + askCount msgs := by
  simp only [sentAsks, askCount, countP_append, countP_map]
  rfl

theorem readySeen_sent (wire : List Event) (msgs : List FrontendMessage) :
    readySeen (wire ++ msgs.map .sent) = readySeen wire := by
  simp [readySeen, countP_append, countP_map, Function.comp_def]

theorem afterReady_of_none (h : readyCount l = 0) : afterReady l = l := by
  cases l with
  | nil => rfl
  | cons i l => rw [afterReady, if_pos h]

theorem AllAsync.nil : AllAsync [] := nofun

theorem readyCount_of_allAsync (h : AllAsync l) : readyCount l = 0 := by
  unfold readyCount
  rw [countP_eq_zero]
  intro i hi hready
  have hasync := h i hi
  cases i with
  | message msg =>
    cases msg with
    | readyForQuery tx => cases hasync
    | _ => cases hready
  | failure timeout err => cases hready

theorem AllAsync.tail {i : Incoming} (h : AllAsync (afterReady (i :: l))) :
    AllAsync (afterReady l) := by
  unfold afterReady at h
  by_cases hr : readyCount (i :: l) = 0
  · rw [if_pos hr] at h
    have hl : readyCount l = 0 := by
      rw [readyCount_cons] at hr
      omega
    rw [afterReady_of_none hl]
    exact fun j hj => h j (mem_cons_of_mem i hj)
  · rwa [if_neg hr] at h

theorem afterReady_append_ready (h : readyCount m ≠ 0) : afterReady (l ++ m) = afterReady m := by
  induction l with
  | nil => rfl
  | cons i l ih =>
    have hne : readyCount (i :: (l ++ m)) ≠ 0 := by
      rw [readyCount_cons, readyCount_append]
      omega
    show afterReady (i :: (l ++ m)) = afterReady m
    rw [afterReady, if_neg hne, ih]

theorem afterReady_append_none (h : readyCount m = 0) : afterReady (l ++ m) = afterReady l ++ m := by
  induction l with
  | nil => exact afterReady_of_none h
  | cons i l ih =>
    show afterReady (i :: (l ++ m)) = afterReady (i :: l) ++ m
    have hsame : readyCount (i :: (l ++ m)) = readyCount (i :: l) := by
      rw [readyCount_cons, readyCount_cons, readyCount_append, h]
      rfl
    rw [afterReady, afterReady, hsame, ih]
    split <;> rfl

theorem AllAsync.afterReady_append (hl : readyCount m = 0 → AllAsync (afterReady l))
    (hm : AllAsync (afterReady m)) : AllAsync (afterReady (l ++ m)) := by
  by_cases hr : readyCount m = 0
  · rw [afterReady_append_none hr]
    rw [afterReady_of_none hr] at hm
    intro i hi
    rcases mem_append.mp hi with h | h
    · exact hl hr i h
    · exact hm i h
  · rw [afterReady_append_ready hr]
    exact hm

/-- Every request is answered by `answer` and a `ReadyForQuery`. -/
def answering (answer : List Incoming) : Peer := fun _ msgs =>
  (msgs.filter FrontendMessage.asks).flatMap fun _ => answer ++ [.message (.readyForQuery 73)]

theorem readyCount_answers {answer : List Incoming} (h : readyCount answer = 0)
    (msgs : List FrontendMessage) :
    readyCount (msgs.flatMap fun _ => answer ++ [.message (.readyForQuery 73)]) = msgs.length := by
  induction msgs with
  | nil => rfl
  | cons msg msgs ih =>
    rw [flatMap_cons, readyCount_append, readyCount_append, h, ih]
    show 0 + 1 + msgs.length = msgs.length + 1
    omega

theorem afterReady_answers (answer : List Incoming) (msgs : List FrontendMessage) :
    afterReady (msgs.flatMap fun _ => answer ++ [.message (.readyForQuery 73)]) = [] := by
  induction msgs with
  | nil => rfl
  | cons msg msgs ih =>
    rw [flatMap_cons]
    by_cases hr : readyCount (msgs.flatMap fun _ => answer ++ [.message (.readyForQuery 73)]) = 0
    · rw [afterReady_append_none hr, afterReady_append_ready (by decide)]
      rw [afterReady_of_none hr] at ih
      rw [ih]
      rfl
    · rw [afterReady_append_ready hr, ih]

theorem answering_conforming {answer : List Incoming} (h : readyCount answer = 0) :
    Conforming (answering answer) fun _ => 0 where
  start := rfl
  received := fun _ _ => rfl
  balance := by
    intro wire msgs _
    unfold answering askCount
    rw [readyCount_answers h, countP_eq_length_filter]
  settled := by
    intro wire msgs _ _
    unfold answering
    rw [afterReady_answers]
    exact .nil

end Pgx.Conn
