import Pgx.Conn.Pipeline

/-!
# How a server answers requests

The extended protocol, one request at a time: what the server may answer to each,
where in the answer an error can stand, and that it skips what follows an error
up to the next `Sync`. Notices, notifications and parameter changes may stand
anywhere, and what the server has answered may reach the driver later.
-/
namespace Pgx.Conn

open Pgx.Go Pgx.Wire Pgx.Effect

inductive Request where
  | prepare (name sql : Bytes) (paramOIDs : List UInt32)
  | deallocate (name : Bytes)
  | queryParams (sql : Bytes) (paramValues : List (Option Bytes)) (paramOIDs : List UInt32)
      (paramFormats resultFormats : List Int)
  | queryPrepared (stmtName : Bytes) (paramValues : List (Option Bytes))
      (paramFormats resultFormats : List Int)
  | queryStatement (statementDescription : StatementDescription) (paramValues : List (Option Bytes))
      (paramFormats resultFormats : List Int)
  deriving DecidableEq

/-- What the server is sent: requests, and the messages that stand between them. -/
inductive Item where
  | request (r : Request)
  | flushRequest
  | sync
  deriving DecidableEq

def Request.messages : Request → List FrontendMessage
  | prepare name sql paramOIDs => [.parse name sql paramOIDs, .describe 'S' name]
  | deallocate name => [.close 'S' name]
  | queryParams sql paramValues paramOIDs paramFormats resultFormats =>
    [.parse [] sql paramOIDs, .bind [] paramFormats paramValues resultFormats, .describe 'P' [],
      .execute]
  | queryPrepared stmtName paramValues paramFormats resultFormats =>
    [.bind stmtName paramFormats paramValues resultFormats, .describe 'P' [], .execute]
  | queryStatement sd paramValues paramFormats resultFormats =>
    [.bind sd.name paramFormats paramValues resultFormats, .execute]

def Item.messages : Item → List FrontendMessage
  | request r => r.messages
  | flushRequest => [.flush]
  | sync => [.sync]

def messagesOf (items : List Item) : List FrontendMessage := items.flatMap Item.messages

/-- Whether the portal is described before it is executed. -/
def Request.describes : Request → Bool
  | queryParams _ _ _ _ _ => true
  | queryPrepared _ _ _ _ => true
  | _ => false

/-! ## Outcomes -/

inductive Ending where
  | complete (commandTag : Bytes)
  | empty
  | failed (err : PgError)
  deriving DecidableEq

namespace Ending

def message : Ending → BackendMessage
  | complete commandTag => .commandComplete commandTag
  | empty => .emptyQueryResponse
  | failed err => .errorResponse err

def fails : Ending → Bool
  | failed _ => true
  | _ => false

/-- What `Close` of the reader returns. -/
def commandTag : Ending → Bytes
  | complete commandTag => commandTag
  | _ => []

def err : Ending → Option Error
  | failed err => some (.pgError err)
  | _ => none

end Ending

inductive Outcome where
  /-- Not looked at, after an error. -/
  | skipped
  | flushed
  /-- An error before there was a result, after these messages. -/
  | failed (before : List BackendMessage) (err : PgError)
  | prepared (paramOIDs : List UInt32) (fields : Option (List FieldDescription))
  | closed
  | executed (fields : Option (List FieldDescription)) (rows : List (List (Option Bytes)))
      (ending : Ending)
  /-- A `Sync`, which can fail when the transaction is committed. -/
  | synced (err : Option PgError) (txStatus : UInt8)
  deriving DecidableEq

def describeMessage : Option (List FieldDescription) → BackendMessage
  | some fields => .rowDescription fields
  | none => .noData

def Request.prelude (fields : Option (List FieldDescription)) : Request → List BackendMessage
  | queryParams _ _ _ _ _ => [.parseComplete, .bindComplete, describeMessage fields]
  | queryPrepared _ _ _ _ => [.bindComplete, describeMessage fields]
  | queryStatement _ _ _ _ => [.bindComplete]
  | _ => []

def Item.prelude (fields : Option (List FieldDescription)) : Item → List BackendMessage
  | request r => r.prelude fields
  | _ => []

def Item.reply (i : Item) : Outcome → List BackendMessage
  | .skipped => []
  | .flushed => []
  | .failed before err => before ++ [.errorResponse err]
  | .prepared paramOIDs fields =>
    [.parseComplete, .parameterDescription paramOIDs, describeMessage fields]
  | .closed => [.closeComplete]
  | .executed fields rows ending => i.prelude fields ++ rows.map .dataRow ++ [ending.message]
  | .synced err txStatus => err.toList.map .errorResponse ++ [.readyForQuery txStatus]

/-- The outcomes that an item can have when the server looks at it. -/
inductive Suits : Item → Outcome → Prop
  | prepared {name sql paramOIDs} (oids : List UInt32) (fields : Option (List FieldDescription)) :
      Suits (.request (.prepare name sql paramOIDs)) (.prepared oids fields)
  | prepareFailed {name sql paramOIDs} (before : List BackendMessage) (oids : List UInt32)
      (err : PgError) (h : before <+: [.parseComplete, .parameterDescription oids]) :
      Suits (.request (.prepare name sql paramOIDs)) (.failed before err)
  | closed {name} : Suits (.request (.deallocate name)) .closed
  | closeFailed {name} (err : PgError) : Suits (.request (.deallocate name)) (.failed [] err)
  | rows {r} (fields : List FieldDescription) (rows : List (List (Option Bytes))) (ending : Ending)
      (hr : r.describes = true) (h : ending ≠ .empty) :
      Suits (.request r) (.executed (some fields) rows ending)
  | noRows {r} (ending : Ending) (hr : r.describes = true) (h : ending.fails = false) :
      Suits (.request r) (.executed none [] ending)
  | queryFailed {r} (before : List BackendMessage) (err : PgError) (hr : r.describes = true)
      (h : before <+: r.prelude none) : Suits (.request r) (.failed before err)
  | statement {sd paramValues paramFormats resultFormats} (rows : List (List (Option Bytes)))
      (ending : Ending) (h : rows = [] ∨ ending ≠ .empty) (hf : rows ≠ [] ∨ ending.fails = false) :
      Suits (.request (.queryStatement sd paramValues paramFormats resultFormats))
        (.executed none rows ending)
  | statementFailed {sd paramValues paramFormats resultFormats} (before : List BackendMessage)
      (err : PgError) (h : before <+: [.bindComplete]) :
      Suits (.request (.queryStatement sd paramValues paramFormats resultFormats))
        (.failed before err)
  | flushed : Suits .flushRequest .flushed
  | synced (err : Option PgError) (txStatus : UInt8) : Suits .sync (.synced err txStatus)

def Outcome.fails : Outcome → Bool
  | failed _ _ => true
  | executed _ _ ending => ending.fails
  | _ => false

/-- From one state to another the server gives these outcomes to these items; the state is
whether it skips. -/
inductive Serves : Bool → List Item → List Outcome → Bool → Prop
  | nil {skip} : Serves skip [] [] skip
  | skipped {i is os skip'} (hi : i ≠ .sync) (h : Serves true is os skip') :
      Serves true (i :: is) (.skipped :: os) skip'
  | answered {skip i o is os skip'} (hskip : skip = false ∨ i = .sync) (ho : Suits i o)
      (h : Serves o.fails is os skip') : Serves skip (i :: is) (o :: os) skip'

def repliesOf (items : List Item) (outcomes : List Outcome) : List BackendMessage :=
  (List.zipWith Item.reply items outcomes).flatten

def Incoming.isNoise : Incoming → Bool
  | .message msg => msg.isAsync
  | .failure _ _ => false

/-- These messages are on the network, with others in between that belong to no answer. -/
def Carries (incoming : List Incoming) (msgs : List BackendMessage) : Prop :=
  incoming.filter (fun i => !i.isNoise) = msgs.map .message

structure ServerLog where
  skipping : Bool := false
  outcomes : List Outcome := []
  /-- Answers that were not sent yet. -/
  held : List BackendMessage := []

/-- The server takes these items, and this is what the driver can read then. -/
def ServerLog.Step (s : ServerLog) (items : List Item) (incoming : List Incoming)
    (s' : ServerLog) : Prop :=
  ∃ outcomes out, Serves s.skipping items outcomes s'.skipping ∧
    s'.outcomes = s.outcomes ++ outcomes ∧ Carries incoming out ∧
    s.held ++ repliesOf items outcomes = out ++ s'.held ∧
    (∀ init, items = init ++ [.sync] → s'.held = []) ∧
    ∀ init, items = init ++ [.flushRequest] → s'.held = []

/-- A server that answers as the protocol says, and what it has done when the network has seen
these events. -/
structure Served (peer : Peer) (log : List Event → ServerLog) : Prop where
  received : ∀ wire msg, log (wire ++ [.received msg]) = log wire
  sent : ∀ wire items, items ≠ [] →
    (log wire).Step items (peer wire (messagesOf items)) (log (wire ++ (messagesOf items).map .sent))

theorem Serves.length {skip skip' : Bool} {items : List Item} {outcomes : List Outcome}
    (h : Serves skip items outcomes skip') : items.length = outcomes.length := by
  induction h with
  | nil => rfl
  | skipped _ _ ih => rw [List.length_cons, List.length_cons, ih]
  | answered _ _ _ ih => rw [List.length_cons, List.length_cons, ih]

theorem Serves.append {a b c : Bool} {is js : List Item} {os ps : List Outcome}
    (h : Serves a is os b) (k : Serves b js ps c) : Serves a (is ++ js) (os ++ ps) c := by
  induction h with
  | nil => exact k
  | skipped hi _ ih => exact .skipped hi (ih k)
  | answered hs ho _ ih => exact .answered hs ho (ih k)

theorem repliesOf_append {is js : List Item} {os ps : List Outcome} (h : is.length = os.length) :
    repliesOf (is ++ js) (os ++ ps) = repliesOf is os ++ repliesOf js ps := by
  unfold repliesOf
  rw [List.zipWith_append h, List.flatten_append]

theorem repliesOf_cons (i : Item) (o : Outcome) (is : List Item) (os : List Outcome) :
    repliesOf (i :: is) (o :: os) = i.reply o ++ repliesOf is os := by
  unfold repliesOf
  rw [List.zipWith_cons_cons, List.flatten_cons]

end Pgx.Conn
