import Pgx.Effect.Wp
import Pgx.Go.Map
import Pgx.Wire.Messages

/-!
# The connection

The state of a `PgConn`: the network connection with the server behind it, the
status that `lock` and `unlock` change, and the readers that live inside the
connection and are reused by every operation.
-/
namespace Pgx.Conn

open Pgx.Go Pgx.Wire Pgx.Effect

inductive Status where
  | uninitialized
  | connecting
  | closed
  | idle
  | busy
  deriving DecidableEq, Repr

/-- What one read of the network gives: a message, or a failure to read one. -/
inductive Incoming where
  | message (msg : BackendMessage)
  | failure (timeout : Bool) (err : Error)
  deriving DecidableEq

def Incoming.isReady : Incoming → Bool
  | message msg => msg.isReadyForQuery
  | failure _ _ => false

/-- What has gone over the network, as the driver sees it. -/
inductive Event where
  | sent (msg : FrontendMessage)
  | received (msg : BackendMessage)
  deriving DecidableEq

/-- The server: what it writes when the messages arrive, given all that went before. -/
abbrev Peer := List Event → List FrontendMessage → List Incoming

structure ResultReader where
  /-- Whether the pointer to the `MultiResultReader` of the connection is set. -/
  multiResultReader : Bool := false
  /-- Whether the pointer to the `Pipeline` of the connection is set. -/
  pipeline : Bool := false
  fieldDescriptions : List FieldDescription := []
  rowValues : List (Option Bytes) := []
  commandTag : Bytes := []
  preloaded : Bool := false
  commandConcluded : Bool := false
  closed : Bool := false
  err : Option Error := none
  deriving DecidableEq

structure MultiResultReader where
  /-- Whether `rr` points to the `ResultReader` of the connection. -/
  rr : Bool := false
  statementDescriptions : List StatementDescription := []
  resultFormats : List (List Int) := []
  closed : Bool := false
  err : Option Error := none
  deriving DecidableEq

inductive PipelineRequestType where
  | nil
  | prepare
  | queryParams
  | queryPrepared
  | queryStatement
  | deallocate
  | syncRequest
  | flushRequest
  deriving DecidableEq, Repr

structure PipelineRequestEvent where
  requestType : PipelineRequestType
  wasSentToServer : Bool := false
  beforeFlushOrSync : Bool := false
  deriving DecidableEq, Repr

structure PipelineState where
  requestEventQueue : List PipelineRequestEvent := []
  statementDescriptionsQueue : List StatementDescription := []
  resultFormatsQueue : List (List Int) := []
  lastRequestType : PipelineRequestType := .nil
  pgErr : Option PgError := none
  expectedReadyForQueryCount : Int := 0
  deriving DecidableEq

structure Pipeline where
  state : PipelineState := {}
  err : Option Error := none
  closed : Bool := false
  deriving DecidableEq

structure PgConn where
  peer : Peer
  /-- What the server has written and the driver has not read. -/
  inbox : List Incoming
  /-- What has been written and read so far, oldest first. -/
  wire : List Event := []
  /-- The write buffer of the frontend. -/
  wbuf : List FrontendMessage := []
  pid : UInt32 := 0
  secretKey : Bytes := []
  parameterStatuses : Map Bytes Bytes := ∅
  txStatus : UInt8 := 0
  status : Status := .uninitialized
  peekedMsg : Option BackendMessage := none
  resultReader : ResultReader := {}
  multiResultReader : MultiResultReader := {}
  pipeline : Pipeline := {}

/-- What the driver calls that is not part of it: the error handler of the
configuration, the network when it is written to, and the message encoder. -/
structure Env where
  onPgError : Option (PgError → Bool)
  write : List Event → List FrontendMessage → Option String
  /-- The error of a message that cannot be encoded. -/
  encodeError : FrontendMessage → Option Error := fun _ => none

/-- Writing succeeds, and no handler closes the connection. -/
def plainEnv : Env where
  onPgError := none
  write := fun _ _ => none

/-- Whether the error handler of the configuration closes the connection on this error. -/
def Env.closesOn (env : Env) (err : PgError) : Bool :=
  match env.onPgError with
  | none => false
  | some handler => !handler err

abbrev Op (α : Type) := EStateM Error PgConn α

/-- Run `x` and return its outcome; a panic passes on. -/
abbrev outcome {α : Type} (x : Op α) : Op (Except Error α) := attempt Error.isPanic x

/-- The connection after a call, whether it returned or failed. -/
def after {α : Type} (x : Op α) (c : PgConn) : PgConn :=
  match x c with
  | .ok _ d => d
  | .error _ d => d

/-- What holds after success and failure holds of the state left. -/
theorem after_of_wp {α : Type} {x : Op α} {c : PgConn} {P : PgConn → Prop}
    (h : wp x (fun _ => P) (fun _ => P) c) : P (after x c) := by
  unfold wp at h
  unfold after
  cases hx : x c with
  | ok a d =>
    rw [hx] at h
    exact h
  | error e d =>
    rw [hx] at h
    exact h

/-- The status is closed at once; the rest of the clean-up is not observable here. -/
def asyncClose : Op Unit := modify fun c => { c with status := .closed }

def errUnexpectedEOF : Error := .io "unexpected EOF"

/-- A server that has nothing more to say has closed the connection. -/
def peekMessage : Op BackendMessage := do
  let c ← get
  match c.peekedMsg with
  | some msg => pure msg
  | none =>
    match c.inbox with
    | [] =>
      asyncClose
      throw errUnexpectedEOF
    | .failure timeout err :: rest =>
      set { c with inbox := rest }
      -- Close on anything other than timeout error - everything else is fatal
      if timeout then pure () else asyncClose
      throw err
    | .message msg :: rest =>
      set { c with inbox := rest, peekedMsg := some msg }
      pure msg

/-- The effect of a message on the connection itself, before any reader sees it. -/
def noteMessage (env : Env) (msg : BackendMessage) : Op Unit :=
  match msg with
  | .readyForQuery txStatus => modify fun c => { c with txStatus := txStatus }
  | .parameterStatus name value =>
    modify fun c => { c with parameterStatuses := c.parameterStatuses.insert name value }
  | .errorResponse err =>
    match env.onPgError with
    | none => pure ()
    | some handler =>
      if handler err then pure ()
      else do
        modify fun c => { c with status := .closed }
        throw (.pgError err)
  | _ => pure ()

def receiveMessage (env : Env) : Op BackendMessage := do
  let c ← get
  if c.status = .closed then throw (.connLockError "conn closed")
  let msg ← peekMessage
  modify fun c => { c with peekedMsg := none, wire := c.wire ++ [.received msg] }
  noteMessage env msg
  pure msg

def send (msg : FrontendMessage) : Op Unit := modify fun c => { c with wbuf := c.wbuf ++ [msg] }

def writeBuffer (env : Env) : Op Unit := do
  let c ← get
  set { c with wbuf := [], wire := c.wire ++ c.wbuf.map Event.sent }
  match env.write c.wire c.wbuf with
  | some text => throw (.io text)
  | none => pure ()

/-- The buffer, unless it is empty, goes to the server, which answers. -/
def flush (env : Env) : Op Unit := do
  let c ← get
  match c.wbuf with
  | [] => pure ()
  | _ :: _ =>
    writeBuffer env
    modify fun d => { d with inbox := d.inbox ++ c.peer c.wire c.wbuf }

def lock : Op Unit := do
  let c ← get
  match c.status with
  | .busy => throw (.connLockError "conn busy")
  | .closed => throw (.connLockError "conn closed")
  | .uninitialized => throw (.connLockError "conn uninitialized")
  | _ => set { c with status := .busy }

def unlock : Op Unit := do
  let c ← get
  match c.status with
  | .busy => set { c with status := .idle }
  | .closed => pure ()
  | _ => throw (.panic "BUG: cannot unlock unlocked connection")

end Pgx.Conn
