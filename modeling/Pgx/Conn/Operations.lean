import Pgx.Conn.Reader

/-!
# The operations of a connection

Preparing, executing, batches and copies. An operation whose reader is returned
leaves that reader inside the connection. A call that is rejected before it has
the connection returns, in the source, a reader that is closed and holds the
error; here it throws the error.
-/
namespace Pgx.Conn

open Pgx.Go Pgx.Wire Pgx.Effect

/-- Successive calls of `Send`. -/
def sendAll (msgs : List FrontendMessage) : Op Unit :=
  modify fun c => { c with wbuf := c.wbuf ++ msgs }

def closeAndThrow {α : Type} (err : Error) : Op α := do
  asyncClose
  throw err

def flushOrClose (env : Env) : Op Unit := do
  match ← outcome (flush env) with
  | .error err => closeAndThrow err
  | .ok _ => pure ()

/-- The body of a function that unlocks the connection when it returns. -/
def deferUnlock {α : Type} (body : Op α) : Op α := do
  match ← outcome body with
  | .error err =>
    unlock
    throw err
  | .ok a =>
    unlock
    pure a

/-- The loops of the operations that close the connection when reading fails. -/
def operationLoop {ι β : Type} (env : Env) (step : ι → BackendMessage → Op (ι ⊕ β))
    (hstep : ∀ i msg, Reads 0 (step i msg)) : Loop PgConn Error ι β :=
  readLoop (receiveMessage env) (receiveMessage_reads env) (fun _ => none) closeAndThrow step hstep

structure Preparation where
  psd : StatementDescription
  parseComplete : Bool := false
  pgErr : Option PgError := none

def prepareStep (s : Preparation) (msg : BackendMessage) : Preparation ⊕ Preparation :=
  match msg with
  | .parseComplete => .inl { s with parseComplete := true }
  | .parameterDescription paramOIDs => .inl { s with psd := { s.psd with paramOIDs } }
  | .rowDescription fields => .inl { s with psd := { s.psd with fields } }
  | .errorResponse err => .inl { s with pgErr := some err }
  | .readyForQuery _ => .inr s
  | _ => .inl s

def prepareLoop (env : Env) : Loop PgConn Error Preparation Preparation :=
  operationLoop env (fun s msg => pure (prepareStep s msg)) fun _ _ => .pure

def prepare (env : Env) (name sql : Bytes) (paramOIDs : List UInt32) : Op StatementDescription := do
  lock
  deferUnlock do
    sendAll [.parse name sql paramOIDs, .describe 'S' name, .sync]
    flushOrClose env
    let s ← (prepareLoop env).run { psd := { name, sql, paramOIDs := [], fields := [] } }
    match s.pgErr with
    | some err => throw (.prepareError err s.parseComplete)
    | none => pure s.psd

def deallocateStep (_ : Unit) (msg : BackendMessage) : Op (Unit ⊕ Unit) :=
  match msg with
  | .errorResponse err => throw (.pgError err)
  | .readyForQuery _ => pure (.inr ())
  | _ => pure (.inl ())

theorem deallocateStep_reads (u : Unit) (msg : BackendMessage) : Reads 0 (deallocateStep u msg) := by
  cases msg with
  | errorResponse err => exact .throw
  | _ => exact .pure

def deallocateLoop (env : Env) : Loop PgConn Error Unit Unit :=
  operationLoop env deallocateStep deallocateStep_reads

def deallocate (env : Env) (name : Bytes) : Op Unit := do
  lock
  deferUnlock do
    sendAll [.close 'S' name, .sync]
    flushOrClose env
    (deallocateLoop env).run ()

def exec (env : Env) (sql : Bytes) : Op Unit := do
  lock
  modifyMulti fun _ => {}
  sendAll [.query sql]
  match ← outcome (flush env) with
  | .error err =>
    asyncClose
    modifyMulti fun mrr => { mrr with closed := true, err := some err }
    unlock
  | .ok _ => pure ()

/-- The reader of a command that was not started. -/
def ResultReader.reject (rr : ResultReader) (err : Error) : ResultReader :=
  { rr.concludeCommand [] (some err) with closed := true }

def maxUint16 : Nat := 65535

def execExtendedPrefix (paramValues : List (Option Bytes)) : Op Bool := do
  modifyReader fun _ => {}
  match ← outcome lock with
  | .error err =>
    modifyReader fun rr => rr.reject err
    pure false
  | .ok _ =>
    if paramValues.length > maxUint16 then
      modifyReader fun rr => rr.reject
        (.errorf "extended protocol limited to %v parameters" [toString maxUint16])
      unlock
      pure false
    else pure true

def execExtendedSuffix (env : Env) (statementDescription : Option StatementDescription)
    (resultFormats : List Int) : Op Unit := do
  if statementDescription.isNone then sendAll [.describe 'P' []] else pure ()
  sendAll [.execute, .sync]
  match ← outcome (flush env) with
  | .error err =>
    asyncClose
    modifyReader fun rr => rr.reject err
    unlock
  | .ok _ => ResultReader.readUntilRowDescription env statementDescription resultFormats

/-- The extended protocol, from the messages that come before the common ones. -/
def execExtended (env : Env) (paramValues : List (Option Bytes)) (msgs : List FrontendMessage)
    (statementDescription : Option StatementDescription) (resultFormats : List Int) : Op Unit := do
  if ← execExtendedPrefix paramValues then
    sendAll msgs
    execExtendedSuffix env statementDescription resultFormats
  else pure ()

def execParams (env : Env) (sql : Bytes) (paramValues : List (Option Bytes)) (paramOIDs : List UInt32)
    (paramFormats resultFormats : List Int) : Op Unit :=
  execExtended env paramValues
    [.parse [] sql paramOIDs, .bind [] paramFormats paramValues resultFormats] none []

def execPrepared (env : Env) (stmtName : Bytes) (paramValues : List (Option Bytes))
    (paramFormats resultFormats : List Int) : Op Unit :=
  execExtended env paramValues [.bind stmtName paramFormats paramValues resultFormats] none []

def execStatement (env : Env) (statementDescription : StatementDescription)
    (paramValues : List (Option Bytes)) (paramFormats resultFormats : List Int) : Op Unit :=
  execExtended env paramValues
    [.bind statementDescription.name paramFormats paramValues resultFormats]
    (some statementDescription) resultFormats

/-- The queued messages, in place of their encoding. -/
structure Batch where
  buf : List FrontendMessage := []
  statementDescriptions : List StatementDescription := []
  resultFormats : List (List Int) := []
  err : Option Error := none

namespace Batch

/-- Encode one message at the end of the buffer; after an error nothing is added. -/
def encode (env : Env) (msg : FrontendMessage) (batch : Batch) : Batch :=
  match batch.err with
  | some _ => batch
  | none =>
    match env.encodeError msg with
    | some err => { batch with buf := [], err := some err }
    | none => { batch with buf := batch.buf ++ [msg] }

def execPrepared (env : Env) (stmtName : Bytes) (paramValues : List (Option Bytes))
    (paramFormats resultFormats : List Int) (batch : Batch) : Batch :=
  ((batch.encode env (.bind stmtName paramFormats paramValues resultFormats)).encode env
    (.describe 'P' [])).encode env .execute

def execParams (env : Env) (sql : Bytes) (paramValues : List (Option Bytes)) (paramOIDs : List UInt32)
    (paramFormats resultFormats : List Int) (batch : Batch) : Batch :=
  (batch.encode env (.parse [] sql paramOIDs)).execPrepared env
    [] paramValues paramFormats resultFormats

def execStatement (env : Env) (statementDescription : StatementDescription)
    (paramValues : List (Option Bytes)) (paramFormats resultFormats : List Int)
    (batch : Batch) : Batch :=
  let batch := batch.encode env
    (.bind statementDescription.name paramFormats paramValues resultFormats)
  match batch.err with
  | some _ => batch
  | none =>
    { batch with
      statementDescriptions := batch.statementDescriptions ++ [statementDescription]
      resultFormats := batch.resultFormats ++ [resultFormats] }.encode env .execute

end Batch

/-- The `Sync` becomes part of the batch, which is returned as the call leaves it. -/
def execBatch (env : Env) (batch : Batch) : Op Batch := do
  match batch.err with
  | some err => throw err
  | none =>
    lock
    modifyMulti fun _ =>
      { statementDescriptions := batch.statementDescriptions, resultFormats := batch.resultFormats }
    match env.encodeError .sync with
    | some err =>
      modifyMulti fun mrr => { mrr with err := some err, closed := true }
      asyncClose
      pure { batch with buf := [], err := some err }
    | none =>
      sendAll (batch.buf ++ [.sync])
      match ← outcome (flush env) with
      | .error err =>
        modifyMulti fun mrr => { mrr with err := some err, closed := true }
        asyncClose
      | .ok _ => pure ()
      pure { batch with buf := batch.buf ++ [.sync] }

/-! ## Copies -/

/-- What an `io.Writer` answers to a write, given all that was written, this write included. -/
abbrev Writer := List Bytes → Option Error

structure Copied where
  written : List Bytes := []
  commandTag : Bytes := []
  pgErr : Option Error := none

def copyToStep (w : Writer) (s : Copied) (msg : BackendMessage) : Op (Copied ⊕ Copied) :=
  match msg with
  | .copyData data =>
    match w (s.written ++ [data]) with
    | some err => closeAndThrow err
    | none => pure (.inl { s with written := s.written ++ [data] })
  | .readyForQuery _ => do
    unlock
    pure (.inr s)
  | .commandComplete commandTag => pure (.inl { s with commandTag })
  | .errorResponse err => pure (.inl { s with pgErr := some (.pgError err) })
  | _ => pure (.inl s)

theorem copyToStep_reads (w : Writer) (s : Copied) (msg : BackendMessage) :
    Reads 0 (copyToStep w s msg) := by
  cases msg with
  | copyData data =>
    dsimp only [copyToStep]
    cases w (s.written ++ [data]) with
    | some err => exact fun _ => trivial
    | none => exact .pure
  | readyForQuery tx => exact unlock_reads.bind fun _ => .pure
  | _ => exact .pure

def copyToLoop (env : Env) (w : Writer) : Loop PgConn Error Copied Copied :=
  operationLoop env (copyToStep w) (copyToStep_reads w)

def copyTo (env : Env) (w : Writer) (sql : Bytes) : Op Copied := do
  lock
  sendAll [.query sql]
  match ← outcome (flush env) with
  | .error err =>
    asyncClose
    unlock
    throw err
  | .ok _ => (copyToLoop env w).run {}

/-- What happens next while the data is sent: the goroutine sends what it has read, or a
message has arrived from the server. -/
inductive CopyStep where
  | chunk (data : Bytes)
  | message

/-- The reader that is copied from, and how its goroutine is scheduled. -/
structure CopySource where
  steps : List CopyStep
  /-- The error that ends the reading, `none` for `io.EOF`. -/
  readErr : Option Error
  /-- What is still sent after a server error has ended the loop. -/
  late : Option Bytes

/-- A write that fails closes the network connection, so that the last message cannot be sent
either. -/
def sendChunk (env : Env) (data : Bytes) : Op Unit := do
  sendAll [.copyData data]
  flushOrClose env

/-- The data is sent until the source ends or the server reports an error. -/
def copyData (env : Env) : List CopyStep → Op (Option PgError)
  | [] => pure none
  | .chunk data :: steps => do
    sendChunk env data
    copyData env steps
  | .message :: steps => do
    match ← outcome (receiveMessage env) with
    | .error err => closeAndThrow err
    | .ok (.errorResponse err) => pure (some err)
    | .ok _ => copyData env steps

def copyFromStep (s : Copied) (msg : BackendMessage) : Copied ⊕ Copied :=
  match msg with
  | .readyForQuery _ => .inr s
  | .commandComplete commandTag => .inl { s with commandTag }
  | .errorResponse err => .inl { s with pgErr := some (.pgError err) }
  | _ => .inl s

def copyFromLoop (env : Env) : Loop PgConn Error Copied Copied :=
  operationLoop env (fun s msg => pure (copyFromStep s msg)) fun _ _ => .pure

/-- The last message of the copy: the server's error is not repeated to it. -/
def copyEnd (r : CopySource) (pgErr : Option PgError) : FrontendMessage :=
  match pgErr, r.readErr with
  | none, some err => .copyFail err
  | _, _ => .copyDone

def sendLate (env : Env) (r : CopySource) (pgErr : Option PgError) : Op Unit :=
  match pgErr, r.late with
  | some _, some data => sendChunk env data
  | _, _ => pure ()

def finishCopy (env : Env) (r : CopySource) (pgErr : Option PgError) : Op Copied := do
  sendAll [copyEnd r pgErr]
  flushOrClose env
  (copyFromLoop env).run { pgErr := pgErr.map .pgError }

def copyFrom (env : Env) (r : CopySource) (sql : Bytes) : Op Copied := do
  lock
  deferUnlock do
    sendAll [.query sql]
    flushOrClose env
    let pgErr ← copyData env r.steps
    sendLate env r pgErr
    finishCopy env r pgErr

def ping (env : Env) : Op (Option Error) := do
  exec env (ascii "-- ping")
  MultiResultReader.close env

/-- The method `ReceiveMessage`, which is for users of the package. -/
def exportedReceiveMessage (env : Env) : Op BackendMessage := do
  lock
  deferUnlock do
    match ← outcome (receiveMessage env) with
    | .error err => throw (.wrapf "receive message failed: %w" err)
    | .ok msg => pure msg

def notificationStep (_ : Unit) (msg : BackendMessage) : Unit ⊕ Unit :=
  match msg with
  | .notificationResponse _ _ _ => .inr ()
  | _ => .inl ()

def waitForNotificationLoop (env : Env) : Loop PgConn Error Unit Unit :=
  readLoop (receiveMessage env) (receiveMessage_reads env) (fun _ => none) throw
    (fun u msg => pure (notificationStep u msg)) fun _ _ => .pure

def waitForNotification (env : Env) : Op Unit := do
  lock
  deferUnlock ((waitForNotificationLoop env).run ())

/-- The connection is closed for its user; what is handed over is not modelled. -/
def hijack : Op Unit := do
  lock
  modify fun c => { c with status := .closed }

/-- The readers of the pipeline share the connection's `ResultReader`. -/
def startPipeline : Op Unit := do
  lock
  modify fun c => { c with resultReader := { closed := true }, pipeline := {} }

inductive Operation where
  | prepare (name sql : Bytes) (paramOIDs : List UInt32)
  | deallocate (name : Bytes)
  | exec (sql : Bytes)
  | execParams (sql : Bytes) (paramValues : List (Option Bytes)) (paramOIDs : List UInt32)
      (paramFormats resultFormats : List Int)
  | execPrepared (stmtName : Bytes) (paramValues : List (Option Bytes))
      (paramFormats resultFormats : List Int)
  | execStatement (statementDescription : StatementDescription) (paramValues : List (Option Bytes))
      (paramFormats resultFormats : List Int)
  | execBatch (batch : Batch)
  | copyTo (w : Writer) (sql : Bytes)
  | copyFrom (r : CopySource) (sql : Bytes)
  | ping
  | receiveMessage
  | waitForNotification
  | hijack
  | startPipeline

def Operation.run (env : Env) : Operation → Op Unit
  | prepare name sql paramOIDs => discard (Conn.prepare env name sql paramOIDs)
  | deallocate name => Conn.deallocate env name
  | exec sql => Conn.exec env sql
  | execParams sql paramValues paramOIDs paramFormats resultFormats =>
    Conn.execParams env sql paramValues paramOIDs paramFormats resultFormats
  | execPrepared stmtName paramValues paramFormats resultFormats =>
    Conn.execPrepared env stmtName paramValues paramFormats resultFormats
  | execStatement sd paramValues paramFormats resultFormats =>
    Conn.execStatement env sd paramValues paramFormats resultFormats
  | execBatch batch => discard (Conn.execBatch env batch)
  | copyTo w sql => discard (Conn.copyTo env w sql)
  | copyFrom r sql => discard (Conn.copyFrom env r sql)
  | ping => discard (Conn.ping env)
  | receiveMessage => discard (exportedReceiveMessage env)
  | waitForNotification => Conn.waitForNotification env
  | hijack => Conn.hijack
  | startPipeline => Conn.startPipeline

inductive ReaderCall where
  | nextResult
  | closeMultiResult
  | nextRow
  | closeResult
  | fieldDescriptions
  | values
  deriving DecidableEq

inductive Observation where
  | available (more : Bool)
  | error (err : Option Error)
  | result (commandTag : Bytes) (err : Option Error)
  | fields (fieldDescriptions : List FieldDescription)
  | row (values : List (Option Bytes))
  deriving DecidableEq

def ReaderCall.run (env : Env) : ReaderCall → Op Observation
  | nextResult => .available <$> MultiResultReader.nextResult env
  | closeMultiResult => .error <$> MultiResultReader.close env
  | nextRow => .available <$> ResultReader.nextRow env
  | closeResult => (fun r => .result r.1 r.2) <$> ResultReader.close env
  | fieldDescriptions => (fun c => .fields c.resultReader.fieldDescriptions) <$> get
  | values => (fun c => .row c.resultReader.rowValues) <$> get

end Pgx.Conn
