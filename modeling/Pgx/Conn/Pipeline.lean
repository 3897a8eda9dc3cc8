import Pgx.Conn.Operations

/-!
# Pipeline mode

Requests are queued and sent without waiting for their results, which are then
read in order. The pipeline keeps a queue of the requests whose results are to
come, and a second one with the descriptions of prepared statements.
-/
namespace Pgx.Conn

open Pgx.Go Pgx.Wire Pgx.Effect

namespace PipelineState

/-- Change the events at the end of the queue, back to the first that needs no change. -/
def markBack (marked : PipelineRequestEvent → Bool)
    (mark : PipelineRequestEvent → PipelineRequestEvent) :
    List PipelineRequestEvent → List PipelineRequestEvent
  | [] => []
  | e :: es => if marked e then e :: es else mark e :: markBack marked mark es

def registerSendingToServer (s : PipelineState) : PipelineState :=
  { s with requestEventQueue := (markBack (·.wasSentToServer)
      (fun e => { e with wasSentToServer := true }) s.requestEventQueue.reverse).reverse }

def registerFlushingBufferOnServer (s : PipelineState) : PipelineState :=
  { s with requestEventQueue := (markBack (·.beforeFlushOrSync)
      (fun e => { e with beforeFlushOrSync := true }) s.requestEventQueue.reverse).reverse }

def pushBackRequestType (s : PipelineState) (req : PipelineRequestType) : PipelineState :=
  match req with
  | .nil => s
  | .flushRequest => { s.registerFlushingBufferOnServer with lastRequestType := .flushRequest }
  | .syncRequest =>
    let pushed : PipelineState :=
      { s with requestEventQueue := s.requestEventQueue ++ [{ requestType := .syncRequest }] }
    { pushed.registerFlushingBufferOnServer with
      lastRequestType := .syncRequest
      expectedReadyForQueryCount := s.expectedReadyForQueryCount + 1 }
  | req =>
    { s with
      requestEventQueue := s.requestEventQueue ++ [{ requestType := req }]
      lastRequestType := req }

/-- After an error the requests up to the next `Sync` are dropped: the server skips them. -/
def extractFrom (pgErr : Option PgError) :
    List PipelineRequestEvent → PipelineRequestType × List PipelineRequestEvent × Option PgError
  | [] => (.nil, [], pgErr)
  | e :: es =>
    if !(e.wasSentToServer && e.beforeFlushOrSync) then (.nil, e :: es, pgErr)
    else
      let pgErr := if e.requestType = .syncRequest then none else pgErr
      if pgErr.isNone then (e.requestType, es, pgErr) else extractFrom pgErr es

def extractFrontRequestType (s : PipelineState) : PipelineRequestType × PipelineState :=
  let r := extractFrom s.pgErr s.requestEventQueue
  (r.1, { s with requestEventQueue := r.2.1, pgErr := r.2.2 })

def pushBackStatementData (s : PipelineState) (sd : StatementDescription)
    (resultFormats : List Int) : PipelineState :=
  { s with
    statementDescriptionsQueue := s.statementDescriptionsQueue ++ [sd]
    resultFormatsQueue := s.resultFormatsQueue ++ [resultFormats] }

def extractFrontStatementData (s : PipelineState) :
    (Option StatementDescription × List Int) × PipelineState :=
  ((s.statementDescriptionsQueue.head?, s.resultFormatsQueue.head?.getD []),
    { s with
      statementDescriptionsQueue := s.statementDescriptionsQueue.tail
      resultFormatsQueue := s.resultFormatsQueue.tail })

def handleReadyForQuery (s : PipelineState) : PipelineState :=
  { s with expectedReadyForQueryCount := s.expectedReadyForQueryCount - 1 }

def pendingSync (s : PipelineState) : Bool :=
  match s.requestEventQueue.getLast? with
  | some e => !(e.requestType = .syncRequest && e.wasSentToServer)
  | none => !(s.lastRequestType = .syncRequest || s.lastRequestType = .nil)

end PipelineState

/-! ## Sending -/

namespace Pipeline

def modifyPipeline (f : Pipeline → Pipeline) : Op Unit :=
  modify fun c => { c with pipeline := f c.pipeline }

def modifyState (f : PipelineState → PipelineState) : Op Unit :=
  modifyPipeline fun p => { p with state := f p.state }

/-- Queue the messages of a request, unless the pipeline is closed. -/
def sendRequest (msgs : List FrontendMessage)
    (register : PipelineState → PipelineState) : Op Unit := do
  let c ← get
  if c.pipeline.closed then pure ()
  else
    sendAll msgs
    modifyState register

def sendPrepare (name sql : Bytes) (paramOIDs : List UInt32) : Op Unit :=
  sendRequest [.parse name sql paramOIDs, .describe 'S' name] (·.pushBackRequestType .prepare)

def sendDeallocate (name : Bytes) : Op Unit :=
  sendRequest [.close 'S' name] (·.pushBackRequestType .deallocate)

def sendQueryParams (sql : Bytes) (paramValues : List (Option Bytes)) (paramOIDs : List UInt32)
    (paramFormats resultFormats : List Int) : Op Unit :=
  sendRequest [.parse [] sql paramOIDs, .bind [] paramFormats paramValues resultFormats,
    .describe 'P' [], .execute] (·.pushBackRequestType .queryParams)

def sendQueryPrepared (stmtName : Bytes) (paramValues : List (Option Bytes))
    (paramFormats resultFormats : List Int) : Op Unit :=
  sendRequest [.bind stmtName paramFormats paramValues resultFormats, .describe 'P' [], .execute]
    (·.pushBackRequestType .queryPrepared)

/-- The description is queued too, since no `Describe` is sent. -/
def sendQueryStatement (statementDescription : StatementDescription)
    (paramValues : List (Option Bytes)) (paramFormats resultFormats : List Int) : Op Unit :=
  sendRequest [.bind statementDescription.name paramFormats paramValues resultFormats, .execute]
    fun s => (s.pushBackRequestType .queryStatement).pushBackStatementData
      statementDescription resultFormats

def sendFlushRequest : Op Unit := sendRequest [.flush] (·.pushBackRequestType .flushRequest)

def sendPipelineSync : Op Unit := sendRequest [.sync] (·.pushBackRequestType .syncRequest)

def errClosed (p : Pipeline) : Error := p.err.getD (.new "pipeline closed")

def flush (env : Env) : Op Unit := do
  let c ← get
  if c.pipeline.closed then throw c.pipeline.errClosed
  else
    match ← outcome (Conn.flush env) with
    | .error err =>
      asyncClose
      unlock
      modifyPipeline fun p => { p with closed := true, err := some err }
      throw err
    | .ok _ => modifyState (·.registerSendingToServer)

def sync (env : Env) : Op Unit := do
  sendPipelineSync
  flush env

/-! ## Reading -/

/-- What `GetResults` returns; the reader is the `ResultReader` of the connection. -/
inductive Results where
  | statementDescription (psd : StatementDescription)
  | resultReader
  | closeComplete
  | pipelineSync
  deriving DecidableEq

def receiveStep (_ : Unit) (msg : BackendMessage) : Unit ⊕ BackendMessage :=
  if msg.isAsync then .inl () else .inr msg

def receiveFailed {α : Type} (err : Error) : Op α := do
  modifyPipeline fun p => { p with err := some err }
  closeAndThrow err

def receiveLoop (env : Env) : Loop PgConn Error Unit BackendMessage :=
  readLoop (Conn.receiveMessage env) (receiveMessage_reads env) (fun _ => none) receiveFailed
    (fun u msg => pure (receiveStep u msg)) fun _ _ => .pure

def receiveMessage (env : Env) : Op BackendMessage := (receiveLoop env).run ()

def handleUnexpectedMessage {α : Type} (errStr : String) (msg : BackendMessage) : Op α := do
  let err := Error.errorf "pipeline: %s: received unexpected message type %T" [errStr, msg.typeName]
  modifyPipeline fun p => { p with err := some err }
  closeAndThrow err

def handleError {α : Type} (err : PgError) : Op α := do
  modifyState (·.handleError err)
  throw (.pgError err)

/-- The same where the source closes the `ResultReader` of the connection as well. -/
def handleErrorClosed {α : Type} (err : PgError) : Op α := do
  modifyState (·.handleError err)
  modifyReader fun rr => { rr with closed := true }
  throw (.pgError err)

def receiveParseComplete (env : Env) (errStr : String) : Op Unit := do
  match ← receiveMessage env with
  | .parseComplete => pure ()
  | .errorResponse err => handleError err
  | msg => handleUnexpectedMessage (errStr ++ " Parse") msg

def receiveBindComplete (env : Env) (errStr : String) : Op Unit := do
  match ← receiveMessage env with
  | .bindComplete => pure ()
  | .errorResponse err => handleError err
  | msg => handleUnexpectedMessage (errStr ++ " Bind") msg

def startReader (rr : ResultReader) : Op (Option Results) := do
  modifyReader fun _ => rr
  pure (some .resultReader)

def receiveCommandComplete (env : Env) (errStr : String) : Op (Option Results) := do
  match ← receiveMessage env with
  | .commandComplete commandTag =>
    startReader { commandTag, commandConcluded := true, closed := true }
  | .errorResponse err => handleErrorClosed err
  | msg => handleUnexpectedMessage (errStr ++ " CommandComplete") msg

def receiveDescribedResultReader (env : Env) (errStr : String) : Op (Option Results) := do
  match ← receiveMessage env with
  | .rowDescription fields => startReader { pipeline := true, fieldDescriptions := fields }
  | .noData => receiveCommandComplete env errStr
  | .errorResponse err => handleErrorClosed err
  | msg => handleUnexpectedMessage (errStr ++ " RowDescription or NoData") msg

def receiveStatementFields (env : Env) (paramOIDs : List UInt32) : Op (Option Results) := do
  match ← receiveMessage env with
  | .rowDescription fields =>
    pure (some (.statementDescription { name := [], sql := [], paramOIDs, fields }))
  | .noData => pure (some (.statementDescription { name := [], sql := [], paramOIDs, fields := [] }))
  | .errorResponse err => handleError err
  | msg => handleUnexpectedMessage "Prepare RowDescription" msg

def receiveStatementDescription (env : Env) : Op (Option Results) := do
  match ← receiveMessage env with
  | .parameterDescription paramOIDs => receiveStatementFields env paramOIDs
  | .errorResponse err => handleError err
  | msg => handleUnexpectedMessage "Prepare ParameterDescription" msg

def getResultsPrepare (env : Env) : Op (Option Results) := do
  receiveParseComplete env "Prepare"
  receiveStatementDescription env

def getResultsQueryParams (env : Env) : Op (Option Results) := do
  receiveParseComplete env "QueryParams"
  receiveBindComplete env "QueryParams"
  receiveDescribedResultReader env "QueryParams"

def getResultsQueryPrepared (env : Env) : Op (Option Results) := do
  receiveBindComplete env "QueryPrepared"
  receiveDescribedResultReader env "QueryPrepared"

/-- The first message of a result whose columns are known. -/
def startStatementResult (fieldDescriptions : List FieldDescription) (msg : BackendMessage) :
    Op (Option Results) :=
  match msg with
  | .dataRow values =>
    startReader (({ pipeline := true, fieldDescriptions } : ResultReader).preloadRowValues values)
  | .commandComplete commandTag =>
    startReader { commandTag, commandConcluded := true, closed := true, fieldDescriptions }
  | .errorResponse err => handleErrorClosed err
  | msg => handleUnexpectedMessage "QueryStatement" msg

def extractFrontStatementData : Op (Option StatementDescription × List Int) := do
  let c ← get
  modifyState fun s => s.extractFrontStatementData.2
  pure c.pipeline.state.extractFrontStatementData.1

/-- The description is taken off its queue once the statement was bound, whatever comes next. -/
def getResultsQueryStatement (env : Env) : Op (Option Results) := do
  receiveBindComplete env "QueryStatement"
  let msg ← receiveMessage env
  match ← extractFrontStatementData with
  | (none, _) =>
    throw (.new "BUG: missing statement description or result formats for QueryStatement")
  | (some sd, resultFormats) =>
    match combineFieldDescriptionsAndResultFormats sd.fields resultFormats with
    | .error err => throw err
    | .ok fieldDescriptions => startStatementResult fieldDescriptions msg

def getResultsDeallocate (env : Env) : Op (Option Results) := do
  match ← receiveMessage env with
  | .closeComplete => pure (some .closeComplete)
  | .errorResponse err => handleErrorClosed err
  | msg => handleUnexpectedMessage "Deallocate" msg

/-- An error in place of `ReadyForQuery`, which is still to come. -/
def putBackSync (s : PipelineState) : PipelineState :=
  { s with requestEventQueue :=
      { requestType := .syncRequest, wasSentToServer := true, beforeFlushOrSync := true } ::
        s.requestEventQueue }

def getResultsSync (env : Env) : Op (Option Results) := do
  match ← receiveMessage env with
  | .readyForQuery _ =>
    modifyState (·.handleReadyForQuery)
    pure (some .pipelineSync)
  | .errorResponse err =>
    modifyState putBackSync
    handleErrorClosed err
  | msg => handleUnexpectedMessage "Sync" msg

def extractFrontRequestType : Op PipelineRequestType := do
  let c ← get
  modifyState fun s => s.extractFrontRequestType.2
  pure c.pipeline.state.extractFrontRequestType.1

def getResultsOf (env : Env) : PipelineRequestType → Op (Option Results)
  | .nil => pure none
  | .prepare => getResultsPrepare env
  | .queryParams => getResultsQueryParams env
  | .queryPrepared => getResultsQueryPrepared env
  | .queryStatement => getResultsQueryStatement env
  | .deallocate => getResultsDeallocate env
  | .syncRequest => getResultsSync env
  | .flushRequest => throw (.new "BUG: pipelineFlushRequest should not be in request queue")

/-- What is left of the last result is read first. -/
def closeReader (env : Env) : Op Unit := do
  let c ← get
  if c.resultReader.closed then pure ()
  else
    match ← ResultReader.close env with
    | (_, some err) => throw err
    | (_, none) => pure ()

def getResults (env : Env) : Op (Option Results) := do
  closeReader env
  getResultsOf env (← extractFrontRequestType)

/-- The method `GetResults`, which is for users of the package. -/
def exportedGetResults (env : Env) : Op (Option Results) := do
  let c ← get
  if c.pipeline.closed then throw c.pipeline.errClosed
  else getResults env

end Pipeline

end Pgx.Conn
