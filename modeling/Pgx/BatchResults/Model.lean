import Pgx.Rows.BaseRows

/-!
# The results of a batch

`batchResults` reads the results of a batch from a `MultiResultReader`, `pipelineBatchResults` from
a `Pipeline`; `Close` runs the callbacks of the queries. The readers are given by what the server
has answered and they have not read yet. Callbacks are arbitrary code on the rows they are given.
-/
namespace Pgx.BatchResults

open Pgx.Go Pgx.Wire Pgx.Rows

inductive Fin where
  | complete (commandTag : Bytes)
  | error (err : PgError)
  deriving DecidableEq

inductive Reply where
  | command (commandTag : Bytes)
  /-- `EmptyQueryResponse` -/
  | empty
  | rows (rows : List Row) (fin : Fin)
  /-- An error before any result. -/
  | refused (err : PgError)
  deriving DecidableEq

def Reply.error : Reply → Option PgError
  | command _ => none
  | empty => none
  | rows _ (.complete _) => none
  | rows _ (.error err) => some err
  | refused err => some err

/-! ## Readers -/

/-- The `ResultReader` of the connection. -/
inductive Reader where
  | reading (rows : List Row) (fin : Fin)
  | concluded (commandTag : Bytes) (err : Option Error)
  deriving DecidableEq

namespace Reader

def conclude : Reader → Reader
  | reading _ (.complete tag) => concluded tag none
  | reading _ (.error err) => concluded [] (some (.pgError err))
  | concluded tag err => concluded tag err

def nextRow : Reader → Option Row × Reader
  | reading (row :: rows) fin => (some row, reading rows fin)
  | reading [] fin => (none, (reading [] fin).conclude)
  | concluded tag err => (none, concluded tag err)

def commandTag : Reader → Bytes
  | reading _ _ => []
  | concluded tag _ => tag

def err : Reader → Option Error
  | reading _ _ => none
  | concluded _ err => err

def isReading : Reader → Bool
  | reading _ _ => true
  | concluded _ _ => false

end Reader

/-- What `Pipeline.GetResults` returns for a batch. -/
inductive Results where
  | reader
  | sync
  deriving DecidableEq

structure Stream where
  reader : Reader
  /-- The answers that no reader has begun with. -/
  pending : List Reply
  /-- An error that is reported when the batch is committed. -/
  syncErr : Option PgError
  /-- `err` and `closed` of the `MultiResultReader`; of a pipeline, whether an error was handled,
  and whether the connection was closed. -/
  err : Option Error
  closed : Bool
  deriving DecidableEq

namespace Stream

/-- The error of an answer that has not been read. -/
def pendingErr (s : Stream) : Option Error :=
  ((s.pending.findSome? Reply.error).or s.syncErr).map .pgError

def setReader (s : Stream) (r : Reader) : Stream := { s with reader := r, err := s.err.or r.err }

/-- `ResultReader.Close` -/
def closeReader (s : Stream) : Stream := s.setReader s.reader.conclude

/-- `MultiResultReader.Close`: what the server reports on the way replaces an earlier error. -/
def multiClose (s : Stream) : Stream :=
  if s.closed then s
  else { s with
    pending := []
    syncErr := none
    err := ((if s.reader.isReading then s.reader.conclude.err else none).or s.pendingErr).or s.err
    closed := true }

/-- `MultiResultReader.NextResult`: a result that was not read to its end is met again. -/
def nextResult (s : Stream) : Bool × Stream :=
  if s.closed || s.err.isSome then (false, s)
  else
    match s.reader with
    | .reading (_ :: _) _ =>
      (false, { s with err := some (.errorf "unexpected DataRow message without preceding RowDescription" []) })
    | .reading [] (.complete tag) => (true, { s with reader := .concluded tag none })
    | .reading [] (.error err) =>
      (false, { s with reader := .concluded [] none, err := some (.pgError err) })
    | .concluded _ _ =>
      match s.pending with
      | .command tag :: rest => (true, { s with reader := .concluded tag none, pending := rest })
      | .empty :: rest => (true, { s with reader := .concluded [] none, pending := rest })
      | .rows rows fin :: rest => (true, { s with reader := .reading rows fin, pending := rest })
      | .refused err :: rest => (false, { s with pending := rest, err := some (.pgError err) })
      | [] =>
        match s.syncErr with
        | some err => (false, { s with syncErr := none, err := some (.pgError err) })
        | none => (false, { s with closed := true })

/-- The error of `handleUnexpectedMessage`; for a query that is sent with the types of its
parameters it names `QueryParams CommandComplete`. -/
def errEmptyQuery : Error :=
  .errorf "pipeline: %s: received unexpected message type %T"
    ["QueryStatement", "*pgproto3.EmptyQueryResponse"]

/-- The next answer in a pipeline. After an error the queries that are left are skipped; a
pipeline does not expect `EmptyQueryResponse`, and closes the connection. -/
def nextAnswer (s : Stream) : Except Error Results × Stream :=
  if s.closed then (.error (.new "conn closed"), s)
  else if s.err.isSome then (.ok .sync, s)
  else
    match s.pending with
    | .command tag :: rest => (.ok .reader, { s with reader := .concluded tag none, pending := rest })
    | .empty :: rest => (.error errEmptyQuery, { s with pending := rest, closed := true })
    | .rows rows fin :: rest => (.ok .reader, { s with reader := .reading rows fin, pending := rest })
    | .refused err :: rest =>
      (.error (.pgError err), { s with pending := rest, err := some (.pgError err) })
    | [] => (.ok .sync, s)

/-- `Pipeline.GetResults`: a reader that is still open is closed first. -/
def getResults (s : Stream) : Except Error Results × Stream :=
  if s.reader.isReading then
    match s.closeReader.reader.err with
    | some err => (.error err, s.closeReader)
    | none => s.closeReader.nextAnswer
  else s.nextAnswer

end Stream

/-- `baseRows`, with the reader it points to, if it has one. -/
structure RowsState where
  err : Option Error
  closed : Bool
  reader : Option Reader
  deriving DecidableEq

namespace RowsState

def close (st : RowsState) : RowsState :=
  if st.closed then st
  else
    { closed := true
      reader := st.reader.map Reader.conclude
      err := st.err.or (st.reader.bind fun r => r.conclude.err) }

def fatal (st : RowsState) (err : Error) : RowsState :=
  match st.err with
  | some _ => st
  | none => { st with err := some err }.close

def next (st : RowsState) : Option Row × RowsState :=
  if st.closed then (none, st)
  else
    match st.reader.map Reader.nextRow with
    | some (some row, r) => (some row, { st with reader := some r })
    | some (none, r) => (none, { st with reader := some r }.close)
    -- Rows without a reader are closed from the start.
    | none => (none, st)

def errNoRows : Error := .new "no rows in result set"

def errDriverBytes : Error := .errorf "cannot scan into *pgtype.DriverBytes from QueryRow" []

/-- `connRow.Scan`; `conv` gives the error of `baseRows.Scan`, and `driverBytes` says whether a
target is a `*pgtype.DriverBytes`. -/
def scanRow (driverBytes : Bool) (conv : Row → Option Error) (st : RowsState) :
    Except Error Row × RowsState :=
  match st.err with
  | some err => (.error err, st)
  | none =>
    if driverBytes then (.error errDriverBytes, st.close)
    else
      match st.next with
      | (none, st) => (.error (st.err.getD errNoRows), st)
      | (some row, st) =>
        let st := (match conv row with
          | some err => st.fatal err
          | none => st).close
        match st.err with
        | some err => (.error err, st)
        | none => (.ok row, st)

end RowsState

/-- A function that is given `Rows`. -/
inductive RowsFn where
  | ret (err : Option Error)
  | next (k : Option Row → RowsFn)
  /-- A `Scan` that fails. -/
  | scanFails (err : Error) (k : RowsFn)
  | askErr (k : Option Error → RowsFn)
  | close (k : RowsFn)

/-- A function that is given a `Row`. -/
inductive RowFn where
  | ret (err : Option Error)
  | scan (driverBytes : Bool) (conv : Row → Option Error) (k : Except Error Row → RowFn)

inductive Observed where
  | commandTag (tag : Bytes)
  | row (row : Option Row)
  | err (err : Option Error)
  | scanned (result : Except Error Row)
  deriving DecidableEq

/-- How a callback ends: what it has seen, what it returns, and the rows it leaves. -/
structure Returned where
  seen : List Observed
  err : Option Error
  rows : RowsState

def Returned.saw (o : Observed) (r : Returned) : Returned := { r with seen := o :: r.seen }

def RowsFn.run : RowsFn → RowsState → Returned
  | ret err, st => { seen := [], err := err, rows := st }
  | next k, st => ((k st.next.1).run st.next.2).saw (.row st.next.1)
  | scanFails e k, st => k.run (st.fatal e)
  | askErr k, st => ((k st.err).run st).saw (.err st.err)
  | close k, st => k.run st.close

def RowFn.run : RowFn → RowsState → Returned
  | ret err, st => { seen := [], err := err, rows := st }
  | scan driverBytes conv k, st =>
    let (result, st) := st.scanRow driverBytes conv
    ((k result).run st).saw (.scanned result)

/-- What `QueuedQuery.Query`, `QueryRow` and `Exec` set. -/
inductive Callback where
  | query (fn : RowsFn)
  | queryRow (fn : RowFn)
  | exec (fn : Bytes → Option Error)

/-- A call of a user's function: the place of its query in the batch, what it saw, what it returned.
-/
structure Call where
  index : Nat
  seen : List Observed
  err : Option Error
  deriving DecidableEq

/-! ## batchResults and pipelineBatchResults -/

inductive Impl where
  | multi
  | pipeline
  deriving DecidableEq

/-- The state of a `batchResults`; `lastErr` is that of the last rows of a `pipelineBatchResults`.
-/
structure BatchState where
  stream : Stream
  err : Option Error
  lastErr : Option Error
  deriving DecidableEq

def errUnexpectedResult : Error := .errorf "unexpected pipeline result: %T" ["*pgconn.PipelineSync"]

def errNoMoreResults : Error := .new "no more results in batch"

namespace BatchState

def multiExec (br : BatchState) : Except Error Bytes × BatchState :=
  match br.stream.nextResult with
  | (false, s) =>
    (.error (s.multiClose.err.getD errNoMoreResults), { br with stream := s.multiClose })
  | (true, s) =>
    let s := s.closeReader
    match s.reader.err with
    | some err => (.error err, { br with stream := s.multiClose, err := some err })
    | none => (.ok s.reader.commandTag, { br with stream := s })

def multiQuery (br : BatchState) : RowsState × BatchState :=
  match br.stream.nextResult with
  | (false, s) =>
    ({ err := some (s.multiClose.err.getD errNoMoreResults), closed := true, reader := none },
      { br with stream := s.multiClose })
  | (true, s) => ({ err := none, closed := false, reader := some s.reader }, { br with stream := s })

def pipelineExec (br : BatchState) : Except Error Bytes × BatchState :=
  match br.lastErr with
  | some err => (.error err, { br with err := some err })
  | none =>
    match br.stream.getResults with
    | (.error err, s) => (.error err, { br with stream := s, err := some err })
    | (.ok .sync, s) => (.error errUnexpectedResult, { br with stream := s })
    | (.ok .reader, s) =>
      let s := s.closeReader
      match s.reader.err with
      | some err => (.error err, { br with stream := s, err := some err })
      | none => (.ok s.reader.commandTag, { br with stream := s })

def pipelineQuery (br : BatchState) : RowsState × BatchState :=
  match br.lastErr with
  | some err => ({ err := some err, closed := true, reader := none }, { br with err := some err })
  | none =>
    match br.stream.getResults with
    | (.error err, s) =>
      ({ err := some err, closed := true, reader := none },
        { stream := s, err := some err, lastErr := some err })
    | (.ok .sync, s) =>
      ({ err := some errUnexpectedResult, closed := true, reader := none },
        { stream := s, err := some errUnexpectedResult, lastErr := some errUnexpectedResult })
    | (.ok .reader, s) =>
      ({ err := none, closed := false, reader := some s.reader },
        { br with stream := s, lastErr := none })

def exec (impl : Impl) (br : BatchState) : Except Error Bytes × BatchState :=
  match impl with
  | .multi => br.multiExec
  | .pipeline => br.pipelineExec

def query (impl : Impl) (br : BatchState) : RowsState × BatchState :=
  match impl with
  | .multi => br.multiQuery
  | .pipeline => br.pipelineQuery

/-- The rows that a callback has left; the connection has their reader. -/
def leave (br : BatchState) (st : RowsState) : BatchState :=
  { br with
    stream := match st.reader with
      | some r => br.stream.setReader r
      | none => br.stream
    lastErr := st.err }

/-- `Fn(br)`: the calls of the user's function, and the error it returns. -/
def runFn (impl : Impl) (i : Nat) (callback : Callback) (br : BatchState) :
    List Call × Option Error × BatchState :=
  match callback with
  | .query fn =>
    let (st, br) := br.query impl
    let r := fn.run st
    let st := r.rows.close
    ([{ index := i, seen := r.seen, err := r.err }], r.err.or st.err, br.leave st)
  | .queryRow fn =>
    let (st, br) := br.query impl
    let r := fn.run st
    ([{ index := i, seen := r.seen, err := r.err }], r.err, br.leave r.rows)
  | .exec fn =>
    match br.exec impl with
    | (.error err, br) => ([], some err, br)
    | (.ok tag, br) => ([{ index := i, seen := [.commandTag tag], err := fn tag }], fn tag, br)

/-- The loop of `Close` over the queries that are left. -/
def closeLoop (impl : Impl) (i : Nat) (br : BatchState) : List (Option Callback) → List Call
  | [] => []
  | q :: queries =>
    if br.err.isSome then []
    else
      match q with
      | none => closeLoop impl (i + 1) (br.exec impl).2 queries
      | some callback =>
        let (calls, err, br) := br.runFn impl i callback
        calls ++ closeLoop impl (i + 1) { br with err := err.or br.err } queries

end BatchState

/-- A batch that was sent, with the answers of the server. -/
def sent (replies : List Reply) (syncErr : Option PgError) : BatchState where
  stream :=
    { reader := .concluded [] none, pending := replies, syncErr := syncErr, err := none,
      closed := false }
  err := none
  lastErr := none

/-- The calls that `BatchResults.Close` makes. -/
def close (impl : Impl) (queries : List (Option Callback)) (replies : List Reply)
    (syncErr : Option PgError) :
    List Call :=
  (sent replies syncErr).closeLoop impl 0 queries

end Pgx.BatchResults
