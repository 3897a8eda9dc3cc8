import Pgx.Go.Bytes

/-!
# Messages of the wire protocol

The decoded messages that the driver reads and writes, and the errors that its
functions return. Encoding and decoding are not part of these types: bytes that
do not decode reach the driver as a receive error.
-/
namespace Pgx.Wire

open Pgx.Go

/-- The part of a server error that the driver looks at. -/
structure PgError where
  severity : Bytes
  code : Bytes
  message : Bytes
  deriving DecidableEq, Repr

/-- A column of a result, as `RowDescription` gives it. -/
structure FieldDescription where
  name : Bytes
  tableOID : UInt32
  tableAttributeNumber : UInt16
  dataTypeOID : UInt32
  dataTypeSize : Int
  typeModifier : Int
  format : Int
  deriving DecidableEq, Repr

inductive BackendMessage where
  | authenticationOk
  | authenticationCleartextPassword
  | authenticationMD5Password (salt : Bytes)
  | authenticationGSS
  | authenticationGSSContinue (data : Bytes)
  | authenticationSASL (authMechanisms : List Bytes)
  | authenticationSASLContinue (data : Bytes)
  | authenticationSASLFinal (data : Bytes)
  | backendKeyData (processID : UInt32) (secretKey : Bytes)
  | bindComplete
  | closeComplete
  | commandComplete (commandTag : Bytes)
  | copyBothResponse
  | copyData (data : Bytes)
  | copyDone
  | copyInResponse
  | copyOutResponse
  | dataRow (values : List (Option Bytes))
  | emptyQueryResponse
  | errorResponse (err : PgError)
  | functionCallResponse
  | negotiateProtocolVersion (newestMinorProtocol : UInt32)
  | noData
  | noticeResponse (notice : PgError)
  | notificationResponse (pid : UInt32) (channel payload : Bytes)
  | parameterDescription (parameterOIDs : List UInt32)
  | parameterStatus (name value : Bytes)
  | parseComplete
  | portalSuspended
  | readyForQuery (txStatus : UInt8)
  | rowDescription (fields : List FieldDescription)
  deriving DecidableEq, Repr

namespace BackendMessage

def isReadyForQuery : BackendMessage → Bool
  | readyForQuery _ => true
  | _ => false

def isAsync : BackendMessage → Bool
  | noticeResponse _ => true
  | notificationResponse _ _ _ => true
  | parameterStatus _ _ => true
  | _ => false

/-- The name that `%T` prints. -/
def typeName : BackendMessage → String
  | authenticationOk => "*pgproto3.AuthenticationOk"
  | authenticationCleartextPassword => "*pgproto3.AuthenticationCleartextPassword"
  | authenticationMD5Password _ => "*pgproto3.AuthenticationMD5Password"
  | authenticationGSS => "*pgproto3.AuthenticationGSS"
  | authenticationGSSContinue _ => "*pgproto3.AuthenticationGSSContinue"
  | authenticationSASL _ => "*pgproto3.AuthenticationSASL"
  | authenticationSASLContinue _ => "*pgproto3.AuthenticationSASLContinue"
  | authenticationSASLFinal _ => "*pgproto3.AuthenticationSASLFinal"
  | backendKeyData _ _ => "*pgproto3.BackendKeyData"
  | bindComplete => "*pgproto3.BindComplete"
  | closeComplete => "*pgproto3.CloseComplete"
  | commandComplete _ => "*pgproto3.CommandComplete"
  | copyBothResponse => "*pgproto3.CopyBothResponse"
  | copyData _ => "*pgproto3.CopyData"
  | copyDone => "*pgproto3.CopyDone"
  | copyInResponse => "*pgproto3.CopyInResponse"
  | copyOutResponse => "*pgproto3.CopyOutResponse"
  | dataRow _ => "*pgproto3.DataRow"
  | emptyQueryResponse => "*pgproto3.EmptyQueryResponse"
  | errorResponse _ => "*pgproto3.ErrorResponse"
  | functionCallResponse => "*pgproto3.FunctionCallResponse"
  | negotiateProtocolVersion _ => "*pgproto3.NegotiateProtocolVersion"
  | noData => "*pgproto3.NoData"
  | noticeResponse _ => "*pgproto3.NoticeResponse"
  | notificationResponse _ _ _ => "*pgproto3.NotificationResponse"
  | parameterDescription _ => "*pgproto3.ParameterDescription"
  | parameterStatus _ _ => "*pgproto3.ParameterStatus"
  | parseComplete => "*pgproto3.ParseComplete"
  | portalSuspended => "*pgproto3.PortalSuspended"
  | readyForQuery _ => "*pgproto3.ReadyForQuery"
  | rowDescription _ => "*pgproto3.RowDescription"

end BackendMessage

/-- An error of the driver. Format operands stay apart from the format, so that
the quoting of `%q` need not be spelled out. -/
inductive Error where
  /-- Made by `errors.New`. -/
  | new (text : String)
  /-- Made by `fmt.Errorf` without a wrapped error. -/
  | errorf (format : String) (operands : List String)
  /-- Made by `fmt.Errorf` with a wrapped error. -/
  | wrapf (format : String) (err : Error)
  /-- Made by `fmt.Errorf` with a nil error to wrap. -/
  | wrapNil (format : String)
  | pgError (err : PgError)
  | prepareError (err : PgError) (parseComplete : Bool)
  | connLockError (status : String)
  /-- Reported by a read or a write of the network connection. -/
  | io (text : String)
  /-- Not returned: it unwinds every caller. -/
  | panic (text : String)
  deriving DecidableEq, Repr

def Error.isPanic : Error → Bool
  | .panic _ => true
  | _ => false

def Error.wrap (format : String) : Option Error → Error
  | some err => .wrapf format err
  | none => .wrapNil format

structure StatementDescription where
  name : Bytes
  sql : Bytes
  paramOIDs : List UInt32
  fields : List FieldDescription
  deriving DecidableEq, Repr

inductive FrontendMessage where
  | startupMessage (protocolVersion : UInt32) (parameters : List (Bytes × Bytes))
  | passwordMessage (password : Bytes)
  | saslInitialResponse (authMechanism : Bytes) (data : Bytes)
  | saslResponse (data : Bytes)
  | gssResponse (data : Bytes)
  | query (string : Bytes)
  | parse (name query : Bytes) (parameterOIDs : List UInt32)
  | bind (preparedStatement : Bytes) (parameterFormatCodes : List Int)
      (parameters : List (Option Bytes)) (resultFormatCodes : List Int)
  | describe (objectType : Char) (name : Bytes)
  | execute
  | close (objectType : Char) (name : Bytes)
  | copyData (data : Bytes)
  | copyDone
  | copyFail (message : Error)
  | flush
  | sync
  | terminate
  deriving DecidableEq, Repr

namespace FrontendMessage

/-- A request that is answered by a `ReadyForQuery`. -/
def asks : FrontendMessage → Bool
  | query _ => true
  | sync => true
  | _ => false

/-- Messages that are sent in the middle of the answer to a `Query`. -/
def isCopy : FrontendMessage → Bool
  | copyData _ => true
  | copyDone => true
  | copyFail _ => true
  | _ => false

end FrontendMessage

end Pgx.Wire
