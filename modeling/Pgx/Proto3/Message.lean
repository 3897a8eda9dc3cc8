import Pgx.Go.Bytes
import Pgx.Go.Map

/-!
# Messages as `pgproto3` has them

Every field that is encoded or decoded. Strings and byte slices are lists of bytes, so a nil slice
and an empty one are the same; where the protocol tells them apart, as for a NULL value, nil is
`none`.
-/
namespace Pgx.Proto3

open Pgx.Go

inductive DecodeError where
  | invalidMessageLen (messageType : String) (expectedLen actualLen : Nat)
  | invalidMessageFormat (messageType details : String)
  | new (text : String)
  | errorf (format : String) (operands : List Int)
  /-- `io.EOF` of a `bytes.Buffer` -/
  | eof
  deriving DecidableEq

structure Bind where
  destinationPortal : Bytes
  preparedStatement : Bytes
  parameterFormatCodes : List Int16
  parameters : List (Option Bytes)
  resultFormatCodes : List Int16
  deriving DecidableEq

/-- `Close` and `Describe` -/
structure ObjectName where
  objectType : UInt8
  name : Bytes
  deriving DecidableEq

structure Execute where
  portal : Bytes
  maxRows : UInt32
  deriving DecidableEq

structure FunctionCall where
  function : UInt32
  argFormatCodes : List UInt16
  arguments : List (Option Bytes)
  resultFormatCode : UInt16
  deriving DecidableEq

structure Parse where
  name : Bytes
  query : Bytes
  parameterOIDs : List UInt32
  deriving DecidableEq

structure SASLInitialResponse where
  authMechanism : Bytes
  data : Bytes
  deriving DecidableEq

/-- The messages that `Backend.Receive` returns. -/
inductive FrontendMessage where
  | bind (msg : Bind)
  | close (msg : ObjectName)
  | copyData (data : Bytes)
  | copyDone
  | copyFail (message : Bytes)
  | describe (msg : ObjectName)
  | execute (msg : Execute)
  | flush
  | functionCall (msg : FunctionCall)
  | gssResponse (data : Bytes)
  | parse (msg : Parse)
  | passwordMessage (password : Bytes)
  | query (string : Bytes)
  | saslInitialResponse (msg : SASLInitialResponse)
  | saslResponse (data : Bytes)
  | sync
  | terminate
  deriving DecidableEq

/-- The messages that `Backend.ReceiveStartupMessage` returns. -/
inductive StartupPacket where
  | startupMessage (protocolVersion : UInt32) (parameters : Map Bytes Bytes)
  | sslRequest
  | cancelRequest (processID : UInt32) (secretKey : Bytes)
  | gssEncRequest

/-! ## Backend messages -/

structure BackendKeyData where
  processID : UInt32
  secretKey : Bytes
  deriving DecidableEq

/-- `CopyBothResponse`, `CopyInResponse` and `CopyOutResponse` -/
structure CopyResponse where
  overallFormat : UInt8
  columnFormatCodes : List UInt16
  deriving DecidableEq

structure FieldDescription where
  name : Bytes
  tableOID : UInt32
  tableAttributeNumber : UInt16
  dataTypeOID : UInt32
  dataTypeSize : Int16
  typeModifier : Int32
  format : Int16
  deriving DecidableEq

structure NegotiateProtocolVersion where
  newestMinorProtocol : UInt32
  unrecognizedOptions : List Bytes
  deriving DecidableEq

structure NotificationResponse where
  pid : UInt32
  channel : Bytes
  payload : Bytes
  deriving DecidableEq

structure ParameterStatus where
  name : Bytes
  value : Bytes
  deriving DecidableEq

structure Salt where
  b0 : UInt8
  b1 : UInt8
  b2 : UInt8
  b3 : UInt8
  deriving DecidableEq

/-- The fields of an `ErrorResponse` that hold a text -/
inductive TextField where
  | severity | severityUnlocalized | code | message | detail | hint | internalQuery | where_
    | schemaName
  | tableName | columnName | dataTypeName | constraintName | file | routine
  deriving DecidableEq

/-- The fields of an `ErrorResponse` that hold a number -/
inductive NumberField where
  | position | internalPosition | line
  deriving DecidableEq

inductive ErrorField where
  | text (field : TextField)
  | number (field : NumberField)
  deriving DecidableEq

/-- `ErrorResponse`, and `NoticeResponse`; its known fields are looked up by name. -/
structure ErrorResponse where
  text : TextField → Bytes
  number : NumberField → Int32
  unknownFields : Map UInt8 Bytes

/-- The messages that `Frontend.Receive` returns. -/
inductive BackendMessage where
  | authenticationOk
  | authenticationCleartextPassword
  | authenticationMD5Password (salt : Salt)
  | authenticationGSS
  | authenticationGSSContinue (data : Bytes)
  | authenticationSASL (authMechanisms : List Bytes)
  | authenticationSASLContinue (data : Bytes)
  | authenticationSASLFinal (data : Bytes)
  | backendKeyData (msg : BackendKeyData)
  | bindComplete
  | closeComplete
  | commandComplete (commandTag : Bytes)
  | copyBothResponse (msg : CopyResponse)
  | copyData (data : Bytes)
  | copyDone
  | copyInResponse (msg : CopyResponse)
  | copyOutResponse (msg : CopyResponse)
  | dataRow (values : List (Option Bytes))
  | emptyQueryResponse
  | errorResponse (msg : ErrorResponse)
  | functionCallResponse (result : Option Bytes)
  | negotiateProtocolVersion (msg : NegotiateProtocolVersion)
  | noData
  | noticeResponse (msg : ErrorResponse)
  | notificationResponse (msg : NotificationResponse)
  | parameterDescription (parameterOIDs : List UInt32)
  | parameterStatus (msg : ParameterStatus)
  | parseComplete
  | portalSuspended
  | readyForQuery (txStatus : UInt8)
  | rowDescription (fields : List FieldDescription)

def ErrorResponse.zero : ErrorResponse where
  text := fun _ => []
  number := fun _ => 0
  unknownFields := ∅

def TextField.key : TextField → UInt8
  | severity => 83
  | severityUnlocalized => 86
  | code => 67
  | message => 77
  | detail => 68
  | hint => 72
  | internalQuery => 113
  | where_ => 87
  | schemaName => 115
  | tableName => 116
  | columnName => 99
  | dataTypeName => 100
  | constraintName => 110
  | file => 70
  | routine => 82

def NumberField.key : NumberField → UInt8
  | position => 80
  | internalPosition => 112
  | line => 76

def ErrorField.key : ErrorField → UInt8
  | text field => field.key
  | number field => field.key

/-- The known fields, in the order in which they are encoded -/
def ErrorField.all : List ErrorField :=
  [.text .severity, .text .severityUnlocalized, .text .code, .text .message,
    .text .detail, .text .hint,
    .number .position, .number .internalPosition, .text .internalQuery, .text .where_,
      .text .schemaName,
    .text .tableName, .text .columnName, .text .dataTypeName, .text .constraintName,
      .text .file, .number .line,
    .text .routine]

def ErrorField.ofKey (k : UInt8) : Option ErrorField :=
    ErrorField.all.find? fun field => field.key == k

end Pgx.Proto3
