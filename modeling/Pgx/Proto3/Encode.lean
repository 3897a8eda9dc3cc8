import Pgx.Go.BigEndian
import Pgx.Proto3.Message

/-!
# Encoding messages

The `Encode` methods. A message is begun with a placeholder for its length, which is written over
when the message is finished. The fields of an error that are not known are visited in the order of
the map.
-/
namespace Pgx.Proto3

open Pgx.Go

abbrev Encoded : Type := Except String Bytes

def appendUint16 (dst : Bytes) (n : UInt16) : Bytes := dst ++ bigEndian 2 n.toNat

def appendUint32 (dst : Bytes) (n : UInt32) : Bytes := dst ++ bigEndian 4 n.toNat

def appendSigned16 (dst : Bytes) (n : Int16) : Bytes := appendUint16 dst n.toUInt16

def appendSigned32 (dst : Bytes) (n : Int32) : Bytes := appendUint32 dst n.toUInt32

/-- `SetInt32(dst[sp:], n)` -/
def setInt32 (dst : Bytes) (sp : Nat) (n : Int32) : Bytes :=
  dst.take sp ++ bigEndian 4 n.toUInt32.toNat ++ dst.drop (sp + 4)

def maxUint16 : Nat := 65535

/-- A message body, and the length in front of it, may be so long. -/
def maxEncodedLen : Nat := 0x3fffffff - 1

def beginMessage (dst : Bytes) (t : UInt8) : Bytes × Nat :=
    (appendSigned32 (dst ++ [t]) (-1), (dst ++ [t]).length)

def finishMessage (dst : Bytes) (sp : Nat) : Encoded :=
  if (dst.drop sp).length > maxEncodedLen then .error "message body too large"
  else .ok (setInt32 dst sp (Int32.ofNat (dst.drop sp).length))

/-- A message of this type; `append` writes its body. -/
def message (t : UInt8) (append : Bytes → Encoded) (dst : Bytes) : Encoded := do
  let body ← append (beginMessage dst t).1
  finishMessage body (beginMessage dst t).2

def bareMessage (t : UInt8) (dst : Bytes) : Encoded := .ok (dst ++ [t, 0, 0, 0, 4])

def appendString (dst s : Bytes) : Bytes := dst ++ s ++ [0]

def appendSized (dst : Bytes) : Option Bytes → Bytes
  | none => appendSigned32 dst (-1)
  | some v => appendSigned32 dst (Int32.ofNat v.length) ++ v

/-- Elements behind their number, which must fit 16 bits -/
def appendCounted {α : Type} (append : Bytes → α → Bytes) (err : String) (dst : Bytes)
    (xs : List α) : Encoded :=
  if xs.length > maxUint16 then .error err
  else .ok (xs.foldl append (appendUint16 dst (UInt16.ofNat xs.length)))

def Bind.encode (src : Bind) : Bytes → Encoded := message 66 fun dst => do
  let dst := appendString (appendString dst src.destinationPortal) src.preparedStatement
  let dst ← appendCounted appendSigned16 "too many parameter format codes" dst
      src.parameterFormatCodes
  let dst ← appendCounted appendSized "too many parameters" dst src.parameters
  appendCounted appendSigned16 "too many result format codes" dst src.resultFormatCodes

/-- `Close` and `Describe` -/
def ObjectName.encode (t : UInt8) (src : ObjectName) : Bytes → Encoded :=
  message t fun dst => .ok (appendString (dst ++ [src.objectType]) src.name)

/-- A message that is one string: `CopyFail`, `Query`, `PasswordMessage` and `CommandComplete` -/
def encodeString (t : UInt8) (s : Bytes) : Bytes → Encoded :=
    message t fun dst => .ok (appendString dst s)

/-- A message that is data to its end: `CopyData`, `GSSResponse` and `SASLResponse` -/
def encodeData (t : UInt8) (data : Bytes) : Bytes → Encoded := message t fun dst => .ok (dst ++ data)

def Execute.encode (src : Execute) : Bytes → Encoded :=
  message 69 fun dst => .ok (appendUint32 (appendString dst src.portal) src.maxRows)

def FunctionCall.encode (src : FunctionCall) : Bytes → Encoded := message 70 fun dst => do
  let dst ← appendCounted appendUint16 "too many arg format codes"
      (appendUint32 dst src.function) src.argFormatCodes
  let dst ← appendCounted appendSized "too many arguments" dst src.arguments
  pure (appendUint16 dst src.resultFormatCode)

def Parse.encode (src : Parse) : Bytes → Encoded := message 80 fun dst =>
  appendCounted appendUint32 "too many parameter oids"
    (appendString (appendString dst src.name) src.query)
    src.parameterOIDs

def SASLInitialResponse.encode (src : SASLInitialResponse) : Bytes → Encoded := message 112 fun dst =>
  .ok (appendSigned32 (appendString dst src.authMechanism) (Int32.ofNat src.data.length) ++ src.data)

def FrontendMessage.encode : FrontendMessage → Bytes → Encoded
  | bind msg => msg.encode
  | close msg => msg.encode 67
  | copyData data => encodeData 100 data
  | copyDone => bareMessage 99
  | copyFail s => encodeString 102 s
  | describe msg => msg.encode 68
  | execute msg => msg.encode
  | flush => bareMessage 72
  | functionCall msg => msg.encode
  | gssResponse data => encodeData 112 data
  | parse msg => msg.encode
  | passwordMessage password => encodeString 112 password
  | query string => encodeString 81 string
  | saslInitialResponse msg => msg.encode
  | saslResponse data => encodeData 112 data
  | sync => bareMessage 83
  | terminate => bareMessage 88

/-! ## Backend messages -/

/-- An authentication request of this type with data behind it -/
def encodeAuthentication (authType : UInt32) (data : Bytes) : Bytes → Encoded :=
  message 82 fun dst => .ok (appendUint32 dst authType ++ data)

def AuthenticationSASL.encode (authMechanisms : List Bytes) : Bytes → Encoded := message 82 fun dst =>
  .ok (authMechanisms.foldl appendString (appendUint32 dst 10) ++ [0])

def BackendKeyData.encode (src : BackendKeyData) : Bytes → Encoded :=
  message 75 fun dst => .ok (appendUint32 dst src.processID ++ src.secretKey)

/-- `CopyBothResponse`, `CopyInResponse` and `CopyOutResponse` -/
def CopyResponse.encode (t : UInt8) (src : CopyResponse) : Bytes → Encoded := message t fun dst =>
  appendCounted appendUint16 "too many column format codes"
    (dst ++ [src.overallFormat]) src.columnFormatCodes

def DataRow.encode (values : List (Option Bytes)) : Bytes → Encoded :=
  message 68 fun dst => appendCounted appendSized "too many values" dst values

/-- A field of an error is left out if it has its zero value. -/
def ErrorResponse.appendField (src : ErrorResponse) (dst : Bytes) : ErrorField → Bytes
  | .text field =>
    if src.text field = [] then dst else appendString (dst ++ [field.key]) (src.text field)
  | .number field =>
    if src.number field = 0 then dst
    else appendString (dst ++ [field.key]) (asciiText (formatInt (src.number field).toInt))

def ErrorResponse.appendFields (ro : RangeOrder) (src : ErrorResponse) (dst : Bytes) : Bytes :=
  (ro.order src.unknownFields.entries).foldl
    (fun dst entry => appendString (dst ++ [entry.1]) entry.2)
    (ErrorField.all.foldl src.appendField dst) ++ [0]

/-- `ErrorResponse` and `NoticeResponse` -/
def ErrorResponse.encode (ro : RangeOrder) (t : UInt8) (src : ErrorResponse) : Bytes → Encoded :=
  message t fun dst => .ok (src.appendFields ro dst)

def FunctionCallResponse.encode (result : Option Bytes) : Bytes → Encoded :=
  message 86 fun dst => .ok (appendSized dst result)

def NegotiateProtocolVersion.encode (src : NegotiateProtocolVersion) : Bytes → Encoded :=
    message 118 fun dst =>
  .ok (src.unrecognizedOptions.foldl appendString
    (appendUint32 (appendUint32 dst src.newestMinorProtocol)
      (UInt32.ofNat src.unrecognizedOptions.length)))

def NotificationResponse.encode (src : NotificationResponse) : Bytes → Encoded :=
    message 65 fun dst =>
  .ok (appendString (appendString (appendUint32 dst src.pid) src.channel) src.payload)

def ParameterDescription.encode (parameterOIDs : List UInt32) : Bytes → Encoded :=
  message 116 fun dst => appendCounted appendUint32 "too many parameter oids" dst parameterOIDs

def ParameterStatus.encode (src : ParameterStatus) : Bytes → Encoded :=
  message 83 fun dst => .ok (appendString (appendString dst src.name) src.value)

def ReadyForQuery.encode (txStatus : UInt8) (dst : Bytes) : Encoded :=
    .ok (dst ++ [90, 0, 0, 0, 5, txStatus])

def FieldDescription.append (dst : Bytes) (fd : FieldDescription) : Bytes :=
  let dst := appendUint16 (appendUint32 (appendString dst fd.name) fd.tableOID)
      fd.tableAttributeNumber
  let dst := appendSigned16 (appendUint32 dst fd.dataTypeOID) fd.dataTypeSize
  appendSigned16 (appendSigned32 dst fd.typeModifier) fd.format

def RowDescription.encode (fields : List FieldDescription) : Bytes → Encoded :=
  message 84 fun dst => appendCounted FieldDescription.append "too many fields" dst fields

def BackendMessage.encode (ro : RangeOrder) : BackendMessage → Bytes → Encoded
  | authenticationOk => encodeAuthentication 0 []
  | authenticationCleartextPassword => encodeAuthentication 3 []
  | authenticationMD5Password salt => encodeAuthentication 5 [salt.b0, salt.b1, salt.b2, salt.b3]
  | authenticationGSS => encodeAuthentication 7 []
  | authenticationGSSContinue data => encodeAuthentication 8 data
  | authenticationSASL authMechanisms => AuthenticationSASL.encode authMechanisms
  | authenticationSASLContinue data => encodeAuthentication 11 data
  | authenticationSASLFinal data => encodeAuthentication 12 data
  | backendKeyData msg => msg.encode
  | bindComplete => bareMessage 50
  | closeComplete => bareMessage 51
  | commandComplete commandTag => encodeString 67 commandTag
  | copyBothResponse msg => msg.encode 87
  | copyData data => encodeData 100 data
  | copyDone => bareMessage 99
  | copyInResponse msg => msg.encode 71
  | copyOutResponse msg => msg.encode 72
  | dataRow values => DataRow.encode values
  | emptyQueryResponse => bareMessage 73
  | errorResponse msg => msg.encode ro 69
  | functionCallResponse result => FunctionCallResponse.encode result
  | negotiateProtocolVersion msg => msg.encode
  | noData => bareMessage 110
  | noticeResponse msg => msg.encode ro 78
  | notificationResponse msg => msg.encode
  | parameterDescription parameterOIDs => ParameterDescription.encode parameterOIDs
  | parameterStatus msg => msg.encode
  | parseComplete => bareMessage 49
  | portalSuspended => bareMessage 115
  | readyForQuery txStatus => ReadyForQuery.encode txStatus
  | rowDescription fields => RowDescription.encode fields

/-- What `Frontend.Send` and `Backend.Send` have written, and the first error of an encoder -/
structure Sender where
  wbuf : Bytes
  encodeError : Option String
  deriving DecidableEq

def Sender.new : Sender := ⟨[], none⟩

def Sender.send (s : Sender) (encode : Bytes → Encoded) : Sender :=
  match s.encodeError with
  | some _ => s
  | none =>
    match encode s.wbuf with
    | .ok wbuf => { s with wbuf := wbuf }
    | .error err => { s with encodeError := some err }

/-- What `Flush` writes, or the error that it returns -/
def Sender.flush (s : Sender) : Except String Bytes :=
  match s.encodeError with
  | some err => .error err
  | none => .ok s.wbuf

/-- `Send` for each message, and `Flush` -/
def sendAll (encoders : List (Bytes → Encoded)) : Except String Bytes :=
    (encoders.foldl Sender.send .new).flush

end Pgx.Proto3
