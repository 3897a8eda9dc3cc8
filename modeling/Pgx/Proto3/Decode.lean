import Pgx.Go.Cursor
import Pgx.Go.ParseInt
import Pgx.Go.Platform
import Pgx.Proto3.Message

/-!
# Decoding message bodies

The `Decode` methods, and the tables by which `Frontend.Receive`, `Backend.Receive` and
`Backend.ReceiveStartupMessage` choose among them. What a decoder leaves of a body is not looked at.
-/
namespace Pgx.Proto3

open Pgx.Go Pgx.Go.Cursor

abbrev Decoder (α : Type) : Type := Cursor DecodeError α

def invalidFormat (messageType : String) : DecodeError := .invalidMessageFormat messageType ""

def decodeEmpty (messageType : String) : Decoder Unit := do
  let src ← rest
  failIf (src.length ≠ 0) (.invalidMessageLen messageType 0 src.length)

/-- A string that `bytes.IndexByte` finds the end of -/
def indexedString (err : DecodeError) : Decoder Bytes := do
  let src ← rest
  match indexByte 0 src with
  | none => fail err
  | some idx => do
    let s ← slice idx
    advance (idx + 1)
    pure s

/-- A string that `buf.ReadBytes(0)` reads -/
def bufString : Decoder Bytes := do
  let b ← bufReadBytes 0 .eof
  dropLastByte b

/-- A number that `buf.Next` reads -/
def bufUint (width : Nat) : Decoder Nat := do
  let b ← bufNext width
  bigEndianUint width b

/-- A value behind its length; a length of -1 is NULL. -/
def sizedValue (messageType : String) : Decoder (Option Bytes) := do
  require 4 (invalidFormat messageType)
  let size ← int32
  if size.toInt = -1 then pure none
  else do
    let src ← rest
    failIf (size.toInt < 0 ∨ (src.length : Int) < size.toInt) (invalidFormat messageType)
    let value ← slice size.toInt.toNat
    advance size.toInt.toNat
    pure (some value)

/-! ## Frontend messages -/

/-- The format codes of a `Bind`, of which there are so many -/
def formatCodes (count : Nat) : Decoder (List Int16) := do
  make count
  require (count * 2) (invalidFormat "Bind")
  fill count int16 count 0

def Bind.decodeFormatCodes (count : Nat) : Decoder (List Int16) :=
  if count > 0 then formatCodes count else pure []

def Bind.decodeParameters (count : Nat) : Decoder (List (Option Bytes)) :=
  if count > 0 then do
    make count
    fill count (sizedValue "Bind") count 0
  else pure []

def Bind.decode : Decoder Bind := do
  let destinationPortal ← indexedString (invalidFormat "Bind")
  let preparedStatement ← indexedString (invalidFormat "Bind")
  require 2 (invalidFormat "Bind")
  let parameterFormatCodeCount ← uint16
  let parameterFormatCodes ← Bind.decodeFormatCodes parameterFormatCodeCount.toNat
  require 2 (invalidFormat "Bind")
  let parameterCount ← uint16
  let parameters ← Bind.decodeParameters parameterCount.toNat
  require 2 (invalidFormat "Bind")
  let resultFormatCodeCount ← uint16
  let resultFormatCodes ← formatCodes resultFormatCodeCount.toNat
  pure ⟨destinationPortal, preparedStatement, parameterFormatCodes, parameters, resultFormatCodes⟩

/-- `Close` and `Describe` -/
def ObjectName.decode (messageType : String) : Decoder ObjectName := do
  require 2 (invalidFormat messageType)
  let src ← rest
  let objectType ← index src 0
  advance 1
  let src ← rest
  failIf (indexByte 0 src ≠ some (src.length - 1)) (invalidFormat messageType)
  let name ← slice (src.length - 1)
  pure ⟨objectType, name⟩

/-- A string that takes up the body: `CopyFail` and `Query` -/
def wholeString (messageType : String) : Decoder Bytes := do
  let src ← rest
  failIf (src.length = 0) (invalidFormat messageType)
  failIf (indexByte 0 src ≠ some (src.length - 1)) (invalidFormat messageType)
  slice (src.length - 1)

def CopyFail.decode : Decoder Bytes := wholeString "CopyFail"

def Query.decode : Decoder Bytes := wholeString "Query"

def Execute.decode : Decoder Execute := do
  let portal ← bufString
  require 4 (invalidFormat "Execute")
  let maxRows ← bufUint 4
  pure ⟨portal, UInt32.ofNat maxRows⟩

def FunctionCall.formatCode : Decoder UInt16 := do
  let code ← uint16
  failIf (code ≠ 0 ∧ code ≠ 1) (invalidFormat "FunctionCall")
  pure code

def FunctionCall.decode : Decoder FunctionCall := do
  require 8 (invalidFormat "FunctionCall")
  let function ← uint32
  let nArgumentCodes ← uint16
  require (nArgumentCodes.toNat * 2 + 2) (invalidFormat "FunctionCall")
  make nArgumentCodes.toNat
  let argFormatCodes ← fill nArgumentCodes.toNat FunctionCall.formatCode nArgumentCodes.toNat 0
  let nArguments ← uint16
  make nArguments.toNat
  let arguments ← fill nArguments.toNat (sizedValue "FunctionCall") nArguments.toNat 0
  require 2 (invalidFormat "FunctionCall")
  let resultFormatCode ← FunctionCall.formatCode
  pure ⟨function, argFormatCodes, arguments, resultFormatCode⟩

def Parse.decode : Decoder Parse := do
  let name ← bufString
  let query ← bufString
  require 2 (invalidFormat "Parse")
  let parameterOIDCount ← bufUint 2
  let parameterOIDs ← collect (do
    require 4 (invalidFormat "Parse")
    UInt32.ofNat <$> bufUint 4) parameterOIDCount
  pure ⟨name, query, parameterOIDs⟩

def PasswordMessage.decode : Decoder Bytes := bufString

def SASLInitialResponse.decode : Decoder SASLInitialResponse := do
  let authMechanism ← indexedString (.new "invalid SASLInitialResponse")
  require 4 (.new "invalid SASLInitialResponse")
  -- The rest of the message is data, so the size is skipped.
  advance 4
  let data ← rest
  pure ⟨authMechanism, data⟩

/-! ## Startup -/

def protocolVersion30 : Nat := 196608

def protocolVersion32 : Nat := 196610

def sslRequestNumber : Nat := 80877103

def cancelRequestCode : Nat := 80877102

def gssEncReqNumber : Nat := 80877104

/-- The loop over the parameters. Each round reads two bytes at least, so what is left at the start
bounds their number. -/
def StartupMessage.parameters : Nat → Map Bytes Bytes → Decoder (Map Bytes Bytes)
  | 0, _ => fail (invalidFormat "StartupMessage")
  | fuel + 1, parameters => do
    let key ← indexedString (invalidFormat "StartupMessage")
    let value ← indexedString (invalidFormat "StartupMessage")
    let src ← rest
    if src.length = 1 then do
      let last ← index src 0
      failIf (last ≠ 0) (.errorf "Bad startup message last byte. Expected 0, got %d" [last.toNat])
      pure (parameters.insert key value)
    else StartupMessage.parameters fuel (parameters.insert key value)

def StartupMessage.decode : Decoder StartupPacket := do
  require 4 (.new "startup message too short")
  let protocolVersion ← uint32
  failIf (protocolVersion.toNat ≠ protocolVersion30 ∧ protocolVersion.toNat ≠ protocolVersion32)
    (.errorf "Bad startup message version number. Expected %d or %d, got %d"
      [protocolVersion30, protocolVersion32, protocolVersion.toNat])
  let src ← rest
  let parameters ← StartupMessage.parameters src.length ∅
  pure (.startupMessage protocolVersion parameters)

def CancelRequest.decode : Decoder StartupPacket := do
  let src ← rest
  failIf (src.length < 12) (.new "cancel request too short")
  failIf (src.length > 264) (.new "cancel request too long")
  let requestCode ← uint32
  failIf (requestCode.toNat ≠ cancelRequestCode) (.new "bad cancel request code")
  let processID ← uint32
  make ((src.length : Int) - 8)
  let secretKey ← rest
  pure (.cancelRequest processID secretKey)

/-- `SSLRequest` and `GSSEncRequest` -/
def requestNumber (number : Nat) (short bad : String) : Decoder Unit := do
  require 4 (.new short)
  let requestCode ← uint32
  failIf (requestCode.toNat ≠ number) (.new bad)

def SSLRequest.decode : Decoder Unit :=
    requestNumber sslRequestNumber "ssl request too short" "bad ssl request code"

def GSSEncRequest.decode : Decoder Unit :=
  requestNumber gssEncReqNumber "gss encoding request too short" "bad gss encoding request code"

/-! ## Authentication requests -/

def errAuthSize : DecodeError := .new "bad authentication message size"

def errAuthShort : DecodeError := .new "authentication message too short"

/-- The type at the start of an authentication request -/
def checkAuthType (authType : Nat) : Decoder Unit := do
  let n ← uint32
  failIf (n.toNat ≠ authType) (.new "bad auth type")

/-- A request with nothing behind its type: `AuthenticationOk` and `AuthenticationCleartextPassword`
-/
def bareAuthentication (authType : Nat) : Decoder Unit := do
  let src ← rest
  failIf (src.length ≠ 4) errAuthSize
  checkAuthType authType

def AuthenticationOk.decode : Decoder Unit := bareAuthentication 0

def AuthenticationCleartextPassword.decode : Decoder Unit := bareAuthentication 3

def AuthenticationMD5Password.decode : Decoder Salt := do
  let src ← rest
  failIf (src.length ≠ 8) errAuthSize
  checkAuthType 5
  let b0 ← index src 4
  let b1 ← index src 5
  let b2 ← index src 6
  let b3 ← index src 7
  pure ⟨b0, b1, b2, b3⟩

def AuthenticationGSS.decode : Decoder Unit := do
  require 4 errAuthShort
  checkAuthType 7

def authenticationData (authType : Nat) : Decoder Bytes := do
  require 4 errAuthShort
  checkAuthType authType
  rest

def AuthenticationGSSContinue.decode : Decoder Bytes := authenticationData 8

def AuthenticationSASLContinue.decode : Decoder Bytes := authenticationData 11

def AuthenticationSASLFinal.decode : Decoder Bytes := authenticationData 12

/-- The loop over the mechanisms. Each round reads a byte at least, so what is left at the start
bounds their number. -/
def AuthenticationSASL.mechanisms : Nat → Decoder (List Bytes)
  | 0 => pure []
  | fuel + 1 => do
    let src ← rest
    if src.length > 1 then do
      let mechanism ← indexedString (.invalidMessageFormat "AuthenticationSASL" "unterminated string")
      let mechanisms ← AuthenticationSASL.mechanisms fuel
      pure (mechanism :: mechanisms)
    else pure []

def AuthenticationSASL.decode : Decoder (List Bytes) := do
  require 4 errAuthShort
  checkAuthType 10
  let src ← rest
  AuthenticationSASL.mechanisms src.length

/-! ## Backend messages -/

def BackendKeyData.decode : Decoder BackendKeyData := do
  let src ← rest
  failIf (src.length < 8) (.invalidMessageLen "BackendKeyData" 8 src.length)
  let processID ← uint32
  make ((src.length : Int) - 4)
  let secretKey ← rest
  pure ⟨processID, secretKey⟩

def CommandComplete.decode : Decoder Bytes := do
  let src ← rest
  match indexByte 0 src with
  | none => fail (.invalidMessageFormat "CommandComplete" "unterminated string")
  | some idx => do
    failIf ((idx : Int) ≠ (src.length : Int) - 1)
      (.invalidMessageFormat "CommandComplete" "string terminated too early")
    slice idx

/-- `CopyBothResponse`, `CopyInResponse` and `CopyOutResponse` -/
def CopyResponse.decode (messageType : String) : Decoder CopyResponse := do
  require 3 (invalidFormat messageType)
  let first ← bufNext 1
  let overallFormat ← index first 0
  let columnCount ← bufUint 2
  let buf ← rest
  failIf (buf.length ≠ columnCount * 2) (invalidFormat messageType)
  make columnCount
  let columnFormatCodes ← fill columnCount (UInt16.ofNat <$> bufUint 2) columnCount 0
  pure ⟨overallFormat, columnFormatCodes⟩

/-- The slice for the values is made anew or cut from the one that is there, which has this
capacity. -/
def DataRow.resize (valuesCap fieldCount : Nat) : Decoder Unit :=
  if valuesCap < fieldCount ∨ valuesCap - fieldCount > 32 then make fieldCount
  else if fieldCount ≤ valuesCap then pure ()
  else panic

def DataRow.decode (valuesCap : Nat) : Decoder (List (Option Bytes)) := do
  require 2 (invalidFormat "DataRow")
  let fieldCount ← uint16
  DataRow.resize valuesCap fieldCount.toNat
  fill fieldCount.toNat (sizedValue "DataRow") fieldCount.toNat 0

def ErrorResponse.set (dst : ErrorResponse) (k : UInt8) (v : Bytes) : ErrorResponse :=
  match ErrorField.ofKey k with
  | some (.text field) => { dst with text := Function.update dst.text field v }
  | some (.number field) =>
    { dst with number := Function.update dst.number field (Int32.ofInt (parseInt32 v)) }
  | none => { dst with unknownFields := dst.unknownFields.insert k v }

/-- The loop over the fields. Each round reads a byte at least, so what is left at the start bounds
their number. -/
def ErrorResponse.fields : Nat → ErrorResponse → Decoder ErrorResponse
  | 0, _ => fail .eof
  | fuel + 1, dst => do
    let k ← bufReadByte .eof
    if k = 0 then pure dst
    else do
      let v ← bufString
      ErrorResponse.fields fuel (dst.set k v)

def ErrorResponse.decode : Decoder ErrorResponse := do
  let src ← rest
  ErrorResponse.fields src.length .zero

def FunctionCallResponse.decode : Decoder (Option Bytes) := do
  require 4 (invalidFormat "FunctionCallResponse")
  let resultSize ← int32
  if resultSize.toInt = -1 then pure none
  else do
    let src ← rest
    failIf (resultSize.toInt < 0 ∨ (src.length : Int) ≠ resultSize.toInt)
      (invalidFormat "FunctionCallResponse")
    pure (some src)

/-- The end of a string is looked for byte by byte. -/
def NegotiateProtocolVersion.option : Decoder Bytes := do
  let src ← rest
  failIf (src.length = 0) (invalidFormat "NegotiateProtocolVersion")
  let len := (src.takeWhile (· ≠ 0)).length
  failIf (len ≥ src.length) (invalidFormat "NegotiateProtocolVersion")
  let option ← slice len
  advance (len + 1)
  pure option

/-- `optionCount` as an `int` -/
def NegotiateProtocolVersion.optionCount (p : Platform) (n : UInt32) : Int := p.int n.toNat

def NegotiateProtocolVersion.decode (p : Platform) : Decoder NegotiateProtocolVersion := do
  let src ← rest
  failIf (src.length < 8) (.invalidMessageLen "NegotiateProtocolVersion" 8 src.length)
  let newestMinorProtocol ← uint32
  let n ← uint32
  let remaining ← rest
  make (if optionCount p n > remaining.length then remaining.length else optionCount p n)
  let unrecognizedOptions ← collect option (optionCount p n).toNat
  pure ⟨newestMinorProtocol, unrecognizedOptions⟩

def NotificationResponse.decode : Decoder NotificationResponse := do
  require 4 (.invalidMessageFormat "NotificationResponse" "too short")
  let pid ← bufUint 4
  let channel ← bufString
  let payload ← bufString
  pure ⟨UInt32.ofNat pid, channel, payload⟩

/-- The count in front is skipped; the length of the body gives it too. -/
def ParameterDescription.decode : Decoder (List UInt32) := do
  require 2 (invalidFormat "ParameterDescription")
  let _ ← bufNext 2
  let buf ← rest
  make (buf.length / 4 : Nat)
  fill (buf.length / 4) (UInt32.ofNat <$> bufUint 4) (buf.length / 4) 0

def ParameterStatus.decode : Decoder ParameterStatus := do
  let name ← bufString
  let value ← bufString
  pure ⟨name, value⟩

def ReadyForQuery.decode : Decoder UInt8 := do
  let src ← rest
  failIf (src.length ≠ 1) (.invalidMessageLen "ReadyForQuery" 1 src.length)
  index src 0

def FieldDescription.decode : Decoder FieldDescription := do
  let name ← indexedString (invalidFormat "RowDescription")
  require 18 (invalidFormat "RowDescription")
  let tableOID ← uint32
  let tableAttributeNumber ← uint16
  let dataTypeOID ← uint32
  let dataTypeSize ← int16
  let typeModifier ← int32
  let format ← int16
  pure ⟨name, tableOID, tableAttributeNumber, dataTypeOID, dataTypeSize, typeModifier, format⟩

def RowDescription.decode : Decoder (List FieldDescription) := do
  require 2 (invalidFormat "RowDescription")
  let fieldCount ← uint16
  collect FieldDescription.decode fieldCount.toNat

/-- The decoders of authentication requests, by their type -/
def authenticationDecoders : List (Nat × Decoder BackendMessage) :=
  [ (0, do AuthenticationOk.decode; pure .authenticationOk),
    (3, do AuthenticationCleartextPassword.decode; pure .authenticationCleartextPassword),
    (5, .authenticationMD5Password <$> AuthenticationMD5Password.decode),
    (6, fail (.new "AuthTypeSCMCreds is unimplemented")),
    (7, do AuthenticationGSS.decode; pure .authenticationGSS),
    (8, .authenticationGSSContinue <$> AuthenticationGSSContinue.decode),
    (9, fail (.new "AuthTypeSSPI is unimplemented")),
    (10, .authenticationSASL <$> AuthenticationSASL.decode),
    (11, .authenticationSASLContinue <$> AuthenticationSASLContinue.decode),
    (12, .authenticationSASLFinal <$> AuthenticationSASLFinal.decode) ]

/-- `findAuthenticationMessageType`, and the decoder that it finds -/
def decodeAuthentication : Decoder BackendMessage := do
  require 4 (.new "authentication message too short")
  let src ← rest
  let authType ← bigEndianUint 4 src
  match authenticationDecoders.lookup authType with
  | some decode => decode
  | none => fail (.errorf "unknown authentication type: %d" [authType])

/-- The decoders of `Frontend.Receive`, by the type of the message -/
def backendDecoders (p : Platform) (valuesCap : Nat) : List (UInt8 × Decoder BackendMessage) :=
  [ (49, do decodeEmpty "ParseComplete"; pure .parseComplete),
    (50, do decodeEmpty "BindComplete"; pure .bindComplete),
    (51, do decodeEmpty "CloseComplete"; pure .closeComplete),
    (65, .notificationResponse <$> NotificationResponse.decode),
    (99, do decodeEmpty "CopyDone"; pure .copyDone),
    (67, .commandComplete <$> CommandComplete.decode),
    (100, .copyData <$> rest),
    (68, .dataRow <$> DataRow.decode valuesCap),
    (69, .errorResponse <$> ErrorResponse.decode),
    (71, .copyInResponse <$> CopyResponse.decode "CopyInResponse"),
    (72, .copyOutResponse <$> CopyResponse.decode "CopyOutResponse"),
    (73, do decodeEmpty "EmptyQueryResponse"; pure .emptyQueryResponse),
    (75, .backendKeyData <$> BackendKeyData.decode),
    (110, do decodeEmpty "NoData"; pure .noData),
    (78, .noticeResponse <$> ErrorResponse.decode),
    (82, decodeAuthentication),
    (115, do decodeEmpty "PortalSuspended"; pure .portalSuspended),
    (83, .parameterStatus <$> ParameterStatus.decode),
    (116, .parameterDescription <$> ParameterDescription.decode),
    (84, .rowDescription <$> RowDescription.decode),
    (86, .functionCallResponse <$> FunctionCallResponse.decode),
    (87, .copyBothResponse <$> CopyResponse.decode "CopyBothResponse"),
    (90, .readyForQuery <$> ReadyForQuery.decode),
    (118, .negotiateProtocolVersion <$> NegotiateProtocolVersion.decode p) ]

/-- What `Frontend.Receive` makes of a body -/
def decodeBackend (p : Platform) (valuesCap : Nat) (msgType : UInt8) (body : Bytes) :
    Checked DecodeError BackendMessage :=
  match (backendDecoders p valuesCap).lookup msgType with
  | some decode => StateT.run' decode body
  | none => .error (.returned (.errorf "unknown message type: %c" [msgType.toNat]))

/-- The message that a `p` stands for -/
def passwordDecoder (authType : Nat) : Decoder FrontendMessage :=
  match authType with
  | 10 => .saslInitialResponse <$> SASLInitialResponse.decode
  | 11 => .saslResponse <$> rest
  | 12 => .saslResponse <$> rest
  | 7 => .gssResponse <$> rest
  | 8 => .gssResponse <$> rest
  | _ => .passwordMessage <$> PasswordMessage.decode

/-- The decoders of `Backend.Receive`, by the type of the message -/
def frontendDecoders (authType : Nat) : List (UInt8 × Decoder FrontendMessage) :=
  [ (66, .bind <$> Bind.decode),
    (67, .close <$> ObjectName.decode "Close"),
    (68, .describe <$> ObjectName.decode "Describe"),
    (69, .execute <$> Execute.decode),
    (70, .functionCall <$> FunctionCall.decode),
    (102, .copyFail <$> CopyFail.decode),
    (100, .copyData <$> rest),
    (99, do decodeEmpty "CopyDone"; pure .copyDone),
    (72, do decodeEmpty "Flush"; pure .flush),
    (80, .parse <$> Parse.decode),
    (112, passwordDecoder authType),
    (81, .query <$> Query.decode),
    (83, do decodeEmpty "Sync"; pure .sync),
    (88, do decodeEmpty "Terminate"; pure .terminate) ]

/-- What `Backend.Receive` makes of a body -/
def decodeFrontend (authType : Nat) (msgType : UInt8) (body : Bytes) :
    Checked DecodeError FrontendMessage :=
  match (frontendDecoders authType).lookup msgType with
  | some decode => StateT.run' decode body
  | none => .error (.returned (.errorf "unknown message type: %c" [msgType.toNat]))

/-- The decoders of `Backend.ReceiveStartupMessage`, by the code of the packet -/
def startupDecoders : List (Nat × Decoder StartupPacket) :=
  [ (protocolVersion30, StartupMessage.decode),
    (protocolVersion32, StartupMessage.decode),
    (sslRequestNumber, do SSLRequest.decode; pure .sslRequest),
    (cancelRequestCode, CancelRequest.decode),
    (gssEncReqNumber, do GSSEncRequest.decode; pure .gssEncRequest) ]

/-- What `Backend.ReceiveStartupMessage` makes of a packet -/
def decodeStartup (packet : Bytes) : Checked DecodeError StartupPacket :=
  StateT.run' (do
    let code ← bigEndianUint 4 packet
    match startupDecoders.lookup code with
    | some decode => decode
    | none => fail (.errorf "unknown startup message code: %d" [code])) packet

end Pgx.Proto3
