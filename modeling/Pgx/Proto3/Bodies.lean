import Pgx.Proto3.Encode
import Pgx.Proto3.Receive

/-!
# What is on the wire

The frame of each message, and that the encoders write it. A message is sendable if its strings have
no zero byte, its lists are short enough for their count, and its body is not too long; format codes
of a `FunctionCall` must be ones that its decoder accepts.
-/
namespace Pgx.Proto3

open Pgx.Go List ErrorResponse

/-! ## Parts of bodies -/

def cstring (s : Bytes) : Bytes := s ++ [0]

def uint16Bytes (n : UInt16) : Bytes := bigEndian 2 n.toNat

def uint32Bytes (n : UInt32) : Bytes := bigEndian 4 n.toNat

def int16Bytes (n : Int16) : Bytes := bigEndian 2 n.toUInt16.toNat

def int32Bytes (n : Int32) : Bytes := bigEndian 4 n.toUInt32.toNat

def sizedBytes : Option Bytes → Bytes
  | none => int32Bytes (-1)
  | some v => int32Bytes (Int32.ofNat v.length) ++ v

def countedBytes {α : Type} (enc : α → Bytes) (xs : List α) : Bytes :=
  uint16Bytes (UInt16.ofNat xs.length) ++ xs.flatMap enc

def fieldBytes (fd : FieldDescription) : Bytes :=
  cstring fd.name ++ (uint32Bytes fd.tableOID ++
    (uint16Bytes fd.tableAttributeNumber ++ (uint32Bytes fd.dataTypeOID ++
    (int16Bytes fd.dataTypeSize ++ (int32Bytes fd.typeModifier ++ int16Bytes fd.format)))))

def entryBytes (entry : UInt8 × Bytes) : Bytes := entry.1 :: cstring entry.2

def ErrorResponse.entry (src : ErrorResponse) : ErrorField → Option (UInt8 × Bytes)
  | .text field => if src.text field = [] then none else some (field.key, src.text field)
  | .number field =>
    if src.number field = 0 then none else some
      (field.key, asciiText (formatInt (src.number field).toInt))

def ErrorResponse.entries (ro : RangeOrder) (src : ErrorResponse) : List (UInt8 × Bytes) :=
  ErrorField.all.filterMap src.entry ++ (ro.order src.unknownFields.entries).map fun entry =>
    (entry.1, entry.2)

def ErrorResponse.bytes (ro : RangeOrder) (src : ErrorResponse) : Bytes :=
    (src.entries ro).flatMap entryBytes ++ [0]

def FrontendMessage.frame : FrontendMessage → Frame
  | bind msg => ⟨66, cstring msg.destinationPortal ++ (cstring msg.preparedStatement ++
      (countedBytes int16Bytes msg.parameterFormatCodes ++ (countedBytes sizedBytes msg.parameters ++
        countedBytes int16Bytes msg.resultFormatCodes)))⟩
  | close msg => ⟨67, msg.objectType :: cstring msg.name⟩
  | copyData data => ⟨100, data⟩
  | copyDone => ⟨99, []⟩
  | copyFail s => ⟨102, cstring s⟩
  | describe msg => ⟨68, msg.objectType :: cstring msg.name⟩
  | execute msg => ⟨69, cstring msg.portal ++ uint32Bytes msg.maxRows⟩
  | flush => ⟨72, []⟩
  | functionCall msg =>
    ⟨70, uint32Bytes msg.function ++ (countedBytes uint16Bytes msg.argFormatCodes ++
      (countedBytes sizedBytes msg.arguments ++ uint16Bytes msg.resultFormatCode))⟩
  | gssResponse data => ⟨112, data⟩
  | parse msg =>
    ⟨80, cstring msg.name ++ (cstring msg.query ++ countedBytes uint32Bytes msg.parameterOIDs)⟩
  | passwordMessage password => ⟨112, cstring password⟩
  | query string => ⟨81, cstring string⟩
  | saslInitialResponse msg =>
    ⟨112, cstring msg.authMechanism ++ (int32Bytes (Int32.ofNat msg.data.length) ++ msg.data)⟩
  | saslResponse data => ⟨112, data⟩
  | sync => ⟨83, []⟩
  | terminate => ⟨88, []⟩

def BackendMessage.frame (ro : RangeOrder) : BackendMessage → Frame
  | authenticationOk => ⟨82, uint32Bytes 0 ++ []⟩
  | authenticationCleartextPassword => ⟨82, uint32Bytes 3 ++ []⟩
  | authenticationMD5Password salt => ⟨82, uint32Bytes 5 ++ [salt.b0, salt.b1, salt.b2, salt.b3]⟩
  | authenticationGSS => ⟨82, uint32Bytes 7 ++ []⟩
  | authenticationGSSContinue data => ⟨82, uint32Bytes 8 ++ data⟩
  | authenticationSASL authMechanisms =>
    ⟨82, uint32Bytes 10 ++ (authMechanisms.flatMap cstring ++ [0])⟩
  | authenticationSASLContinue data => ⟨82, uint32Bytes 11 ++ data⟩
  | authenticationSASLFinal data => ⟨82, uint32Bytes 12 ++ data⟩
  | backendKeyData msg => ⟨75, uint32Bytes msg.processID ++ msg.secretKey⟩
  | bindComplete => ⟨50, []⟩
  | closeComplete => ⟨51, []⟩
  | commandComplete commandTag => ⟨67, cstring commandTag⟩
  | copyBothResponse msg => ⟨87, msg.overallFormat :: countedBytes uint16Bytes msg.columnFormatCodes⟩
  | copyData data => ⟨100, data⟩
  | copyDone => ⟨99, []⟩
  | copyInResponse msg => ⟨71, msg.overallFormat :: countedBytes uint16Bytes msg.columnFormatCodes⟩
  | copyOutResponse msg => ⟨72, msg.overallFormat :: countedBytes uint16Bytes msg.columnFormatCodes⟩
  | dataRow values => ⟨68, countedBytes sizedBytes values⟩
  | emptyQueryResponse => ⟨73, []⟩
  | errorResponse msg => ⟨69, msg.bytes ro⟩
  | functionCallResponse result => ⟨86, sizedBytes result⟩
  | negotiateProtocolVersion msg => ⟨118, uint32Bytes msg.newestMinorProtocol ++
      (uint32Bytes (UInt32.ofNat msg.unrecognizedOptions.length) ++
        msg.unrecognizedOptions.flatMap cstring)⟩
  | noData => ⟨110, []⟩
  | noticeResponse msg => ⟨78, msg.bytes ro⟩
  | notificationResponse msg =>
    ⟨65, uint32Bytes msg.pid ++ (cstring msg.channel ++ cstring msg.payload)⟩
  | parameterDescription parameterOIDs => ⟨116, countedBytes uint32Bytes parameterOIDs⟩
  | parameterStatus msg => ⟨83, cstring msg.name ++ cstring msg.value⟩
  | parseComplete => ⟨49, []⟩
  | portalSuspended => ⟨115, []⟩
  | readyForQuery txStatus => ⟨90, [txStatus]⟩
  | rowDescription fields => ⟨84, countedBytes fieldBytes fields⟩

def NulFree (s : Bytes) : Prop := 0 ∉ s

instance (s : Bytes) : Decidable (NulFree s) := inferInstanceAs (Decidable (0 ∉ s))

/-- The strings of the message have no zero byte, and its lists can be counted. -/
def FrontendMessage.Plain : FrontendMessage → Prop
  | bind msg => NulFree msg.destinationPortal ∧ NulFree msg.preparedStatement ∧
      msg.parameterFormatCodes.length ≤ maxUint16 ∧ msg.parameters.length ≤ maxUint16 ∧
      msg.resultFormatCodes.length ≤ maxUint16
  | close msg => NulFree msg.name
  | copyFail s => NulFree s
  | describe msg => NulFree msg.name
  | execute msg => NulFree msg.portal
  | functionCall msg => msg.argFormatCodes.length ≤ maxUint16 ∧ msg.arguments.length ≤ maxUint16
  | parse msg => NulFree msg.name ∧ NulFree msg.query ∧ msg.parameterOIDs.length ≤ maxUint16
  | passwordMessage password => NulFree password
  | query string => NulFree string
  | saslInitialResponse msg => NulFree msg.authMechanism
  | _ => True

def FormatCode (code : UInt16) : Prop := code = 0 ∨ code = 1

/-- The decoder of `FunctionCall` takes no other format codes. -/
def FrontendMessage.KnownFormats : FrontendMessage → Prop
  | functionCall msg =>
    (∀ code ∈ msg.argFormatCodes, FormatCode code) ∧ FormatCode msg.resultFormatCode
  | _ => True

/-- The type of authentication in which a `p` is this message -/
def FrontendMessage.MatchesAuth (authType : Nat) : FrontendMessage → Prop
  | saslInitialResponse _ => authType = 10
  | saslResponse _ => authType = 11 ∨ authType = 12
  | gssResponse _ => authType = 7 ∨ authType = 8
  | passwordMessage _ => authType ∉ [7, 8, 10, 11, 12]
  | _ => True

/-- The strings of an error have no zero byte, and the keys of unknown fields are neither zero nor
known. -/
structure ErrorResponse.Plain (src : ErrorResponse) : Prop where
  text : ∀ field, NulFree (src.text field)
  key : ∀ k, k ∈ src.unknownFields → k ≠ 0 ∧ ErrorField.ofKey k = none
  value : ∀ k v, src.unknownFields.lookup k = some v → NulFree v

def BackendMessage.Plain : BackendMessage → Prop
  | authenticationSASL authMechanisms => ∀ s ∈ authMechanisms, NulFree s
  | backendKeyData msg => 4 ≤ msg.secretKey.length
  | commandComplete commandTag => NulFree commandTag
  | copyBothResponse msg => msg.columnFormatCodes.length ≤ maxUint16
  | copyInResponse msg => msg.columnFormatCodes.length ≤ maxUint16
  | copyOutResponse msg => msg.columnFormatCodes.length ≤ maxUint16
  | dataRow values => values.length ≤ maxUint16
  | errorResponse msg => msg.Plain
  | negotiateProtocolVersion msg => ∀ s ∈ msg.unrecognizedOptions, NulFree s
  | noticeResponse msg => msg.Plain
  | notificationResponse msg => NulFree msg.channel ∧ NulFree msg.payload
  | parameterDescription parameterOIDs => parameterOIDs.length ≤ maxUint16
  | parameterStatus msg => NulFree msg.name ∧ NulFree msg.value
  | rowDescription fields => fields.length ≤ maxUint16 ∧ ∀ fd ∈ fields, NulFree fd.name
  | _ => True

/-- The body with its length is not too long for an encoder, nor for the receiver. -/
structure Frame.Short (maxBodyLen : Nat) (frame : Frame) : Prop where
  encoder : frame.body.length + 4 ≤ maxEncodedLen
  limit : maxBodyLen = 0 ∨ frame.body.length ≤ maxBodyLen

theorem Frame.Short.fits {maxBodyLen : Nat} {frame : Frame} (h : frame.Short maxBodyLen) :
    frame.Fits maxBodyLen where
  field := by
    have := h.encoder
    unfold maxEncodedLen at this
    omega
  limit := h.limit

/-! ## The encoders write frames -/

def Appends (encode : Bytes → Encoded) (bs : Bytes) : Prop := ∀ dst, encode dst = .ok (dst ++ bs)

/-- The encoder appends this frame, unless the frame is too long for it. -/
def Writes (encode : Bytes → Encoded) (frame : Frame) : Prop :=
  frame.body.length + 4 ≤ maxEncodedLen → Appends encode frame.bytes

theorem foldl_append {α : Type} {append : Bytes → α → Bytes} {enc : α → Bytes}
    (h : ∀ dst x, append dst x = dst ++ enc x) (xs : List α) (dst : Bytes) :
    xs.foldl append dst = dst ++ xs.flatMap enc := by
  induction xs generalizing dst with
  | nil => simp
  | cons x xs ih => rw [foldl_cons, ih, h, flatMap_cons, append_assoc]

theorem appendSized_eq (dst : Bytes) (v : Option Bytes) :
    appendSized dst v = dst ++ sizedBytes v := by
  cases v with
  | none => rfl
  | some v => simp [appendSized, appendSigned32, appendUint32, sizedBytes, int32Bytes]

theorem appendString_eq (dst s : Bytes) : appendString dst s = dst ++ cstring s := by
  simp [appendString, cstring]

theorem FieldDescription.append_eq (dst : Bytes) (fd : FieldDescription) :
    FieldDescription.append dst fd = dst ++ fieldBytes fd := by
  simp [FieldDescription.append, appendString_eq, appendUint16, appendUint32, appendSigned16,
    appendSigned32, fieldBytes, uint16Bytes, uint32Bytes, int16Bytes, int32Bytes]

theorem appendCounted_eq {α : Type} {append : Bytes → α → Bytes} {enc : α → Bytes}
    (h : ∀ dst x, append dst x = dst ++ enc x) (err : String) (dst : Bytes) {xs : List α}
    (hlen : xs.length ≤ maxUint16) :
    appendCounted append err dst xs = .ok (dst ++ countedBytes enc xs) := by
  unfold appendCounted
  rw [if_neg (by omega), foldl_append h, appendUint16, append_assoc]
  rfl

theorem finishMessage_eq (dst : Bytes) (t : UInt8) {body : Bytes}
    (h : body.length + 4 ≤ maxEncodedLen) :
    finishMessage ((beginMessage dst t).1 ++ body) (beginMessage dst t).2 = .ok
      (dst ++ Frame.bytes ⟨t, body⟩) := by
  have hlen : (bigEndian 4 (-1 : Int32).toUInt32.toNat).length = 4 := bigEndian_length _ _
  have hsplit : (beginMessage dst t).1 ++ body = (dst ++ [t]) ++
      (bigEndian 4 (-1 : Int32).toUInt32.toNat ++ body) := by
    simp [beginMessage, appendSigned32, appendUint32]
  have hrest : ((beginMessage dst t).1 ++ body).drop (beginMessage dst t).2 =
      bigEndian 4 (-1 : Int32).toUInt32.toNat ++ body := by
    rw [hsplit]
    exact drop_left
  have hcount : (bigEndian 4 (-1 : Int32).toUInt32.toNat ++ body).length = body.length + 4 := by
    rw [length_append]
    omega
  have hfield : (Int32.ofNat (body.length + 4)).toUInt32.toNat = body.length + 4 := by
    unfold maxEncodedLen at h
    rw [Int32.toUInt32_ofNat', UInt32.toNat_ofNat']
    omega
  have htail : ((beginMessage dst t).1 ++ body).drop ((beginMessage dst t).2 + 4) = body := by
    rw [← drop_drop, hrest]
    exact drop_left' hlen
  have hhead : ((beginMessage dst t).1 ++ body).take (beginMessage dst t).2 = dst ++ [t] := by
    rw [hsplit]
    exact take_left
  unfold finishMessage
  rw [hrest, hcount, if_neg (by omega)]
  unfold setInt32
  rw [hfield, htail, hhead]
  simp [Frame.bytes]

/-- A message is its type and what was appended behind the length. -/
theorem message_writes (t : UInt8) {append : Bytes → Encoded} {body : Bytes}
    (h : Appends append body) :
    Writes (message t append) ⟨t, body⟩ := by
  intro hlen dst
  unfold message
  rw [h]
  exact finishMessage_eq dst t hlen

theorem bareMessage_writes (t : UInt8) : Writes (bareMessage t) ⟨t, []⟩ := by
  intro _ dst
  have hlen : bigEndian 4 (([] : Bytes).length + 4) = [0, 0, 0, 4] := by decide
  simp only [bareMessage, Frame.bytes, hlen, append_nil]

theorem ErrorResponse.appendField_eq (src : ErrorResponse) (dst : Bytes) (field : ErrorField) :
    src.appendField dst field = dst ++ ((src.entry field).toList.flatMap entryBytes) := by
  cases field <;> simp only [appendField, ErrorResponse.entry] <;> split <;>
    simp [appendString_eq, entryBytes]

theorem ErrorResponse.appendFields_eq (ro : RangeOrder) (src : ErrorResponse) (dst : Bytes) :
    src.appendFields ro dst = dst ++ src.bytes ro := by
  have hknown := foldl_append src.appendField_eq ErrorField.all dst
  have hentry : ∀ (dst : Bytes) (entry : Sigma fun _ : UInt8 => Bytes),
      appendString (dst ++ [entry.1]) entry.2 = dst ++ entryBytes (entry.1, entry.2) := by
    intro dst entry
    simp [appendString_eq, entryBytes]
  have hfilter : ∀ fields : List ErrorField,
      (fields.flatMap fun field => (src.entry field).toList.flatMap entryBytes) =
        (fields.filterMap src.entry).flatMap entryBytes := by
    intro fields
    induction fields with
    | nil => rfl
    | cons field fields ih =>
      rw [flatMap_cons, ih, filterMap_cons]
      cases src.entry field <;> simp
  unfold appendFields bytes entries
  rw [hknown, foldl_append hentry, hfilter, flatMap_append, flatMap_map]
  simp

theorem appendUint16_eq (dst : Bytes) (n : UInt16) : appendUint16 dst n = dst ++ uint16Bytes n := rfl

theorem appendUint32_eq (dst : Bytes) (n : UInt32) : appendUint32 dst n = dst ++ uint32Bytes n := rfl

theorem appendSigned16_eq (dst : Bytes) (n : Int16) : appendSigned16 dst n = dst ++ int16Bytes n :=
    rfl

theorem appendSigned32_eq (dst : Bytes) (n : Int32) : appendSigned32 dst n = dst ++ int32Bytes n :=
    rfl

theorem encodeString_writes (t : UInt8) (s : Bytes) : Writes (encodeString t s) ⟨t, cstring s⟩ :=
  message_writes t fun dst => by rw [appendString_eq]

theorem encodeData_writes (t : UInt8) (data : Bytes) : Writes (encodeData t data) ⟨t, data⟩ :=
  message_writes t fun _ => rfl

theorem ObjectName.encode_writes (t : UInt8) (src : ObjectName) :
    Writes (src.encode t) ⟨t, src.objectType :: cstring src.name⟩ := by
  refine message_writes t fun dst => ?_
  rw [appendString_eq, append_assoc]
  rfl

theorem Bind.encode_writes {src : Bind} (h : (FrontendMessage.bind src).Plain) :
    Writes src.encode (FrontendMessage.bind src).frame := by
  obtain ⟨_, _, hcodes, hparams, hresults⟩ := h
  refine message_writes 66 fun dst => ?_
  show (appendCounted _ _ _ _ >>= _) = _
  rw [appendCounted_eq appendSigned16_eq _ _ hcodes]
  show (appendCounted _ _ _ _ >>= _) = _
  rw [appendCounted_eq appendSized_eq _ _ hparams]
  show appendCounted _ _ _ _ = _
  rw [appendCounted_eq appendSigned16_eq _ _ hresults, appendString_eq, appendString_eq]
  simp only [append_assoc]

theorem Execute.encode_writes (src : Execute) :
    Writes src.encode (FrontendMessage.execute src).frame := by
  refine message_writes 69 fun dst => ?_
  rw [appendString_eq, appendUint32_eq, append_assoc]

theorem FunctionCall.encode_writes {src : FunctionCall}
    (h : (FrontendMessage.functionCall src).Plain) :
    Writes src.encode (FrontendMessage.functionCall src).frame := by
  obtain ⟨hcodes, hargs⟩ := h
  refine message_writes 70 fun dst => ?_
  rw [appendCounted_eq appendUint16_eq _ _ hcodes]
  show (appendCounted _ _ _ _ >>= _) = _
  rw [appendCounted_eq appendSized_eq _ _ hargs]
  show Except.ok _ = _
  rw [appendUint16_eq, appendUint32_eq]
  simp only [append_assoc]

theorem Parse.encode_writes {src : Parse} (h : (FrontendMessage.parse src).Plain) :
    Writes src.encode (FrontendMessage.parse src).frame := by
  obtain ⟨_, _, hoids⟩ := h
  refine message_writes 80 fun dst => ?_
  rw [appendCounted_eq appendUint32_eq _ _ hoids, appendString_eq, appendString_eq]
  simp only [append_assoc]

theorem SASLInitialResponse.encode_writes (src : SASLInitialResponse) :
    Writes src.encode (FrontendMessage.saslInitialResponse src).frame := by
  refine message_writes 112 fun dst => ?_
  rw [appendString_eq, appendSigned32_eq]
  simp only [append_assoc]

theorem FrontendMessage.encode_appends {msg : FrontendMessage} (hplain : msg.Plain) :
    Writes msg.encode msg.frame := by
  cases msg with
  | bind msg => exact Bind.encode_writes hplain
  | close msg => exact ObjectName.encode_writes 67 msg
  | copyData data => exact encodeData_writes 100 data
  | copyDone => exact bareMessage_writes 99
  | copyFail s => exact encodeString_writes 102 s
  | describe msg => exact ObjectName.encode_writes 68 msg
  | execute msg => exact msg.encode_writes
  | flush => exact bareMessage_writes 72
  | functionCall msg => exact FunctionCall.encode_writes hplain
  | gssResponse data => exact encodeData_writes 112 data
  | parse msg => exact Parse.encode_writes hplain
  | passwordMessage password => exact encodeString_writes 112 password
  | query string => exact encodeString_writes 81 string
  | saslInitialResponse msg => exact msg.encode_writes
  | saslResponse data => exact encodeData_writes 112 data
  | sync => exact bareMessage_writes 83
  | terminate => exact bareMessage_writes 88

theorem encodeAuthentication_writes (authType : UInt32) (data : Bytes) :
    Writes (encodeAuthentication authType data) ⟨82, uint32Bytes authType ++ data⟩ := by
  refine message_writes 82 fun dst => ?_
  rw [appendUint32_eq, append_assoc]

theorem AuthenticationSASL.encode_writes (authMechanisms : List Bytes) :
    Writes (AuthenticationSASL.encode authMechanisms)
      ⟨82, uint32Bytes 10 ++ (authMechanisms.flatMap cstring ++ [0])⟩ := by
  refine message_writes 82 fun dst => ?_
  rw [foldl_append appendString_eq, appendUint32_eq, append_assoc, append_assoc]

theorem BackendKeyData.encode_writes (src : BackendKeyData) :
    Writes src.encode ⟨75, uint32Bytes src.processID ++ src.secretKey⟩ := by
  refine message_writes 75 fun dst => ?_
  rw [appendUint32_eq, append_assoc]

theorem CopyResponse.encode_writes (t : UInt8) {src : CopyResponse}
    (h : src.columnFormatCodes.length ≤ maxUint16) :
    Writes (src.encode t)
      ⟨t, src.overallFormat :: countedBytes uint16Bytes src.columnFormatCodes⟩ := by
  refine message_writes t fun dst => ?_
  rw [appendCounted_eq appendUint16_eq _ _ h, append_assoc]
  rfl

theorem ErrorResponse.encode_writes (ro : RangeOrder) (t : UInt8) (src : ErrorResponse) :
    Writes (src.encode ro t) ⟨t, src.bytes ro⟩ :=
  message_writes t fun dst => by rw [src.appendFields_eq]

theorem NegotiateProtocolVersion.encode_writes (ro : RangeOrder) (src : NegotiateProtocolVersion) :
    Writes src.encode ((BackendMessage.negotiateProtocolVersion src).frame ro) := by
  refine message_writes 118 fun dst => ?_
  rw [foldl_append appendString_eq, appendUint32_eq, appendUint32_eq]
  simp only [append_assoc]

theorem NotificationResponse.encode_writes (ro : RangeOrder) (src : NotificationResponse) :
    Writes src.encode ((BackendMessage.notificationResponse src).frame ro) := by
  refine message_writes 65 fun dst => ?_
  rw [appendString_eq, appendString_eq, appendUint32_eq]
  simp only [append_assoc]

theorem ParameterStatus.encode_writes (src : ParameterStatus) :
    Writes src.encode ⟨83, cstring src.name ++ cstring src.value⟩ := by
  refine message_writes 83 fun dst => ?_
  rw [appendString_eq, appendString_eq, append_assoc]

theorem ReadyForQuery.encode_writes (txStatus : UInt8) :
    Writes (ReadyForQuery.encode txStatus) ⟨90, [txStatus]⟩ := by
  intro _ dst
  have hlen : bigEndian 4 ([txStatus].length + 4) = [0, 0, 0, 5] := by
    show bigEndian 4 5 = _
    decide
  simp only [ReadyForQuery.encode, Frame.bytes, hlen]
  rfl

theorem BackendMessage.encode_appends (ro : RangeOrder) {msg : BackendMessage} (hplain : msg.Plain) :
    Writes (msg.encode ro) (msg.frame ro) := by
  cases msg with
  | authenticationOk => exact encodeAuthentication_writes 0 _
  | authenticationCleartextPassword => exact encodeAuthentication_writes 3 _
  | authenticationMD5Password salt => exact encodeAuthentication_writes 5 _
  | authenticationGSS => exact encodeAuthentication_writes 7 _
  | authenticationGSSContinue data => exact encodeAuthentication_writes 8 data
  | authenticationSASL authMechanisms => exact AuthenticationSASL.encode_writes authMechanisms
  | authenticationSASLContinue data => exact encodeAuthentication_writes 11 data
  | authenticationSASLFinal data => exact encodeAuthentication_writes 12 data
  | backendKeyData msg => exact msg.encode_writes
  | bindComplete => exact bareMessage_writes 50
  | closeComplete => exact bareMessage_writes 51
  | commandComplete commandTag => exact encodeString_writes 67 commandTag
  | copyBothResponse msg => exact CopyResponse.encode_writes 87 hplain
  | copyData data => exact encodeData_writes 100 data
  | copyDone => exact bareMessage_writes 99
  | copyInResponse msg => exact CopyResponse.encode_writes 71 hplain
  | copyOutResponse msg => exact CopyResponse.encode_writes 72 hplain
  | dataRow values => exact message_writes 68 fun dst => appendCounted_eq appendSized_eq _ dst hplain
  | emptyQueryResponse => exact bareMessage_writes 73
  | errorResponse msg => exact msg.encode_writes ro 69
  | functionCallResponse result =>
    exact message_writes 86 fun dst => congrArg Except.ok (appendSized_eq dst result)
  | negotiateProtocolVersion msg => exact msg.encode_writes ro
  | noData => exact bareMessage_writes 110
  | noticeResponse msg => exact msg.encode_writes ro 78
  | notificationResponse msg => exact msg.encode_writes ro
  | parameterDescription parameterOIDs =>
    exact message_writes 116 fun dst => appendCounted_eq appendUint32_eq _ dst hplain
  | parameterStatus msg => exact msg.encode_writes
  | parseComplete => exact bareMessage_writes 49
  | portalSuspended => exact bareMessage_writes 115
  | readyForQuery txStatus => exact ReadyForQuery.encode_writes txStatus
  | rowDescription fields =>
    exact message_writes 84 fun dst => appendCounted_eq FieldDescription.append_eq _ dst hplain.1

theorem sendAll_eq {encoders : List (Bytes → Encoded)} {frames : List Frame}
    (h : Forall₂ (fun encode frame => Appends encode (Frame.bytes frame)) encoders frames) :
    sendAll encoders = .ok (frameBytes frames) := by
  have hfold : ∀ wbuf, encoders.foldl Sender.send
      ⟨wbuf, none⟩ = ⟨wbuf ++ frameBytes frames, none⟩ := by
    induction h with
    | nil =>
      intro wbuf
      simp [frameBytes]
    | @cons encode frame encoders frames hfirst _ ih =>
      intro wbuf
      have hsend : Sender.send ⟨wbuf, none⟩ encode = ⟨wbuf ++ frame.bytes, none⟩ := by
        simp only [Sender.send, hfirst wbuf]
      rw [foldl_cons, hsend, ih]
      simp [frameBytes]
  unfold sendAll Sender.new
  rw [hfold]
  rfl

end Pgx.Proto3
