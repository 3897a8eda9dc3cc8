import Pgx.Proto3.Bodies

/-!
# Decoders read back what encoders wrote

For each part of a body, for each body, and for the tables of decoders. An `ErrorResponse` is a map
of fields that is written in any order, so what comes back is the same field by field.
-/
namespace Pgx.Proto3

open Pgx.Go Pgx.Go.Cursor List NegotiateProtocolVersion ErrorResponse ErrorField

variable {msg : BackendMessage} {field : ErrorField} {dst : ErrorResponse}
    {left : List ErrorField} {fuel : Nat}
    {entry : UInt8 × Bytes}

/-! ## Parts of bodies -/

section Parts

variable {s src : Bytes}

theorem cstring_append (s src : Bytes) : cstring s ++ src = s ++ 0 :: src := by
  rw [cstring, append_assoc]
  rfl

@[simp] theorem length_cstring (s : Bytes) : (cstring s).length = s.length + 1 := by
  simp [cstring]

theorem one_le_length_cstring (s : Bytes) : 1 ≤ (cstring s).length := by simp

theorem take_cstring (s src : Bytes) : (cstring s ++ src).take s.length = s := by
  rw [cstring_append]
  exact take_left

theorem drop_cstring (s src : Bytes) : (cstring s ++ src).drop (s.length + 1) = src :=
    drop_left' (length_cstring s)

theorem indexByte_cstring (h : NulFree s) (src : Bytes) :
    indexByte 0 (cstring s ++ src) = some s.length := by
  rw [cstring_append]
  exact indexByte_append h src

theorem reads_indexedString (err : DecodeError) (h : NulFree s) :
    Reads (indexedString err) (cstring s) s := by
  intro src
  have hlen : s.length + 1 ≤ (cstring s ++ src).length := by simp
  have hslice : Runs (slice s.length : Decoder Bytes) (cstring s ++ src) _ _ := .slice (by omega)
  have hskip : Runs (advance (s.length + 1) : Decoder Unit) (cstring s ++ src) _ _ := .advance hlen
  rw [take_cstring] at hslice
  rw [drop_cstring] at hskip
  refine .bind .rest ?_
  rw [indexByte_cstring h]
  exact .bind hslice (.bind hskip (.pure s))

theorem reads_bufString (h : NulFree s) : Reads bufString (cstring s) s := by
  intro src
  have hread : Runs (bufReadBytes 0 .eof : Decoder Bytes) (cstring s ++ src) (cstring s) src := by
    unfold Runs bufReadBytes
    simp only [indexByte_cstring h]
    rw [drop_cstring, take_left' (length_cstring s)]
  have hdrop : Runs (dropLastByte (cstring s) : Decoder Bytes) src s src := by
    unfold dropLastByte
    rw [if_neg (by simp), length_cstring, Nat.add_sub_cancel, cstring, take_left]
    rfl
  exact .bind hread hdrop

theorem reads_bufUint (width : Nat) {n : Nat} (h : n < 256 ^ width) :
    Reads (bufUint width) (bigEndian width n) n := by
  intro src
  have hnext : Runs (bufNext width : Decoder Bytes) (bigEndian width n ++ src) _ _ := .bufNext width
  have hvalue : Runs (bigEndianUint width (bigEndian width n) : Decoder Nat) src _ _ :=
    .bigEndianUint (bigEndian_length width n).ge
  rw [take_bigEndian, drop_bigEndian] at hnext
  rw [take_of_length_le (bigEndian_length width n).le, fromBigEndian_bigEndian_of_lt h] at hvalue
  exact .bind hnext hvalue

theorem reads_bufUint16 (n : UInt16) : Reads (UInt16.ofNat <$> bufUint 2 : Decoder UInt16)
    (uint16Bytes n) n := by
  intro src
  have h := (reads_bufUint 2 n.toNat_lt src).map UInt16.ofNat
  rwa [UInt16.ofNat_toNat] at h

theorem reads_bufUint32 (n : UInt32) : Reads (UInt32.ofNat <$> bufUint 4 : Decoder UInt32)
    (uint32Bytes n) n := by
  intro src
  have h := (reads_bufUint 4 n.toNat_lt src).map UInt32.ofNat
  rwa [UInt32.ofNat_toNat] at h

theorem reads_sizedValue (messageType : String) {v : Option Bytes}
    (h : (sizedBytes v).length < 2 ^ 31) :
    Reads (sizedValue messageType) (sizedBytes v) v := by
  intro src
  cases v with
  | none =>
    refine .bind (.require _ ?_) (.bind (reads_int32 (-1) src) ?_)
    · simp [sizedBytes, int32Bytes, bigEndian_length]
    · exact .pure none
  | some v =>
    rw [sizedBytes, length_append] at h
    have hsize : (Int32.ofNat v.length).toInt = v.length := Int32.toInt_ofNat_of_lt (by omega)
    have hlen : v.length ≤ (v ++ src).length := by simp
    have hslice : Runs (slice v.length : Decoder Bytes) (v ++ src) _ _ := .slice hlen
    have hskip : Runs (advance v.length : Decoder Unit) (v ++ src) _ _ := .advance hlen
    rw [take_left] at hslice
    rw [drop_left] at hskip
    rw [sizedBytes, append_assoc]
    refine .bind (.require _ ?_) (.bind (reads_int32 _ _) ?_)
    · simp [int32Bytes, bigEndian_length]
    · rw [hsize]
      refine .bind .rest (.bind (.failIf _ (by omega)) ?_)
      exact .bind hslice (.bind hskip (.pure _))

end Parts

/-! ## Lists of parts -/

section Lists

variable {α : Type} {enc : α → Bytes} {xs : List α}

theorem length_le_flatMap {x : α} (h : x ∈ xs) : (enc x).length ≤ (xs.flatMap enc).length := by
  induction xs with
  | nil => cases h
  | cons y ys ih =>
    rw [flatMap_cons, length_append]
    rcases mem_cons.mp h with rfl | hy
    · omega
    · have := ih hy
      omega

theorem length_flatMap_of_eq {width : Nat} (h : ∀ x, (enc x).length = width) (xs : List α) :
    (xs.flatMap enc).length = xs.length * width := by
  induction xs with
  | nil => simp
  | cons x xs ih => rw [flatMap_cons, length_append, ih, h, length_cons, Nat.succ_mul, Nat.add_comm]

/-- Nothing is written as no bytes, so there are as many bytes as elements. -/
theorem length_le_length_flatMap {enc : α → Bytes} (h : ∀ x, 1 ≤ (enc x).length) (xs : List α) :
    xs.length ≤ (xs.flatMap enc).length := by
  induction xs with
  | nil => exact le_refl _
  | cons x xs ih =>
    have := h x
    rw [flatMap_cons, length_append, length_cons]
    omega

theorem length_uint16Bytes (n : UInt16) : (uint16Bytes n).length = 2 := bigEndian_length _ _

theorem length_uint32Bytes (n : UInt32) : (uint32Bytes n).length = 4 := bigEndian_length _ _

theorem length_int16Bytes (n : Int16) : (int16Bytes n).length = 2 := bigEndian_length _ _

theorem length_int32Bytes (n : Int32) : (int32Bytes n).length = 4 := bigEndian_length _ _

theorem length_countedBytes (enc : α → Bytes) (xs : List α) :
    (countedBytes enc xs).length = 2 + (xs.flatMap enc).length := by
  rw [countedBytes, length_append, length_uint16Bytes]

theorem toNat_count (h : xs.length ≤ maxUint16) : (UInt16.ofNat xs.length).toNat = xs.length := by
  unfold maxUint16 at h
  rw [UInt16.toNat_ofNat']
  omega

theorem runs_count (enc : α → Bytes) (xs : List α) (src : Bytes) :
    Runs (uint16 : Decoder UInt16) (countedBytes enc xs ++ src) (UInt16.ofNat xs.length)
      (xs.flatMap enc ++ src) := by
  exact reads_uint16 _ _

theorem runs_bufCount (enc : α → Bytes) (src : Bytes) (h : xs.length ≤ maxUint16) :
    Runs (bufUint 2) (countedBytes enc xs ++ src) xs.length (xs.flatMap enc ++ src) := by
  have hread := reads_bufUint 2 (UInt16.ofNat xs.length).toNat_lt (xs.flatMap enc ++ src)
  rw [toNat_count h] at hread
  rw [countedBytes, uint16Bytes, toNat_count h]
  exact hread

theorem reads_sizedValues (messageType : String) {values : List (Option Bytes)}
    (h : (values.flatMap sizedBytes).length < 2 ^ 31) :
    Reads (fill values.length (sizedValue messageType) values.length 0)
      (values.flatMap sizedBytes) values :=
  Reads.fill values
    (fun _ hv => reads_sizedValue messageType (lt_of_le_of_lt (length_le_flatMap hv) h)) (by omega)

end Lists

/-! ## Frontend messages -/

section Frontend

theorem runs_decodeEmpty (messageType : String) : Runs (decodeEmpty messageType) [] () [] :=
  .bind .rest (.failIf _ (by simp))

theorem reads_formatCodes (codes : List Int16) :
    Reads (formatCodes codes.length) (codes.flatMap int16Bytes) codes := by
  intro src
  refine .bind (.make (by omega)) (.bind (.require _ ?_) ?_)
  · rw [length_append, length_flatMap_of_eq length_int16Bytes]
    omega
  · exact Reads.fill codes (fun x _ => reads_int16 x) (by omega) src

theorem Bind.reads_decodeFormatCodes (codes : List Int16) :
    Reads (Bind.decodeFormatCodes codes.length) (codes.flatMap int16Bytes) codes := by
  cases codes with
  | nil => exact fun src => .pure []
  | cons code codes => exact reads_formatCodes (code :: codes)

theorem Bind.reads_decodeParameters {parameters : List (Option Bytes)}
    (h : (parameters.flatMap sizedBytes).length < 2 ^ 31) :
    Reads (Bind.decodeParameters parameters.length) (parameters.flatMap sizedBytes) parameters := by
  cases parameters with
  | nil => exact fun src => .pure []
  | cons value values => exact fun src => .bind (.make (by omega)) (reads_sizedValues "Bind" h src)

theorem Bind.runs_decode {msg : Bind} (h : (FrontendMessage.bind msg).Plain)
    (hlen : (FrontendMessage.bind msg).frame.body.length < 2 ^ 31) :
    Runs Bind.decode (FrontendMessage.bind msg).frame.body msg [] := by
  obtain ⟨hportal, hstatement, hcodes, hparams, hresults⟩ := h
  simp only [FrontendMessage.frame, length_append, length_countedBytes] at hlen
  refine .bind (reads_indexedString _ hportal _) (.bind (reads_indexedString _ hstatement _) ?_)
  refine .bind (.require _ ?_) (.bind (runs_count _ _ _) ?_)
  · rw [length_append, length_countedBytes]
    omega
  rw [toNat_count hcodes]
  refine .bind (Bind.reads_decodeFormatCodes _ _)
    (.bind (.require _ ?_) (.bind (runs_count _ _ _) ?_))
  · rw [length_append, length_countedBytes]
    omega
  rw [toNat_count hparams]
  refine .bind (Bind.reads_decodeParameters (by omega) _) (.bind (.require _ ?_) ?_)
  · rw [length_countedBytes]
    omega
  have hcount := runs_count int16Bytes msg.resultFormatCodes []
  rw [append_nil] at hcount
  refine .bind hcount ?_
  rw [toNat_count hresults]
  exact .bind (reads_formatCodes _ _) (.pure _)

theorem ObjectName.runs_decode (messageType : String) {msg : ObjectName} (h : NulFree msg.name) :
    Runs (ObjectName.decode messageType) (msg.objectType :: cstring msg.name) msg
      (cstring msg.name) := by
  have hindex := indexByte_cstring h []
  have htake := take_cstring msg.name []
  rw [append_nil] at hindex htake
  have hslice : Runs (slice ((cstring msg.name).length - 1) : Decoder Bytes)
      (cstring msg.name) _ _ := .slice (by simp)
  rw [length_cstring, Nat.add_sub_cancel, htake] at hslice
  refine .bind (.require _ (by simp)) (.bind .rest (.bind (.index rfl) ?_))
  have hskip : Runs (advance 1 : Decoder Unit) (msg.objectType :: cstring msg.name) ()
      (cstring msg.name) :=
    .advance (by simp)
  refine .bind hskip (.bind .rest (.bind (.failIf _ ?_) ?_))
  · simp [hindex]
  · rw [length_cstring]
    exact .bind hslice (.pure msg)

theorem runs_wholeString (messageType : String) {s : Bytes} (h : NulFree s) :
    Runs (wholeString messageType) (cstring s) s (cstring s) := by
  have hindex := indexByte_cstring h []
  have htake := take_cstring s []
  rw [append_nil] at hindex htake
  have hslice : Runs (slice ((cstring s).length - 1) : Decoder Bytes) (cstring s) _ _ :=
    .slice (by simp)
  rw [length_cstring, Nat.add_sub_cancel, htake] at hslice
  refine .bind .rest (.bind (.failIf _ (by simp)) (.bind (.failIf _ ?_) ?_))
  · simp [hindex]
  · rw [length_cstring]
    exact hslice

theorem Execute.runs_decode {msg : Execute} (h : NulFree msg.portal) :
    Runs Execute.decode (cstring msg.portal ++ uint32Bytes msg.maxRows) msg [] := by
  have hread := (reads_bufUint 4 msg.maxRows.toNat_lt).all
  refine .bind (reads_bufString h _) (.bind (.require _ (length_uint32Bytes _).ge) (.bind hread ?_))
  rw [UInt32.ofNat_toNat]
  exact .pure msg

theorem FunctionCall.reads_formatCode {code : UInt16} (h : FormatCode code) :
    Reads FunctionCall.formatCode (uint16Bytes code) code := by
  intro src
  have hknown : ¬ (code ≠ 0 ∧ code ≠ 1) := fun hne => h.elim hne.1 hne.2
  exact .bind (reads_uint16 code src) (.bind (.failIf _ hknown) (.pure code))

theorem FunctionCall.runs_decode {msg : FunctionCall} (h : (FrontendMessage.functionCall msg).Plain)
    (hformats : (FrontendMessage.functionCall msg).KnownFormats)
    (hlen : (FrontendMessage.functionCall msg).frame.body.length < 2 ^ 31) :
    Runs FunctionCall.decode (FrontendMessage.functionCall msg).frame.body msg [] := by
  obtain ⟨hcodes, hargs⟩ := h
  have hcodesLen := length_flatMap_of_eq length_uint16Bytes msg.argFormatCodes
  simp only [FrontendMessage.frame, length_append, length_countedBytes] at hlen
  refine .bind (.require _ ?_) (.bind (reads_uint32 _ _) (.bind (runs_count _ _ _) ?_))
  · simp only [FrontendMessage.frame, length_append, length_countedBytes, length_uint32Bytes,
      length_uint16Bytes]
    omega
  rw [toNat_count hcodes]
  refine .bind (.require _ ?_) (.bind (.make (by omega)) ?_)
  · simp only [length_append, length_countedBytes]
    omega
  refine .bind (Reads.fill _ (fun c hc => FunctionCall.reads_formatCode (hformats.1 c hc))
    (by omega) _) ?_
  refine .bind (runs_count _ _ _) ?_
  rw [toNat_count hargs]
  refine .bind (.make (by omega)) (.bind (reads_sizedValues _ (by omega) _) ?_)
  refine .bind (.require _ (length_uint16Bytes _).ge) ?_
  exact .bind (FunctionCall.reads_formatCode hformats.2).all (.pure _)

theorem Parse.runs_decode {msg : Parse} (h : (FrontendMessage.parse msg).Plain) :
    Runs Parse.decode (FrontendMessage.parse msg).frame.body msg [] := by
  obtain ⟨hname, hquery, hoids⟩ := h
  have hcount := runs_bufCount uint32Bytes [] hoids
  rw [append_nil, append_nil] at hcount
  refine .bind (reads_bufString hname _) (.bind (reads_bufString hquery _) ?_)
  refine .bind (.require _ ?_) (.bind hcount ?_)
  · rw [length_countedBytes]
    omega
  refine .bind (Reads.collect msg.parameterOIDs (fun oid _ src => ?_)).all (.pure _)
  refine .bind (.require _ ?_) (reads_bufUint32 oid src)
  rw [length_append, length_uint32Bytes]
  omega

theorem SASLInitialResponse.runs_decode {msg : SASLInitialResponse} (h : NulFree msg.authMechanism) :
    Runs SASLInitialResponse.decode
      (FrontendMessage.saslInitialResponse msg).frame.body msg msg.data := by
  have hlen : (int32Bytes (Int32.ofNat msg.data.length)).length = 4 := length_int32Bytes _
  have hskip : Runs (advance 4 : Decoder Unit)
      (int32Bytes (Int32.ofNat msg.data.length) ++ msg.data) _ _ :=
    .advance (by rw [length_append]; omega)
  refine .bind (reads_indexedString _ h _)
    (.bind (.require _ ?_) (.bind hskip (.bind .rest (.pure msg))))
  rw [length_append]
  omega

theorem passwordDecoder_passwordMessage {authType : Nat} (h : authType ∉ [7, 8, 10, 11, 12]) :
    passwordDecoder authType = .passwordMessage <$> PasswordMessage.decode := by
  unfold passwordDecoder
  split <;> first | rfl | simp at h

theorem decodeFrontend_frame {authType : Nat} {msg : FrontendMessage} (hplain : msg.Plain)
    (hformats : msg.KnownFormats)
    (hauth : msg.MatchesAuth authType) (hlen : msg.frame.body.length < 2 ^ 31) :
    decodeFrontend authType msg.frame.msgType msg.frame.body = .ok msg := by
  cases msg with
  | bind msg => exact ((Bind.runs_decode hplain hlen).map FrontendMessage.bind).run'
  | close msg => exact ((ObjectName.runs_decode "Close" hplain).map FrontendMessage.close).run'
  | copyData data => exact (Runs.rest.map FrontendMessage.copyData).run'
  | copyDone => exact ((runs_decodeEmpty "CopyDone").bind (.pure FrontendMessage.copyDone)).run'
  | copyFail s => exact ((runs_wholeString "CopyFail" hplain).map FrontendMessage.copyFail).run'
  | describe msg =>
    exact ((ObjectName.runs_decode "Describe" hplain).map FrontendMessage.describe).run'
  | execute msg => exact ((Execute.runs_decode hplain).map FrontendMessage.execute).run'
  | flush => exact ((runs_decodeEmpty "Flush").bind (.pure FrontendMessage.flush)).run'
  | functionCall msg =>
    exact ((FunctionCall.runs_decode hplain hformats hlen).map FrontendMessage.functionCall).run'
  | gssResponse data =>
    rcases hauth with rfl | rfl <;> exact (Runs.rest.map FrontendMessage.gssResponse).run'
  | parse msg => exact ((Parse.runs_decode hplain).map FrontendMessage.parse).run'
  | passwordMessage password =>
    show StateT.run' (passwordDecoder authType) (cstring password) = _
    rw [passwordDecoder_passwordMessage hauth]
    exact ((reads_bufString hplain).all.map FrontendMessage.passwordMessage).run'
  | query string => exact ((runs_wholeString "Query" hplain).map FrontendMessage.query).run'
  | saslInitialResponse msg =>
    cases hauth
    exact ((SASLInitialResponse.runs_decode hplain).map FrontendMessage.saslInitialResponse).run'
  | saslResponse data =>
    rcases hauth with rfl | rfl <;> exact (Runs.rest.map FrontendMessage.saslResponse).run'
  | sync => exact ((runs_decodeEmpty "Sync").bind (.pure FrontendMessage.sync)).run'
  | terminate => exact ((runs_decodeEmpty "Terminate").bind (.pure FrontendMessage.terminate)).run'

end Frontend

/-- The same fields; the order of the unknown ones is left open. -/
structure ErrorResponse.Same (a b : ErrorResponse) : Prop where
  text : a.text = b.text
  number : a.number = b.number
  unknownFields : ∀ k, a.unknownFields.lookup k = b.unknownFields.lookup k

namespace ErrorResponse

variable {src : ErrorResponse}

theorem ofKey_key (field : ErrorField) : ofKey field.key = some field := by
  cases field with
  | text field => cases field <;> rfl
  | number field => cases field <;> rfl

theorem key_ne_zero (field : ErrorField) : field.key ≠ 0 := by
  cases field with
  | text field => cases field <;> decide
  | number field => cases field <;> decide

theorem mem_all (field : ErrorField) : field ∈ ErrorField.all := by
  cases field with
  | text field => cases field <;> decide
  | number field => cases field <;> decide

theorem reads_entry (hkey : entry.1 ≠ 0) (hvalue : NulFree entry.2) {result : ErrorResponse}
    {rest : Bytes} (h : Runs (fields fuel (dst.set entry.1 entry.2)) rest result []) :
    Runs (fields (fuel + 1) dst) (entryBytes entry ++ rest) result [] := by
  have hbyte : Runs (bufReadByte .eof : Decoder UInt8) (entryBytes entry ++ rest) entry.1
      (cstring entry.2 ++ rest) := rfl
  refine .bind hbyte ?_
  rw [if_neg hkey]
  exact .bind (reads_bufString hvalue rest) h

theorem runs_fields {entries : List (UInt8 × Bytes)}
    (h : ∀ entry ∈ entries, entry.1 ≠ 0 ∧ NulFree entry.2) (hfuel : entries.length < fuel) :
    Runs (fields fuel dst) (entries.flatMap entryBytes ++ [0])
      (entries.foldl (fun dst entry => dst.set entry.1 entry.2) dst) [] := by
  induction entries generalizing dst fuel with
  | nil =>
    obtain ⟨fuel, rfl⟩ := Nat.exists_eq_add_one.mpr hfuel
    have hbyte : Runs (bufReadByte .eof : Decoder UInt8) [0] 0 [] := rfl
    exact .bind hbyte (.pure dst)
  | cons entry entries ih =>
    obtain ⟨fuel, rfl⟩ := Nat.exists_eq_add_one.mpr (Nat.zero_lt_of_lt hfuel)
    obtain ⟨hkey, hvalue⟩ := h entry (.head _)
    rw [flatMap_cons, append_assoc]
    refine reads_entry hkey hvalue (ih (fun e he => h e (.tail _ he)) ?_)
    rw [length_cons] at hfuel
    omega

/-- A known field set to its value in `src` -/
def copyField (src dst : ErrorResponse) : ErrorField → ErrorResponse
  | .text field => { dst with text := Function.update dst.text field (src.text field) }
  | .number field => { dst with number := Function.update dst.number field (src.number field) }

theorem entry_eq_some (h : src.entry field = some entry) :
    (∃ f, field = .text f ∧ entry = (f.key, src.text f)) ∨
    ∃ f, field = .number f ∧ entry = (f.key, asciiText (formatInt (src.number f).toInt)) := by
  cases field <;> simp only [ErrorResponse.entry] at h <;> split at h <;> cases h
  · exact .inl ⟨_, rfl, rfl⟩
  · exact .inr ⟨_, rfl, rfl⟩

theorem set_entry (h : src.entry field = some entry) (dst : ErrorResponse) :
    dst.set entry.1 entry.2 = src.copyField dst field := by
  have hkey := ofKey_key field
  rcases entry_eq_some h with ⟨f, rfl, rfl⟩ | ⟨f, rfl, rfl⟩
  · simp only [set, show ofKey f.key = _ from hkey, copyField]
  · simp only [set, show ofKey f.key = _ from hkey, copyField, parseInt32_formatInt,
      Int32.ofInt_toInt]

/-- `dst` has the fields of `src`, but for some of those that are left. -/
structure Copied (src dst : ErrorResponse) (left : List ErrorField) : Prop where
  text : ∀ field, dst.text field = src.text field ∨ dst.text field = [] ∧ .text field ∈ left
  number : ∀ field, dst.number field = src.number field ∨ dst.number field = 0 ∧ .number field ∈ left

theorem Copied.copyField (h : Copied src dst (field :: left)) :
    Copied src (src.copyField dst field) left := by
  cases field with
  | text field =>
    refine ⟨fun f => ?_, fun f => by simpa [ErrorResponse.copyField] using h.number f⟩
    by_cases hf : f = field
    · exact .inl (by simp [ErrorResponse.copyField, hf])
    · simpa [ErrorResponse.copyField, hf] using h.text f
  | number field =>
    refine ⟨fun f => by simpa [ErrorResponse.copyField] using h.text f, fun f => ?_⟩
    by_cases hf : f = field
    · exact .inl (by simp [ErrorResponse.copyField, hf])
    · simpa [ErrorResponse.copyField, hf] using h.number f

theorem Copied.skipField
    (h : Copied src dst (field :: left)) (hentry : src.entry field = none) : Copied src dst left := by
  refine ⟨fun f => ?_, fun f => ?_⟩
  · refine (h.text f).elim .inl fun hz => ?_
    obtain ⟨hzero, hmem⟩ := hz
    rcases mem_cons.mp hmem with rfl | hleft
    · have hempty : src.text f = [] := by simpa [ErrorResponse.entry] using hentry
      exact .inl (hzero.trans hempty.symm)
    · exact .inr ⟨hzero, hleft⟩
  · refine (h.number f).elim .inl fun hz => ?_
    obtain ⟨hzero, hmem⟩ := hz
    rcases mem_cons.mp hmem with rfl | hleft
    · have hempty : src.number f = 0 := by simpa [ErrorResponse.entry] using hentry
      exact .inl (hzero.trans hempty.symm)
    · exact .inr ⟨hzero, hleft⟩

theorem foldl_known (h : Copied src dst left) :
    Copied src ((left.filterMap src.entry).foldl (fun dst entry => dst.set entry.1 entry.2) dst) [] ∧
      ((left.filterMap src.entry).foldl (fun dst entry => dst.set entry.1 entry.2)
        dst).unknownFields =
        dst.unknownFields := by
  induction left generalizing dst with
  | nil => exact ⟨h, rfl⟩
  | cons field left ih =>
    cases hentry : src.entry field with
    | none =>
      rw [filterMap_cons_none hentry]
      exact ih (h.skipField hentry)
    | some entry =>
      rw [filterMap_cons_some hentry, foldl_cons, set_entry hentry]
      obtain ⟨hcopied, hunknown⟩ := ih h.copyField
      exact ⟨hcopied, hunknown.trans (by cases field <;> rfl)⟩

theorem foldl_unknown {entries : List (UInt8 × Bytes)} (h : ∀ entry ∈ entries, ofKey entry.1 = none)
    (dst : ErrorResponse) : entries.foldl (fun dst entry => dst.set entry.1 entry.2) dst =
      { dst with
        unknownFields :=
          entries.foldl (fun m entry => AList.insert entry.1 entry.2 m) dst.unknownFields } := by
  induction entries generalizing dst with
  | nil => rfl
  | cons entry entries ih =>
    have hset : dst.set entry.1 entry.2 =
        { dst with unknownFields := dst.unknownFields.insert entry.1 entry.2 } := by
      simp only [set, h entry (.head _)]
    rw [foldl_cons, hset, ih (fun e he => h e (.tail _ he))]
    rfl

/-- A map that is written entry by entry, in any order, is the same map. -/
theorem lookup_rewritten (ro : RangeOrder) (m : Map UInt8 Bytes) (k : UInt8) :
    (((ro.order m.entries).map fun entry => (entry.1, entry.2)).foldl
      (fun m entry => AList.insert entry.1 entry.2 m)
      (∅ : Map UInt8 Bytes)).lookup k = m.lookup k := by
  have hmem : ∀ v, (k, v) ∈ (ro.order m.entries).map (fun entry => (entry.1, entry.2)) ↔
      m.lookup k = some v := by
    intro v
    rw [← Option.mem_def, AList.mem_lookup_iff, ← (ro.perm m.entries).mem_iff, mem_map]
    constructor
    · rintro ⟨entry, hentry, heq⟩
      cases heq
      exact hentry
    · exact fun hentry => ⟨_, hentry, rfl⟩
  rw [lookup_foldl_insert]
  cases hlookup : m.lookup k with
  | some v =>
    obtain ⟨u, hu⟩ := exists_lastWrite ((hmem v).mpr hlookup)
    have hsame := (hmem u).mp (mem_of_lastWrite hu)
    rw [hu, ← hsame, hlookup]
  | none =>
    cases hlast : lastWrite ((ro.order m.entries).map fun entry => (entry.1, entry.2)) k with
    | none => rfl
    | some u =>
      have hsome := (hmem u).mp (mem_of_lastWrite hlast)
      rw [hlookup] at hsome
      cases hsome

theorem nulFree_formatInt (n : Int) : NulFree (asciiText (formatInt n)) := by
  have hdigits : NulFree (asciiText (formatUint n.natAbs)) := by
    intro h
    obtain ⟨c, hc, he⟩ := mem_map.mp h
    obtain ⟨hv, h0, h9⟩ := asciiDigit_bounds (isDigit_of_mem_formatUint hc)
    rw [he] at hv
    have hzero : c.toNat = 0 := hv.symm
    omega
  unfold formatInt
  split
  · intro h
    rcases mem_cons.mp h with h | h
    · exact absurd h (by decide)
    · exact hdigits h
  · exact hdigits

theorem unknown_plain (ro : RangeOrder) (hplain : src.Plain)
    (h : entry ∈ (ro.order src.unknownFields.entries).map fun entry => (entry.1, entry.2)) :
    entry.1 ≠ 0 ∧ ofKey entry.1 = none ∧ NulFree entry.2 := by
  obtain ⟨e, he, rfl⟩ := mem_map.mp h
  have hlookup : src.unknownFields.lookup e.1 = some e.2 :=
    AList.mem_lookup_iff.mpr ((ro.perm src.unknownFields.entries).mem_iff.mp he)
  obtain ⟨hkey, hunknown⟩ := hplain.key e.1 (AList.lookup_isSome.mp (by rw [hlookup]; rfl))
  exact ⟨hkey, hunknown, hplain.value e.1 e.2 hlookup⟩

theorem entries_plain (ro : RangeOrder) (hplain : src.Plain) :
    ∀ entry ∈ src.entries ro, entry.1 ≠ 0 ∧ NulFree entry.2 := by
  intro entry hentry
  rcases mem_append.mp hentry with h | h
  · obtain ⟨field, _, hfield⟩ := mem_filterMap.mp h
    have hkey := key_ne_zero field
    rcases entry_eq_some hfield with ⟨f, rfl, rfl⟩ | ⟨f, rfl, rfl⟩
    · exact ⟨hkey, hplain.text f⟩
    · exact ⟨hkey, nulFree_formatInt _⟩
  · obtain ⟨hkey, _, hvalue⟩ := unknown_plain ro hplain h
    exact ⟨hkey, hvalue⟩

theorem foldl_entries (ro : RangeOrder) (hplain : src.Plain) :
    Same ((src.entries ro).foldl (fun dst entry => dst.set entry.1 entry.2) .zero) src := by
  obtain ⟨hcopied, hunknown⟩ := foldl_known
    (show Copied src .zero all from ⟨fun _ => .inr ⟨rfl, mem_all _⟩, fun _ => .inr ⟨rfl, mem_all _⟩⟩)
  unfold entries
  rw [List.foldl_append, foldl_unknown fun entry hentry => (unknown_plain ro hplain hentry).2.1]
  refine ⟨funext fun field => ?_, funext fun field => ?_, fun k => ?_⟩
  · exact (hcopied.text field).resolve_right fun h => nomatch h.2
  · exact (hcopied.number field).resolve_right fun h => nomatch h.2
  · rw [hunknown]
    exact lookup_rewritten ro src.unknownFields k

theorem one_le_length_entryBytes (entry : UInt8 × Bytes) : 1 ≤ (entryBytes entry).length := by
  simp [entryBytes]

theorem runs_decode (ro : RangeOrder) (hplain : src.Plain) :
    ∃ msg, Runs ErrorResponse.decode (src.bytes ro) msg [] ∧ msg.Same src := by
  refine ⟨_, .bind .rest (runs_fields (entries_plain ro hplain) ?_), foldl_entries ro hplain⟩
  have := length_le_length_flatMap one_le_length_entryBytes (src.entries ro)
  rw [bytes, length_append, length_singleton]
  omega

end ErrorResponse

section Authentication

variable {data : Bytes}

theorem reads_checkAuthType (authType : UInt32) :
    Reads (checkAuthType authType.toNat) (uint32Bytes authType) () :=
  fun src => .bind (reads_uint32 authType src) (.failIf _ (not_not.mpr rfl))

theorem four_le_length_append (authType : UInt32) (data : Bytes) :
    4 ≤ (uint32Bytes authType ++ data).length := by
  rw [length_append, length_uint32Bytes]
  omega

theorem runs_bareAuthentication (authType : UInt32) :
    Runs (bareAuthentication authType.toNat) (uint32Bytes authType ++ []) () [] := by
  refine .bind .rest (.bind (.failIf _ ?_) (reads_checkAuthType authType []))
  rw [append_nil, length_uint32Bytes]
  omega

theorem runs_authenticationData (authType : UInt32) (data : Bytes) :
    Runs (authenticationData authType.toNat) (uint32Bytes authType ++ data) data data :=
  .bind (.require _ (four_le_length_append authType data))
    (.bind (reads_checkAuthType authType data) .rest)

theorem AuthenticationMD5Password.runs_decode (salt : Salt) :
    Runs AuthenticationMD5Password.decode (uint32Bytes 5 ++ [salt.b0, salt.b1, salt.b2, salt.b3]) salt
      [salt.b0, salt.b1, salt.b2, salt.b3] := by
  refine .bind .rest (.bind (.failIf _ ?_) (.bind (reads_checkAuthType 5 _) ?_))
  · simp [length_uint32Bytes]
  · exact .bind (.index rfl)
      (.bind (.index rfl) (.bind (.index rfl) (.bind (.index rfl) (.pure salt))))

theorem AuthenticationGSS.runs_decode : Runs AuthenticationGSS.decode (uint32Bytes 7 ++ []) () [] :=
  .bind (.require _ (four_le_length_append 7 [])) (reads_checkAuthType 7 [])

theorem AuthenticationSASL.runs_mechanisms {authMechanisms : List Bytes}
    (h : ∀ s ∈ authMechanisms, NulFree s) (hfuel : authMechanisms.length < fuel) :
    Runs (AuthenticationSASL.mechanisms fuel)
      (authMechanisms.flatMap cstring ++ [0]) authMechanisms [0] := by
  induction authMechanisms generalizing fuel with
  | nil =>
    obtain ⟨fuel, rfl⟩ := Nat.exists_eq_add_one.mpr hfuel
    exact .bind .rest (.pure [])
  | cons s authMechanisms ih =>
    obtain ⟨fuel, rfl⟩ := Nat.exists_eq_add_one.mpr (Nat.zero_lt_of_lt hfuel)
    rw [length_cons] at hfuel
    rw [flatMap_cons, append_assoc]
    refine .bind .rest ?_
    rw [if_pos (by simp only [length_append, length_cstring, length_singleton]; omega)]
    refine .bind (reads_indexedString _ (h s (.head _)) _) ?_
    exact .bind (ih (fun t ht => h t (.tail _ ht)) (by omega)) (.pure _)

theorem AuthenticationSASL.runs_decode {authMechanisms : List Bytes}
    (h : ∀ s ∈ authMechanisms, NulFree s) :
    Runs AuthenticationSASL.decode (uint32Bytes 10 ++ (authMechanisms.flatMap cstring ++ [0]))
      authMechanisms [0] := by
  refine .bind (.require _ (four_le_length_append 10 _))
    (.bind (reads_checkAuthType 10 _) (.bind .rest ?_))
  refine AuthenticationSASL.runs_mechanisms h ?_
  have := length_le_length_flatMap one_le_length_cstring authMechanisms
  rw [length_append, length_singleton]
  omega

theorem authenticated {authType : UInt32} {decode : Decoder BackendMessage} {src' : Bytes}
    (hlookup : authenticationDecoders.lookup authType.toNat = some decode)
    (h : Runs decode (uint32Bytes authType ++ data) msg src') :
    Runs decodeAuthentication (uint32Bytes authType ++ data) msg src' := by
  have hread : Runs (bigEndianUint 4 (uint32Bytes authType ++ data) : Decoder Nat)
      (uint32Bytes authType ++ data) _ _ :=
    .bigEndianUint (four_le_length_append authType data)
  rw [uint32Bytes, take_bigEndian, fromBigEndian_bigEndian_of_lt authType.toNat_lt] at hread
  refine .bind (.require _ (four_le_length_append authType data)) (.bind .rest (.bind hread ?_))
  rw [hlookup]
  exact h

end Authentication

/-! ## Backend messages -/

section Backend

theorem BackendKeyData.runs_decode {msg : BackendKeyData} (h : 4 ≤ msg.secretKey.length) :
    Runs BackendKeyData.decode (uint32Bytes msg.processID ++ msg.secretKey) msg msg.secretKey := by
  have hlen : (uint32Bytes msg.processID ++ msg.secretKey).length = 4 + msg.secretKey.length := by
    rw [length_append, length_uint32Bytes]
  refine .bind .rest (.bind (.failIf _ (by omega)) (.bind (reads_uint32 _ _) ?_))
  exact .bind (.make (by omega)) (.bind .rest (.pure msg))

theorem CommandComplete.runs_decode {commandTag : Bytes} (h : NulFree commandTag) :
    Runs CommandComplete.decode (cstring commandTag) commandTag (cstring commandTag) := by
  have hindex := indexByte_cstring h []
  have htake := take_cstring commandTag []
  rw [append_nil] at hindex htake
  have hslice : Runs (slice commandTag.length : Decoder Bytes) (cstring commandTag) _ _ :=
    .slice (by simp)
  rw [htake] at hslice
  refine .bind .rest ?_
  rw [hindex]
  exact .bind (.failIf _ (by simp)) hslice

theorem CopyResponse.runs_decode (messageType : String) {msg : CopyResponse}
    (h : msg.columnFormatCodes.length ≤ maxUint16) :
    Runs (CopyResponse.decode messageType)
      (msg.overallFormat :: countedBytes uint16Bytes msg.columnFormatCodes) msg [] := by
  have hlen := length_flatMap_of_eq length_uint16Bytes msg.columnFormatCodes
  have hcount := runs_bufCount uint16Bytes [] h
  rw [append_nil, append_nil] at hcount
  have hfirst : Runs (bufNext 1 : Decoder Bytes)
      (msg.overallFormat :: countedBytes uint16Bytes msg.columnFormatCodes)
      [msg.overallFormat] (countedBytes uint16Bytes msg.columnFormatCodes) := .bufNext 1
  refine .bind (.require _ ?_) (.bind hfirst (.bind (.index rfl) (.bind hcount (.bind .rest ?_))))
  · rw [length_cons, length_countedBytes]
    omega
  refine .bind (.failIf _ (not_not.mpr hlen)) (.bind (.make (by omega)) ?_)
  exact .bind (Reads.fill _ (fun code _ => reads_bufUint16 code) (by omega)).all (.pure msg)

theorem DataRow.runs_decode {values : List (Option Bytes)} (h : values.length ≤ maxUint16)
    (hlen : (countedBytes sizedBytes values).length < 2 ^ 31) :
    Runs (DataRow.decode 0) (countedBytes sizedBytes values) values [] := by
  have hcount := runs_count sizedBytes values []
  rw [append_nil, append_nil] at hcount
  rw [length_countedBytes] at hlen
  unfold DataRow.decode
  simp only [DataRow.resize_eq]
  refine .bind (.require _ ?_) (.bind hcount (.bind (.pure ()) ?_))
  · rw [length_countedBytes]
    omega
  rw [toNat_count h]
  exact (reads_sizedValues "DataRow" (by omega)).all

theorem FunctionCallResponse.runs_decode {result : Option Bytes}
    (h : (sizedBytes result).length < 2 ^ 31) :
    Runs FunctionCallResponse.decode (sizedBytes result) result (result.getD []) := by
  cases result with
  | none =>
    refine .bind (.require _ (length_int32Bytes _).ge) (.bind (reads_int32 (-1)).all ?_)
    exact .pure none
  | some v =>
    rw [sizedBytes, length_append] at h
    have hsize : (Int32.ofNat v.length).toInt = v.length := Int32.toInt_ofNat_of_lt (by omega)
    refine .bind (.require _ ?_) (.bind (reads_int32 _ _) ?_)
    · rw [sizedBytes, length_append, length_int32Bytes]
      omega
    · rw [hsize]
      exact .bind .rest (.bind (.failIf _ (by omega)) (.pure _))

theorem NegotiateProtocolVersion.reads_option {s : Bytes} (h : NulFree s) :
    Reads option (cstring s) s := by
  intro src
  have hend : ((cstring s ++ src).takeWhile (· ≠ 0)).length = s.length := by
    rw [cstring_append, takeWhile_append_of_pos]
    · simp
    · intro b hb
      have hne : b ≠ 0 := fun hz => h (hz ▸ hb)
      simpa using hne
  have hlen : s.length + 1 ≤ (cstring s ++ src).length := by simp
  have hslice : Runs (slice s.length : Decoder Bytes) (cstring s ++ src) _ _ := .slice (by omega)
  have hskip : Runs (advance (s.length + 1) : Decoder Unit) (cstring s ++ src) _ _ := .advance hlen
  rw [take_cstring] at hslice
  rw [drop_cstring] at hskip
  refine .bind .rest (.bind (.failIf _ (by omega)) ?_)
  simp only [hend]
  exact .bind (.failIf _ (by omega)) (.bind hslice (.bind hskip (.pure s)))

theorem NegotiateProtocolVersion.optionCount_ofNat (p : Platform) {n : Nat} (h : n < 2 ^ 31) :
    optionCount p (UInt32.ofNat n) = n := by
  have hn : (UInt32.ofNat n).toNat = n := by
    rw [UInt32.toNat_ofNat']
    omega
  unfold optionCount
  rw [hn]
  cases p with
  | bits32 =>
    show signed 32 n = n
    exact signed_of_fits (by omega) (by omega)
  | bits64 =>
    show signed 64 n = n
    exact signed_of_fits (by omega) (by omega)

theorem NegotiateProtocolVersion.runs_decode (p : Platform) (ro : RangeOrder)
    {msg : NegotiateProtocolVersion} (h : ∀ s ∈ msg.unrecognizedOptions, NulFree s)
    (hlen : ((BackendMessage.negotiateProtocolVersion msg).frame ro).body.length < 2 ^ 31) :
    Runs (NegotiateProtocolVersion.decode p)
      ((BackendMessage.negotiateProtocolVersion msg).frame ro).body msg [] := by
  have hcount := length_le_length_flatMap one_le_length_cstring msg.unrecognizedOptions
  simp only [BackendMessage.frame, length_append, length_uint32Bytes] at hlen ⊢
  refine .bind .rest
    (.bind (.failIf _ ?_) (.bind (reads_uint32 _ _) (.bind (reads_uint32 _ _) (.bind .rest ?_))))
  · simp only [length_append, length_uint32Bytes]
    omega
  rw [optionCount_ofNat p (by omega)]
  refine .bind (.make (by omega)) ?_
  exact .bind (Reads.collect _ fun s hs => reads_option (h s hs)).all (.pure msg)

theorem NotificationResponse.runs_decode {msg : NotificationResponse} (hchannel : NulFree msg.channel)
    (hpayload : NulFree msg.payload) :
    Runs NotificationResponse.decode
      (uint32Bytes msg.pid ++ (cstring msg.channel ++ cstring msg.payload)) msg [] := by
  refine .bind (.require _ (four_le_length_append _ _))
    (.bind (reads_bufUint 4 msg.pid.toNat_lt _) ?_)
  refine .bind (reads_bufString hchannel _) (.bind (reads_bufString hpayload).all ?_)
  rw [UInt32.ofNat_toNat]
  exact .pure msg

theorem ParameterDescription.runs_decode (parameterOIDs : List UInt32) :
    Runs ParameterDescription.decode (countedBytes uint32Bytes parameterOIDs) parameterOIDs [] := by
  have hskip : Runs (bufNext 2 : Decoder Bytes)
      (countedBytes uint32Bytes parameterOIDs) _ _ := .bufNext 2
  rw [countedBytes, drop_left' (length_uint16Bytes _)] at hskip
  refine .bind (.require _ ?_) (.bind hskip (.bind .rest (.bind (.make (by omega)) ?_)))
  · rw [length_countedBytes]
    omega
  rw [length_flatMap_of_eq length_uint32Bytes, Nat.mul_div_cancel _ (by omega)]
  exact (Reads.fill _ (fun oid _ => reads_bufUint32 oid) (by omega)).all

theorem ParameterStatus.runs_decode {msg : ParameterStatus} (hname : NulFree msg.name)
    (hvalue : NulFree msg.value) :
    Runs ParameterStatus.decode (cstring msg.name ++ cstring msg.value) msg [] :=
  .bind (reads_bufString hname _) (.bind (reads_bufString hvalue).all (.pure msg))

theorem ReadyForQuery.runs_decode (txStatus : UInt8) :
    Runs ReadyForQuery.decode [txStatus] txStatus [txStatus] :=
  .bind .rest (.bind (.failIf _ (by simp)) (.index rfl))

theorem FieldDescription.reads_decode {fd : FieldDescription} (h : NulFree fd.name) :
    Reads FieldDescription.decode (fieldBytes fd) fd := by
  intro src
  simp only [fieldBytes, append_assoc]
  refine .bind (reads_indexedString _ h _) (.bind (.require _ ?_) ?_)
  · simp only [length_append, length_uint32Bytes, length_uint16Bytes, length_int16Bytes,
      length_int32Bytes]
    omega
  refine .bind (reads_uint32 _ _) (.bind (reads_uint16 _ _) (.bind (reads_uint32 _ _) ?_))
  exact .bind (reads_int16 _ _) (.bind (reads_int32 _ _) (.bind (reads_int16 _ _) (.pure fd)))

theorem RowDescription.runs_decode {fields : List FieldDescription}
    (h : (BackendMessage.rowDescription fields).Plain) :
    Runs RowDescription.decode (countedBytes fieldBytes fields) fields [] := by
  obtain ⟨hcount, hnames⟩ := h
  have hread := runs_count fieldBytes fields []
  rw [append_nil, append_nil] at hread
  refine .bind (.require _ ?_) (.bind hread ?_)
  · rw [length_countedBytes]
    omega
  rw [toNat_count hcount]
  exact (Reads.collect _ fun fd hfd => FieldDescription.reads_decode (hnames fd hfd)).all

/-- The same message; errors and notices may list their fields in another order. -/
inductive BackendMessage.Same : BackendMessage → BackendMessage → Prop where
  | refl (msg : BackendMessage) : Same msg msg
  | errorResponse {a b : ErrorResponse} (h : a.Same b) : Same (.errorResponse a) (.errorResponse b)
  | noticeResponse {a b : ErrorResponse} (h : a.Same b) : Same (.noticeResponse a) (.noticeResponse b)

theorem decoded {p : Platform} {t : UInt8} {body src' : Bytes} {decode : Decoder BackendMessage}
    (hlookup : (backendDecoders p 0).lookup t = some decode) (h : Runs decode body msg src') :
    ∃ msg', decodeBackend p 0 t body = .ok msg' ∧ msg'.Same msg := by
  refine ⟨msg, ?_, .refl msg⟩
  unfold decodeBackend
  rw [hlookup]
  exact h.run'

theorem decodeBackend_frame (p : Platform) (ro : RangeOrder) (hplain : msg.Plain)
    (hlen : (msg.frame ro).body.length < 2 ^ 31) :
    ∃ msg', decodeBackend p 0 (msg.frame ro).msgType (msg.frame ro).body = .ok msg' ∧
    msg'.Same msg := by
  cases msg with
  | authenticationOk =>
    exact decoded rfl (authenticated rfl ((runs_bareAuthentication 0).bind (.pure _)))
  | authenticationCleartextPassword =>
    exact decoded rfl (authenticated rfl ((runs_bareAuthentication 3).bind (.pure _)))
  | authenticationMD5Password salt =>
    exact decoded rfl (authenticated rfl ((AuthenticationMD5Password.runs_decode salt).map _))
  | authenticationGSS =>
    exact decoded rfl (authenticated rfl (AuthenticationGSS.runs_decode.bind (.pure _)))
  | authenticationGSSContinue data =>
    exact decoded rfl (authenticated rfl ((runs_authenticationData 8 data).map _))
  | authenticationSASL authMechanisms =>
    exact decoded rfl (authenticated rfl ((AuthenticationSASL.runs_decode hplain).map _))
  | authenticationSASLContinue data =>
    exact decoded rfl (authenticated rfl ((runs_authenticationData 11 data).map _))
  | authenticationSASLFinal data =>
    exact decoded rfl (authenticated rfl ((runs_authenticationData 12 data).map _))
  | backendKeyData msg => exact decoded rfl ((BackendKeyData.runs_decode hplain).map _)
  | bindComplete => exact decoded rfl ((runs_decodeEmpty _).bind (.pure _))
  | closeComplete => exact decoded rfl ((runs_decodeEmpty _).bind (.pure _))
  | commandComplete commandTag => exact decoded rfl ((CommandComplete.runs_decode hplain).map _)
  | copyBothResponse msg => exact decoded rfl ((CopyResponse.runs_decode _ hplain).map _)
  | copyData data => exact decoded rfl (Runs.rest.map _)
  | copyDone => exact decoded rfl ((runs_decodeEmpty _).bind (.pure _))
  | copyInResponse msg => exact decoded rfl ((CopyResponse.runs_decode _ hplain).map _)
  | copyOutResponse msg => exact decoded rfl ((CopyResponse.runs_decode _ hplain).map _)
  | dataRow values => exact decoded rfl ((DataRow.runs_decode hplain hlen).map _)
  | emptyQueryResponse => exact decoded rfl ((runs_decodeEmpty _).bind (.pure _))
  | errorResponse msg =>
    obtain ⟨msg', hruns, hsame⟩ := ErrorResponse.runs_decode ro hplain
    exact ⟨.errorResponse msg', (hruns.map BackendMessage.errorResponse).run', .errorResponse hsame⟩
  | functionCallResponse result => exact decoded rfl ((FunctionCallResponse.runs_decode hlen).map _)
  | negotiateProtocolVersion msg =>
    exact decoded rfl ((NegotiateProtocolVersion.runs_decode p ro hplain hlen).map _)
  | noData => exact decoded rfl ((runs_decodeEmpty _).bind (.pure _))
  | noticeResponse msg =>
    obtain ⟨msg', hruns, hsame⟩ := ErrorResponse.runs_decode ro hplain
    exact ⟨.noticeResponse msg', (hruns.map BackendMessage.noticeResponse).run',
      .noticeResponse hsame⟩
  | notificationResponse msg =>
    exact decoded rfl ((NotificationResponse.runs_decode hplain.1 hplain.2).map _)
  | parameterDescription parameterOIDs =>
    exact decoded rfl ((ParameterDescription.runs_decode _).map _)
  | parameterStatus msg => exact decoded rfl ((ParameterStatus.runs_decode hplain.1 hplain.2).map _)
  | parseComplete => exact decoded rfl ((runs_decodeEmpty _).bind (.pure _))
  | portalSuspended => exact decoded rfl ((runs_decodeEmpty _).bind (.pure _))
  | readyForQuery txStatus => exact decoded rfl ((ReadyForQuery.runs_decode txStatus).map _)
  | rowDescription fields => exact decoded rfl ((RowDescription.runs_decode hplain).map _)

end Backend

end Pgx.Proto3
