import Pgx.Proto3.Decode

/-!
# Decoders do not panic

Whatever counts and lengths a body claims, a decoder indexes and slices inside of it and makes no
slice of a negative length, with one exception: the count of options in a
`NegotiateProtocolVersion`, which an `int` of 32 bits takes for a negative number if it is large.
-/
namespace Pgx.Proto3

open Pgx.Go Pgx.Go.Cursor List NegotiateProtocolVersion AuthenticationSASL FunctionCall

variable {src : Bytes} {width : Nat}

def Safe {α : Type} (d : Decoder α) : Prop := ∀ src, wp d (fun _ _ => True) src

variable {α β : Type}

variable {d : Decoder α}

theorem Safe.wp (h : Safe d) {Q : α → Bytes → Prop} (hQ : ∀ a src', Q a src') :
    Cursor.wp d Q src := wp_mono (h src) fun a src' _ => hQ a src'

theorem Safe.map (f : α → β) (h : Safe d) : Safe (f <$> d) := fun src => (wp_map f d).mpr (h src)

theorem Safe.bind {k : α → Decoder β} (hd : Safe d) (hk : ∀ a, Safe (k a)) : Safe (d >>= k) :=
  fun _ => (wp_bind d k).mpr (hd.wp fun a src' => hk a src')

theorem Safe.pure (a : α) : Safe (Pure.pure a) := fun _ => trivial

theorem Safe.fail (err : DecodeError) : Safe (Cursor.fail err : Decoder α) := fun _ => trivial

/-- A loop over the elements of a slice, each with a decoder that does not panic -/
theorem Safe.fill (h : Safe d) {len count i : Nat} (hlen : i + count ≤ len) :
    Safe (Cursor.fill len d count i) :=
  fun _ => wp_fill (fun _ _ => True) (fun _ src _ => h src) trivial hlen

theorem Safe.collect (h : Safe d) (count : Nat) : Safe (Cursor.collect d count) :=
  fun _ => wp_collect (fun _ _ => True) (fun _ src _ => h src) trivial

theorem length_of_indexByte {c : UInt8} {i : Nat} (h : indexByte c src = some i) :
    i + 1 ≤ src.length := by
  have hsplit := congrArg length (indexByte_some h).2
  simp only [length_append, length_cons, length_take, length_drop] at hsplit
  omega

theorem indexedString_safe (err : DecodeError) : Safe (indexedString err) := by
  intro src
  unfold indexedString
  rw [wp_bind, wp_rest]
  cases h : indexByte 0 src with
  | none => trivial
  | some idx =>
    have hlen := length_of_indexByte h
    simp only [wp_bind, wp_slice, wp_advance, wp_pure, and_true]
    omega

theorem bufString_safe : Safe bufString := by
  intro src
  unfold bufString
  simp only [wp_bind, wp_bufReadBytes, wp_dropLastByte, and_true]
  intro i h
  have hlen := length_of_indexByte h
  rw [length_take]
  omega

theorem wp_bufUint {Q : Nat → Bytes → Prop} :
    wp (bufUint width) Q src ↔ width ≤ src.length ∧
    Q (fromBigEndian (src.take width)) (src.drop width) := by
  unfold bufUint
  simp only [wp_bind, wp_bufNext, wp_bigEndianUint, length_take, take_take, Nat.min_self]
  constructor
  · exact fun h => ⟨by omega, h.2⟩
  · exact fun h => ⟨by omega, h.2⟩

theorem wp_uint16 {Q : UInt16 → Bytes → Prop} :
    wp (uint16 : Decoder UInt16) Q src ↔ 2 ≤ src.length ∧
    Q (.ofNat (fromBigEndian (src.take 2))) (src.drop 2) := by
  simp only [uint16, wp_map, wp_uint]

theorem wp_uint32 {Q : UInt32 → Bytes → Prop} :
    wp (uint32 : Decoder UInt32) Q src ↔ 4 ≤ src.length ∧
    Q (.ofNat (fromBigEndian (src.take 4))) (src.drop 4) := by
  simp only [uint32, wp_map, wp_uint]

theorem sizedValue_safe (messageType : String) : Safe (sizedValue messageType) := by
  intro src
  unfold sizedValue
  simp only [wp_bind, wp_require, int32, wp_map, wp_uint32]
  intro hlen
  refine ⟨hlen, ?_⟩
  rw [wp_ite]
  refine ⟨fun _ => trivial, fun _ => ?_⟩
  simp only [wp_bind, wp_rest, wp_failIf, wp_slice, wp_advance, wp_pure, and_true, not_or]
  omega

/-- A loop that reads so many numbers of this width from a slice that has them, and more -/
theorem wp_fill_numbers {count : Nat} (more : Nat)
    (hd : ∀ src, width ≤ src.length → wp d (fun _ src' => src'.length = src.length - width) src)
    (hsrc : count * width + more ≤ src.length) :
    wp (Cursor.fill count d count 0) (fun _ src' => more ≤ src'.length) src := by
  have hround : ∀ k src, (k + 1) * width + more ≤ src.length →
      wp d (fun _ src' => k * width + more ≤ src'.length) src := by
    intro k src hI
    rw [Nat.succ_mul] at hI
    exact wp_mono (hd src (by omega)) fun _ src' h => by omega
  refine wp_mono (wp_fill (fun k src => k * width + more ≤ src.length) hround hsrc (by omega))
    fun _ src' h => ?_
  omega

/-! ## Frontend messages -/

theorem bufUint_reads (f : Nat → α) (src : Bytes) (h : width ≤ src.length) :
    wp (f <$> bufUint width) (fun _ src' => src'.length = src.length - width) src := by
  simp only [wp_map, wp_bufUint, length_drop]
  exact ⟨h, trivial⟩

theorem formatCodes_safe (count : Nat) : Safe (formatCodes count) := by
  intro src
  unfold formatCodes
  simp only [wp_bind, wp_make, wp_require]
  have hreads : ∀ src, 2 ≤ src.length → wp (int16 : Decoder Int16)
      (fun _ src' => src'.length = src.length - 2) src := by
    simp [int16, wp_map, wp_uint16]
  exact ⟨by omega, fun h => wp_mono (wp_fill_numbers 0 hreads h) fun _ _ _ => trivial⟩

theorem Bind.decodeFormatCodes_safe (count : Nat) : Safe (Bind.decodeFormatCodes count) := by
  unfold Bind.decodeFormatCodes
  split
  · exact formatCodes_safe count
  · exact .pure _

theorem Bind.decodeParameters_safe (count : Nat) : Safe (Bind.decodeParameters count) := by
  unfold Bind.decodeParameters
  split
  · intro src
    simp only [wp_bind, wp_make]
    exact ⟨by omega, (sizedValue_safe "Bind").fill (by omega) src⟩
  · exact .pure _

theorem Bind.decode_safe : Safe Bind.decode := by
  -- Each count is read behind a check, and what it counts is safe by itself.
  have hcount : ∀ {k : UInt16 → Decoder Bind}, (∀ n, Safe (k n)) →
      Safe (do require 2 (invalidFormat "Bind"); let n ← uint16; k n) := by
    intro k hk src
    simp only [wp_bind, wp_require, wp_uint16]
    exact fun h => ⟨h, hk _ _⟩
  refine (indexedString_safe _).bind fun _ => (indexedString_safe _).bind fun _ => hcount fun n => ?_
  refine (Bind.decodeFormatCodes_safe _).bind fun _ => hcount fun m => ?_
  refine (Bind.decodeParameters_safe _).bind fun _ => hcount fun r => ?_
  exact (formatCodes_safe _).bind fun _ => .pure _

theorem ObjectName.decode_safe (messageType : String) : Safe (ObjectName.decode messageType) := by
  intro src
  unfold ObjectName.decode
  simp only [wp_bind, wp_require, wp_rest, wp_index, wp_advance, wp_failIf,
    wp_slice, wp_pure, length_drop]
  intro h
  exact ⟨src[0], by simp, by omega, fun _ => ⟨by omega, trivial⟩⟩

theorem wholeString_safe (messageType : String) : Safe (wholeString messageType) := by
  intro src
  unfold wholeString
  simp only [wp_bind, wp_rest, wp_failIf, wp_slice]
  intro _ _
  exact ⟨by omega, trivial⟩

theorem Execute.decode_safe : Safe Execute.decode := by
  refine bufString_safe.bind fun _ src => ?_
  simp only [wp_bind, wp_require, wp_bufUint, wp_pure]
  exact fun h => ⟨h, trivial⟩

theorem FunctionCall.formatCode_reads (src : Bytes) (h : 2 ≤ src.length) :
    wp formatCode (fun _ src' => src'.length = src.length - 2) src := by
  unfold formatCode
  simp only [wp_bind, wp_uint16, wp_failIf, wp_pure, length_drop]
  exact ⟨h, fun _ => trivial⟩

theorem FunctionCall.decode_safe : Safe FunctionCall.decode := by
  intro src
  unfold FunctionCall.decode
  simp only [wp_bind, wp_require, wp_uint32, wp_uint16, wp_make]
  intro h
  refine ⟨by omega, by rw [length_drop]; omega, fun hcodes => ⟨by omega, ?_⟩⟩
  -- Behind the format codes the number of arguments is left.
  refine wp_mono (wp_fill_numbers 2 formatCode_reads hcodes) fun _ src' hmore => ⟨hmore, by omega, ?_⟩
  refine ((sizedValue_safe "FunctionCall").fill (by omega)).wp fun _ src'' hresult => ?_
  exact wp_mono (formatCode_reads src'' hresult) fun _ _ _ => trivial

theorem Parse.decode_safe : Safe Parse.decode := by
  refine bufString_safe.bind fun _ => bufString_safe.bind fun _ src => ?_
  simp only [wp_bind, wp_require, wp_bufUint, wp_pure]
  intro h
  refine ⟨h, (Safe.collect (fun src => ?_) _).wp fun _ _ => trivial⟩
  simp only [wp_bind, wp_require, wp_map, wp_bufUint]
  exact fun h => ⟨h, trivial⟩

theorem SASLInitialResponse.decode_safe : Safe SASLInitialResponse.decode := by
  refine (indexedString_safe _).bind fun _ src => ?_
  simp only [wp_bind, wp_require, wp_advance, wp_rest, wp_pure]
  exact fun h => ⟨h, trivial⟩

theorem rest_safe : Safe rest := fun _ => trivial

theorem passwordDecoder_safe (authType : Nat) : Safe (passwordDecoder authType) := by
  unfold passwordDecoder
  split
  · exact .map _ SASLInitialResponse.decode_safe
  · exact .map _ rest_safe
  · exact .map _ rest_safe
  · exact .map _ rest_safe
  · exact .map _ rest_safe
  · exact .map _ bufString_safe

theorem emptyBody_safe (messageType : String) (msg : α) :
    Safe (do decodeEmpty messageType; pure msg) :=
  .bind (fun src => by simp [decodeEmpty]) fun _ => .pure msg

theorem frontendDecoders_safe (authType : Nat) :
    ∀ entry ∈ frontendDecoders authType, Safe entry.2 := by
  simp only [frontendDecoders, forall_mem_cons, not_mem_nil, false_implies, implies_true, and_true]
  exact ⟨.map _ Bind.decode_safe, .map _ (ObjectName.decode_safe _),
    .map _ (ObjectName.decode_safe _),
    .map _ Execute.decode_safe, .map _ FunctionCall.decode_safe, .map _ (wholeString_safe _),
      .map _ rest_safe,
    emptyBody_safe _ _, emptyBody_safe _ _, .map _ Parse.decode_safe, passwordDecoder_safe authType,
    .map _ (wholeString_safe _), emptyBody_safe _ _, emptyBody_safe _ _⟩

theorem StartupMessage.parameters_safe (fuel : Nat) (parameters : Map Bytes Bytes) :
    Safe (StartupMessage.parameters fuel parameters) := by
  induction fuel generalizing parameters with
  | zero => exact .fail _
  | succ fuel ih =>
    refine (indexedString_safe _).bind fun _ => (indexedString_safe _).bind fun _ src => ?_
    rw [wp_bind, wp_rest, wp_ite]
    refine ⟨fun hlen => ?_, fun _ => ih _ src⟩
    simp only [wp_bind, wp_index, wp_failIf, wp_pure]
    exact ⟨src[0], by simp, fun _ => trivial⟩

theorem StartupMessage.decode_safe : Safe StartupMessage.decode := by
  intro src
  unfold StartupMessage.decode
  simp only [wp_bind, wp_require, wp_uint32, wp_failIf, wp_rest, wp_pure]
  exact fun h => ⟨h, fun _ => (StartupMessage.parameters_safe _ _).wp fun _ _ => trivial⟩

theorem CancelRequest.decode_safe : Safe CancelRequest.decode := by
  intro src
  unfold CancelRequest.decode
  simp only [wp_bind, wp_rest, wp_failIf, wp_uint32, wp_make, wp_pure, length_drop]
  intro hshort _
  exact ⟨by omega, fun _ => ⟨by omega, by omega, trivial⟩⟩

theorem requestNumber_safe (number : Nat) (short bad : String) :
    Safe (requestNumber number short bad) := by
  intro src
  unfold requestNumber
  simp only [wp_bind, wp_require, wp_uint32, wp_failIf]
  exact fun h => ⟨h, fun _ => trivial⟩

theorem startupDecoders_safe : ∀ entry ∈ startupDecoders, Safe entry.2 := by
  simp only [startupDecoders, forall_mem_cons, not_mem_nil, false_implies, implies_true, and_true]
  exact ⟨StartupMessage.decode_safe, StartupMessage.decode_safe,
    (requestNumber_safe _ _ _).bind fun _ => .pure _, CancelRequest.decode_safe,
    (requestNumber_safe _ _ _).bind fun _ => .pure _⟩

theorem wp_checkAuthType {authType : Nat} {Q : Unit → Bytes → Prop} (h : 4 ≤ src.length)
    (hQ : Q () (src.drop 4)) : wp (checkAuthType authType) Q src := by
  unfold checkAuthType
  simp only [wp_bind, wp_uint32, wp_failIf]
  exact ⟨h, fun _ => hQ⟩

theorem bareAuthentication_safe (authType : Nat) : Safe (bareAuthentication authType) := by
  intro src
  unfold bareAuthentication
  simp only [wp_bind, wp_rest, wp_failIf]
  exact fun h => wp_checkAuthType (by omega) trivial

theorem AuthenticationMD5Password.decode_safe : Safe AuthenticationMD5Password.decode := by
  intro src
  unfold AuthenticationMD5Password.decode
  simp only [wp_bind, wp_rest, wp_failIf, wp_index, wp_pure, and_true]
  intro h
  have hindex : ∀ i, i < 8 → ∃ c, src[i]? = some c :=
    fun i hi => ⟨src[i], getElem?_eq_getElem (by omega)⟩
  refine wp_checkAuthType (by omega) ?_
  obtain ⟨c, hc⟩ := hindex 4 (by omega)
  obtain ⟨d, hd⟩ := hindex 5 (by omega)
  obtain ⟨e, he⟩ := hindex 6 (by omega)
  exact ⟨c, hc, d, hd, e, he, hindex 7 (by omega)⟩

theorem AuthenticationGSS.decode_safe : Safe AuthenticationGSS.decode := by
  intro src
  unfold AuthenticationGSS.decode
  simp only [wp_bind, wp_require]
  exact fun h => wp_checkAuthType h trivial

theorem authenticationData_safe (authType : Nat) : Safe (authenticationData authType) := by
  intro src
  unfold authenticationData
  simp only [wp_bind, wp_require, wp_rest]
  exact fun h => wp_checkAuthType h trivial

theorem AuthenticationSASL.mechanisms_safe (fuel : Nat) : Safe (mechanisms fuel) := by
  induction fuel with
  | zero => exact .pure _
  | succ fuel ih =>
    intro src
    unfold mechanisms
    rw [wp_bind, wp_rest, wp_ite]
    exact ⟨fun _ => (indexedString_safe _).bind
      (fun _ => ih.bind fun _ => .pure _) src, fun _ => trivial⟩

theorem AuthenticationSASL.decode_safe : Safe AuthenticationSASL.decode := by
  intro src
  unfold AuthenticationSASL.decode
  simp only [wp_bind, wp_require, wp_rest]
  exact fun h => wp_checkAuthType h (mechanisms_safe _ _)

theorem authenticationDecoders_safe : ∀ entry ∈ authenticationDecoders, Safe entry.2 := by
  simp only [authenticationDecoders, forall_mem_cons, not_mem_nil, false_implies,
    implies_true, and_true]
  exact ⟨(bareAuthentication_safe _).bind fun _ => .pure _,
    (bareAuthentication_safe _).bind fun _ => .pure _,
    .map _ AuthenticationMD5Password.decode_safe, .fail _,
      AuthenticationGSS.decode_safe.bind fun _ => .pure _,
    .map _ (authenticationData_safe _), .fail _, .map _ decode_safe,
    .map _ (authenticationData_safe _), .map _ (authenticationData_safe _)⟩

/-- A decoder that is found in a table has the property that all in the table have. -/
theorem of_lookup {K : Type} [BEq K] {P : α → Prop} {table : List (K × α)} {k : K} {a : α}
    (h : ∀ entry ∈ table, P entry.2) (hk : table.lookup k = some a) : P a := by
  induction table with
  | nil => cases hk
  | cons entry table ih =>
    rw [lookup_cons] at hk
    split at hk
    · obtain rfl := Option.some.inj hk
      exact h entry (.head _)
    · exact ih (fun e he => h e (.tail _ he)) hk

theorem decodeAuthentication_safe : Safe decodeAuthentication := by
  intro src
  unfold decodeAuthentication
  simp only [wp_bind, wp_require, wp_rest, wp_bigEndianUint]
  intro h
  refine ⟨h, ?_⟩
  split
  · next decode hdecode => exact of_lookup authenticationDecoders_safe hdecode src
  · trivial

/-! ## Backend messages -/

theorem BackendKeyData.decode_safe : Safe BackendKeyData.decode := by
  intro src
  unfold BackendKeyData.decode
  simp only [wp_bind, wp_rest, wp_failIf, wp_uint32, wp_make, wp_pure]
  intro h
  exact ⟨by omega, by omega, trivial⟩

theorem CommandComplete.decode_safe : Safe CommandComplete.decode := by
  intro src
  unfold CommandComplete.decode
  rw [wp_bind, wp_rest]
  cases h : indexByte 0 src with
  | none => trivial
  | some idx =>
    simp only [wp_bind, wp_failIf, wp_slice]
    exact fun _ => ⟨by omega, trivial⟩

theorem CopyResponse.decode_safe (messageType : String) : Safe (CopyResponse.decode messageType) := by
  intro src
  unfold CopyResponse.decode
  simp only [wp_bind, wp_require, wp_bufNext, wp_index, wp_bufUint, wp_rest,
    wp_failIf, wp_make, wp_pure]
  intro h
  refine ⟨src[0], by simp, by rw [length_drop]; omega, fun hlen => ⟨by omega, ?_⟩⟩
  exact wp_mono (wp_fill_numbers 0 (bufUint_reads _) (by omega)) fun _ _ _ => trivial

theorem DataRow.decode_safe (valuesCap : Nat) : Safe (DataRow.decode valuesCap) := by
  intro src
  unfold DataRow.decode DataRow.resize
  simp only [wp_bind, wp_require, wp_uint16, wp_ite, wp_make, wp_pure, wp_panic]
  have hfill : ∀ count, Safe (Cursor.fill count (sizedValue "DataRow") count 0) :=
    fun count => (sizedValue_safe "DataRow").fill (by omega)
  intro h
  exact ⟨h, fun _ => ⟨by omega, hfill _ _⟩, fun hcap => ⟨fun _ => hfill _ _, fun hlt => by omega⟩⟩

theorem ErrorResponse.fields_safe (fuel : Nat) (dst : ErrorResponse) :
    Safe (ErrorResponse.fields fuel dst) := by
  induction fuel generalizing dst with
  | zero => exact .fail _
  | succ fuel ih =>
    intro src
    unfold ErrorResponse.fields
    rw [wp_bind, wp_bufReadByte]
    intro k src' _
    rw [wp_ite]
    exact ⟨fun _ => trivial, fun _ => bufString_safe.bind (fun _ => ih _) src'⟩

theorem ErrorResponse.decode_safe : Safe ErrorResponse.decode :=
    fun src => ErrorResponse.fields_safe _ _ src

theorem FunctionCallResponse.decode_safe : Safe FunctionCallResponse.decode := by
  intro src
  unfold FunctionCallResponse.decode
  simp only [wp_bind, wp_require, int32, wp_map, wp_uint32, wp_ite, wp_rest, wp_failIf, wp_pure]
  exact fun h => ⟨h, fun _ => trivial, fun _ _ => trivial⟩

theorem NegotiateProtocolVersion.option_safe : Safe option := by
  intro src
  unfold option
  simp only [wp_bind, wp_rest, wp_failIf, wp_slice, wp_advance, wp_pure]
  intro _ hlen
  exact ⟨by omega, by omega, trivial⟩

theorem NotificationResponse.decode_safe : Safe NotificationResponse.decode := by
  intro src
  unfold NotificationResponse.decode
  rw [wp_bind, wp_require]
  intro h
  rw [wp_bind, wp_bufUint]
  exact ⟨h, bufString_safe.bind (fun _ => bufString_safe.bind fun _ => .pure _) _⟩

theorem ParameterDescription.decode_safe : Safe ParameterDescription.decode := by
  intro src
  unfold ParameterDescription.decode
  simp only [wp_bind, wp_require, wp_bufNext, wp_rest, wp_make]
  intro _
  exact ⟨by omega, wp_mono (wp_fill_numbers 0 (bufUint_reads _) (by omega)) fun _ _ _ => trivial⟩

theorem ParameterStatus.decode_safe : Safe ParameterStatus.decode :=
  bufString_safe.bind fun _ => bufString_safe.bind fun _ => .pure _

theorem ReadyForQuery.decode_safe : Safe ReadyForQuery.decode := by
  intro src
  unfold ReadyForQuery.decode
  simp only [wp_bind, wp_rest, wp_failIf, wp_index, and_true]
  intro h
  exact ⟨src[0], getElem?_eq_getElem (by omega)⟩

theorem FieldDescription.decode_safe : Safe FieldDescription.decode := by
  refine (indexedString_safe _).bind fun _ src => ?_
  simp only [int16, int32, wp_bind, wp_require, wp_uint32, wp_uint16, wp_map, wp_pure,
    length_drop, and_true]
  omega

theorem RowDescription.decode_safe : Safe RowDescription.decode := by
  intro src
  unfold RowDescription.decode
  simp only [wp_bind, wp_require, wp_uint16]
  exact fun h => ⟨h, FieldDescription.decode_safe.collect _ _⟩

theorem wp_true_iff : wp d (fun _ _ => True) src ↔ NoPanic (d src) := by
  constructor
  · exact noPanic_of_wp
  · intro h
    unfold wp
    split
    · trivial
    · trivial
    · next hd => exact h hd

/-- The count of options at its place in the body -/
def claimedOptions (body : Bytes) : Nat := fromBigEndian ((body.drop 4).take 4)

theorem claimedOptions_lt (body : Bytes) : claimedOptions body < 2 ^ 32 := by
  have h := fromBigEndian_lt ((body.drop 4).take 4)
  have hlen : ((body.drop 4).take 4).length ≤ 4 := by
    rw [length_take]
    omega
  exact lt_of_lt_of_le h (le_trans (Nat.pow_le_pow_right (by omega) hlen) (by norm_num))

/-- A count is negative as an `int` only if that has 32 bits. -/
theorem optionCount_neg_iff (p : Platform) {n : Nat} (hn : n < 2 ^ 32) :
    optionCount p (UInt32.ofNat n) < 0 ↔ p = .bits32 ∧ 2 ^ 31 ≤ n := by
  have hval : (UInt32.ofNat n).toNat = n := by
    exact Nat.mod_eq_of_lt hn
  unfold optionCount Platform.int
  cases p with
  | bits32 =>
    simp only [Platform.bits, signed, true_and]
    rw [Int.bmod_def]
    split <;> omega
  | bits64 =>
    rw [Platform.bits, signed_of_fits (by omega) (by omega)]
    constructor
    · intro h
      omega
    · intro h
      cases h.1

theorem NegotiateProtocolVersion.decode_noPanic_iff (p : Platform) (body : Bytes) :
    wp (NegotiateProtocolVersion.decode p) (fun _ _ => True) body ↔
      ¬ (p = .bits32 ∧ 8 ≤ body.length ∧ 2 ^ 31 ≤ claimedOptions body) := by
  unfold NegotiateProtocolVersion.decode
  have hcollect : ∀ count src, wp (Cursor.collect option count) (fun _ _ => True) src :=
    fun count src => option_safe.collect count src
  have hcap : ∀ c m : Int, 0 ≤ m → (0 ≤ (if c > m then m else c) ↔ ¬ c < 0) := by
    intro c m hm
    split <;> omega
  simp only [wp_bind, wp_rest, wp_failIf, wp_uint32, wp_make, wp_pure, hcollect, and_true,
    hcap _ _ (Int.natCast_nonneg _)]
  rw [show fromBigEndian ((body.drop 4).take 4) = claimedOptions body from rfl,
    optionCount_neg_iff p (claimedOptions_lt body), length_drop]
  constructor
  · rintro h ⟨hp, hlen, hcount⟩
    exact (h (by omega)).2.2 ⟨hp, hcount⟩
  · intro h hlen
    exact ⟨by omega, by omega, fun hcount => h ⟨hcount.1, by omega, hcount.2⟩⟩

/-- The one body that makes a decoder panic: `NegotiateProtocolVersion` with a count that an `int`
of 32 bits takes for a negative number -/
def NegativeOptions (p : Platform) (msgType : UInt8) (body : Bytes) : Prop :=
  p = .bits32 ∧ msgType = 118 ∧ 8 ≤ body.length ∧ 2 ^ 31 ≤ claimedOptions body

instance (p : Platform) (msgType : UInt8) (body : Bytes) :
    Decidable (NegativeOptions p msgType body) := by
  unfold NegativeOptions
  infer_instance

theorem backendDecoders_safe (p : Platform) (valuesCap : Nat) :
    ∀ entry ∈ (backendDecoders p valuesCap).dropLast, Safe entry.2 := by
  simp only [backendDecoders, dropLast, forall_mem_cons, not_mem_nil, false_implies,
    implies_true, and_true]
  exact ⟨emptyBody_safe _ _, emptyBody_safe _ _, emptyBody_safe _ _,
    .map _ NotificationResponse.decode_safe,
    emptyBody_safe _ _, .map _ CommandComplete.decode_safe, .map _ rest_safe,
    .map _ (DataRow.decode_safe valuesCap),
    .map _ ErrorResponse.decode_safe, .map _ (CopyResponse.decode_safe _),
      .map _ (CopyResponse.decode_safe _),
    emptyBody_safe _ _, .map _ BackendKeyData.decode_safe, emptyBody_safe _ _,
    .map _ ErrorResponse.decode_safe,
    decodeAuthentication_safe, emptyBody_safe _ _, .map _ ParameterStatus.decode_safe,
    .map _ ParameterDescription.decode_safe, .map _ RowDescription.decode_safe,
    .map _ FunctionCallResponse.decode_safe, .map _ (CopyResponse.decode_safe _),
      .map _ ReadyForQuery.decode_safe⟩

theorem noPanic_run' : NoPanic (StateT.run' d src) ↔ NoPanic (d src) := by
  show NoPanic (Prod.fst <$> d src) ↔ _
  unfold NoPanic
  cases h : d src <;> simp

theorem decodeBackend_noPanic_iff (p : Platform) (valuesCap : Nat) (msgType : UInt8) (body : Bytes) :
    NoPanic (decodeBackend p valuesCap msgType body) ↔ ¬ NegativeOptions p msgType body := by
  by_cases htype : msgType = 118
  · subst htype
    have hlookup : (backendDecoders p valuesCap).lookup 118 =
        some (.negotiateProtocolVersion <$> NegotiateProtocolVersion.decode p) := rfl
    unfold decodeBackend NegativeOptions
    simp only [hlookup, noPanic_run', ← wp_true_iff, wp_map, decode_noPanic_iff, true_and]
  · have hother : ¬ NegativeOptions p msgType body := fun h => htype h.2.1
    have hlookup : (backendDecoders p valuesCap).lookup msgType =
        (backendDecoders p valuesCap).dropLast.lookup msgType := by
      have htable : backendDecoders p valuesCap = (backendDecoders p valuesCap).dropLast ++
          [(118, .negotiateProtocolVersion <$> NegotiateProtocolVersion.decode p)] := rfl
      rw [htable, lookup_append, ← htable, lookup_cons, beq_false_of_ne htype, lookup_nil,
        Option.or_none]
    simp only [decodeBackend, hlookup, hother, not_false_eq_true, iff_true]
    split
    · next decode hdecode =>
      exact noPanic_run'.mpr
        (noPanic_of_wp (of_lookup (backendDecoders_safe p valuesCap) hdecode body))
    · intro h
      cases h

theorem decodeFrontend_noPanic (authType : Nat) (msgType : UInt8) (body : Bytes) :
    NoPanic (decodeFrontend authType msgType body) := by
  unfold decodeFrontend
  split
  · next decode hdecode =>
    exact noPanic_run'.mpr (noPanic_of_wp (of_lookup (frontendDecoders_safe authType) hdecode body))
  · exact nofun

theorem decodeStartup_noPanic {packet : Bytes} (h : 4 ≤ packet.length) :
    NoPanic (decodeStartup packet) := by
  refine noPanic_run'.mpr (noPanic_of_wp (Q := fun _ _ => True) ?_)
  rw [wp_bind, wp_bigEndianUint]
  refine ⟨h, ?_⟩
  split
  · next decode hdecode => exact of_lookup startupDecoders_safe hdecode packet
  · trivial

end Pgx.Proto3
