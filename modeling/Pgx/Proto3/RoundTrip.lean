import Pgx.Proto3.ReadBack

/-!
# What is sent is received

`Send` and `Flush` on one side, `Receive` on the other. The bytes that are flushed are frames, so
however they are cut into reads each call receives the message of one frame, which its decoder reads
back.
-/
namespace Pgx.Proto3

open Pgx.Go List Backend

variable {reads : Incoming} {maxBodyLen : Nat}

/-- The types that `SetAuthType` takes -/
def authTypes : List Nat := [0, 3, 5, 6, 7, 8, 9, 10, 11, 12]

def Backend.setAuthType (b : Backend) (authType : Nat) : Option DecodeError × Backend :=
  if authType ∈ authTypes then (none, { b with authType := authType })
  else (some (.errorf "authType not recognized: %d" [authType]), b)

/-- `SetAuthType` and `Receive`, once for each of the types -/
def Backend.receiveEach (pool : Pool) : List Nat → Backend → Incoming →
    List (Checked ReceiveError FrontendMessage)
  | [], _, _ => []
  | authType :: authTypes, b, reads =>
    let out := (b.setAuthType authType).2.receive pool reads
    out.1 :: Backend.receiveEach pool authTypes out.2.1 out.2.2

/-- What `Backend.Receive` returns for a frame -/
def Frame.receivedBy (authType : Nat) (frame : Frame) : Checked ReceiveError FrontendMessage :=
  returnAs .decode (decodeFrontend authType frame.msgType frame.body)

/-- The type is one that `Backend.Receive` knows. -/
def Frame.Known (frame : Frame) : Prop := ∀ authType,
    ((frontendDecoders authType).lookup frame.msgType).isSome = true

theorem Backend.receive_step (pool : Pool) {b : Backend} {frame : Frame} {frames : List Frame}
    (hknown : frame.Known) (h : b.receiver.At (frame :: frames) reads) :
    Received frame frames (frame.receivedBy b.authType) reads
      ((b.receive pool reads).1, (b.receive pool reads).2.1.receiver,
        (b.receive pool reads).2.2) := by
  have hheader := Receiver.readHeader_step pool h
  unfold receive
  generalize b.receiver.readHeader pool reads = out at hheader
  cases hheader with
  | failed same fewer => exact .failed same fewer
  | @done r reads' after holds fewer =>
    have hbody := Receiver.readBody_step pool after holds.1
    have hsome := hknown b.authType
    simp only [holds.2]
    rw [if_neg (by rw [Option.isNone_iff_eq_none]; intro hnone; rw [hnone] at hsome; cases hsome)]
    generalize r.readBody pool reads' = out at hbody
    cases hbody with
    | failed same fewer' => exact .failed same (lt_of_lt_of_le fewer' fewer)
    | done after' htype fewer' =>
      simp only [htype]
      exact .done after' (le_trans fewer' fewer)

theorem Backend.receiveEach_at (pool : Pool) {b : Backend} {calls : List (Nat × Frame)}
    (hcalls : ∀ call ∈ calls, call.1 ∈ authTypes ∧ call.2.Known)
    (h : b.receiver.At (calls.map Prod.snd) reads)
    (hreads : failures reads = 0) :
    b.receiveEach pool (calls.map Prod.fst) reads = calls.map fun call =>
      call.2.receivedBy call.1 := by
  induction calls generalizing b reads with
  | nil => rfl
  | cons call calls ih =>
    obtain ⟨htype, hknown⟩ := hcalls call (.head _)
    have hstep := receive_step pool (b := { b with authType := call.1 }) hknown h
    simp only [map_cons, receiveEach, setAuthType, if_pos htype]
    generalize receive pool { b with authType := call.1 } reads = result at hstep
    obtain ⟨out, b', reads'⟩ := result
    simp only at hstep
    generalize hr : b'.receiver = r at hstep
    cases hstep with
    | failed same fewer => omega
    | done after fewer =>
      subst hr
      rw [ih (fun c hc => hcalls c (.tail _ hc)) after (by omega)]

theorem Frontend.receiveN_eq (pool : Pool) (p : Platform) {f : Frontend} {frames : List Frame}
    (h : f.receiver.At frames reads) (hreads : failures reads = 0) :
    f.receiveN pool p frames.length reads = frames.map (Frame.received p) := by
  induction frames generalizing f reads with
  | nil => rfl
  | cons frame frames ih =>
    have hstep := Frontend.receive_step pool p h
    rw [length_cons, Frontend.receiveN, map_cons]
    generalize f.receive pool p reads = result at hstep
    obtain ⟨out, f', reads'⟩ := result
    simp only at hstep
    generalize hr : f'.receiver = r at hstep
    cases hstep with
    | failed same fewer => omega
    | done after fewer =>
      subst hr
      rw [ih after (by omega)]

/-! ## Both directions -/

/-- The message can be sent to a backend that has this limit and has this type of authentication
set. -/
structure FrontendMessage.Sendable (maxBodyLen authType : Nat) (msg : FrontendMessage) : Prop where
  plain : msg.Plain
  short : msg.frame.Short maxBodyLen
  accepted : authType ∈ authTypes
  matched : msg.MatchesAuth authType

/-- The message can be sent to a frontend that has this limit. -/
structure BackendMessage.Sendable (ro : RangeOrder) (maxBodyLen : Nat)
    (msg : BackendMessage) : Prop where
  plain : msg.Plain
  short : (msg.frame ro).Short maxBodyLen

theorem Frame.Short.lt {frame : Frame} (h : frame.Short maxBodyLen) : frame.body.length < 2 ^ 31 := by
  have := h.fits.field
  omega

/-- The bytes of messages to a backend, and what each call there returns -/
theorem FrontendMessage.sent (pool : Pool) {msgs : List (Nat × FrontendMessage)}
    (h : ∀ m ∈ msgs, m.2.Sendable maxBodyLen m.1) :
    sendAll (msgs.map fun m => m.2.encode) = .ok (frameBytes (msgs.map fun m => m.2.frame)) ∧
      ∀ authType reads, stream reads = frameBytes (msgs.map fun m => m.2.frame) → failures reads = 0 →
        (new pool maxBodyLen authType).receiveEach pool (msgs.map Prod.fst) reads =
          msgs.map fun m => m.2.frame.receivedBy m.1 := by
  constructor
  · apply sendAll_eq
    rw [forall₂_map_left_iff, forall₂_map_right_iff, forall₂_same]
    exact fun m hm => FrontendMessage.encode_appends (h m hm).plain (h m hm).short.encoder
  · intro authType reads hstream hreads
    have hat : (new pool maxBodyLen authType).receiver.At
        ((msgs.map fun m => (m.1, m.2.frame)).map Prod.snd) reads := by
      rw [map_map]
      refine Receiver.new_at pool (fun frame hframe => ?_) hstream
      obtain ⟨m, hm, rfl⟩ := mem_map.mp hframe
      exact (h m hm).short.fits
    have heach := receiveEach_at pool (fun call hcall => ?_) hat hreads
    · rw [map_map, map_map] at heach
      exact heach
    · obtain ⟨m, hm, rfl⟩ := mem_map.mp hcall
      exact ⟨(h m hm).accepted, fun _ => by cases m.2 <;> rfl⟩

theorem BackendMessage.received_frames (p : Platform) {ro : RangeOrder} {msgs : List BackendMessage}
    (h : ∀ msg ∈ msgs, msg.Sendable ro maxBodyLen) :
    ∃ received, (msgs.map (BackendMessage.frame ro)).map (Frame.received p) = received.map .ok ∧
      Forall₂ BackendMessage.Same received msgs := by
  induction msgs with
  | nil => exact ⟨[], rfl, .nil⟩
  | cons msg msgs ih =>
    have hmsg := h msg (.head _)
    obtain ⟨first, hfirst, hsame⟩ := decodeBackend_frame p ro hmsg.plain hmsg.short.lt
    obtain ⟨received, hreceived, hall⟩ := ih fun m hm => h m (.tail _ hm)
    refine ⟨first :: received, ?_, .cons hsame hall⟩
    rw [map_cons, map_cons, map_cons, Frame.received, hfirst, hreceived]
    rfl

/-- Messages that are sent are received, in order, however the bytes are cut into reads. To a
backend, calls of functions must use the format codes that are known. -/
theorem sent_received (pool : Pool) (p : Platform) (ro : RangeOrder) (maxBodyLen : Nat) :
    (∀ msgs : List (Nat × FrontendMessage),
      (∀ m ∈ msgs, m.2.Sendable maxBodyLen m.1 ∧ m.2.KnownFormats) →
      ∃ bytes, sendAll (msgs.map fun m => m.2.encode) = .ok bytes ∧
        ∀ authType reads, stream reads = bytes → failures reads = 0 →
          (Backend.new pool maxBodyLen authType).receiveEach pool (msgs.map Prod.fst) reads =
            msgs.map fun m => .ok m.2) ∧
    (∀ msgs : List BackendMessage, (∀ msg ∈ msgs, msg.Sendable ro maxBodyLen) →
      ∃ bytes, sendAll (msgs.map (BackendMessage.encode ro)) = .ok bytes ∧
        ∀ reads, stream reads = bytes → failures reads = 0 →
          ∃ received, (Frontend.new pool maxBodyLen).receiveN pool p msgs.length reads =
            received.map .ok ∧
            Forall₂ BackendMessage.Same received msgs) := by
  constructor
  · intro msgs h
    obtain ⟨hsend, hreceive⟩ := FrontendMessage.sent pool fun m hm => (h m hm).1
    refine ⟨_, hsend, fun authType reads hstream hreads => ?_⟩
    rw [hreceive authType reads hstream hreads]
    refine map_congr_left fun m hm => ?_
    obtain ⟨hm, hformats⟩ := h m hm
    rw [Frame.receivedBy, decodeFrontend_frame hm.plain hformats hm.matched hm.short.lt]
    rfl
  · intro msgs h
    refine ⟨frameBytes (msgs.map (BackendMessage.frame ro)), ?_, fun reads hstream hreads => ?_⟩
    · apply sendAll_eq
      rw [forall₂_map_left_iff, forall₂_map_right_iff, forall₂_same]
      exact fun m hm => BackendMessage.encode_appends ro (h m hm).plain (h m hm).short.encoder
    · obtain ⟨received, hreceived, hall⟩ := BackendMessage.received_frames p h
      have hat : (Frontend.new pool maxBodyLen).receiver.At
          (msgs.map (BackendMessage.frame ro)) reads := by
        refine Receiver.new_at pool (fun frame hframe => ?_) hstream
        obtain ⟨m, hm, rfl⟩ := mem_map.mp hframe
        exact (h m hm).short.fits
      refine ⟨received, ?_, hall⟩
      rw [← hreceived, ← Frontend.receiveN_eq pool p hat hreads, length_map]

/-- A call of function 1 with one argument, in text format, and a result in text format -/
def textCall : FrontendMessage := .functionCall ⟨1, [0], [some [55]], 0⟩

/-- The bytes arrive in two pieces. -/
theorem sent_received_sample :
    ∃ bytes, sendAll [textCall.encode, FrontendMessage.sync.encode] = .ok bytes ∧
      (Backend.new zeroPool 0 0).receiveEach zeroPool [0, 0]
        [⟨bytes.take 7, none⟩, ⟨bytes.drop 7, none⟩] =
        [.ok textCall, .ok .sync] := by
  have hsendable : ∀ m ∈ [(0, textCall), (0, .sync)], m.2.Sendable 0 m.1 ∧ m.2.KnownFormats := by
    intro m hm
    rcases mem_cons.mp hm with rfl | hm
    · exact ⟨⟨⟨by decide, by decide⟩, ⟨by decide, .inl rfl⟩, by decide, trivial⟩, fun _ h =>
        .inl (mem_singleton.mp h), .inl rfl⟩
    · rw [mem_singleton.mp hm]
      exact ⟨⟨trivial, ⟨by decide, .inl rfl⟩, by decide, trivial⟩, trivial⟩
  obtain ⟨bytes, hsend, hreceive⟩ := (sent_received zeroPool .bits64 .listed 0).1 _ hsendable
  exact ⟨bytes, hsend, hreceive 0 _ (by simp [stream]) (by simp [failures])⟩

/-- The same call with format code 2 for the argument -/
def otherCall : FrontendMessage := .functionCall ⟨1, [2], [some [55]], 0⟩

theorem otherCall_sendable : otherCall.Sendable 0 0 :=
  ⟨⟨by decide, by decide⟩, ⟨by decide, .inl rfl⟩, by decide, trivial⟩

/-- It is sent, and refused where it is received. -/
theorem otherCall_refused :
    otherCall.Sendable 0 0 ∧ ∃ bytes, sendAll [otherCall.encode] = .ok bytes ∧
      (Backend.new zeroPool 0 0).receiveEach zeroPool [0] [⟨bytes, none⟩] =
        [.error (.returned (.decode (.invalidMessageFormat "FunctionCall" "")))] := by
  have hall : ∀ m ∈ [(0, otherCall)], m.2.Sendable 0 m.1 := by
    intro m hm
    rw [mem_singleton.mp hm]
    exact otherCall_sendable
  obtain ⟨hsend, hreceive⟩ := FrontendMessage.sent zeroPool hall
  refine ⟨otherCall_sendable, _, hsend, ?_⟩
  exact hreceive 0 _ (by simp [stream]) (by simp [failures])

end Pgx.Proto3
