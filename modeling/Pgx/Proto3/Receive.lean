import Pgx.Proto3.ChunkReader
import Pgx.Proto3.NoPanic

/-!
# Receiving messages

`Frontend.Receive`, `Backend.Receive` and `Backend.ReceiveStartupMessage` over a chunk reader. A
header that was read is kept until its body has come, so a read that fails in between loses nothing:
the messages that come out are those of the frames in the stream, however it is cut into reads and
wherever a read fails.
-/
namespace Pgx.Proto3

open Pgx.Go List ChunkReader

inductive ReceiveError where
  /-- From the connection -/
  | read (err : IOError)
  | invalidMessageLength (n : Int)
  | exceededMaxBodyLen (maxExpected actual : Nat)
  | decode (err : DecodeError)
  deriving DecidableEq

def translateEOFtoErrUnexpectedEOF : IOError → IOError
  | .eof => .unexpectedEOF
  | err => err

/-- An error as `Receive` returns it -/
def returnAs {ε α : Type} (f : ε → ReceiveError) : Checked ε α → Checked ReceiveError α
  | .ok a => .ok a
  | .error (.returned err) => .error (.returned (f err))
  | .error .panic => .error .panic

def asRead (err : IOError) : ReceiveError := .read (translateEOFtoErrUnexpectedEOF err)

/-- What `Frontend` and `Backend` have in common. -/
structure Receiver where
  cr : ChunkReader
  bodyLen : Nat
  maxBodyLen : Nat
  msgType : UInt8
  partialMsg : Bool

namespace Receiver

def new (pool : Pool) (maxBodyLen : Nat) : Receiver where
  cr := .new pool 0
  bodyLen := 0
  maxBodyLen := maxBodyLen
  msgType := 0
  partialMsg := false

/-- The length of the body, from that of the message -/
def acceptLength (msgLength : Int) (r : Receiver) : Checked ReceiveError Unit × Receiver :=
  if msgLength < 4 then (.error (.returned (.invalidMessageLength msgLength)), r)
  else
    let r := { r with bodyLen := (msgLength - 4).toNat }
    if r.maxBodyLen > 0 ∧ r.bodyLen > r.maxBodyLen then
      (.error (.returned (.exceededMaxBodyLen r.maxBodyLen r.bodyLen)), r)
    else (.ok (), { r with partialMsg := true })

def parseHeader (header : Bytes) (r : Receiver) : Checked ReceiveError Unit × Receiver :=
  match header with
  | [] => (.error .panic, r)
  | msgType :: len =>
    if len.length < 4 then (.error .panic, { r with msgType := msgType })
    else acceptLength (signed 32 (fromBigEndian (len.take 4))) { r with msgType := msgType }

/-- The header of the next message, unless one is waiting for its body -/
def readHeader (pool : Pool) (r : Receiver) (reads : Incoming) :
    Checked ReceiveError Unit × Receiver × Incoming :=
  if r.partialMsg then (.ok (), r, reads)
  else
    match r.cr.next pool 5 reads with
    | (.ok header, cr, reads) => ((parseHeader header { r with cr := cr }).1,
      (parseHeader header { r with cr := cr }).2, reads)
    | (.error e, cr, reads) => (returnAs asRead (.error e), { r with cr := cr }, reads)

def readBody (pool : Pool) (r : Receiver) (reads : Incoming) :
    Checked ReceiveError Bytes × Receiver × Incoming :=
  match r.cr.next pool r.bodyLen reads with
  | (.ok body, cr, reads) => (.ok body, { r with cr := cr, partialMsg := false }, reads)
  | (.error e, cr, reads) => (returnAs asRead (.error e), { r with cr := cr }, reads)

end Receiver

/-! ## Frontend and Backend -/

/-- `valuesCap` is the capacity of the slice that the last `DataRow` left. -/
structure Frontend where
  receiver : Receiver
  valuesCap : Nat

def Frontend.new (pool : Pool) (maxBodyLen : Nat) : Frontend where
  receiver := .new pool maxBodyLen
  valuesCap := 0

/-- The capacity behind a `DataRow` -/
def capAfter (valuesCap : Nat) (msgType : UInt8) (body : Bytes) : Nat :=
  let fieldCount := fromBigEndian (body.take 2)
  if msgType = 68 ∧ 2 ≤ body.length ∧
    (valuesCap < fieldCount ∨ valuesCap - fieldCount > 32) then max 32 fieldCount
  else valuesCap

def Frontend.receive (pool : Pool) (p : Platform) (f : Frontend) (reads : Incoming) :
    Checked ReceiveError BackendMessage × Frontend × Incoming :=
  match f.receiver.readHeader pool reads with
  | (.error e, r, reads) => (.error e, { f with receiver := r }, reads)
  | (.ok (), r, reads) =>
    match r.readBody pool reads with
    | (.error e, r, reads) => (.error e, { f with receiver := r }, reads)
    | (.ok body, r, reads) =>
      (returnAs .decode (decodeBackend p f.valuesCap r.msgType body),
        { receiver := r, valuesCap := capAfter f.valuesCap r.msgType body }, reads)

structure Backend where
  receiver : Receiver
  authType : Nat

def Backend.new (pool : Pool) (maxBodyLen authType : Nat) : Backend where
  receiver := .new pool maxBodyLen
  authType := authType

/-- The type is looked at before the body is read; an unknown one stays, and with it the header. -/
def Backend.receive (pool : Pool) (b : Backend) (reads : Incoming) :
    Checked ReceiveError FrontendMessage × Backend × Incoming :=
  match b.receiver.readHeader pool reads with
  | (.error e, r, reads) => (.error e, { b with receiver := r }, reads)
  | (.ok (), r, reads) =>
    if ((frontendDecoders b.authType).lookup r.msgType).isNone then
      (returnAs .decode (decodeFrontend b.authType r.msgType []), { b with receiver := r }, reads)
    else
      match r.readBody pool reads with
      | (.error e, r, reads) => (.error e, { b with receiver := r }, reads)
      | (.ok body, r, reads) =>
        (returnAs .decode (decodeFrontend b.authType r.msgType body), { b with receiver := r }, reads)

def minStartupPacketLen : Int := 4

def maxStartupPacketLen : Int := 10000

def Backend.receivePacket (pool : Pool) (b : Backend) (msgSize : Int) (cr : ChunkReader)
    (reads : Incoming) :
    Checked ReceiveError StartupPacket × Backend × Incoming :=
  if msgSize < minStartupPacketLen ∨ msgSize > maxStartupPacketLen then
    (.error (.returned (.decode (.errorf "invalid length of startup packet: %d" [msgSize]))),
      { b with receiver := { b.receiver with cr := cr } }, reads)
  else
    match cr.next pool msgSize.toNat reads with
    | (.error e, cr, reads) =>
      (returnAs asRead (.error e), { b with receiver := { b.receiver with cr := cr } }, reads)
    | (.ok packet, cr, reads) =>
      (returnAs .decode (decodeStartup packet),
        { b with receiver := { b.receiver with cr := cr } }, reads)

/-- The size of the packet is computed as an `int32`. -/
def Backend.receiveStartupMessage (pool : Pool) (b : Backend) (reads : Incoming) :
    Checked ReceiveError StartupPacket × Backend × Incoming :=
  match b.receiver.cr.next pool 4 reads with
  | (.error e, cr, reads) =>
    (returnAs .read (.error e), { b with receiver := { b.receiver with cr := cr } }, reads)
  | (.ok buf, cr, reads) =>
    if buf.length < 4 then (.error .panic, { b with receiver := { b.receiver with cr := cr } }, reads)
    else b.receivePacket pool (signed 32 (signed 32 (fromBigEndian (buf.take 4)) - 4)) cr reads

/-! ## Frames -/

structure Frame where
  msgType : UInt8
  body : Bytes

def Frame.bytes (frame : Frame) : Bytes :=
    frame.msgType :: (bigEndian 4 (frame.body.length + 4) ++ frame.body)

/-- The length of the message fits its field and the limit of the receiver. -/
structure Frame.Fits (maxBodyLen : Nat) (frame : Frame) : Prop where
  field : frame.body.length + 4 < 2 ^ 31
  limit : maxBodyLen = 0 ∨ frame.body.length ≤ maxBodyLen

def frameBytes (frames : List Frame) : Bytes := frames.flatMap Frame.bytes

/-- The receiver is at the start of these frames, or behind the header of the first. -/
structure Receiver.At (frames : List Frame) (r : Receiver) (reads : Incoming) : Prop where
  valid : r.cr.Valid
  fits : ∀ frame ∈ frames, frame.Fits r.maxBodyLen
  start : r.partialMsg = false → r.cr.ahead reads = frameBytes frames
  inside : r.partialMsg = true → ∃ frame rest, frames = frame :: rest ∧ r.msgType = frame.msgType ∧
    r.bodyLen = frame.body.length ∧ r.cr.ahead reads = frame.body ++ frameBytes rest

namespace Receiver

variable {pool : Pool} {frame : Frame} {frames : List Frame} {r : Receiver} {reads : Incoming}

theorem new_at (pool : Pool) {maxBodyLen : Nat} (hfits : ∀ frame ∈ frames, frame.Fits maxBodyLen)
    (hstream : stream reads = frameBytes frames) : (new pool maxBodyLen).At frames reads where
  valid := new_valid pool 0
  fits := hfits
  start := fun _ => by
    rw [ahead, show (new pool maxBodyLen).cr = .new pool 0 from rfl, new_unread, hstream]
    rfl
  inside := fun h => by cases h

/-- The header of a frame that fits gives its type and the length of its body. -/
theorem parseHeader_frame (hfits : frame.Fits r.maxBodyLen) :
    parseHeader (frame.msgType :: bigEndian 4 (frame.body.length + 4)) r =
      (.ok (), { r with msgType := frame.msgType, bodyLen := frame.body.length, partialMsg := true }) := by
  have hlen : (bigEndian 4 (frame.body.length + 4)).length = 4 := bigEndian_length _ _
  have hfield := hfits.field
  have hvalue : signed 32 (fromBigEndian ((bigEndian 4 (frame.body.length + 4)).take 4)) =
      (frame.body.length + 4 : Nat) := by
    rw [take_of_length_le (by omega), fromBigEndian_bigEndian_of_lt (by omega),
      signed_of_fits (by omega) (by omega)]
  have hbody : ((frame.body.length + 4 : Nat) - 4 : Int).toNat = frame.body.length := by omega
  have hlimit : ¬ (r.maxBodyLen > 0 ∧ frame.body.length > r.maxBodyLen) := by
    have := hfits.limit
    omega
  simp only [parseHeader, hlen, hvalue, acceptLength, hbody, hlimit]
  rw [if_neg (by omega), if_neg (by omega), if_false]

/-- A step towards the next message: it succeeds with `a`, or a read has failed and the receiver is
where it was. -/
inductive Step (frames frames' : List Frame) {α : Type} (a : α) (P : Receiver → Prop)
    (reads : Incoming) :
    Checked ReceiveError α × Receiver × Incoming → Prop where
  | done {r : Receiver} {reads' : Incoming} (after : r.At frames' reads') (holds : P r)
      (fewer : failures reads' ≤ failures reads) : Step frames frames' a P reads (.ok a, r, reads')
  | failed {err : IOError} {r : Receiver} {reads' : Incoming} (same : r.At frames reads')
      (fewer : failures reads' < failures reads) :
      Step frames frames' a P reads (.error (.returned (.read err)), r, reads')

theorem readHeader_step (pool : Pool) (h : r.At (frame :: frames) reads) :
    Step (frame :: frames) (frame :: frames) ()
      (fun r => r.partialMsg = true ∧ r.msgType = frame.msgType) reads
      (r.readHeader pool reads) := by
  unfold readHeader
  split
  · next hpending =>
    obtain ⟨f, rest, hcons, htype, _⟩ := h.inside hpending
    obtain ⟨rfl, rfl⟩ := cons.inj hcons
    exact .done h ⟨hpending, htype⟩ (le_refl _)
  · next hpending =>
    have hstart := h.start (by simpa using hpending)
    have hdone := next_done pool 5 h.valid reads
    have hlen : (bigEndian 4 (frame.body.length + 4)).length = 4 := bigEndian_length _ _
    have hsplit : r.cr.ahead reads =
        (frame.msgType :: bigEndian 4 (frame.body.length + 4)) ++
          (frame.body ++ frameBytes frames) := by
      rw [hstart, frameBytes, flatMap_cons, Frame.bytes]
      simp [frameBytes]
    generalize r.cr.next pool 5 reads = out at hdone
    cases hdone with
    | @taken b cr reads' length front valid fewer =>
      obtain ⟨hb, hahead⟩ := append_inj (front.trans hsplit) (by simp [length, hlen])
      have hparse := parseHeader_frame (r := { r with cr := cr }) (h.fits frame (.head _))
      simp only [hb, hparse]
      refine .done ⟨valid, h.fits, nofun, fun _ => ?_⟩ ⟨rfl, rfl⟩ fewer
      exact ⟨frame, frames, rfl, rfl, rfl, hahead⟩
    | @failed err cr reads' kept valid fewer why =>
      have hlong : ¬ (r.cr.ahead reads).length < 5 := by
        rw [hsplit]
        simp [hlen]
      exact .failed ⟨valid, h.fits, fun _ => kept.trans hstart, fun h' => absurd h' hpending⟩
        (why.resolve_right hlong)

theorem readBody_step (pool : Pool) (h : r.At (frame :: frames) reads)
    (hpending : r.partialMsg = true) :
    Step (frame :: frames) frames frame.body (fun r => r.msgType = frame.msgType) reads
      (r.readBody pool reads) := by
  obtain ⟨f, rest, hcons, htype, hbodyLen, hahead⟩ := h.inside hpending
  obtain ⟨rfl, rfl⟩ := cons.inj hcons
  have hdone := next_done pool r.bodyLen h.valid reads
  unfold readBody
  generalize r.cr.next pool r.bodyLen reads = out at hdone
  cases hdone with
  | @taken b cr reads' length front valid fewer =>
    obtain ⟨hb, hrest⟩ := append_inj (front.trans hahead) (by rw [length, hbodyLen])
    subst hb
    have hfits : ∀ f ∈ frames, f.Fits r.maxBodyLen := fun f hf => h.fits f (.tail _ hf)
    exact .done ⟨valid, hfits, fun _ => hrest, nofun⟩ htype fewer
  | @failed err cr reads' kept valid fewer why =>
    have hlong : ¬ (r.cr.ahead reads).length < r.bodyLen := by
      rw [hahead, hbodyLen, length_append]
      omega
    refine .failed ⟨valid, h.fits, fun h' => ?_, fun _ => ?_⟩ (why.resolve_right hlong)
    · exact absurd (hpending.symm.trans h') (by decide)
    · exact ⟨frame, frames, rfl, htype, hbodyLen, kept.trans hahead⟩

theorem readHeader_end (pool : Pool) (h : r.At [] reads) :
    (∃ err, (r.readHeader pool reads).1 = .error (.returned (.read err))) ∧
      (r.readHeader pool reads).2.1.At [] (r.readHeader pool reads).2.2 := by
  have hpending : r.partialMsg = false := by
    by_contra hp
    obtain ⟨_, _, hcons, _⟩ := h.inside (by simpa using hp)
    cases hcons
  have hdone := next_done pool 5 h.valid reads
  have hempty : r.cr.ahead reads = [] := h.start hpending
  unfold readHeader
  rw [if_neg (by simp [hpending])]
  generalize r.cr.next pool 5 reads = out at hdone
  cases hdone with
  | @taken b cr reads' length front valid fewer =>
    rw [hempty] at front
    obtain ⟨rfl, _⟩ := append_eq_nil_iff.mp front
    cases length
  | @failed err cr reads' kept valid fewer why =>
    exact ⟨⟨_, rfl⟩, ⟨valid, h.fits, fun _ => kept.trans hempty, fun h' =>
        absurd (hpending.symm.trans h') (by decide)⟩⟩

end Receiver

/-! ## Whole streams -/

theorem DataRow.resize_eq (valuesCap fieldCount : Nat) :
    DataRow.resize valuesCap fieldCount = pure () := by
  unfold DataRow.resize
  split
  · exact if_neg (by omega)
  · rw [if_pos (by omega)]

theorem decodeBackend_valuesCap (p : Platform) (valuesCap : Nat) (msgType : UInt8) (body : Bytes) :
    decodeBackend p valuesCap msgType body = decodeBackend p 0 msgType body := by
  simp only [decodeBackend, backendDecoders, DataRow.decode, DataRow.resize_eq]

/-- What `Frontend.Receive` returns for a frame -/
def Frame.received (p : Platform) (frame : Frame) : Checked ReceiveError BackendMessage :=
  returnAs .decode (decodeBackend p 0 frame.msgType frame.body)

def isReadError {α : Type} : Checked ReceiveError α → Bool
  | .error (.returned (.read _)) => true
  | _ => false

theorem isReadError_returnAs_decode {α : Type} (x : Checked DecodeError α) :
    isReadError (returnAs .decode x) = false := by
  rcases x with (_ | _) | _ <;> rfl

/-- What a `Receive` with a frame ahead has done: the frame is received, or a read has failed. -/
inductive Received {α : Type} (frame : Frame) (frames : List Frame) (out : Checked ReceiveError α)
    (reads : Incoming) :
    Checked ReceiveError α × Receiver × Incoming → Prop where
  | done {r : Receiver} {reads' : Incoming} (after : r.At frames reads')
    (fewer : failures reads' ≤ failures reads) :
      Received frame frames out reads (out, r, reads')
  | failed {err : IOError} {r : Receiver} {reads' : Incoming} (same : r.At (frame :: frames) reads')
      (fewer : failures reads' < failures reads) :
      Received frame frames out reads (.error (.returned (.read err)), r, reads')

variable {reads : Incoming}

variable {f : Frontend}

variable {frames : List Frame}

theorem Frontend.receive_step (pool : Pool) (p : Platform) {frame : Frame}
    (h : f.receiver.At (frame :: frames) reads) : Received frame frames (frame.received p) reads
      ((f.receive pool p reads).1, (f.receive pool p reads).2.1.receiver,
        (f.receive pool p reads).2.2) := by
  have hheader := Receiver.readHeader_step pool h
  unfold Frontend.receive
  generalize f.receiver.readHeader pool reads = out at hheader
  cases hheader with
  | failed same fewer => exact .failed same fewer
  | @done r reads' after holds fewer =>
    have hbody := Receiver.readBody_step pool after holds.1
    simp only
    generalize r.readBody pool reads' = out at hbody
    cases hbody with
    | failed same fewer' => exact .failed same (lt_of_lt_of_le fewer' fewer)
    | done after' htype fewer' =>
      simp only [decodeBackend_valuesCap, htype]
      exact .done after' (le_trans fewer' fewer)

theorem Frontend.receive_end (pool : Pool) (p : Platform) (h : f.receiver.At [] reads) :
    isReadError (f.receive pool p reads).1 = true ∧
      (f.receive pool p reads).2.1.receiver.At [] (f.receive pool p reads).2.2 := by
  obtain ⟨⟨err, herr⟩, hat⟩ := Receiver.readHeader_end pool h
  have hout : f.receive pool p reads = (.error (.returned (.read err)),
      { f with receiver := (f.receiver.readHeader pool reads).2.1 },
      (f.receiver.readHeader pool reads).2.2) := by
    unfold Frontend.receive
    rw [show f.receiver.readHeader pool reads = (.error (.returned (.read err)),
      (f.receiver.readHeader pool reads).2.1,
      (f.receiver.readHeader pool reads).2.2) from Prod.ext herr rfl]
  rw [hout]
  exact ⟨rfl, hat⟩

/-- So many calls of `Frontend.Receive`, whatever they return -/
def Frontend.receiveN (pool : Pool) (p : Platform) :
    Nat → Frontend → Incoming → List (Checked ReceiveError BackendMessage)
  | 0, _, _ => []
  | k + 1, f, reads =>
    (f.receive pool p reads).1 ::
      Frontend.receiveN pool p k (f.receive pool p reads).2.1 (f.receive pool p reads).2.2

def delivered {α : Type} (outs : List (Checked ReceiveError α)) : List (Checked ReceiveError α) :=
  outs.filter fun out => !isReadError out

theorem Frontend.receiveN_at (pool : Pool) (p : Platform) (k : Nat) (h : f.receiver.At frames reads) :
    delivered (f.receiveN pool p k reads) <+: frames.map (Frame.received p) ∧
    (frames.length + failures reads ≤ k →
        delivered (f.receiveN pool p k reads) = frames.map (Frame.received p)) := by
  induction k generalizing f frames reads with
  | zero =>
    refine ⟨⟨_, rfl⟩, fun hk => ?_⟩
    rw [length_eq_zero_iff.mp (by omega : frames.length = 0)]
    rfl
  | succ k ih =>
    unfold Frontend.receiveN delivered
    cases frames with
    | nil =>
      obtain ⟨herr, hat⟩ := Frontend.receive_end pool p h
      have hnil := prefix_nil.mp (ih hat).1
      rw [filter_cons_of_neg (by simp [herr])]
      exact ⟨(ih hat).1, fun _ => hnil⟩
    | cons frame frames =>
      have hstep := Frontend.receive_step pool p h
      generalize hf : (f.receive pool p reads).2.1 = f' at hstep ⊢
      generalize (f.receive pool p reads).1 = out at hstep ⊢
      generalize (f.receive pool p reads).2.2 = reads' at hstep ⊢
      generalize hr : f'.receiver = r at hstep
      cases hstep with
      | done after fewer =>
        subst hr
        obtain ⟨hfront, hall⟩ := ih after
        rw [filter_cons_of_pos (by simp [Frame.received, isReadError_returnAs_decode])]
        refine ⟨cons_prefix_cons.mpr ⟨rfl, hfront⟩, fun hk => ?_⟩
        rw [length_cons] at hk
        rw [map_cons, ← hall (by omega)]
        rfl
      | failed same fewer =>
        subst hr
        obtain ⟨hfront, hall⟩ := ih same
        exact ⟨hfront, fun hk => hall (by omega)⟩

/-- However the stream of some frames is cut into reads, and wherever reads fail: the calls that do
not stop at a failed read return the messages of the frames, in order, and with as many calls more
as reads fail all of them. -/
theorem Frontend.receiveN_delivers (pool : Pool) (p : Platform) (maxBodyLen : Nat)
    (frames : List Frame) (reads : Incoming)
    (hfits : ∀ frame ∈ frames, frame.Fits maxBodyLen)
    (hstream : stream reads = frameBytes frames) (k : Nat) :
    delivered ((Frontend.new pool maxBodyLen).receiveN pool p k reads) <+: frames.map
      (Frame.received p) ∧
      (frames.length + failures reads ≤ k →
        delivered ((Frontend.new pool maxBodyLen).receiveN pool p k reads) = frames.map
          (Frame.received p)) :=
  Frontend.receiveN_at pool p k (Receiver.new_at pool hfits hstream)

def zeroPool : Pool := ⟨fun n => replicate n 0, fun _ => length_replicate⟩

/-- Two reads fail, one inside the header and one between header and body. -/
theorem Frontend.receiveN_delivers_sample : delivered
    ((Frontend.new zeroPool 0).receiveN zeroPool .bits64 3
      [⟨[90, 0], none⟩, ⟨[0], some (.other "timeout")⟩, ⟨[0, 5], some (.other "timeout")⟩,
        ⟨[73], none⟩]) =
      [.ok (.readyForQuery 73)] := by
  refine (Frontend.receiveN_delivers zeroPool .bits64 0 [⟨90, [73]⟩] _ ?_ (by decide) 3).2 (by decide)
  intro frame hframe
  rw [mem_singleton.mp hframe]
  exact ⟨by decide, .inl rfl⟩

/-! ## No panic -/

theorem noPanic_returnAs {ε α : Type} {f : ε → ReceiveError} {x : Checked ε α} :
    NoPanic (returnAs f x) ↔ NoPanic x := by
  rcases x with (_ | _) | _ <;> simp [NoPanic, returnAs]

namespace Receiver

variable {pool : Pool} {r : Receiver}

theorem acceptLength_noPanic (msgLength : Int) (r : Receiver) :
    NoPanic (acceptLength msgLength r).1 ∧ (acceptLength msgLength r).2.cr = r.cr := by
  unfold acceptLength
  split
  · exact ⟨noPanic_returned _, rfl⟩
  · simp only
    split
    · exact ⟨noPanic_returned _, rfl⟩
    · exact ⟨noPanic_ok _, rfl⟩

theorem parseHeader_noPanic {header : Bytes} (h : header.length = 5) :
    NoPanic (parseHeader header r).1 ∧ (parseHeader header r).2.cr = r.cr := by
  unfold parseHeader
  cases header with
  | nil => cases h
  | cons msgType len =>
    simp only
    rw [if_neg (by rw [length_cons] at h; omega)]
    exact acceptLength_noPanic _ _

theorem readHeader_noPanic (pool : Pool) (h : r.cr.Valid) (reads : Incoming) :
    NoPanic (r.readHeader pool reads).1 ∧ (r.readHeader pool reads).2.1.cr.Valid := by
  have hdone := next_done pool 5 h reads
  unfold readHeader
  split
  · exact ⟨noPanic_ok _, h⟩
  · generalize r.cr.next pool 5 reads = out at hdone
    cases hdone with
    | taken length front valid fewer =>
      obtain ⟨hheader, hcr⟩ := parseHeader_noPanic length
      exact ⟨hheader, hcr ▸ valid⟩
    | failed kept valid fewer why => exact ⟨noPanic_returned _, valid⟩

theorem readBody_noPanic (pool : Pool) (h : r.cr.Valid) (reads : Incoming) :
    NoPanic (r.readBody pool reads).1 := by
  have hdone := next_done pool r.bodyLen h reads
  unfold readBody
  generalize r.cr.next pool r.bodyLen reads = out at hdone
  cases hdone with
  | taken length front valid fewer => exact noPanic_ok _
  | failed kept valid fewer why => exact noPanic_returned _

end Receiver

theorem Frontend.receive_noPanic_iff (pool : Pool) (p : Platform) {frame : Frame}
    (h : f.receiver.At (frame :: frames) reads) (hreads : failures reads = 0) :
    NoPanic (f.receive pool p reads).1 ↔ ¬ NegativeOptions p frame.msgType frame.body := by
  have hout : (f.receive pool p reads).1 = frame.received p := by
    have hstep := Frontend.receive_step pool p h
    generalize (f.receive pool p reads).1 = out at hstep ⊢
    cases hstep with
    | done after fewer => rfl
    | failed same fewer => omega
  rw [hout, Frame.received, noPanic_returnAs, decodeBackend_noPanic_iff]

theorem Backend.receive_noPanic (pool : Pool) {b : Backend} (h : b.receiver.cr.Valid)
    (reads : Incoming) :
    NoPanic (b.receive pool reads).1 := by
  have hheader := Receiver.readHeader_noPanic pool h reads
  unfold Backend.receive
  generalize b.receiver.readHeader pool reads = out at hheader
  obtain ⟨e | _, r, reads'⟩ := out
  · exact fun h' => hheader.1 (congrArg Except.error (Except.error.inj h'))
  · simp only
    split
    · exact noPanic_returnAs.mpr (decodeFrontend_noPanic _ _ _)
    · have hbody := Receiver.readBody_noPanic pool hheader.2 reads'
      generalize r.readBody pool reads' = out at hbody
      obtain ⟨e | body, r', reads''⟩ := out
      · exact fun h' => hbody (congrArg Except.error (Except.error.inj h'))
      · exact noPanic_returnAs.mpr (decodeFrontend_noPanic _ _ _)

theorem Backend.receivePacket_noPanic (pool : Pool) (b : Backend) (msgSize : Int) {cr : ChunkReader}
    (h : cr.Valid) (reads : Incoming) : NoPanic (b.receivePacket pool msgSize cr reads).1 := by
  unfold Backend.receivePacket
  split
  · exact noPanic_returned _
  · next hsize =>
    have hdone := next_done pool msgSize.toNat h reads
    generalize cr.next pool msgSize.toNat reads = out at hdone
    cases hdone with
    | failed kept valid fewer why => exact noPanic_returned _
    | taken length front valid fewer =>
      refine noPanic_returnAs.mpr (decodeStartup_noPanic ?_)
      unfold minStartupPacketLen at hsize
      omega

theorem Backend.receiveStartupMessage_noPanic (pool : Pool) {b : Backend} (h : b.receiver.cr.Valid)
    (reads : Incoming) :
    NoPanic (b.receiveStartupMessage pool reads).1 := by
  have hdone := next_done pool 4 h reads
  unfold Backend.receiveStartupMessage
  generalize b.receiver.cr.next pool 4 reads = out at hdone
  cases hdone with
  | failed kept valid fewer why => exact noPanic_returned _
  | @taken buf cr reads' length front valid fewer =>
    simp only
    rw [if_neg (by omega)]
    exact Backend.receivePacket_noPanic pool b _ valid reads'

/-- A message or an error, for every type and body of a message and for every startup packet, with
the one exception of a `NegotiateProtocolVersion` where `int` has 32 bits. -/
theorem receive_returns_iff (pool : Pool) (p : Platform) (f : Frontend) (b : Backend) (frame : Frame)
    (frames : List Frame) (reads : Incoming) (hf : f.receiver.At (frame :: frames) reads)
    (hreads : failures reads = 0)
    (hb : b.receiver.cr.Valid) :
    (NoPanic (f.receive pool p reads).1 ↔ ¬ NegativeOptions p frame.msgType frame.body) ∧
      ∀ reads', NoPanic (b.receive pool reads').1 ∧ NoPanic (b.receiveStartupMessage pool reads').1 :=
  ⟨Frontend.receive_noPanic_iff pool p hf hreads,
    fun reads' => ⟨Backend.receive_noPanic pool hb reads',
      Backend.receiveStartupMessage_noPanic pool hb reads'⟩⟩

/-- A `NegotiateProtocolVersion` that claims 2 ^ 32 - 1 options and has none -/
def allOnes : Frame := ⟨118, [0, 0, 0, 0, 255, 255, 255, 255]⟩

theorem allOnes_at (maxBodyLen : Nat) (h : maxBodyLen = 0) :
    (Receiver.new zeroPool maxBodyLen).At [allOnes] [⟨allOnes.bytes, none⟩] := by
  refine Receiver.new_at zeroPool (fun frame hframe => ?_) (by decide)
  rw [mem_singleton.mp hframe]
  exact ⟨by decide, .inl h⟩

/-- With 64 bits the count is refused. -/
theorem receive_returns_sample :
    NoPanic ((Frontend.new zeroPool 0).receive zeroPool .bits64 [⟨allOnes.bytes, none⟩]).1 ∧
      NoPanic ((Backend.new zeroPool 0 0).receive zeroPool [⟨allOnes.bytes, none⟩]).1 := by
  obtain ⟨hfrontend, hbackend⟩ :=
    receive_returns_iff zeroPool .bits64 (.new zeroPool 0) (.new zeroPool 0 0) allOnes []
    [⟨allOnes.bytes, none⟩] (allOnes_at 0 rfl) (by decide) (ChunkReader.new_valid zeroPool 0)
  exact ⟨hfrontend.mpr (by decide), (hbackend _).1⟩

/-- On a 32-bit platform the count is -1, and `make` panics. -/
theorem receive_panics :
    ¬ NoPanic ((Frontend.new zeroPool 0).receive zeroPool .bits32 [⟨allOnes.bytes, none⟩]).1 := by
  have hiff : NoPanic
      ((Frontend.new zeroPool 0).receive zeroPool .bits32 [⟨allOnes.bytes, none⟩]).1 ↔ _ :=
    Frontend.receive_noPanic_iff zeroPool .bits32 (allOnes_at 0 rfl) (by decide)
  rw [hiff]
  decide

end Pgx.Proto3
