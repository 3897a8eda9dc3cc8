import Pgx.Conn.Conforming
import Pgx.Conn.PipelineRun

/-!
# What reading a pipeline takes from the network

Whatever is asked for and whatever has arrived, reading takes messages off the
front of the stream. A `ReadyForQuery` is only taken for a `Sync`, the reader of
a result is only given messages of that result, and reading waits in vain only
when no `ReadyForQuery` has arrived. Nothing here depends on the queues of the
pipeline being in line with the stream.
-/
namespace Pgx.Conn

open Pgx.Go Pgx.Wire Pgx.Effect List

/-! ## Streams of answers -/

/-- The number of `ReadyForQuery` messages. -/
def readies (ms : List BackendMessage) : Nat := ms.countP BackendMessage.isReadyForQuery

@[simp] theorem readies_nil : readies [] = 0 := rfl

theorem readies_cons (m : BackendMessage) (ms : List BackendMessage) :
    readies (m :: ms) = readies ms + if m.isReadyForQuery then 1 else 0 := countP_cons

theorem readies_append (ms ns : List BackendMessage) :
    readies (ms ++ ns) = readies ms + readies ns := countP_append

/-- The stream goes on with what is left of a result. -/
def Concludes (ms : List BackendMessage) : Prop :=
  ∃ (rows : List (List (Option Bytes))) (ending : Ending) (rest : List BackendMessage),
    ms = rows.map .dataRow ++ ending.message :: rest

/-- Messages with which the rows of a portal begin. -/
def opensRows : BackendMessage → Bool
  | .rowDescription _ => true
  | .dataRow _ => true
  | _ => false

/-- Where a portal was bound, there is more to come, and if its rows begin they come to an end. -/
def Sound (s : List BackendMessage) : Prop :=
  ∀ m ms, .bindComplete :: m :: ms <:+ s →
    m.isReadyForQuery = false ∧ (opensRows m = true → Concludes ms)

theorem isReadyForQuery_ending (ending : Ending) : ending.message.isReadyForQuery = false := by
  cases ending <;> rfl

namespace Sound

variable {m : BackendMessage} {s t : List BackendMessage}

theorem of_suffix (h : Sound s) (ht : t <:+ s) : Sound t := fun m ms hms => h m ms (hms.trans ht)

theorem nil : Sound [] := fun _ _ h => absurd (suffix_nil.mp h) nofun

theorem cons (h : Sound s) (hm : m = .bindComplete → ∀ k ms, s = k :: ms →
    k.isReadyForQuery = false ∧ (opensRows k = true → Concludes ms)) : Sound (m :: s) := by
  intro k ms hms
  rcases suffix_cons_iff.mp hms with heq | hms
  · injection heq with h1 h2
    exact hm h1.symm k ms h2.symm
  · exact h k ms hms

theorem skip (h : Sound s) (hm : m ≠ .bindComplete) : Sound (m :: s) := h.cons fun he => absurd he hm

theorem rows (h : Sound s) (rows : List (List (Option Bytes))) : Sound (rows.map .dataRow ++ s) := by
  induction rows with
  | nil => exact h
  | cons values rows ih => exact ih.skip nofun

theorem ending (h : Sound s) (ending : Ending) : Sound (ending.message :: s) :=
    h.skip (by cases ending <;> exact nofun)

theorem refused {err : PgError} (h : Sound s) (l : List BackendMessage)
    (hl : ∀ m ∈ l, opensRows m = false ∧ m.isReadyForQuery = false) :
    Sound (l ++ .errorResponse err :: s) := by
  induction l with
  | nil => exact h.skip nofun
  | cons m l ih =>
    refine (ih fun k hk => hl k (.tail _ hk)).cons fun _ k ms hk => ?_
    have hclosed : opensRows k = false ∧ k.isReadyForQuery = false := by
      cases l with
      | nil =>
        injection hk with h1
        rw [← h1]
        exact ⟨rfl, rfl⟩
      | cons n l =>
        injection hk with h1
        rw [← h1]
        exact hl n (.tail _ (.head _))
    exact ⟨hclosed.2, fun hopen => absurd hopen (by simp [hclosed.1])⟩

end Sound

theorem prelude_closed {r : Request} {m : BackendMessage} (h : m ∈ r.prelude none) :
    opensRows m = false ∧ m.isReadyForQuery = false := by
  have hmem : m = .parseComplete ∨ m = .bindComplete ∨ m = .noData := by
    cases r <;> simp [Request.prelude, describeMessage] at h <;> simp [h]
  rcases hmem with rfl | rfl | rfl <;> exact ⟨rfl, rfl⟩

variable {i : Item}

theorem Suits.before {before : List BackendMessage} {err : PgError}
    (h : Suits i (.failed before err)) :
    ∀ m ∈ before, opensRows m = false ∧ m.isReadyForQuery = false := by
  intro m hm
  cases h with
  | prepareFailed _ oids _ hb =>
    have hmem : m = .parseComplete ∨ m = .parameterDescription oids := by simpa using hb.subset hm
    rcases hmem with rfl | rfl <;> exact ⟨rfl, rfl⟩
  | closeFailed => exact absurd hm not_mem_nil
  | queryFailed _ _ _ hb => exact prelude_closed (hb.subset hm)
  | statementFailed _ _ hb =>
    obtain rfl := mem_singleton.mp (hb.subset hm)
    exact ⟨rfl, rfl⟩

theorem Concludes.intro (rows : List (List (Option Bytes))) (ending : Ending)
    (ms : List BackendMessage) :
    Concludes (rows.map .dataRow ++ ending.message :: ms) := ⟨rows, ending, ms, rfl⟩

section

variable {ms : List BackendMessage} (h : Sound ms)

include h

variable {fields : Option (List FieldDescription)}

variable {rows : List (List (Option Bytes))}

theorem Sound.prelude {r : Request} {ending : Ending} :
    Sound (r.prelude fields ++ (rows.map .dataRow ++ ending.message :: ms)) := by
  have hrows : Sound (rows.map .dataRow ++ ending.message :: ms) := (h.ending ending).rows rows
  have hdescribed : Sound
      (.bindComplete :: describeMessage fields :: (rows.map .dataRow ++ ending.message :: ms)) := by
    refine (hrows.skip ?_).cons fun _ k ns hk => ?_
    · cases fields <;> exact nofun
    · injection hk with h1 h2
      rw [← h1, ← h2]
      exact ⟨by cases fields <;> rfl, fun _ => .intro _ _ _⟩
  cases r with
  | queryParams => exact hdescribed.skip nofun
  | queryPrepared => exact hdescribed
  | queryStatement =>
    refine hrows.cons fun _ k ns hk => ?_
    cases rows with
    | nil =>
      injection hk with h1
      rw [← h1]
      exact ⟨isReadyForQuery_ending ending, fun hopen => by cases ending <;> cases hopen⟩
    | cons values rows =>
      injection hk with h1 h2
      rw [← h1, ← h2]
      exact ⟨rfl, fun _ => .intro _ _ _⟩
  | prepare => exact hrows
  | deallocate => exact hrows

theorem Sound.failed {before : List BackendMessage} {err : PgError}
    (ho : Suits i (.failed before err)) : Sound (i.reply (.failed before err) ++ ms) := by
  show Sound (before ++ [.errorResponse err] ++ ms)
  rw [append_assoc]
  exact h.refused before ho.before

theorem Sound.executed {r : Request} {ending : Ending} :
    Sound ((Item.request r).reply (.executed fields rows ending) ++ ms) := by
  have hp : Sound (r.prelude fields ++ (rows.map .dataRow ++ ending.message :: ms)) := h.prelude
  simpa [Item.reply, Item.prelude] using hp

theorem Sound.reply {o : Outcome} (ho : Suits i o) : Sound (i.reply o ++ ms) := by
  cases ho with
  | prepared oids fields =>
    have hfields : Sound (describeMessage fields :: ms) := h.skip (by cases fields <;> exact nofun)
    have hoids : Sound (.parameterDescription oids :: describeMessage fields :: ms) :=
      hfields.skip nofun
    exact hoids.skip (m := .parseComplete) nofun
  | closed => exact h.skip (m := .closeComplete) nofun
  | rows => exact h.executed
  | noRows => exact h.executed
  | statement => exact h.executed
  | flushed => exact h
  | synced err txStatus =>
    have hready : Sound (.readyForQuery txStatus :: ms) := h.skip nofun
    cases err with
    | none => exact hready
    | some err => exact hready.skip (m := .errorResponse err) nofun
  | prepareFailed before oids err hb => exact h.failed (.prepareFailed before oids err hb)
  | closeFailed err => exact h.failed (.closeFailed err)
  | queryFailed before err hr hb => exact h.failed (.queryFailed before err hr hb)
  | statementFailed before err hb => exact h.failed (.statementFailed before err hb)

end

theorem Serves.sound {skip skip' : Bool} {items : List Item} {outcomes : List Outcome}
    (h : Serves skip items outcomes skip') : Sound (repliesOf items outcomes) := by
  induction h with
  | nil => exact .nil
  | skipped _ _ ih =>
    exact ih
  | answered _ ho _ ih =>
    exact ih.reply ho

theorem readies_rows (rows : List (List (Option Bytes))) : readies (rows.map .dataRow) = 0 := by
  unfold readies
  rw [countP_map, countP_eq_zero]
  exact nofun

theorem readies_executed (i : Item) (fields : Option (List FieldDescription))
    (rows : List (List (Option Bytes))) (ending : Ending) :
    readies (i.reply (.executed fields rows ending)) = 0 := by
  have hprelude : readies (i.prelude fields) = 0 := by
    cases i with
    | request r => cases r <;> cases fields <;> rfl
    | _ => rfl
  show readies (i.prelude fields ++ rows.map .dataRow ++ [ending.message]) = 0
  rw [readies_append, readies_append, hprelude, readies_rows, readies_cons, isReadyForQuery_ending]
  rfl

theorem readies_failed {before : List BackendMessage} {err : PgError}
    (h : Suits i (.failed before err)) : readies (i.reply (.failed before err)) = 0 := by
  have hbefore : readies before = 0 := by
    unfold readies
    rw [countP_eq_zero]
    intro m hm hready
    rw [(h.before m hm).2] at hready
    cases hready
  show readies (before ++ [.errorResponse err]) = 0
  rw [readies_append, hbefore]
  rfl

theorem Suits.readies {o : Outcome} (h : Suits i o) :
    readies (i.reply o) = if i = .sync then 1 else 0 := by
  cases h with
  | prepared oids fields => cases fields <;> rfl
  | closed => rfl
  | rows => exact readies_executed _ _ _ _
  | noRows => exact readies_executed _ _ _ _
  | statement => exact readies_executed _ _ _ _
  | flushed => rfl
  | synced err txStatus => cases err <;> rfl
  | prepareFailed before oids err hb =>
    exact readies_failed (i := .request (.prepare _ _ _)) (.prepareFailed before oids err hb)
  | closeFailed err => rfl
  | queryFailed before err hr hb => exact readies_failed (.queryFailed before err hr hb)
  | statementFailed before err hb =>
    exact readies_failed (i := .request (.queryStatement _ _ _ _)) (.statementFailed before err hb)

theorem Serves.readies {skip skip' : Bool} {items : List Item} {outcomes : List Outcome}
    (h : Serves skip items outcomes skip') : Conn.readies
      (repliesOf items outcomes) = items.count .sync := by
  induction h with
  | nil => rfl
  | skipped hi _ ih =>
    rw [repliesOf_cons, readies_append, ih, count_cons_of_ne hi]
    exact Nat.zero_add _
  | @answered _ i o is _ _ _ ho _ ih =>
    rw [repliesOf_cons, readies_append, ih, ho.readies, count_cons, Nat.add_comm]
    simp only [beq_iff_eq]

theorem Carries.readies {c : PgConn} {ms : List BackendMessage} (h : Carries c.pending ms) :
    Conn.readies c.arrived = Conn.readies ms := by
  unfold PgConn.arrived
  generalize c.pending = l at h
  induction l generalizing ms with
  | nil =>
    cases ms with
    | nil => rfl
    | cons _ _ => cases h
  | cons i l ih =>
    cases hi : i.isNoise with
    | true =>
      obtain ⟨msg, rfl, hmsg⟩ := isNoise_message hi
      show Conn.readies (msg :: l.filterMap Incoming.message?) = _
      have hready : msg.isReadyForQuery = false := by
        cases msg <;> first | rfl | cases hmsg
      rw [readies_cons, hready, ih (h.noise hi)]
      rfl
    | false =>
      obtain ⟨m, ns, rfl, -, rfl, ht⟩ := h.head hi
      show Conn.readies (m :: l.filterMap Incoming.message?) = _
      rw [readies_cons, readies_cons, ih ht]

theorem readySeen_append (wire : List Event) (msgs : List BackendMessage) :
    readySeen (wire ++ msgs.map .received) = readySeen wire + readies msgs := by
  unfold readySeen
  rw [countP_append, countP_map]
  rfl

/-- What was received is what is no longer there to be read. -/
theorem Fed.readySeen {c d : PgConn} {ms ns : List BackendMessage} (h : Fed c d)
    (hc : Carries c.pending ms) (hd : Carries d.pending ns) :
    Conn.readySeen d.wire + readies ns = Conn.readySeen c.wire + readies ms := by
  obtain ⟨msgs, hw, ha⟩ := h.wire
  rw [hw, readySeen_append, ← hc.readies, ← hd.readies, ha, readies_append, Nat.add_assoc]

theorem Fed.sentAsks {c d : PgConn} (h : Fed c d) : Conn.sentAsks d.wire = Conn.sentAsks c.wire := by
  obtain ⟨msgs, hw, -⟩ := h.wire
  rw [hw]
  unfold Conn.sentAsks
  rw [countP_append, countP_map, Nat.add_eq_left, countP_eq_zero]
  exact nofun

/-! ## Reading -/

/-- Between `c` and `d` the driver has read from `ms` up to `ns`, and `k` of the messages were a
`ReadyForQuery` for which a `Sync` was waiting; `back` was put back into the queue of requests. -/
structure Ate (k : Nat) (back : List PipelineRequestEvent) (c d : PgConn)
    (ms ns : List BackendMessage) :
    Prop extends Fed c d where
  status : d.status = c.status
  pending : Carries d.pending ns
  used : ∃ used, ms = used ++ ns ∧ readies used = k
  pipelineClosed : d.pipeline.closed = c.pipeline.closed
  pipelineErr : d.pipeline.err = c.pipeline.err
  lastRequestType : d.pipeline.state.lastRequestType = c.pipeline.state.lastRequestType
  expected : d.pipeline.state.expectedReadyForQueryCount + k =
    c.pipeline.state.expectedReadyForQueryCount
  events : d.pipeline.state.requestEventQueue = back ++ c.pipeline.state.requestEventQueue

/-- Reading has closed the connection; the reader is closed too. -/
structure Lost (c d : PgConn) : Prop extends Shut c d where
  reader : d.resultReader.closed = true

/-- A reader of the pipeline is at the end of its result, or the stream goes on with the rest
of it. -/
structure Serving (rr : ResultReader) (ms : List BackendMessage) : Prop where
  pipeline : rr.pipeline = true
  place : (rr.commandConcluded = true ∧ ∀ e, rr.err = some e → ∃ err, e = .pgError err) ∨
    (rr.Live ∧ Concludes ms)

def Follows (rr : ResultReader) (ms : List BackendMessage) : Prop := rr.closed = true ∨ Serving rr ms

/-- The event that `getResultsSync` puts back. -/
def syncEvent : PipelineRequestEvent :=
  { requestType := .syncRequest, wasSentToServer := true, beforeFlushOrSync := true }

/-- What a call that fails leaves: an error of the server, or the end of the connection. It has
waited in vain only when no `ReadyForQuery` had arrived. -/
def Fault (req : PipelineRequestType) (c : PgConn) (ms : List BackendMessage) (e : Error)
    (d : PgConn) : Prop :=
  e.isPanic = false ∧
    ((e ≠ errUnexpectedEOF ∧ d.resultReader.closed = true ∧
        ∃ back ns, (back = [] ∨ (req = .syncRequest ∧ back = [syncEvent])) ∧ Ate 0 back c d ms ns) ∨
      (Lost c d ∧ (e = errUnexpectedEOF → readies ms = 0)))

/-- What a call that returns leaves, when these answers have not arrived yet. -/
def Gives (held : List BackendMessage) (c : PgConn) (ms : List BackendMessage) (d : PgConn) : Prop :=
  ∃ k ns, Ate k [] c d ms ns ∧ Follows d.resultReader (ns ++ held)

section Ate

variable {k j : Nat} {back : List PipelineRequestEvent} {c d e : PgConn} {m : BackendMessage}
  {ms ns ks : List BackendMessage}

theorem Ate.refl (h : Carries c.pending ms) : Ate 0 [] c c ms ms :=
  ⟨.refl c, rfl, h, ⟨[], rfl, rfl⟩, rfl, rfl, rfl, Int.add_zero _, rfl⟩

theorem Ate.trans (h : Ate k [] c d ms ns) (h' : Ate j back d e ns ks) :
    Ate (k + j) back c e ms ks := by
  obtain ⟨l, rfl, hl⟩ := h.used
  obtain ⟨l', rfl, hl'⟩ := h'.used
  have he := h.expected
  have he' := h'.expected
  refine ⟨h.toFed.trans h'.toFed, h'.status.trans h.status, h'.pending, ⟨l ++ l', ?_, ?_⟩,
    h'.pipelineClosed.trans h.pipelineClosed, h'.pipelineErr.trans h.pipelineErr,
    h'.lastRequestType.trans h.lastRequestType, ?_, ?_⟩
  · rw [append_assoc]
  · rw [readies_append, hl, hl']
  · push_cast
    omega
  · rw [h'.events, h.events]
    rfl

/-- Messages were read that no `Sync` was waiting for, and at most an error was noted. -/
theorem Ate.of_fed (hfed : Fed c d) (hs : d.status = c.status) (hc : Carries d.pending ns)
    (hused : ∃ used, ms = used ++ ns ∧ readies used = 0)
    (hq : ∃ pgErr, d.pipeline = { c.pipeline with state := { c.pipeline.state with pgErr } }) :
    Ate 0 [] c d ms ns := by
  obtain ⟨pgErr, hq⟩ := hq
  exact ⟨hfed, hs, hc,
    hused, by rw [hq], by rw [hq], by rw [hq], by rw [hq]; exact Int.add_zero _, by rw [hq]; rfl⟩

theorem readies_singleton (hm : m.isReadyForQuery = false) : readies [m] = 0 := by
  rw [readies_cons, hm]
  rfl

theorem Ate.took (h : Ate 0 [] c d ms (m :: ns)) (ht : Took d e ns) (hm : m.isReadyForQuery = false) :
    Ate 0 [] c e ms ns := 
  h.trans (.of_fed ht.toFed ht.status ht.pending ⟨[m], rfl, readies_singleton hm⟩ ⟨_, ht.pipeline⟩)

theorem Ate.of_eq (h : Ate k back c d ms ns) (hp : e.peer = d.peer) (hb : e.wbuf = d.wbuf)
    (hw : e.wire = d.wire) (hpend : e.pending = d.pending) (hs : e.status = d.status)
    (hq : e.pipeline.closed = d.pipeline.closed ∧ e.pipeline.err = d.pipeline.err ∧
      e.pipeline.state.lastRequestType = d.pipeline.state.lastRequestType ∧
      e.pipeline.state.expectedReadyForQueryCount = d.pipeline.state.expectedReadyForQueryCount ∧
      e.pipeline.state.requestEventQueue = d.pipeline.state.requestEventQueue) :
      Ate k back c e ms ns := by
  obtain ⟨hq1, hq2, hq3, hq4, hq5⟩ := hq
  have hfed : Fed d e := by
    refine .of_eq hp hb hw ?_ fun h => hs.trans h
    unfold PgConn.arrived
    rw [hpend]
  exact ⟨h.toFed.trans hfed, hs.trans h.status, hpend ▸ h.pending, h.used, hq1.trans h.pipelineClosed,
    hq2.trans h.pipelineErr, hq3.trans h.lastRequestType, hq4 ▸ h.expected, hq5.trans h.events⟩

theorem Ate.open (h : Ate k back c d ms ns) (hs : c.status ≠ .closed) : d.status ≠ .closed := by
  rw [h.status]
  exact hs

end Ate

namespace Pipeline

variable {env : Env} {req : PipelineRequestType} {c d : PgConn} {m : BackendMessage}
  {ms ns held : List BackendMessage} {err : PgError} {α : Type} {Q : α → PgConn → Prop}
  {E : Error → PgConn → Prop} {errStr : String}

/-- The next message is read, or the connection is closed. -/
theorem receive_bind {f : BackendMessage → Op α} (hs : c.status ≠ .closed) (h : Ate 0 [] c d ms ns)
    (hrr : d.resultReader.closed = true) (hok :
    ∀ m ks e, ns = m :: ks → Took d e ks → e.resultReader.closed = true →
      wp (f m) Q (Fault req c ms) e) : wp (receiveMessage env >>= f) Q (Fault req c ms) d := by
  obtain ⟨used, hms, hused⟩ := h.used
  rw [wp_bind]
  refine wp_receiveMessage_stream (h.open hs) h.pending ?_ ?_ ?_
  · exact fun m ks e hm _ he => hok m ks e hm he (by rw [he.resultReader, hrr])
  · intro m ks err e _ _ herr he
    refine ⟨herr.isPanic, .inr ⟨⟨⟨h.toFed.trans he.toFed, he.status⟩, ?_⟩, fun heq => ?_⟩⟩
    · rw [he.resultReader, hrr]
    · obtain ⟨pg, -, rfl⟩ := herr
      cases heq
  · intro e hns he
    refine ⟨rfl, .inr ⟨⟨⟨h.toFed.trans he.toFed, he.status⟩, ?_⟩, fun _ => ?_⟩⟩
    · rw [he.resultReader, hrr]
    · rw [hms, hns, append_nil, hused]

theorem handleErrorClosed_fault (h : Ate 0 [] c d ms ns) :
    wp (handleErrorClosed err : Op α) Q (Fault req c ms) d :=
  ⟨rfl, .inl ⟨nofun, rfl, [], ns, .inl rfl, h.of_eq rfl rfl rfl rfl rfl ⟨rfl, rfl, rfl, rfl, rfl⟩⟩⟩

theorem handleError_fault (h : Ate 0 [] c d ms ns) (hrr : d.resultReader.closed = true) :
    wp (handleError err : Op α) Q (Fault req c ms) d :=
  ⟨rfl, .inl ⟨nofun, hrr, [], ns, .inl rfl, h.of_eq rfl rfl rfl rfl rfl ⟨rfl, rfl, rfl, rfl, rfl⟩⟩⟩

theorem handleUnexpectedMessage_fault (hs : c.status ≠ .closed) (h : Fed c d)
    (hrr : d.resultReader.closed = true) :
    wp (handleUnexpectedMessage errStr m : Op α) Q (Fault req c ms) d :=
  ⟨rfl, .inr ⟨⟨⟨⟨h.peer, h.wbuf, h.wire, fun hc => absurd hc hs⟩, rfl⟩, hrr⟩, nofun⟩⟩

theorem startReader_gives {rr : ResultReader} (h : Ate 0 [] c d ms ns)
    (hrr : Follows rr (ns ++ held)) :
    wp (startReader rr) (fun _ => Gives held c ms) E d :=
  ⟨0, ns, h.of_eq rfl rfl rfl rfl rfl ⟨rfl, rfl, rfl, rfl, rfl⟩, hrr⟩

section Requests

variable (hs : c.status ≠ .closed)

include hs

section

variable (h : Ate 0 [] c d ms ns) (hrr : d.resultReader.closed = true)

include h hrr

theorem receiveParseComplete_ate : wp (receiveParseComplete env errStr)
      (fun _ e => e.resultReader.closed = true ∧ ∃ ks, Ate 0 [] c e ms ks) (Fault req c ms) d := by
  apply receive_bind hs h hrr
  rintro m ks e rfl he hre
  cases m with
  | parseComplete => exact ⟨hre, ks, h.took he rfl⟩
  | errorResponse err => exact handleError_fault (h.took he rfl) hre
  | _ => exact handleUnexpectedMessage_fault hs (h.toFed.trans he.toFed) hre

theorem receiveBindComplete_ate : wp (receiveBindComplete env errStr)
      (fun _ e => e.resultReader.closed = true ∧ ∃ ks, Ate 0 [] c e ms ks ∧
        .bindComplete :: ks <:+ ms)
      (Fault req c ms) d := by
  apply receive_bind hs h hrr
  rintro m ks e rfl he hre
  cases m with
  | bindComplete =>
    obtain ⟨used, hms, -⟩ := h.used
    exact ⟨hre, ks, h.took he rfl, used, hms.symm⟩
  | errorResponse err => exact handleError_fault (h.took he rfl) hre
  | _ => exact handleUnexpectedMessage_fault hs (h.toFed.trans he.toFed) hre

theorem receiveCommandComplete_gives :
    wp (receiveCommandComplete env errStr) (fun _ => Gives held c ms) (Fault req c ms) d := by
  apply receive_bind hs h hrr
  rintro m ks e rfl he hre
  cases m with
  | commandComplete tag => exact startReader_gives (h.took he rfl) (.inl rfl)
  | errorResponse err => exact handleErrorClosed_fault (h.took he rfl)
  | _ => exact handleUnexpectedMessage_fault hs (h.toFed.trans he.toFed) hre

end

omit hs in
theorem bound_next {ks : List BackendMessage} (hsound : Sound (ms ++ held))
    (hb : .bindComplete :: m :: ks <:+ ms) :
    m.isReadyForQuery = false ∧ (opensRows m = true → Concludes (ks ++ held)) := by
  obtain ⟨l, hl⟩ := hb
  refine hsound m (ks ++ held) ⟨l, ?_⟩
  rw [← hl, append_assoc]
  rfl

theorem receiveStatementDescription_gives (h : Ate 0 [] c d ms ns)
    (hrr : d.resultReader.closed = true) :
    wp (receiveStatementDescription env) (fun _ => Gives held c ms) (Fault req c ms) d := by
  apply receive_bind hs h hrr
  rintro m ks e rfl he hre
  cases m with
  | parameterDescription oids =>
    have hate := h.took he rfl
    apply receive_bind hs hate hre
    rintro m ls t rfl ht hrt
    cases m with
    | rowDescription fields => exact ⟨0, ls, hate.took ht rfl, .inl hrt⟩
    | noData => exact ⟨0, ls, hate.took ht rfl, .inl hrt⟩
    | errorResponse err => exact handleError_fault (hate.took ht rfl) hrt
    | _ => exact handleUnexpectedMessage_fault hs (hate.toFed.trans ht.toFed) hrt
  | errorResponse err => exact handleError_fault (h.took he rfl) hre
  | _ => exact handleUnexpectedMessage_fault hs (h.toFed.trans he.toFed) hre

theorem getResultsDeallocate_gives (h : Ate 0 [] c d ms ns) (hrr : d.resultReader.closed = true) :
    wp (getResultsDeallocate env) (fun _ => Gives held c ms) (Fault req c ms) d := by
  apply receive_bind hs h hrr
  rintro m ks e rfl he hre
  cases m with
  | closeComplete => exact ⟨0, ks, h.took he rfl, .inl hre⟩
  | errorResponse err => exact handleErrorClosed_fault (h.took he rfl)
  | _ => exact handleUnexpectedMessage_fault hs (h.toFed.trans he.toFed) hre

theorem startStatementResult_gives {fields : List FieldDescription} {ks : List BackendMessage}
    (h : Ate 0 [] c d ms ks) (hrr : d.resultReader.closed = true)
    (hm : opensRows m = true → Concludes (ks ++ held)) :
    wp (startStatementResult fields m) (fun _ => Gives held c ms) (Fault req c ms) d := by
  cases m with
  | dataRow values => exact startReader_gives h (.inr ⟨rfl, .inr ⟨⟨rfl, rfl, rfl⟩, hm rfl⟩⟩)
  | commandComplete tag => exact startReader_gives h (.inl rfl)
  | errorResponse err => exact handleErrorClosed_fault h
  | _ => exact handleUnexpectedMessage_fault hs h.toFed hrr

theorem getResultsQueryStatement_gives (hsound : Sound (ms ++ held)) (hc : Carries c.pending ms)
    (hrr : c.resultReader.closed = true) :
    wp (getResultsQueryStatement env) (fun _ => Gives held c ms) (Fault req c ms) c := by
  unfold getResultsQueryStatement
  rw [wp_bind]
  refine wp_weaken (receiveBindComplete_ate hs (.refl hc) hrr) fun _ d hd => ?_
  obtain ⟨hrd, ns, hd, hb⟩ := hd
  apply receive_bind hs hd hrd
  rintro m ks e rfl he hre
  obtain ⟨hready, hopens⟩ := bound_next hsound hb
  have hate : Ate 0 [] c (unqueued e) ms ks :=
    (hd.took he hready).of_eq rfl rfl rfl rfl rfl ⟨rfl, rfl, rfl, rfl, rfl⟩
  have hbug : ∀ text operands, Fault req c ms (.errorf text operands) (unqueued e) :=
    fun _ _ => ⟨rfl, .inl ⟨by simp [errUnexpectedEOF], hre, [], ks, .inl rfl, hate⟩⟩
  rw [wp_bind]
  unfold extractFrontStatementData
  rw [wp_bind, wp_get, wp_bind, modifyState, modifyPipeline, wp_modify, wp_pure]
  obtain ⟨front, formats⟩ := e.pipeline.state.extractFrontStatementData.1
  cases front with
  | none => exact ⟨rfl, .inl ⟨by simp [errUnexpectedEOF], hre, [], ks, .inl rfl, hate⟩⟩
  | some sd =>
    dsimp only
    cases hcomb : combineFieldDescriptionsAndResultFormats sd.fields formats with
    | error err =>
      have herr : ∃ text operands, err = .errorf text operands := by
        unfold combineFieldDescriptionsAndResultFormats at hcomb
        split at hcomb
        · cases hcomb
        · cases hcomb
        · split at hcomb
          · cases hcomb
          · injection hcomb with hcomb
            exact ⟨_, _, hcomb.symm⟩
      obtain ⟨text, operands, rfl⟩ := herr
      exact hbug text operands
    | ok fields => exact startStatementResult_gives hs hate hre hopens

theorem getResultsSync_gives (hc : Carries c.pending ms) (hrr : c.resultReader.closed = true) :
    wp (getResultsSync env) (fun _ => Gives held c ms) (Fault .syncRequest c ms) c := by
  apply receive_bind hs (.refl hc) hrr
  rintro m ks e rfl he hre
  have hq := he.pipeline
  cases m with
  | readyForQuery tx =>
    refine ⟨1, ks, ⟨⟨he.peer, he.wbuf, he.wire, he.closed⟩, he.status, he.pending, ⟨[_], rfl, rfl⟩,
      hq ▸ rfl, hq ▸ rfl, hq ▸ rfl, ?_, hq ▸ rfl⟩, .inl hre⟩
    rw [← hq]
    exact Int.sub_add_cancel _ 1
  | errorResponse err =>
    refine ⟨rfl, .inl ⟨nofun, rfl, [syncEvent], ks, .inr ⟨rfl, rfl⟩, ?_⟩⟩
    refine ⟨⟨he.peer, he.wbuf, he.wire, he.closed⟩, he.status, he.pending, ⟨[_], rfl, rfl⟩, hq ▸ rfl,
      hq ▸ rfl, hq ▸ rfl, ?_, hq ▸ rfl⟩
    rw [← hq]
    exact Int.add_zero _
  | _ => exact handleUnexpectedMessage_fault hs he.toFed hre

theorem bound_gives (hsound : Sound (ms ++ held)) (h : Ate 0 [] c d ms ns)
    (hrr : d.resultReader.closed = true) :
    wp (do receiveBindComplete env errStr; receiveDescribedResultReader env errStr)
      (fun _ => Gives held c ms) (Fault req c ms) d := by
  rw [wp_bind]
  refine wp_weaken (receiveBindComplete_ate hs h hrr) fun _ e he => ?_
  obtain ⟨hre, ks, he, hb⟩ := he
  apply receive_bind hs he hre
  rintro m ls f rfl hf hrf
  cases m with
  | rowDescription fields =>
    refine startReader_gives (he.took hf rfl) (.inr ⟨rfl, .inr ⟨⟨rfl, rfl, rfl⟩, ?_⟩⟩)
    exact (bound_next hsound hb).2 rfl
  | noData => exact receiveCommandComplete_gives hs (he.took hf rfl) hrf
  | errorResponse err => exact handleErrorClosed_fault (he.took hf rfl)
  | _ => exact handleUnexpectedMessage_fault hs (he.toFed.trans hf.toFed) hrf

/-- Whatever request is at the front of the queue and whatever has arrived. -/
theorem getResultsOf_gives (hsound : Sound (ms ++ held)) (hc : Carries c.pending ms)
    (hrr : c.resultReader.closed = true) : wp (getResultsOf env req) (fun _ => Gives held c ms)
      (Fault req c ms) c := by
  have hrefl : Ate 0 [] c c ms ms := Ate.refl hc
  cases req with
  | nil => exact ⟨0, ms, hrefl, .inl hrr⟩
  | flushRequest => exact ⟨rfl, .inl ⟨nofun, hrr, [], ms, .inl rfl, hrefl⟩⟩
  | prepare =>
    show wp (do receiveParseComplete env "Prepare"; receiveStatementDescription env) _ _ c
    rw [wp_bind]
    refine wp_weaken (receiveParseComplete_ate hs hrefl hrr) fun _ d hd => ?_
    obtain ⟨hrd, ns, hd⟩ := hd
    exact receiveStatementDescription_gives hs hd hrd
  | queryParams =>
    show wp (do receiveParseComplete env "QueryParams"; _) _ _ c
    rw [wp_bind]
    refine wp_weaken (receiveParseComplete_ate hs hrefl hrr) fun _ d hd => ?_
    obtain ⟨hrd, ns, hd⟩ := hd
    exact bound_gives hs hsound hd hrd
  | queryPrepared => exact bound_gives hs hsound hrefl hrr
  | queryStatement => exact getResultsQueryStatement_gives hs hsound hc hrr
  | deallocate => exact getResultsDeallocate_gives hs hrefl hrr
  | syncRequest => exact getResultsSync_gives hs hc hrr

end Requests

end Pipeline

/-! ## Readers -/

theorem Concludes.inv {m : BackendMessage} {ms : List BackendMessage} (h : Concludes (m :: ms)) :
    (∃ values, m = .dataRow values ∧ Concludes ms) ∨ ∃ ending : Ending, m = ending.message := by
  obtain ⟨rows, ending, rest, heq⟩ := h
  cases rows with
  | nil =>
    injection heq with h1
    exact .inr ⟨ending, h1⟩
  | cons values rows =>
    injection heq with h1 h2
    exact .inl ⟨values, h1, rows, ending, rest, h2⟩

namespace ResultReader

variable {env : Env} {c d : PgConn} {m : BackendMessage} {ms ns held : List BackendMessage}

theorem gave_ate (h : Gave c d m ns) (hm : m.isReadyForQuery = false) :
    Ate 0 [] c d (m :: ns) ns := by
  have hnoted : ∃ pgErr,
      c.noted m = { c.pipeline with state := { c.pipeline.state with pgErr } } := by
    unfold PgConn.noted
    split
    · split
      · exact ⟨_, rfl⟩
      · exact ⟨c.pipeline.state.pgErr, rfl⟩
    · exact ⟨c.pipeline.state.pgErr, rfl⟩
  exact .of_fed h.toFed h.status h.pending ⟨[m], rfl, readies_singleton hm⟩
    (hnoted.imp fun _ hq => h.pipeline.trans hq)

theorem note_pipeline (rr : ResultReader) (m : BackendMessage) :
    (rr.note m).pipeline = rr.pipeline ∧ (rr.note m).closed = rr.closed := by
  have hconclude : ∀ tag err, (rr.concludeCommand tag err).pipeline = rr.pipeline ∧
      (rr.concludeCommand tag err).closed = rr.closed := by
    intro tag err
    unfold concludeCommand
    dsimp only
    split <;> exact ⟨rfl, rfl⟩
  cases m with
  | commandComplete tag => exact hconclude tag none
  | emptyQueryResponse => exact hconclude [] none
  | errorResponse err => exact hconclude [] _
  | _ => exact ⟨rfl, rfl⟩

/-- Why reading failed, for a reader in its place. -/
structure Cause (ms : List BackendMessage) (d : PgConn) (e : Error) : Prop where
  isPanic : e.isPanic = false
  err : d.resultReader.err = some e
  starved : e = errUnexpectedEOF → readies ms = 0

/-- The reader receives a message that is its own, or belongs to no answer. -/
theorem receive_serving {Q : BackendMessage → PgConn → Prop} {E : Error → PgConn → Prop}
    (hs : c.status ≠ .closed) (h : Ate 0 [] c d ms ns) (hl : Live d.resultReader)
    (hp : d.resultReader.pipeline = true) (hcon : Concludes (ns ++ held))
    (hok : ∀ m e ks, Ate 0 [] c e ms ks → e.resultReader = d.resultReader.note m →
      Serving e.resultReader (ks ++ held) → Q m e)
    (hfail : ∀ err e, Lost c e → Cause ms e err → E err e) : wp (receiveMessage env) Q E d := by
  have hlost : ∀ err e, Broken d e err → (err = errUnexpectedEOF → readies ms = 0) →
      err.isPanic = false → Lost c e ∧ Cause ms e err := by
    intro err e he hstarved hpanic
    refine ⟨⟨⟨h.toFed.trans he.toFed, he.status⟩, by rw [he.resultReader]⟩, hpanic, ?_, hstarved⟩
    rw [he.resultReader]
    exact concludeCommand_err hl.err
  have halone : d.resultReader.multiResultReader ≠ true := by
    rw [hl.multiResultReader]
    exact nofun
  refine wp_receiveMessage_stream (h.open hs) (fun hm => absurd hm halone)
    (.inl hl.err) h.pending ?_ ?_ ?_ ?_
  · intro k e hk _ he
    refine hok k e ns ?_ (by rw [he.resultReader, note_of_isAsync hk]) ?_
    · exact h.trans (.of_fed he.toFed he.status he.pending ⟨[], rfl, rfl⟩ ⟨_, he.pipeline⟩)
    · rw [he.resultReader]
      exact ⟨hp, .inr ⟨hl, hcon⟩⟩
  · intro m ks e hm _ he
    subst hm
    have hpipe : e.resultReader.pipeline = true := by
      rw [he.resultReader, (note_pipeline _ _).1, hp]
    rcases Concludes.inv hcon with ⟨values, rfl, hrest⟩ | ⟨ending, rfl⟩
    · refine hok _ e ks (h.trans (gave_ate he rfl)) he.resultReader ⟨hpipe, .inr ⟨?_, hrest⟩⟩
      rw [he.resultReader]
      exact hl
    · refine hok _ e ks (h.trans (gave_ate he (isReadyForQuery_ending ending))) he.resultReader
        ⟨hpipe, .inl ?_⟩
      rw [he.resultReader, hl.unfinished.note_ending]
      refine ⟨rfl, fun err herr => ?_⟩
      cases ending with
      | failed pg => exact ⟨pg, (Option.some.inj herr).symm⟩
      | _ => cases herr
  · intro m ks err e hm _ herr he
    obtain ⟨hl, hc⟩ :=
      hlost err e he (fun heq => by obtain ⟨pg, -, rfl⟩ := herr; cases heq) herr.isPanic
    exact hfail err e hl hc
  · intro e hns he
    obtain ⟨used, hms, hused⟩ := h.used
    obtain ⟨hl, hc⟩ := hlost _ e he (fun _ => by rw [hms, hns, append_nil, hused]) rfl
    exact hfail _ e hl hc

theorem Serving.live {rr : ResultReader} (h : Serving rr ms) (hc : rr.commandConcluded = false) :
    rr.Live ∧ Concludes ms := by
  rcases h.place with ⟨hdone, -⟩ | hl
  · rw [hc] at hdone
    cases hdone
  · exact hl

theorem commandConcluded_of_none {β : Type} {b : β} (h : concluded b d = none) :
    d.resultReader.commandConcluded = false := by
  unfold concluded at h
  cases hc : d.resultReader.commandConcluded with
  | false => rfl
  | true =>
    rw [hc] at h
    cases h

section

variable (hs : c.status ≠ .closed) (hc : Carries c.pending ms)
    (h : Serving c.resultReader (ms ++ held))

include hs hc h

theorem nextRow_serving : wp (nextRow env)
      (fun _ d => (∃ ns, Ate 0 [] c d ms ns ∧ Serving d.resultReader (ns ++ held)) ∨
        Lost c d) never c := by
  have hrow : ∀ {rr : ResultReader} {ks : List BackendMessage} {rr' : ResultReader}, Serving rr ks →
      rr'.pipeline = rr.pipeline → rr'.multiResultReader = rr.multiResultReader →
      rr'.commandConcluded = rr.commandConcluded → rr'.err = rr.err → Serving rr' ks := by
    intro rr ks rr' hr h1 h2 h3 h4
    refine ⟨h1.trans hr.pipeline, ?_⟩
    rw [h3, h4]
    refine hr.place.imp_right fun hl => ⟨⟨?_, ?_, ?_⟩, hl.2⟩
    · rw [h2, hl.1.multiResultReader]
    · rw [h3, hl.1.commandConcluded]
    · rw [h4, hl.1.err]
  unfold nextRow
  rw [wp_bind, wp_get]
  split
  · exact .inl ⟨ms, (Ate.refl hc).of_eq rfl rfl rfl rfl rfl ⟨rfl, rfl, rfl, rfl, rfl⟩,
      hrow h rfl rfl rfl rfl⟩
  · apply wp_readLoop (I := fun _ d => ∃ ns, Ate 0 [] c d ms ns ∧ Serving d.resultReader (ns ++ held))
    · exact fun _ d b hd _ => .inl hd
    · intro _ d hd hdone
      obtain ⟨ns, hate, hserve⟩ := hd
      obtain ⟨hl, hcon⟩ := Serving.live hserve (commandConcluded_of_none hdone)
      refine receive_serving hs hate hl hserve.pipeline hcon ?_ ?_
      · intro m e ks he _ hse
        cases m with
        | dataRow values =>
          exact .inl ⟨ks, he.of_eq rfl rfl rfl rfl rfl ⟨rfl, rfl, rfl, rfl, rfl⟩,
            hrow hse rfl rfl rfl rfl⟩
        | _ => exact ⟨ks, he, hse⟩
      · intro err e he hcause
        rw [if_neg (by simp [hcause.isPanic])]
        exact .inr he
    · exact ⟨ms, .refl hc, h⟩

theorem concludeLoop_serving (hclosed : c.resultReader.closed = true) : wp ((concludeLoop env).run ())
      (fun ok d => (ok = true ∧ d.resultReader.closed = true ∧ d.resultReader.pipeline = true ∧
          (∀ e, d.resultReader.err = some e → ∃ err, e = .pgError err) ∧ ∃ ns, Ate 0 [] c d ms ns) ∨
        (ok = false ∧ Lost c d ∧ ∃ e, Cause ms d e)) never c := by
  apply wp_readLoop (I := fun _ d => d.resultReader.closed = true ∧
    ∃ ns, Ate 0 [] c d ms ns ∧ Serving d.resultReader (ns ++ held))
  · intro _ d b hd hdone
    obtain ⟨hcd, ns, hate, hserve⟩ := hd
    have hconcluded : d.resultReader.commandConcluded = true := by
      unfold concluded at hdone
      split at hdone
      · assumption
      · cases hdone
    rw [concluded_some hconcluded] at hdone
    refine .inl ⟨(Option.some.inj hdone).symm, hcd, hserve.pipeline, ?_, ns, hate⟩
    rcases hserve.place with ⟨-, herr⟩ | ⟨hl, -⟩
    · exact herr
    · rw [hl.commandConcluded] at hconcluded
      cases hconcluded
  · intro _ d hd hdone
    obtain ⟨hcd, ns, hate, hserve⟩ := hd
    obtain ⟨hl, hcon⟩ := Serving.live hserve (commandConcluded_of_none hdone)
    refine receive_serving hs hate hl hserve.pipeline hcon ?_ ?_
    · exact fun m e ks he hre hse => ⟨by rw [hre, (note_pipeline _ _).2, hcd], ks, he, hse⟩
    · intro err e he hcause
      rw [if_neg (by simp [hcause.isPanic])]
      exact .inr ⟨rfl, he, err, hcause⟩
  · exact ⟨hclosed, ms, .refl hc, h⟩

theorem close_serving (hopen : c.resultReader.closed = false) : wp (close env)
      (fun r d => (d.resultReader.closed = true ∧ (∀ e, r.2 = some e → ∃ err, e = .pgError err) ∧
          ∃ ns, Ate 0 [] c d ms ns) ∨ (Lost c d ∧ ∃ e, r.2 = some e ∧ Cause ms d e)) never c := by
  unfold close
  rw [wp_bind, wp_get, if_neg (by simp [hopen]), wp_bind, modifyReader, wp_modify, wp_bind]
  have hserve : Serving { c.resultReader with closed := true } (ms ++ held) :=
    ⟨h.pipeline, h.place.imp_right fun hl =>
      ⟨⟨hl.1.multiResultReader, hl.1.commandConcluded, hl.1.err⟩, hl.2⟩⟩
  have hfirst : Ate 0 [] c { c with resultReader := { c.resultReader with closed := true } } ms ms :=
    (Ate.refl hc).of_eq rfl rfl rfl rfl rfl ⟨rfl, rfl, rfl, rfl, rfl⟩
  refine wp_weaken (concludeLoop_serving
    (c := { c with resultReader := { c.resultReader with closed := true } }) hs hc hserve rfl)
      fun ok d hd => ?_
  rw [wp_bind, wp_get]
  rcases hd with ⟨rfl, hcd, hpipe, herr, ns, hate⟩ | ⟨rfl, hlost, e, hcause⟩
  · simp only [hpipe, Bool.or_true, Bool.not_true, if_true]
    exact .inl ⟨hcd, herr, ns, hfirst.trans hate⟩
  · exact .inr ⟨⟨⟨hfirst.toFed.trans hlost.toFed, hlost.status⟩, hlost.reader⟩, e, hcause.err, hcause⟩

end

end ResultReader

theorem Pipeline.closeReader_ate {env : Env} {c : PgConn} {ms held : List BackendMessage}
    (hs : c.status ≠ .closed) (hc : Carries c.pending ms) (h : Follows c.resultReader (ms ++ held)) :
    wp (closeReader env) (fun _ d => d.resultReader.closed = true ∧ ∃ ns, Ate 0 [] c d ms ns)
      (Fault .nil c ms) c := by
  unfold closeReader
  rw [wp_bind, wp_get]
  cases hrr : c.resultReader.closed with
  | true => exact ⟨hrr, ms, .refl hc⟩
  | false =>
    have hserve : Serving c.resultReader (ms ++ held) := h.resolve_left (by simp [hrr])
    rw [if_neg nofun, wp_bind]
    refine wp_total (ResultReader.close_serving hs hc hserve hrr) fun r d hd => ?_
    obtain ⟨tag, err⟩ := r
    rcases hd with ⟨hcd, herr, ns, hate⟩ | ⟨hlost, e, rfl, hcause⟩
    · cases err with
      | none => exact ⟨hcd, ns, hate⟩
      | some e =>
        obtain ⟨pg, rfl⟩ := herr e rfl
        exact ⟨rfl, .inl ⟨nofun, hcd, [], ns, .inl rfl, hate⟩⟩
    · exact ⟨hcause.isPanic, .inr ⟨hlost, hcause.starved⟩⟩

end Pgx.Conn
