import Pgx.Conn.Operations
import Pgx.Copy.Source

/-!
# CopyFrom

The goroutine that encodes the rows, the pipe and `PgConn.CopyFrom` put together. The sender maps
the error that ends its reading to the last message of the copy, and takes `io.EOF` for the end of
the data; the goroutine hands on any error of the source as it is, `io.EOF` among them.
-/
namespace Pgx.Copy

open Pgx.Go Pgx.Wire Pgx.Effect Pgx.Conn List CopyFrom

/-! ## What an operation puts on the wire -/

/-- From a state with an empty write buffer, `x` adds events of which `Q` holds if it returns and
`E` if it fails. -/
def Emits {α : Type} (x : Op α) (Q : α → List Event → Prop) (E : List Event → Prop) : Prop :=
  ∀ c : PgConn, c.wbuf = [] →
    wp x (fun a d => d.wbuf = [] ∧ ∃ es, d.wire = c.wire ++ es ∧ Q a es)
      (fun _ d => ∃ es, d.wire = c.wire ++ es ∧ E es) c

namespace Emits

variable {α β : Type} {x : Op α} {Q Q' : α → List Event → Prop} {E E' : List Event → Prop}

theorem mono (h : Emits x Q E) (hQ : ∀ a es, Q a es → Q' a es) (hE : ∀ es, E es → E' es) :
    Emits x Q' E' := by
  intro c hc
  refine wp_mono (h c hc) ?_ ?_
  · intro a d ⟨hb, es, hw, hq⟩
    exact ⟨hb, es, hw, hQ a es hq⟩
  · intro _ d ⟨es, hw, he⟩
    exact ⟨es, hw, hE es he⟩

theorem pure {a : α} (h : Q a []) : Emits (pure a) Q E := by
  intro c hc
  exact ⟨hc, [], by simp, h⟩

theorem bind {f : α → Op β} {R : β → List Event → Prop} {F : List Event → Prop} (h : Emits x Q E)
    (hE : ∀ es, E es → F es) (hf : ∀ a es, Q a es →
      Emits (f a) (fun b fs => R b (es ++ fs)) (fun fs => F (es ++ fs))) :
    Emits (x >>= f) R F := by
  intro c hc
  rw [wp_bind]
  refine wp_mono (h c hc) ?_ ?_
  · intro a d ⟨hb, es, hw, hq⟩
    refine wp_mono (hf a es hq d hb) ?_ ?_
    · intro b e ⟨hb', fs, hw', hr⟩
      exact ⟨hb', es ++ fs, by rw [hw', hw, append_assoc], hr⟩
    · intro _ e ⟨fs, hw', hr⟩
      exact ⟨es ++ fs, by rw [hw', hw, append_assoc], hr⟩
  · intro _ d ⟨es, hw, he⟩
    exact ⟨es, hw, hE es he⟩

end Emits

variable {E : List Event → Prop}

theorem Emits.of_talks {α : Type} {x : Op α} {Q : α → List Event → Prop} (h : ∀ w, Talks w x Q E) :
    Emits x Q E := by
  intro c hc
  refine wp_mono (h c.wire c hc rfl) ?_ ?_
  · intro a d ⟨es, hr, hq⟩
    exact ⟨hr.wbuf, es, hr.wire, hq⟩
  · intro _ d ⟨es, hb, he⟩
    exact ⟨es, hb.wire, he⟩

/-- `J` holds of the local value and the events so far at the start of every round. -/
theorem Emits.loop {ι β : Type} {L : Loop PgConn Error ι β} {J : ι → List Event → Prop}
    {R : β → List Event → Prop} {F : List Event → Prop} (hbody : ∀ i es, J i es → Emits (L.body i)
      (fun r fs => r.elim (fun j => J j (es ++ fs)) (fun b => R b (es ++ fs)))
        (fun fs => F (es ++ fs)))
    {i : ι} (hi : J i []) : Emits (L.run i) R F := by
  intro c hc
  refine L.wp_run (I := fun j d => d.wbuf = [] ∧ ∃ es, d.wire = c.wire ++ es ∧ J j es) ?_
    ⟨hc, [], by simp, hi⟩
  intro j d ⟨hd, es, hw, hj⟩
  refine wp_mono (hbody j es hj d hd) ?_ ?_
  · intro r e ⟨hb, fs, hw', hq⟩
    cases r with
    | inl k => exact ⟨hb, es ++ fs, by rw [hw', hw, append_assoc], hq⟩
    | inr b => exact ⟨hb, es ++ fs, by rw [hw', hw, append_assoc], hq⟩
  · intro _ e ⟨fs, hw', hf⟩
    exact ⟨es ++ fs, by rw [hw', hw, append_assoc], hf⟩

/-- Messages are sent, also when the write reports an error. -/
theorem sendAll_emits (env : Env) (msgs : List FrontendMessage) :
    Emits (do sendAll msgs; flushOrClose env) (fun _ es => es = msgs.map .sent)
      (fun es => es = msgs.map .sent) := by
  intro c hc
  rw [wp_bind, sendAll, wp_modify, flushOrClose, wp_bind]
  apply wp_attempt
  rw [Conn.flush, wp_bind, wp_get]
  rw [hc, nil_append]
  cases msgs with
  | nil => exact ⟨rfl, [], by simp, rfl⟩
  | cons m ms =>
    rw [wp_bind, writeBuffer, wp_bind, wp_get]
    cases env.write c.wire (m :: ms) with
    | some text => exact ⟨⟨_, rfl, rfl⟩, _, rfl, rfl⟩
    | none => exact ⟨rfl, _, rfl, rfl⟩

/-- The caller goes on with the value, or fails with what it does about the error. -/
theorem Emits.outcome_bind {α β : Type} {x : Op α} {f : Except Error α → Op β}
    {Q : α → List Event → Prop}
    {R : β → List Event → Prop} {F : List Event → Prop} (h : Emits x Q E)
    (hE : ∀ es, E es → F es)
    (hok : ∀ a es, Q a es → Emits (f (.ok a)) (fun b fs => R b (es ++ fs)) (fun fs => F (es ++ fs)))
    (herr : ∀ e c, wp (f (.error e)) never (fun _ d => d.wire = c.wire) c) :
    Emits (Conn.outcome x >>= f) R F := by
  intro c hc
  rw [wp_bind]
  refine wp_attempt (wp_mono (h c hc) ?_ ?_)
  · intro a d ⟨hb, es, hw, hq⟩
    refine wp_mono (hok a es hq d hb) ?_ ?_
    · intro b e ⟨hb', fs, hw', hr⟩
      exact ⟨hb', es ++ fs, by rw [hw', hw, append_assoc], hr⟩
    · intro _ e ⟨fs, hw', hr⟩
      exact ⟨es ++ fs, by rw [hw', hw, append_assoc], hr⟩
  · intro e d ⟨es, hw, he⟩
    refine ⟨⟨es, hw, hE es he⟩, wp_mono (herr e d) (fun _ _ h => h.elim) ?_⟩
    intro _ d' hd'
    exact ⟨es, by rw [hd', hw], hE es he⟩

theorem closeAndThrow_wire {α : Type} (e : Error) (c : PgConn) :
    wp (closeAndThrow e : Op α) never (fun _ d => d.wire = c.wire) c := rfl

theorem unlock_wire (c : PgConn) :
    wp unlock (fun _ d => d.wire = c.wire ∧ d.wbuf = c.wbuf) (fun _ d => d.wire = c.wire) c := by
  rw [unlock, wp_bind, wp_get]
  cases c.status with
  | busy => exact ⟨rfl, rfl⟩
  | closed => exact ⟨rfl, rfl⟩
  | _ => exact rfl

theorem deferUnlock_emits {α : Type} {x : Op α} {Q : α → List Event → Prop}
    (h : Emits x Q E) (hQ : ∀ a es, Q a es → E es) : Emits (deferUnlock x) Q E := by
  refine .outcome_bind (R := Q) (F := E) h (fun _ he => he) ?_ ?_
  · intro a es hq c hc
    rw [wp_bind]
    refine wp_mono (unlock_wire c) ?_ ?_
    · intro _ d ⟨hw, hb⟩
      exact ⟨hb.trans hc, [], by rw [hw, append_nil], by simpa using hq⟩
    · intro _ d hw
      exact ⟨[], by rw [hw, append_nil], by simpa using hQ a es hq⟩
  · intro e c
    rw [wp_bind]
    exact wp_mono (unlock_wire c) (fun _ _ hd => hd.1) fun _ _ hd => hd

theorem lock_emits : Emits lock (fun _ es => es = []) (fun es => es = []) := by
  intro c hc
  rw [lock, wp_bind, wp_get]
  cases c.status with
  | idle => exact ⟨hc, [], by simp, rfl⟩
  | connecting => exact ⟨hc, [], by simp, rfl⟩
  | _ => exact ⟨[], by simp, rfl⟩

/-! ## The events of a copy -/

def endsCopy : Event → Bool
  | .sent .copyDone => true
  | .sent (.copyFail _) => true
  | _ => false

/-- The bytes of the `CopyData` messages. -/
def copied : List Event → Bytes
  | [] => []
  | .sent (.copyData data) :: es => data ++ copied es
  | _ :: es => copied es

theorem copied_append (es fs : List Event) : copied (es ++ fs) = copied es ++ copied fs := by
  induction es with
  | nil => rfl
  | cons e es ih =>
    cases e with
    | received m => exact ih
    | sent m =>
      cases m with
      | copyData data => simp [copied, ih]
      | _ => exact ih

def Quiet (es : List Event) : Prop := ∀ e ∈ es, endsCopy e = false

theorem Quiet.append {es fs : List Event} (h : Quiet es) (h' : Quiet fs) : Quiet (es ++ fs) :=
  fun e he => (mem_append.mp he).elim (h e) (h' e)

/-- An error of the server has been read before the copy was ended. -/
def ServerErrorFirst (es : List Event) : Prop :=
  ∃ err, .received (.errorResponse err) ∈ es.takeWhile fun e => !endsCopy e

def stepData : List CopyStep → List Bytes
  | [] => []
  | .chunk data :: steps => data :: stepData steps
  | .message :: steps => stepData steps

/-- What the loop has done when it leaves with the server's error or without one. -/
structure Sent (data : Bytes) (pgErr : Option PgError) (es : List Event) : Prop where
  quiet : Quiet es
  all : pgErr = none → (∀ err, .received (.errorResponse err) ∉ es) ∧ copied es = data
  err : ∀ err, pgErr = some err → .received (.errorResponse err) ∈ es

theorem copyData_emits (env : Env) (steps : List CopyStep) :
    Emits (copyData env steps) (fun pgErr es => Sent (stepData steps).flatten pgErr es) Quiet := by
  induction steps with
  | nil =>
    refine .pure ⟨?_, ?_, ?_⟩
    · intro e he
      cases he
    · exact fun _ => ⟨by simp, rfl⟩
    · intro err h
      cases h
  | cons step steps ih =>
    cases step with
    | chunk data =>
      have hone : Quiet [.sent (.copyData data)] := by
        intro e he
        obtain rfl := mem_singleton.mp he
        rfl
      refine .bind (sendAll_emits env [.copyData data]) (fun es he => he ▸ hone) ?_
      rintro _ es rfl
      refine ih.mono ?_ fun fs hf => hone.append hf
      intro pgErr fs hs
      refine ⟨hone.append hs.quiet, fun hn => ⟨?_, ?_⟩, fun err he =>
        mem_append_right _ (hs.err err he)⟩
      · intro err hmem
        rcases mem_append.mp hmem with h | h
        · cases mem_singleton.mp h
        · exact (hs.all hn).1 err h
      · rw [copied_append, (hs.all hn).2]
        simp [copied, stepData]
    | message =>
      have hquiet : ∀ m, Quiet [.received m] := by
        intro m e he
        obtain rfl := mem_singleton.mp he
        rfl
      refine .outcome_bind (.of_talks fun _ => receiveMessage_talks env) ?_ ?_ fun e c =>
        closeAndThrow_wire e c
      · rintro es (rfl | ⟨err, rfl⟩)
        · intro e he
          cases he
        · exact hquiet _
      · rintro msg es rfl
        cases msg with
        | errorResponse err =>
          refine .pure ⟨?_, nofun, fun err' h => ?_⟩
          · exact (hquiet _).append nofun
          · cases h
            simp
        | _ =>
          refine ih.mono ?_ fun fs hf => (hquiet _).append hf
          intro pgErr fs hs
          refine ⟨(hquiet _).append hs.quiet, fun hn => ⟨?_, (hs.all hn).2⟩,
            fun err he => mem_append_right _ (hs.err err he)⟩
          intro err hmem
          rcases mem_append.mp hmem with h | h
          · cases mem_singleton.mp h
          · exact (hs.all hn).1 err h

/-- The result is read: the messages up to `ReadyForQuery`, of which an error is remembered. -/
theorem copyFromLoop_emits (env : Env) (start : Copied) :
    Emits ((copyFromLoop env).run start)
      (fun a es => (∀ e ∈ es, ∃ m, e = .received m) ∧
        (start.pgErr.isSome = true ∨ (∃ err, .received (.errorResponse err) ∈ es) →
          a.pgErr.isSome = true))
      (fun es => ∀ e ∈ es, ∃ m, e = .received m) := by
  -- The local value has an error as soon as one was read.
  refine .loop (J := fun s es => (∀ e ∈ es, ∃ m, e = .received m) ∧
    (start.pgErr.isSome = true ∨ (∃ err, .received (.errorResponse err) ∈ es) →
      s.pgErr.isSome = true)) ?_
    ⟨by simp, by simp⟩
  intro s es ⟨hall, herr⟩
  have hone : ∀ m, ∀ e ∈ es ++ [.received m], ∃ m, e = .received m := by
    intro m e he
    rcases mem_append.mp he with he | he
    · exact hall e he
    · exact ⟨m, mem_singleton.mp he⟩
  show Emits (readRound (receiveMessage env) (fun _ => none) closeAndThrow
    (fun s msg => .pure (copyFromStep s msg)) s) _ _
  intro c hc
  refine Emits.outcome_bind (Emits.of_talks fun _ => receiveMessage_talks env) ?_ ?_ ?_ c hc
  · rintro fs (rfl | ⟨err, rfl⟩)
    · simpa using hall
    · exact hone _
  · rintro msg fs rfl
    refine .pure ?_
    have hkeep : (∀ err, msg ≠ .errorResponse err) →
        (start.pgErr.isSome = true ∨ (∃ err, .received (.errorResponse err) ∈ es ++ [.received msg]) →
          s.pgErr.isSome = true) := by
      rintro hne (h | ⟨err, h⟩)
      · exact herr (.inl h)
      · rcases mem_append.mp h with h | h
        · exact herr (.inr ⟨err, h⟩)
        · cases mem_singleton.mp h
          exact absurd rfl (hne err)
    cases msg with
    | errorResponse err => exact ⟨hone _, fun _ => rfl⟩
    | readyForQuery tx => exact ⟨hone _, hkeep (by simp)⟩
    | commandComplete tag => exact ⟨hone _, hkeep (by simp)⟩
    | _ => exact ⟨hone _, hkeep (by simp)⟩
  · intro e d
    exact closeAndThrow_wire e d

structure Ended (r : CopySource) (pgErr : Option PgError) (pre post es : List Event) : Prop where
  events : es = pre ++ .sent (copyEnd r pgErr) :: post
  sent : Sent (stepData r.steps).flatten pgErr pre
  post : ∀ e ∈ post, ∃ m, e = .received m

theorem copyBody_emits (env : Env) (r : CopySource) (sql : Bytes) :
    Emits (do
        sendAll [.query sql]
        flushOrClose env
        let pgErr ← copyData env r.steps
        sendLate env r pgErr
        finishCopy env r pgErr)
      (fun a es => ∃ pgErr pre post, Ended r pgErr pre post es ∧
        ((∃ err, .received (.errorResponse err) ∈ post) → a.pgErr.isSome = true))
      (fun es => Quiet es ∨ ∃ pgErr pre post, Ended r pgErr pre post es) := by
  have hquery : Quiet [.sent (.query sql)] := by
    intro e he
    obtain rfl := mem_singleton.mp he
    rfl
  have hlate : ∀ data, Quiet [.sent (.copyData data)] := by
    intro data e he
    obtain rfl := mem_singleton.mp he
    rfl
  have hstart := sendAll_emits env [.query sql]
  rw [← bind_assoc]
  refine .bind hstart (fun es he => .inl (he ▸ hquery)) ?_
  rintro _ es0 rfl
  refine .bind (copyData_emits env r.steps) (fun es he => .inl (hquery.append he)) ?_
  intro pgErr es1 hs
  -- What is sent late does not matter: the server has reported an error.
  have hpre : ∀ es2, (pgErr = none → es2 = []) → Quiet es2 →
      Sent (stepData r.steps).flatten pgErr ([.sent (.query sql)] ++ (es1 ++ es2)) := by
    intro es2 hnone hq
    refine ⟨hquery.append (hs.quiet.append hq), fun hn => ?_, fun err he => ?_⟩
    · rw [hnone hn, append_nil]
      refine ⟨fun err h => ?_, (hs.all hn).2⟩
      rcases mem_append.mp h with h | h
      · cases mem_singleton.mp h
      · exact (hs.all hn).1 err h
    · exact mem_append_right _ (mem_append_left _ (hs.err err he))
  have hsendLate : Emits (sendLate env r pgErr)
      (fun _ es2 => (pgErr = none → es2 = []) ∧ Quiet es2) Quiet := by
    unfold sendLate
    cases pgErr with
    | none => exact .pure ⟨fun _ => rfl, nofun⟩
    | some err =>
      cases r.late with
      | none => exact .pure ⟨fun _ => rfl, nofun⟩
      | some data =>
        refine (sendAll_emits env [.copyData data]).mono ?_ ?_
        · rintro _ es rfl
          exact ⟨nofun, hlate data⟩
        · rintro es rfl
          exact hlate data
  refine .bind hsendLate (fun es2 hq => .inl (hquery.append (hs.quiet.append hq))) ?_
  intro _ es2 ⟨hnone, hq⟩
  have hfinish : Emits (finishCopy env r pgErr)
      (fun a fs => ∃ post, fs = .sent (copyEnd r pgErr) :: post ∧ (∀ e ∈ post, ∃ m, e = .received m) ∧
        ((∃ err, .received (.errorResponse err) ∈ post) → a.pgErr.isSome = true))
      (fun fs => ∃ post, fs = .sent (copyEnd r pgErr) :: post ∧
        ∀ e ∈ post, ∃ m, e = .received m) := by
    rw [finishCopy, ← bind_assoc]
    refine .bind (sendAll_emits env [copyEnd r pgErr]) (fun es he => ⟨[], he, by simp⟩) ?_
    rintro _ es rfl
    refine (copyFromLoop_emits env _).mono ?_ ?_
    · intro a post ⟨hall, herr⟩
      exact ⟨post, rfl, hall, fun h => herr (.inr h)⟩
    · intro post hall
      exact ⟨post, rfl, hall⟩
  refine hfinish.mono ?_ ?_
  · rintro a _ ⟨post, rfl, hall, herr⟩
    exact ⟨pgErr, _, post, ⟨by simp, hpre es2 hnone hq, hall⟩, herr⟩
  · rintro _ ⟨post, rfl, hall⟩
    exact .inr ⟨pgErr, _, post, ⟨by simp, hpre es2 hnone hq, hall⟩⟩

theorem copyFrom_emits (env : Env) (r : CopySource) (sql : Bytes) :
    Emits (Conn.copyFrom env r sql)
      (fun a es => ∃ pgErr pre post, Ended r pgErr pre post es ∧
        ((∃ err, .received (.errorResponse err) ∈ post) → a.pgErr.isSome = true))
      (fun es => Quiet es ∨ ∃ pgErr pre post, Ended r pgErr pre post es) := by
  refine .bind lock_emits ?_ ?_
  · rintro es rfl
    exact .inl nofun
  · rintro _ es rfl
    refine deferUnlock_emits (copyBody_emits env r sql) ?_
    rintro a es ⟨pgErr, pre, post, h, _⟩
    exact .inr ⟨pgErr, pre, post, h⟩

/-- A schedule in which the sender reads what the goroutine has written to the pipe. -/
structure Realises {A : Type} (ct : CopyFrom A) (s : Source A) (r : CopySource) : Prop where
  steps : stepData r.steps = pipeReads (ct.producer s).writes
  /-- A pipe that was closed without an error is read to `io.EOF`, and so is one that was closed
  with it. -/
  readErr : r.readErr = (ct.producer s).closed.bind fun e => if e = ioEOF then none else some e

section

variable {A : Type} {ct : CopyFrom A} {s : Source A} {r : CopySource} (hr : Realises ct s r)

include hr

theorem Realises.readErr_of_fails (hf : ct.Fails s) (hne : ∀ e ∈ ct.reported s, e ≠ ioEOF) :
    ∃ e, r.readErr = some e := by
  obtain ⟨e, he⟩ := ct.produce_fails CopyFrom.header hf
  refine ⟨e, ?_⟩
  rw [hr.readErr, producer, he]
  exact if_neg (hne e (ct.produce_reported _ he))

theorem Realises.readErr_of_eof (heof : ∀ e ∈ ct.reported s, e = ioEOF) : r.readErr = none := by
  rw [hr.readErr]
  cases he : (ct.producer s).closed with
  | none => rfl
  | some e => exact if_pos (heof e (ct.produce_reported _ he))

end

/-- A server that is sent `CopyFail` reports an error before it is ready again. -/
def FailAnswered (es : List Event) : Prop :=
  ∀ pre e post, es = pre ++ .sent (.copyFail e) :: post → ∃ err, .received (.errorResponse err) ∈ post

/-- The copy was ended by `CopyFail` and not by `CopyDone`, and an error is returned. -/
structure Aborted (a : Copied) (es : List Event) : Prop where
  failed : ∃ e, .sent (.copyFail e) ∈ es
  notDone : .sent .copyDone ∉ es
  returned : FailAnswered es → a.pgErr.isSome = true

theorem copyEnd_of_readErr {r : CopySource} {e : Error} (h : r.readErr = some e) :
    copyEnd r none = .copyFail e := by
  simp [copyEnd, h]

namespace Ended

variable {r : CopySource} {pgErr : Option PgError} {pre post es : List Event}

section

variable (h : Ended r pgErr pre post es)

include h

/-- A message that ends the copy is the one that was sent for it. -/
theorem eq_of_mem {m : FrontendMessage} (hm : .sent m ∈ es)
    (hends : endsCopy (.sent m) = true) : m = copyEnd r pgErr := by
  rw [h.events] at hm
  rcases mem_append.mp hm with hm | hm
  · rw [h.sent.quiet _ hm] at hends
    cases hends
  · rcases mem_cons.mp hm with hm | hm
    · cases hm
      rfl
    · obtain ⟨k, hk⟩ := h.post _ hm
      cases hk

theorem end_mem : .sent (copyEnd r pgErr) ∈ es := by
  rw [h.events]
  simp

theorem takeWhile_eq : es.takeWhile (fun e => !endsCopy e) = pre := by
  rw [h.events, takeWhile_append_of_pos (fun e he => by rw [h.sent.quiet e he]; rfl),
    takeWhile_cons_of_neg (by unfold copyEnd; split <;> exact Bool.false_ne_true), append_nil]

/-- The server's error came first just if the loop left with it. -/
theorem serverErrorFirst_iff : ServerErrorFirst es ↔ pgErr ≠ none := by
  rw [ServerErrorFirst, h.takeWhile_eq]
  constructor
  · rintro ⟨err, hmem⟩ hn
    exact (h.sent.all hn).1 err hmem
  · intro hne
    obtain ⟨err, he⟩ := Option.ne_none_iff_exists'.mp hne
    exact ⟨err, h.sent.err err he⟩

theorem copied_eq (hn : pgErr = none) : copied es = (stepData r.steps).flatten := by
  have hreceived : ∀ fs : List Event, (∀ e ∈ fs, ∃ m, e = .received m) → copied fs = [] := by
    intro fs hfs
    induction fs with
    | nil => rfl
    | cons e fs ih =>
      obtain ⟨m, rfl⟩ := hfs e (.head _)
      exact ih fun e he => hfs e (.tail _ he)
  have hend : copied (.sent (copyEnd r pgErr) :: post) = copied post := by
    unfold copyEnd
    split <;> rfl
  rw [h.events, copied_append, (h.sent.all hn).2, hend, hreceived post h.post, append_nil]

end

end Ended

/-- If the source fails and no error that it reports is `io.EOF`, the copy is aborted exactly if the
server has not reported an error before; with `io.EOF` alone it never is. Without an error the data
is the header and the rows. -/
theorem copyFrom_aborted_iff {A : Type} (env : Env) (ct : CopyFrom A) (s : Source A) (r : CopySource)
    (hr : Realises ct s r) (sql : Bytes) (c : PgConn) (hc : c.wbuf = []) :
    wp (Conn.copyFrom env r sql)
      (fun a d => ∃ es, d.wire = c.wire ++ es ∧
        (ct.Fails s → (∀ e ∈ ct.reported s, e ≠ ioEOF) → (Aborted a es ↔ ¬ ServerErrorFirst es)) ∧
        (ct.Fails s → (∀ e ∈ ct.reported s, e = ioEOF) → ¬ Aborted a es) ∧
        ∀ rows, ct.Clean s rows → ¬ ServerErrorFirst es →
          copied es = CopyFrom.header ++ rows.flatten ∧ .sent .copyDone ∈ es)
      (fun _ d => ∃ es, d.wire = c.wire ++ es ∧ (ct.Fails s → (∀ e ∈ ct.reported s, e ≠ ioEOF) →
        ¬ ServerErrorFirst es → .sent .copyDone ∉ es)) c := by
  refine wp_mono (copyFrom_emits env r sql c hc) ?_ ?_
  · rintro a d ⟨_, es, hw, pgErr, pre, post, h, herr⟩
    have hnotDone : Aborted a es → copyEnd r pgErr ≠ .copyDone :=
      fun hab hd => hab.notDone (hd ▸ h.end_mem)
    refine ⟨es, hw, fun hfails hne => ?_, fun hfails heof hab => ?_, fun rows hclean hfirst => ?_⟩
    · obtain ⟨e, hread⟩ := hr.readErr_of_fails hfails hne
      rw [h.serverErrorFirst_iff, not_not]
      constructor
      · intro hab
        cases pgErr with
        | none => rfl
        | some err => exact absurd (by simp [copyEnd]) (hnotDone hab)
      · rintro rfl
        have hend := copyEnd_of_readErr hread
        refine ⟨⟨e, hend ▸ h.end_mem⟩, fun hd => ?_, fun hans => ?_⟩
        · have := h.eq_of_mem hd rfl
          rw [hend] at this
          cases this
        · exact herr (hans pre e post (by rw [h.events, hend]))
    · have hread := hr.readErr_of_eof heof
      exact absurd (by simp [copyEnd, hread]) (hnotDone hab)
    · rw [h.serverErrorFirst_iff, not_not] at hfirst
      obtain ⟨hclosed, hflat⟩ : (ct.producer s).closed = none ∧ _ :=
        ct.produce_clean hclean.err hclean.encoded CopyFrom.header
      refine ⟨by rw [h.copied_eq hfirst, hr.steps, pipeReads_flatten]; exact hflat, ?_⟩
      have hread : r.readErr = none := by rw [hr.readErr, hclosed]; rfl
      have hend := h.end_mem
      simpa [copyEnd, hread] using hend
  · rintro _ d ⟨es, hw, hquiet | ⟨pgErr, pre, post, h⟩⟩
    · refine ⟨es, hw, fun _ _ _ hd => ?_⟩
      cases hquiet _ hd
    · refine ⟨es, hw, fun hfails hne hfirst hd => ?_⟩
      rw [h.serverErrorFirst_iff, not_not] at hfirst
      obtain ⟨e, hread⟩ := hr.readErr_of_fails hfails hne
      have := h.eq_of_mem hd rfl
      rw [hfirst, copyEnd_of_readErr hread] at this
      cases this

/-! ## A source that reports `io.EOF` -/

/-- A server that completes a copy or gives it up when it is told to. -/
def copyPeer : Peer := fun _ msgs =>
  match msgs with
  | [.copyDone] => [.message (.commandComplete (ascii "COPY 1")), .message (.readyForQuery 73)]
  | [.copyFail _] =>
    [.message (.errorResponse ⟨ascii "ERROR", ascii "57014", ascii "COPY from stdin failed"⟩),
      .message (.readyForQuery 73)]
  | _ => []

def idleConn : PgConn where
  peer := copyPeer
  inbox := []
  status := .idle

theorem sendAll_plain (m : FrontendMessage) (c : PgConn) (hc : c.wbuf = []) (Q : Unit → PgConn → Prop)
    (E : Error → PgConn → Prop)
    (h : Q () { c with wire := c.wire ++ [.sent m], inbox := c.inbox ++ c.peer c.wire [m] }) :
    wp (do sendAll [m]; flushOrClose plainEnv) Q E c := by
  obtain ⟨⟩ := c
  cases hc
  exact h

theorem copyData_plain (chunks : List Bytes) (c : PgConn) (hc : c.wbuf = []) (hp : c.peer = copyPeer)
    (Q : Option PgError → PgConn → Prop) (E : Error → PgConn → Prop)
    (h : Q none { c with wire := c.wire ++ chunks.map fun data => .sent (.copyData data) }) :
    wp (copyData plainEnv (chunks.map .chunk)) Q E c := by
  induction chunks generalizing c with
  | nil => simpa [copyData] using h
  | cons data chunks ih =>
    rw [map_cons, copyData, wp_bind]
    refine sendAll_plain (.copyData data) c hc _ _ (ih _ hc hp ?_)
    simpa [hp, copyPeer] using h

/-- A schedule without messages from the server, of a pipe that is read to `io.EOF`. -/
def eofSchedule (chunks : List Bytes) : CopySource where
  steps := chunks.map .chunk
  readErr := none
  late := none

theorem copyFrom_plain (chunks : List Bytes) (sql : Bytes) :
    wp (Conn.copyFrom plainEnv (eofSchedule chunks) sql)
      (fun a d => a.pgErr = none ∧ .sent .copyDone ∈ d.wire ∧ ∀ e, .sent (.copyFail e) ∉ d.wire)
        never idleConn := by
  show wp (deferUnlock _) _ _ { idleConn with status := .busy }
  rw [deferUnlock, wp_bind, wp_attempt_iff, ← bind_assoc, wp_bind]
  refine sendAll_plain _ _ rfl _ _ ?_
  rw [wp_bind]
  refine copyData_plain chunks _ rfl rfl _ _ ?_
  show wp (finishCopy plainEnv (eofSchedule chunks) none) _ _ _
  rw [finishCopy, ← bind_assoc, wp_bind]
  refine sendAll_plain _ _ rfl _ _ ?_
  apply Loop.wp_run_round
  apply Loop.wp_run_round
  exact ⟨rfl, by simp [idleConn, copyEnd, eofSchedule], by simp [idleConn, copyEnd, eofSchedule]⟩

/-- One column of bytes, which are sent as they are. -/
def bytesCopy : CopyFrom Bytes where
  columnNames := [ascii "a"]
  encode := fun _ v => .ok (some v)

theorem bytesCopy_row (v : Bytes) (err : Option Error) :
    ∃ row, bytesCopy.rowBytes { values := .ok [v], err := err } = .ok row ∧
    v.length ≤ row.length := by
  refine ⟨_, rfl, ?_⟩
  rw [length_append]
  omega

/-- A function that returns a row and then an error. -/
def rowThen (v : Bytes) (e : Error) : Source Bytes := copyFromFunc [.ok [v], .error e]

/-- A row that fills the buffer is written before the error is seen. -/
theorem producer_rowThen {v : Bytes} (hv : sendBufSize < v.length) (e : Error) :
    ∃ buf, bytesCopy.producer (rowThen v e) = { writes := [buf], closed := some e } := by
  obtain ⟨row, hrow, hlen⟩ := bytesCopy_row v none
  have hbuilt : bytesCopy.buildCopyBuf header 0 (rowThen v e).items = .more
      (header ++ row) none [] := by
    show bytesCopy.buildCopyBuf header 0 [{ values := .ok [v], err := none }] = _
    rw [buildCopyBuf, appendRow_eq, hrow]
    dsimp only [Except.map]
    rw [if_pos]
    rw [length_append]
    omega
  refine ⟨header ++ row, ?_⟩
  rw [producer, produce]
  split
  · next hf => rw [hbuilt] at hf; cases hf
  · next hl => rw [hbuilt] at hl; cases hl
  · next hm =>
    rw [hbuilt] at hm
    cases hm
    rw [produce]
    rfl

theorem stepData_chunks (chunks : List Bytes) : stepData (chunks.map .chunk) = chunks := by
  induction chunks with
  | nil => rfl
  | cons data chunks ih => rw [map_cons, stepData, ih]

/-- The function returns `io.EOF` as its error after a large row, and the copy is completed. -/
theorem copyFrom_eof_completes :
    bytesCopy.Fails (rowThen (replicate 65536 0) ioEOF) ∧
    Realises bytesCopy (rowThen (replicate 65536 0) ioEOF)
      (eofSchedule (pipeReads (bytesCopy.producer (rowThen (replicate 65536 0) ioEOF)).writes)) ∧
    wp (Conn.copyFrom plainEnv
        (eofSchedule (pipeReads (bytesCopy.producer (rowThen (replicate 65536 0) ioEOF)).writes))
        (ascii "copy t ( a ) from stdin binary;"))
      (fun a d => a.pgErr = none ∧ .sent .copyDone ∈ d.wire ∧ ∀ e, .sent (.copyFail e) ∉ d.wire)
      (fun _ _ => False) idleConn := by
  obtain ⟨buf, hp⟩ :=
    producer_rowThen (v := replicate 65536 0) (by rw [length_replicate]; decide) ioEOF
  refine ⟨.inr ⟨ioEOF, rfl⟩, ⟨stepData_chunks _, ?_⟩, copyFrom_plain _ _⟩
  rw [hp]
  rfl

def failing : Source Bytes := copyFromFunc [.error (.new "boom")]

def failingSchedule : CopySource where
  steps := []
  readErr := some (.new "boom")
  late := none

theorem producer_failing :
    bytesCopy.producer failing = { writes := [], closed := some (.new "boom") } := by
  rw [producer, produce]
  rfl

theorem realises_failing : Realises bytesCopy failing failingSchedule := by
  refine ⟨?_, ?_⟩
  · rw [producer_failing]
    rfl
  · rw [producer_failing]
    rfl

/-- The source fails at once; the server reports that the copy was given up, and that is returned.
-/
theorem copyFrom_aborted_sample :
    wp (Conn.copyFrom plainEnv failingSchedule (ascii "copy t ( a ) from stdin binary;"))
      (fun a d => a.pgErr.isSome = true ∧ Aborted a d.wire) (fun _ _ => False) idleConn := by
  have hrun : wp (Conn.copyFrom plainEnv failingSchedule (ascii "copy t ( a ) from stdin binary;"))
      (fun a d => a.pgErr.isSome = true ∧ ¬ ServerErrorFirst d.wire) never idleConn := by
    show wp (deferUnlock _) _ _ { idleConn with status := .busy }
    rw [deferUnlock, wp_bind, wp_attempt_iff, ← bind_assoc, wp_bind]
    refine sendAll_plain _ _ rfl _ _ ?_
    show wp (finishCopy plainEnv failingSchedule none) _ _ _
    rw [finishCopy, ← bind_assoc, wp_bind]
    refine sendAll_plain _ _ rfl _ _ ?_
    apply Loop.wp_run_round
    apply Loop.wp_run_round
    exact ⟨rfl, by simp [ServerErrorFirst, idleConn, endsCopy, copyEnd, failingSchedule]⟩
  have h := copyFrom_aborted_iff plainEnv bytesCopy failing failingSchedule realises_failing
    (ascii "copy t ( a ) from stdin binary;") idleConn rfl
  refine wp_mono (wp_and h hrun) ?_ fun _ _ hE => hE.2
  rintro a d ⟨⟨es, hw, habort, _⟩, hret, hfirst⟩
  obtain rfl : d.wire = es := hw
  exact ⟨hret, (habort (.inr ⟨_, rfl⟩) (by decide)).mpr hfirst⟩

end Pgx.Copy
