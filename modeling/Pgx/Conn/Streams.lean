import Pgx.Conn.Replies
import Pgx.Conn.Rows

/-!
# Reading a known answer

What the driver does when the messages on the network are known: the next message
of the answer is found behind whatever stands before it, and the readers hand out
its rows in order.
-/
namespace Pgx.Conn

open Pgx.Go Pgx.Wire Pgx.Effect PgConn

variable {Q : BackendMessage → PgConn → Prop} {ending : Ending} {e : Error}
    {E : Error → PgConn → Prop}
    {rest : List Incoming} {rr : ResultReader}

section Carries

variable {i : Incoming} {l k : List Incoming} {m : BackendMessage} {ms ns : List BackendMessage}

theorem Carries.nil : Carries [] [] := rfl

theorem Carries.append (h : Carries l ms) (h' : Carries k ns) : Carries (l ++ k) (ms ++ ns) := by
  unfold Carries at *
  rw [List.filter_append, h, h', List.map_append]

theorem Carries.noise (hi : i.isNoise = true) (h : Carries (i :: l) ms) : Carries l ms := by
  unfold Carries at *
  rwa [List.filter_cons_of_neg (by simp [hi])] at h

theorem Carries.head (hi : i.isNoise = false) (h : Carries (i :: l) ms) :
    ∃ m ns, i = .message m ∧ m.isAsync = false ∧ ms = m :: ns ∧ Carries l ns := by
  unfold Carries at *
  rw [List.filter_cons_of_pos (by simp [hi])] at h
  cases ms with
  | nil => cases h
  | cons m ns =>
    injection h with h1 h2
    subst h1
    exact ⟨m, ns, rfl, hi, rfl, h2⟩

theorem Carries.not_async (h : Carries l ms) : ∀ m ∈ ms, m.isAsync = false := by
  induction l generalizing ms with
  | nil =>
    intro m hm
    cases ms with
    | nil => cases hm
    | cons _ _ => cases h
  | cons i l ih =>
    cases hi : i.isNoise with
    | true => exact ih (h.noise hi)
    | false =>
      obtain ⟨m, ns, _, hm, rfl, ht⟩ := h.head hi
      intro k hk
      rcases List.mem_cons.mp hk with rfl | hk
      · exact hm
      · exact ih ht k hk

theorem Carries.cons (h : Carries l (m :: ms)) :
    ∃ i k, l = i :: k ∧
    ((i.isNoise = true ∧ Carries k (m :: ms)) ∨ (i = .message m ∧ Carries k ms)) := by
  cases l with
  | nil => cases h
  | cons i k =>
    refine ⟨i, k, rfl, ?_⟩
    cases hi : i.isNoise with
    | true => exact .inl ⟨rfl, h.noise hi⟩
    | false =>
      obtain ⟨m', ns, rfl, _, hms, ht⟩ := h.head hi
      injection hms with h1 h2
      subst h1 h2
      exact .inr ⟨rfl, ht⟩

theorem isNoise_message (h : i.isNoise = true) : ∃ msg, i = .message msg ∧ msg.isAsync = true := by
  cases i with
  | message msg => exact ⟨msg, rfl, h⟩
  | failure timeout err => cases h

theorem passes_of_isAsync {env : Env} {msg : BackendMessage} (h : msg.isAsync = true) :
    env.passes msg = true := by
  cases msg <;> first | rfl | cases h

end Carries

/-! ## The next message -/

/-- The message is a server error, and `e` is the error that the driver makes of it. -/
def ErrorIs (m : BackendMessage) (e : Error) : Prop :=
  ∃ err, m = .errorResponse err ∧ e = .pgError err

theorem ErrorIs.isPanic {m : BackendMessage} (h : ErrorIs m e) : e.isPanic = false := by
  obtain ⟨err, -, rfl⟩ := h
  rfl

/-- The messages up to the next one of the answer were read, and these are left. -/
structure Took (c d : PgConn) (ms : List BackendMessage) : Prop extends Received c d where
  status : d.status = c.status
  pending : Carries d.pending ms

/-- The next message of the answer was an error that closes the connection. -/
structure Refused (c d : PgConn) : Prop extends Received c d where
  status : d.status = .closed

structure Shut (c d : PgConn) : Prop extends Fed c d where
  status : d.status = .closed

section Receive

variable {env : Env} {c d : PgConn} {m : BackendMessage} {ms : List BackendMessage} {α β : Type}

theorem arrived_cons {d : PgConn} (hc : c.pending = .message m :: rest)
    (hd : d.pending = rest) : c.arrived = [m] ++ d.arrived := by
  unfold arrived
  rw [hc, hd]
  rfl

theorem deliver_received (hs : c.status ≠ .closed)
    (hpend : c.pending = .message m :: rest) : Received c (c.deliver m rest) :=
  ⟨⟨deliver_peer _ _ _, deliver_wbuf _ _ _, ⟨[m], deliver_wire _ _ _,
      arrived_cons hpend (deliver_pending _ _ _)⟩, fun h => absurd h hs⟩,
    deliver_resultReader _ _ _, deliver_multiResultReader _ _ _, deliver_pipeline _ _ _⟩

theorem Received.trans {e : PgConn} (h : Received c d) (k : Received d e) : Received c e :=
  ⟨h.toFed.trans k.toFed, k.resultReader.trans h.resultReader,
    k.multiResultReader.trans h.multiResultReader, k.pipeline.trans h.pipeline⟩

theorem Received.refl (c : PgConn) : Received c c := ⟨Fed.refl c, rfl, rfl, rfl⟩

/-- A server error on which the error handler closes the connection. -/
theorem receiveMessage_refused (hs : c.status ≠ .closed) (hpend : c.pending = .message m :: rest)
    (hpass : env.passes m = false) : wp (receiveMessage env) never
      (fun e d => ErrorIs m e ∧ Refused c d) c := by
  have hpeek := peekMessage_pending hpend
  cases m with
  | errorResponse err =>
    unfold Env.passes Env.closesOn at hpass
    cases hh : env.onPgError with
    | none =>
      rw [hh] at hpass
      cases hpass
    | some handler =>
      rw [hh] at hpass
      have hno : handler err = false := by simpa using hpass
      unfold receiveMessage wp
      rw [get_bind, if_neg hs]
      simp only [bind, EStateM.bind, hpeek, noteMessage, hh, hno]
      refine ⟨⟨err, rfl, rfl⟩, ⟨⟨rfl, rfl, ⟨[.errorResponse err], rfl,
        arrived_cons hpend rfl⟩, fun h => absurd h hs⟩, rfl, rfl, rfl⟩, rfl⟩
  | _ => cases hpass

/-- Receiving, when the next message of the answer is known: noise, or that message, or the end
of the connection. -/
theorem wp_receiveMessage_carries (hs : c.status ≠ .closed) (hc : Carries c.pending (m :: ms))
    (hnoise : ∀ k d, k.isAsync = true → d.unread < c.unread → Took c d (m :: ms) → Q k d)
    (hok : ∀ d, env.passes m = true → Took c d ms → Q m d)
    (hfail : ∀ e d, env.passes m = false → ErrorIs m e → Refused c d → E e d) :
    wp (receiveMessage env) Q E c := by
  obtain ⟨i, k, hpend, hcase⟩ := hc.cons
  rcases hcase with ⟨hi, hk⟩ | ⟨rfl, hk⟩
  · obtain ⟨msg, rfl, hmsg⟩ := isNoise_message hi
    apply wp_receiveMessage hs hpend (passes_of_isAsync hmsg)
    refine hnoise msg _ hmsg ?_ ⟨deliver_received hs hpend, deliver_status _ _ _, ?_⟩
    · simp [unread, hpend]
    · rwa [deliver_pending]
  · cases hp : env.passes m with
    | true =>
      apply wp_receiveMessage hs hpend hp
      refine hok _ hp ⟨deliver_received hs hpend, deliver_status _ _ _, ?_⟩
      rwa [deliver_pending]
    | false =>
      exact wp_fails (receiveMessage_refused hs hpend hp) fun e d h => hfail e d hp h.1 h.2

/-- Receiving when nothing of an answer has arrived: noise, or the end of the connection. -/
theorem wp_receiveMessage_starved (hs : c.status ≠ .closed) (hc : Carries c.pending [])
    (hnoise : ∀ k d, k.isAsync = true → d.unread < c.unread → Took c d [] → Q k d)
    (hfail : ∀ d, Refused c d → E errUnexpectedEOF d) : wp (receiveMessage env) Q E c := by
  cases hpend : c.pending with
  | nil =>
    obtain ⟨hp, hi⟩ : c.peekedMsg = none ∧ c.inbox = [] := by
      simpa [PgConn.pending] using hpend
    unfold receiveMessage
    rw [wp_bind, wp_get, if_neg hs, wp_bind]
    unfold peekMessage
    rw [wp_bind, wp_get, hp, hi]
    exact hfail _ ⟨⟨.of_eq rfl rfl rfl rfl fun _ => rfl, rfl, rfl, rfl⟩, rfl⟩
  | cons i k =>
    rw [hpend] at hc
    cases hi : i.isNoise with
    | false =>
      obtain ⟨m, ns, -, -, hms, -⟩ := hc.head hi
      cases hms
    | true =>
      obtain ⟨msg, rfl, hmsg⟩ := isNoise_message hi
      apply wp_receiveMessage hs hpend (passes_of_isAsync hmsg)
      refine hnoise msg _ hmsg ?_ ⟨deliver_received hs hpend, deliver_status _ _ _, ?_⟩
      · simp [unread, hpend]
      · rw [deliver_pending]
        exact hc.noise hi

/-- Reading has closed the connection, and left the reader alone; the pipeline knows. -/
structure Cut (c d : PgConn) (e : Error) : Prop extends Shut c d where
  resultReader : d.resultReader = c.resultReader
  pipeline : d.pipeline = { c.pipeline with err := some e }

theorem Cut.of_took {ns : List BackendMessage} {t : PgConn} (h : Took c d ns)
    (k : Cut d t e) : Cut c t e :=
  ⟨⟨h.toFed.trans k.toFed, k.status⟩,
    k.resultReader.trans h.resultReader, by rw [k.pipeline, h.pipeline]⟩

theorem cut_of_refused {ns : List BackendMessage} {e : PgConn} (hs : c.status ≠ .closed)
    (h : Took c d ns) (k : Refused d e) (err : Error) :
    Cut c { e with status := .closed, pipeline := { e.pipeline with err := some err } } err := by
  have hfed : Fed c e := h.toFed.trans k.toFed
  refine ⟨⟨⟨hfed.peer, hfed.wbuf, hfed.wire, fun hc => absurd hc hs⟩, rfl⟩,
    k.resultReader.trans h.resultReader, ?_⟩
  rw [k.pipeline, h.pipeline]

/-- The pipeline receives the next message of the answers that have arrived, if there is one. -/
theorem Pipeline.wp_receiveMessage_stream (hs : c.status ≠ .closed) (hc : Carries c.pending ms)
    (hok : ∀ m ns d, ms = m :: ns → env.passes m = true → Took c d ns → Q m d)
    (hfail : ∀ m ns e d, ms = m :: ns → env.passes m = false → ErrorIs m e → Cut c d e → E e d)
    (hstarved : ∀ d, ms = [] → Cut c d errUnexpectedEOF → E errUnexpectedEOF d) :
    wp (Pipeline.receiveMessage env) Q E c := by
  apply wp_readLoop (I := fun _ d => Took c d ms)
  · intro _ d b _ hdone
    cases hdone
  · intro _ d hd _
    have hsd : d.status ≠ .closed := by rw [hd.status]; exact hs
    have hnoise : ∀ k e, k.isAsync = true → Took d e ms →
        wp (pure (Pipeline.receiveStep () k))
          (fun r t => r.elim (fun _ => Took c t ms) (fun b => Q b t)) E e := by
      intro k e hk he
      unfold Pipeline.receiveStep
      rw [if_pos hk]
      exact ⟨hd.toReceived.trans he.toReceived, he.status.trans hd.status, he.pending⟩
    cases ms with
    | nil =>
      refine wp_receiveMessage_starved hsd hd.pending (fun k e hk _ he => hnoise k e hk he) ?_
      intro e he
      exact hstarved _ rfl (cut_of_refused hs hd he _)
    | cons m ns =>
      have hm : m.isAsync = false := hc.not_async m (.head _)
      refine wp_receiveMessage_carries hsd hd.pending (fun k e hk _ he => hnoise k e hk he) ?_ ?_
      · intro e hp he
        unfold Pipeline.receiveStep
        rw [if_neg (by simp [hm])]
        exact hok m ns e rfl hp
          ⟨hd.toReceived.trans he.toReceived, he.status.trans hd.status, he.pending⟩
      · intro err e hp hm' he
        rw [if_neg (by simp [hm'.isPanic])]
        exact hfail m ns err _ rfl hp hm' (cut_of_refused hs hd he _)
  · exact ⟨.refl c, rfl, hc⟩

theorem Pipeline.wp_receiveMessage (hs : c.status ≠ .closed) (hc : Carries c.pending (m :: ms))
    (hok : ∀ d, env.passes m = true → Took c d ms → Q m d)
    (hfail : ∀ e d, env.passes m = false → ErrorIs m e → Cut c d e → E e d) :
    wp (Pipeline.receiveMessage env) Q E c := by
  refine Pipeline.wp_receiveMessage_stream hs hc ?_ ?_ fun d h => nomatch h
  · intro k ns d h hp hd
    injection h with h1 h2
    subst h1 h2
    exact hok d hp hd
  · intro k ns e d h hp he hd
    injection h with h1 h2
    subst h1
    exact hfail e d hp he hd

end Receive

/-! ## Readers of one result -/

/-- The pipeline after the reader was given this message. -/
def PgConn.noted (c : PgConn) : BackendMessage → Pipeline
  | .errorResponse err =>
    if c.resultReader.pipeline then { c.pipeline with state := c.pipeline.state.handleError err }
    else c.pipeline
  | _ => c.pipeline

/-- The reader of several results after this message, which is not the last one. -/
def MultiResultReader.noted (mrr : MultiResultReader) : BackendMessage → MultiResultReader
  | .errorResponse err => { mrr with err := some (.pgError err) }
  | _ => mrr

/-- The reader of several results after the reader of one was given this message. -/
def PgConn.multiNoted (c : PgConn) (m : BackendMessage) : MultiResultReader :=
  if c.resultReader.multiResultReader then c.multiResultReader.noted m else c.multiResultReader

/-- The reader was given the next message of the answer. -/
structure Gave (c d : PgConn) (m : BackendMessage) (ms : List BackendMessage) :
    Prop extends Fed c d where
  status : d.status = c.status
  pending : Carries d.pending ms
  resultReader : d.resultReader = c.resultReader.note m
  pipeline : d.pipeline = c.noted m
  multiResultReader : d.multiResultReader = c.multiNoted m

/-- Reading has closed the connection, and the reader knows. -/
structure Broken (c d : PgConn) (e : Error) : Prop extends Shut c d where
  resultReader : d.resultReader = { c.resultReader.concludeCommand [] (some e) with closed := true }
  pipeline : d.pipeline = c.pipeline
  multiClosed : c.resultReader.multiResultReader = true → d.multiResultReader.closed = true

namespace ResultReader

variable {env : Env} {c d : PgConn} {m : BackendMessage} {ms : List BackendMessage} {β : Type}

variable {k : BackendMessage}

theorem note_of_isAsync (h : k.isAsync = true) : rr.note k = rr := by
  cases k <;> first | rfl | cases h

theorem noted_of_isAsync (h : k.isAsync = true) : c.noted k = c.pipeline := by
  cases k <;> first | rfl | cases h

theorem wp_note (msg : BackendMessage)
    (h : Q msg { c with resultReader := c.resultReader.note msg, pipeline := c.noted msg }) :
    wp (do notePipeline msg; modifyReader fun rr => rr.note msg; pure msg) Q E c := by
  rw [wp_bind]
  cases msg with
  | errorResponse err =>
    unfold notePipeline
    rw [wp_modify]
    dsimp only [noted] at h
    split
    · rename_i hp
      rw [if_pos hp] at h
      exact h
    · rename_i hp
      rw [if_neg hp] at h
      exact h
  | _ => exact h

theorem concludeCommand_err {tag : Bytes} {err : Option Error}
    (h : rr.err = none) : (rr.concludeCommand tag err).err = err := by
  unfold concludeCommand
  dsimp only
  split <;> simp [h]

/-- The end of the connection, for a reader that had no error before. -/
theorem wp_fail {multi : Bool} (herr : c.resultReader.err = none)
    (hclosed : multi = true → c.status = .closed)
    (h : E e { c with
      status := .closed
      resultReader := { c.resultReader.concludeCommand [] (some e) with closed := true } }) :
    wp (fail multi e) Q E c := by
  have hget : (c.resultReader.concludeCommand [] (some e)).err.getD e = e := by
    rw [concludeCommand_err herr]
    rfl
  unfold fail
  rw [wp_bind, modifyReader, wp_modify]
  cases multi with
  | false =>
    rw [if_neg nofun, wp_bind, asyncClose, wp_modify, wp_bind, wp_get]
    simp only [hget]
    exact h
  | true =>
    rw [if_pos rfl, wp_bind, wp_get]
    rw [← hclosed rfl] at h
    simp only [hget]
    exact h

/-- What is left of the connection when the messages of a reader end with it. -/
structure Spoiled (multi : Bool) (c d : PgConn) : Prop extends Fed c d where
  status : d.status = .closed
  resultReader : d.resultReader = c.resultReader
  pipeline : d.pipeline = c.pipeline
  multiClosed : multi = true → d.multiResultReader.closed = true

theorem wp_multi_note (hm : m.isReadyForQuery = false)
    (h : Q m { c with multiResultReader := c.multiResultReader.noted m }) :
    wp (do MultiResultReader.note m; pure m) Q E c := by
  cases m with
  | readyForQuery tx => cases hm
  | _ => exact h

/-- A message comes to a reader directly, or through the reader of several results. -/
theorem wp_source {multi : Bool}
    (hs : c.status ≠ .closed) (hready : multi = true → ∀ m ∈ ms.head?, m.isReadyForQuery = false)
    (hc : Carries c.pending ms)
    (hnoise : ∀ k d, k.isAsync = true → d.unread < c.unread → Took c d ms → Q k d)
    (hok : ∀ m ns d, ms = m :: ns → env.passes m = true → Took c d ns →
      Q m { d with multiResultReader := if multi then d.multiResultReader.noted m else d.multiResultReader })
    (hfail : ∀ m ns e d, ms = m :: ns → env.passes m = false → ErrorIs m e →
      Spoiled multi c d → E e d)
    (hstarved : ∀ d, ms = [] → Spoiled multi c d → E errUnexpectedEOF d) :
    wp (if multi then MultiResultReader.receiveMessage env else Conn.receiveMessage env) Q E c := by
  cases multi with
  | false =>
    have hspoiled : ∀ d, Refused c d → Spoiled false c d := fun d hd =>
      ⟨hd.toFed, hd.status, hd.resultReader, hd.pipeline, nofun⟩
    cases ms with
    | nil => exact wp_receiveMessage_starved hs hc hnoise fun d hd => hstarved d rfl (hspoiled d hd)
    | cons m ns =>
      refine wp_receiveMessage_carries hs hc hnoise (fun d hp hd => ?_) fun e d hp hm hd => ?_
      · exact hok m ns d rfl hp hd
      · exact hfail m ns e d rfl hp hm (hspoiled d hd)
  | true =>
    rw [if_pos rfl]
    unfold MultiResultReader.receiveMessage
    rw [wp_bind, wp_attempt_iff]
    have hspoiled : ∀ d e, Refused c d → Spoiled true c
        { d with
          status := .closed
          multiResultReader := { d.multiResultReader with err := some e, closed := true } } :=
      fun d e hd => ⟨⟨hd.peer, hd.wbuf, hd.wire, fun h => absurd h hs⟩, rfl, hd.resultReader,
        hd.pipeline, fun _ => rfl⟩
    have hpass : ∀ k d, k.isAsync = true → d.unread < c.unread → Took c d ms →
        wp (do MultiResultReader.note k; pure k) Q E d := by
      intro k d hk hu hd
      cases k with
      | noticeResponse _ => exact hnoise _ d hk hu hd
      | notificationResponse _ _ _ => exact hnoise _ d hk hu hd
      | parameterStatus _ _ => exact hnoise _ d hk hu hd
      | _ => cases hk
    cases ms with
    | nil =>
      refine wp_receiveMessage_starved hs hc hpass fun d hd => ?_
      exact hstarved _ rfl (hspoiled d _ hd)
    | cons m ns =>
      refine wp_receiveMessage_carries hs hc hpass (fun d hp hd => ?_) fun e d hp hm hd => ?_
      · exact wp_multi_note (hready rfl m rfl) (hok m ns d rfl hp hd)
      · rw [if_neg (by simp [hm.isPanic])]
        exact hfail m ns e _ rfl hp hm (hspoiled d e hd)

/-- The reader receives noise, or the next message of the answers that have arrived, or the end of
the connection. -/
theorem wp_receiveMessage_stream (hs : c.status ≠ .closed)
    (hready : c.resultReader.multiResultReader = true → ∀ m ∈ ms.head?, m.isReadyForQuery = false)
    (herr : c.resultReader.err = none ∨ ∃ m ns, ms = m :: ns ∧ env.passes m = true)
    (hc : Carries c.pending ms)
    (hnoise : ∀ k d, k.isAsync = true → d.unread < c.unread → Took c d ms → Q k d)
    (hok : ∀ m ns d, ms = m :: ns → env.passes m = true → Gave c d m ns → Q m d)
    (hfail : ∀ m ns e d, ms = m :: ns → env.passes m = false → ErrorIs m e → Broken c d e → E e d)
    (hstarved : ∀ d, ms = [] → Broken c d errUnexpectedEOF → E errUnexpectedEOF d) :
    wp (receiveMessage env) Q E c := by
  have hbroken : ∀ e d, Spoiled c.resultReader.multiResultReader c d → Broken c
      { d with
        status := .closed
        resultReader := { d.resultReader.concludeCommand [] (some e) with closed := true } } e := by
    intro e d hd
    refine ⟨⟨⟨hd.peer, hd.wbuf, hd.wire, fun h => absurd h hs⟩, rfl⟩, ?_, hd.pipeline, hd.multiClosed⟩
    rw [← hd.resultReader]
  unfold receiveMessage
  rw [wp_bind, wp_get, wp_bind, wp_attempt_iff]
  refine wp_source hs hready hc ?_ ?_ ?_ ?_
  · intro k d hk hu hd
    apply wp_note
    rw [note_of_isAsync hk, noted_of_isAsync hk]
    exact hnoise k d hk hu hd
  · intro m ns d hms hp hd
    apply wp_note
    refine hok m ns _ hms hp ⟨⟨hd.peer, hd.wbuf, hd.wire, hd.closed⟩, hd.status,
      hd.pending, ?_, ?_, ?_⟩
    · rw [hd.resultReader]
    · unfold noted
      rw [hd.resultReader, hd.pipeline]
    · rw [hd.multiResultReader]
      rfl
  · intro m ns e d hms hp hm hd
    have hnone : c.resultReader.err = none := by
      refine herr.resolve_right fun ⟨k, ks, h, hk⟩ => ?_
      injection hms.symm.trans h with h1
      rw [← h1, hp] at hk
      cases hk
    rw [if_neg (by simp [hm.isPanic])]
    exact wp_fail (by rw [hd.resultReader, hnone]) (fun _ => hd.status)
      (hfail m ns e _ hms hp hm (hbroken e d hd))
  · intro d hms hd
    have hnone : c.resultReader.err = none := by
      refine herr.resolve_right fun ⟨k, ks, h, hk⟩ => ?_
      cases hms.symm.trans h
    exact wp_fail (by rw [hd.resultReader, hnone]) (fun _ => hd.status)
      (hstarved _ hms (hbroken _ d hd))

theorem wp_receiveMessage (hs : c.status ≠ .closed)
    (hready : c.resultReader.multiResultReader = false ∨ m.isReadyForQuery = false)
    (herr : c.resultReader.err = none ∨ env.passes m = true) (hc : Carries c.pending (m :: ms))
    (hnoise : ∀ k d, k.isAsync = true → d.unread < c.unread → Took c d (m :: ms) → Q k d)
    (hok : ∀ d, env.passes m = true → Gave c d m ms → Q m d)
    (hfail : ∀ e d, env.passes m = false → ErrorIs m e → Broken c d e → E e d) :
    wp (receiveMessage env) Q E c := by
  refine wp_receiveMessage_stream hs (fun hmulti k hk => ?_)
    (herr.imp_right fun h => ⟨m, ms, rfl, h⟩) hc
    hnoise ?_ ?_ fun d h => nomatch h
  · obtain rfl : m = k := Option.some.inj hk
    exact hready.resolve_left (by rw [hmulti]; exact nofun)
  · intro k ns d h hp hd
    injection h with h1 h2
    subst h1 h2
    exact hok d hp hd
  · intro k ns e d h hp he hd
    injection h with h1 h2
    subst h1
    exact hfail e d hp he hd

theorem gave_of_took {e : PgConn} {ns : List BackendMessage} (h : Took c d ns) (k : Gave d e m ms) :
    Gave c e m ms := by
  refine ⟨h.toFed.trans k.toFed, k.status.trans h.status, k.pending, ?_, ?_, ?_⟩
  · rw [k.resultReader, h.resultReader]
  · rw [k.pipeline]
    unfold noted
    rw [h.resultReader, h.pipeline]
  · rw [k.multiResultReader]
    unfold multiNoted
    rw [h.resultReader, h.multiResultReader]

theorem broken_of_took {t : PgConn} {ns : List BackendMessage} (h : Took c d ns)
    (k : Broken d t e) : Broken c t e := by
  refine ⟨⟨h.toFed.trans k.toFed, k.status⟩, ?_, k.pipeline.trans h.pipeline, fun hm => ?_⟩
  · rw [k.resultReader, h.resultReader]
  · exact k.multiClosed (by rw [h.resultReader]; exact hm)

variable {step : Unit → BackendMessage → Op (Unit ⊕ β)}

variable {hstep : ∀ i msg, Reads 0 (step i msg)}

variable {hrecv : Reads 1 (receiveMessage env)}

/-- A loop that reads for a reader comes to the next message of the answer. -/
theorem wp_readerLoop {done : PgConn → Option β} {onError : Error → Op β} {Q : β → PgConn → Prop}
    (hnoise : ∀ k, k.isAsync = true → step () k = pure (.inl ()))
    (hdone : ∀ d, d.resultReader = c.resultReader → done d = none) (hs : c.status ≠ .closed)
    (hready : c.resultReader.multiResultReader = false ∨ m.isReadyForQuery = false)
    (herr : c.resultReader.err = none ∨ env.passes m = true) (hc : Carries c.pending (m :: ms))
    (hok : ∀ d, env.passes m = true → Gave c d m ms → wp (step () m) (fun r t => r.elim
        (fun _ => wp ((readLoop (receiveMessage env) hrecv done onError step hstep).run ()) Q E t)
        (fun b => Q b t)) E d)
    (hfail : ∀ e d, env.passes m = false → ErrorIs m e → Broken c d e → wp (onError e) Q E d) :
    wp ((readLoop (receiveMessage env) hrecv done onError step hstep).run ()) Q E c := by
  generalize hn : c.unread = n
  induction n using Nat.strongRecOn generalizing c with
  | ind n ih =>
    apply Loop.wp_run_round
    show wp (Conn.readRound (receiveMessage env) done onError step ()) _ E c
    unfold Conn.readRound
    rw [wp_bind, wp_get]
    simp only [hdone c rfl]
    rw [wp_bind, wp_attempt_iff]
    refine wp_receiveMessage hs hready herr hc ?_ ?_ ?_
    · intro k d hk hu hd
      show wp (step () k) _ _ d
      rw [hnoise k hk]
      refine ih d.unread (hn ▸ hu)
        (fun t ht => hdone t (ht.trans hd.resultReader)) ?_ ?_ ?_ hd.pending
        ?_ ?_ rfl
      · rw [hd.status]
        exact hs
      · rw [hd.resultReader]
        exact hready
      · rw [hd.resultReader]
        exact herr
      · exact fun t hp ht => hok t hp (gave_of_took hd ht)
      · exact fun e t hp hm ht => hfail e t hp hm (broken_of_took hd ht)
    · exact fun d hp hd => hok d hp hd
    · intro e d hp hm hd
      rw [if_neg (by simp [hm.isPanic]), wp_map]
      exact hfail e d hp hm hd

structure Unfinished (rr : ResultReader) : Prop where
  commandConcluded : rr.commandConcluded = false
  err : rr.err = none

/-- The same for a reader that no reader of several results owns. -/
structure Live (rr : ResultReader) : Prop where
  multiResultReader : rr.multiResultReader = false
  commandConcluded : rr.commandConcluded = false
  err : rr.err = none

theorem Live.unfinished (h : Live rr) : Unfinished rr := ⟨h.commandConcluded, h.err⟩

def finish (rr : ResultReader) (ending : Ending) : ResultReader :=
  { rr with
    commandTag := ending.commandTag
    err := ending.err
    rowValues := []
    commandConcluded := true }

theorem Unfinished.note_ending (h : Unfinished rr) (ending : Ending) :
    rr.note ending.message = rr.finish ending := by
  obtain ⟨hc, he⟩ := h
  cases ending <;> simp [Ending.message, note, concludeCommand, finish, Ending.commandTag,
    Ending.err, hc, he]

theorem Unfinished.broken (h : Unfinished rr) (ending : Ending) (hm : ErrorIs ending.message e) :
    { rr.concludeCommand [] (some e) with closed := true } =
      { rr.finish ending with closed := true } := by
  obtain ⟨hc, he⟩ := h
  obtain ⟨err, hm, rfl⟩ := hm
  cases ending with
  | failed err' =>
    cases hm
    simp [concludeCommand, finish, Ending.commandTag, Ending.err, hc, he]
  | _ => cases hm

/-- The answer was read to the end of the result; the connection was closed if its end is an
error that does that. -/
def Finished (env : Env) (c d : PgConn) (ending : Ending) (ms : List BackendMessage) : Prop :=
  (env.passes ending.message = true ∧ Gave c d ending.message ms ∧
      d.resultReader = c.resultReader.finish ending) ∨
  (env.passes ending.message = false ∧ Shut c d ∧
      d.resultReader = { c.resultReader.finish ending with closed := true } ∧
      d.pipeline = c.pipeline ∧
      (c.resultReader.multiResultReader = true → d.multiResultReader.closed = true))

structure Rowed (c d : PgConn) (values : List (Option Bytes)) (ms : List BackendMessage) : Prop
    extends Fed c d where
  status : d.status = c.status
  pending : Carries d.pending ms
  resultReader : d.resultReader = { c.resultReader with rowValues := values }
  pipeline : d.pipeline = c.pipeline
  multiResultReader : d.multiResultReader = c.multiResultReader

theorem nextRowStep_noise (h : k.isAsync = true) : nextRowStep () k = pure (.inl ()) := by
  cases k <;> first | rfl | cases h

theorem concluded_none {b : β} (h : c.resultReader.commandConcluded = false) :
    concluded b c = none := by
  unfold concluded
  rw [h]
  rfl

theorem concluded_some {b : β} (h : c.resultReader.commandConcluded = true) :
    concluded b c = some b := by
  unfold concluded
  rw [h]
  rfl

theorem multiNoted_dataRow {values : List (Option Bytes)} :
    c.multiNoted (.dataRow values) = c.multiResultReader := by
  unfold multiNoted
  split <;> rfl

theorem nextRow_dataRow {values : List (Option Bytes)} (hs : c.status ≠ .closed)
    (hl : Unfinished c.resultReader) (hp : c.resultReader.preloaded = false)
    (hc : Carries c.pending (.dataRow values :: ms)) :
    wp (nextRow env) (fun more d => more = true ∧ Rowed c d values ms) never c := by
  unfold nextRow
  rw [wp_bind, wp_get, if_neg (by simp [hp])]
  refine wp_readerLoop (fun _ => nextRowStep_noise) (fun d hd => concluded_none ?_) hs (.inr rfl)
    (.inl hl.err) hc ?_ ?_
  · rw [hd, hl.commandConcluded]
  · intro d _ hd
    refine ⟨rfl, ⟨hd.peer, hd.wbuf, hd.wire, hd.closed⟩, hd.status, hd.pending, ?_, hd.pipeline,
      hd.multiResultReader.trans multiNoted_dataRow⟩
    show { d.resultReader with rowValues := values } = _
    rw [hd.resultReader]
    rfl
  · exact fun e d hp => nomatch hp

/-- A loop that is left as soon as the command is concluded, at the end of the result. -/
theorem wp_readerLoop_ending {b : β} {onError : Error → Op β}
    
    {Q : β → PgConn → Prop}
    (hnoise : ∀ k, k.isAsync = true → step () k = pure (.inl ()))
    (hend : step () ending.message = pure (.inl ())) (hs : c.status ≠ .closed)
    (hl : Unfinished c.resultReader) (hc : Carries c.pending (ending.message :: ms))
    (hok : ∀ d, env.passes ending.message = true → Gave c d ending.message ms →
      d.resultReader = c.resultReader.finish ending → Q b d)
    (hfail : ∀ e d, env.passes ending.message = false → Shut c d →
      d.resultReader = { c.resultReader.finish ending with closed := true } ∧
      d.pipeline = c.pipeline ∧
        (c.resultReader.multiResultReader = true → d.multiResultReader.closed = true) →
      wp (onError e) Q E d) :
    wp ((readLoop (receiveMessage env) hrecv (concluded b) onError step hstep).run ()) Q E c := by
  refine wp_readerLoop hnoise (fun d hd => concluded_none ?_) hs (.inr ?_) (.inl hl.err) hc ?_ ?_
  · rw [hd, hl.commandConcluded]
  · cases ending <;> rfl
  · intro d hp hd
    have hrr : d.resultReader = c.resultReader.finish ending := by
      rw [hd.resultReader, hl.note_ending]
    rw [hend]
    exact wp_readLoop_done (concluded_some (by rw [hrr]; rfl)) (hok d hp hd hrr)
  · intro e d hp hm hd
    exact hfail e d hp hd.toShut
      ⟨by rw [hd.resultReader, hl.broken ending hm], hd.pipeline, hd.multiClosed⟩

theorem nextRow_ending (hs : c.status ≠ .closed) (hl : Unfinished c.resultReader)
    (hp : c.resultReader.preloaded = false) (hc : Carries c.pending (ending.message :: ms)) :
    wp (nextRow env) (fun more d => more = false ∧ Finished env c d ending ms) never c := by
  unfold nextRow
  rw [wp_bind, wp_get, if_neg (by simp [hp])]
  refine wp_readerLoop_ending (fun _ => nextRowStep_noise) (by cases ending <;> rfl) hs hl hc ?_ ?_
  · exact fun d hp hd hrr => ⟨rfl, .inl ⟨hp, hd, hrr⟩⟩
  · exact fun e d hp hd hrr => ⟨rfl, .inr ⟨hp, hd, hrr⟩⟩

theorem close_closed (h : c.resultReader.closed = true) :
    wp (close env)
      (fun r d => r = (c.resultReader.commandTag, c.resultReader.err) ∧ d = c) never c := by
  unfold close
  rw [wp_bind, wp_get, if_pos h]
  exact ⟨rfl, rfl⟩

/-- A reader that is not alone leaves what follows its result to its owner. -/
theorem close_concluded (hopen : c.resultReader.closed = false)
    (howned : (c.resultReader.multiResultReader || c.resultReader.pipeline) = true)
    (hdone : c.resultReader.commandConcluded = true) :
    wp (close env) (fun r d => r = (c.resultReader.commandTag, c.resultReader.err) ∧
      d = { c with resultReader := { c.resultReader with closed := true } }) never c := by
  unfold close
  rw [wp_bind, wp_get, if_neg (by simp [hopen]), wp_bind, modifyReader, wp_modify, wp_bind]
  refine wp_readLoop_done (b := true) (concluded_some ?_) ?_
  · exact hdone
  · rw [wp_bind, wp_get]
    simp only [howned, if_true]
    exact ⟨rfl, rfl⟩

theorem readRows_rows (rows : List (List (Option Bytes))) (br : Result)
    (hs : c.status ≠ .closed) (hl : Unfinished c.resultReader) (hp : c.resultReader.preloaded = false)
    (hc : Carries c.pending (rows.map .dataRow ++ ending.message :: ms)) :
    wp ((readRows env).run br) (fun r d => r.rows = br.rows ++ rows ∧
      ∃ t values, Finished env t d ending ms ∧ Fed c t ∧ t.status = c.status ∧
        t.resultReader = { c.resultReader with rowValues := values } ∧ t.pipeline = c.pipeline ∧
        t.multiResultReader = c.multiResultReader)
      never c := by
  induction rows generalizing c br with
  | nil =>
    apply Loop.wp_run_round
    show wp (readRound env br) _ _ c
    unfold readRound
    rw [wp_bind]
    refine wp_weaken (nextRow_ending hs hl hp hc) fun more d hd => ?_
    obtain ⟨rfl, hd⟩ := hd
    exact ⟨(List.append_nil _).symm, c, c.resultReader.rowValues, hd, .refl c, rfl, rfl, rfl, rfl⟩
  | cons values rows ih =>
    apply Loop.wp_run_round
    show wp (readRound env br) _ _ c
    unfold readRound
    rw [wp_bind]
    refine wp_weaken (nextRow_dataRow hs hl hp hc) fun more d hd => ?_
    obtain ⟨rfl, hd⟩ := hd
    rw [if_pos rfl, wp_bind, wp_get, wp_pure]
    have hrest := ih (c := d) { br with
        fieldDescriptions := br.fieldDescriptions.or (some d.resultReader.fieldDescriptions)
        rows := br.rows ++ [d.resultReader.rowValues] } (by rw [hd.status]; exact hs)
      (by rw [hd.resultReader]; exact ⟨hl.commandConcluded, hl.err⟩)
      (by rw [hd.resultReader]; exact hp) hd.pending
    refine wp_weaken hrest fun r e he => ?_
    obtain ⟨hr, t, vs, hfin, hfed, hst, hrr, hq, hm⟩ := he
    refine ⟨?_, t, vs, hfin, hd.toFed.trans hfed, hst.trans hd.status, ?_, hq.trans hd.pipeline,
      hm.trans hd.multiResultReader⟩
    · rw [hr, hd.resultReader]
      simp
    · rw [hrr, hd.resultReader]

/-- The connection after the result of a reader of a pipeline was read to the end. -/
structure ReadOut (env : Env) (c d : PgConn) (ending : Ending) (ms : List BackendMessage) : Prop
    extends Fed c d where
  reader : d.resultReader.closed = true
  rest : (env.passes ending.message = true ∧ d.status = c.status ∧ Carries d.pending ms ∧
      d.pipeline = c.noted ending.message) ∨
    (env.passes ending.message = false ∧ d.status = .closed ∧ d.pipeline = c.pipeline)

theorem read_of_readRows {rows : List (List (Option Bytes))}
    (hopen : c.resultReader.closed = false) (hpipe : c.resultReader.pipeline = true)
    (h : wp ((readRows env).run {}) (fun r d => r.rows = rows ∧
      ∃ t values, Finished env t d ending ms ∧ Fed c t ∧ t.status = c.status ∧
        t.resultReader = { c.resultReader with rowValues := values, preloaded := false } ∧
        t.pipeline = c.pipeline) never c) :
    wp (read env)
      (fun r d => (r.rows = rows ∧ r.commandTag = ending.commandTag ∧ r.err = ending.err) ∧
      ReadOut env c d ending ms) never c := by
  unfold read
  rw [wp_bind]
  refine wp_weaken h fun br d hd => ?_
  obtain ⟨hrows, t, values, hfin, hfed, hst, hrr, hq⟩ := hd
  have htag : d.resultReader.commandTag = ending.commandTag ∧ d.resultReader.err = ending.err := by
    rcases hfin with ⟨_, _, hf⟩ | ⟨_, _, hf, _⟩
    · rw [hf]
      exact ⟨rfl, rfl⟩
    · rw [hf]
      exact ⟨rfl, rfl⟩
  rw [wp_bind]
  rcases hfin with ⟨hp, hg, hf⟩ | ⟨hp, hshut, hf, hpd, -⟩
  · have hclosed : d.resultReader.closed = false := by
      rw [hf, hrr]
      exact hopen
    have howned : (d.resultReader.multiResultReader || d.resultReader.pipeline) = true := by
      rw [hf, hrr]
      exact Bool.or_eq_true_iff.mpr (.inr hpipe)
    refine wp_weaken (close_concluded hclosed howned (by rw [hf]; rfl)) fun r e he => ?_
    obtain ⟨rfl, rfl⟩ := he
    refine ⟨⟨hrows, htag.1, htag.2⟩, hfed.trans
      (hg.toFed.trans (.of_eq rfl rfl rfl rfl id)), rfl, .inl ⟨hp,
      hg.status.trans hst, hg.pending, ?_⟩⟩
    rw [hg.pipeline]
    unfold noted
    rw [hrr, hq]
  · refine wp_weaken (close_closed (by rw [hf])) fun r e he => ?_
    obtain ⟨rfl, rfl⟩ := he
    exact ⟨⟨hrows, htag.1, htag.2⟩,
      hfed.trans hshut.toFed, by rw [hf], .inr ⟨hp, hshut.status, hpd.trans hq⟩⟩

section

variable (rows : List (List (Option Bytes))) (hs : c.status ≠ .closed) (hl : Live c.resultReader)
  (hp : c.resultReader.preloaded = false) (hopen : c.resultReader.closed = false)
  (hpipe : c.resultReader.pipeline = true) (hc :
  Carries c.pending (rows.map .dataRow ++ ending.message :: ms))

include rows hs hl hp hopen hpipe hc

/-- The reader of a pipeline hands out the rows of its answer, and how it ends. -/
theorem read_rows_out :
    wp (read env)
      (fun r d => (r.rows = rows ∧ r.commandTag = ending.commandTag ∧ r.err = ending.err) ∧
      ReadOut env c d ending ms) never c := by
  apply read_of_readRows hopen hpipe
  refine wp_weaken (readRows_rows rows {} hs hl.unfinished hp hc) fun r d hd => ?_
  obtain ⟨hr, t, values, hfin, hfed, hst, hrr, hq, -⟩ := hd
  refine ⟨hr, t, values, hfin, hfed, hst, ?_, hq⟩
  rw [hrr, ← hp]

end

theorem read_closed (hclosed : c.resultReader.closed = true)
    (hdone : c.resultReader.commandConcluded = true) (hp : c.resultReader.preloaded = false) :
    wp (read env) (fun r d => (r.rows = [] ∧ r.commandTag = c.resultReader.commandTag ∧
      r.err = c.resultReader.err) ∧ d = c) never c := by
  unfold read
  rw [wp_bind]
  apply Loop.wp_run_round
  show wp (readRound env {}) _ _ c
  unfold readRound
  rw [wp_bind]
  unfold nextRow
  rw [wp_bind, wp_get, if_neg (by simp [hp])]
  refine wp_readLoop_done (b := false) (concluded_some hdone) ?_
  refine (wp_bind (close env) _).mpr ?_
  refine wp_weaken (close_closed hclosed) fun r e he => ?_
  obtain ⟨rfl, he⟩ := he
  exact ⟨⟨rfl, rfl, rfl⟩, he⟩

end ResultReader

end Pgx.Conn
