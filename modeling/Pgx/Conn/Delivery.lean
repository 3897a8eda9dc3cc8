import Pgx.Conn.Reader
import Pgx.Effect.Graded

/-!
# Messages that have arrived

What the driver does with a message that is next on the network, as an equation:
the message is taken, and the rest stays where it was. The runs of the readers
and of a pipeline on a known answer are computed with it.
-/
namespace Pgx.Conn

open Pgx.Go Pgx.Wire Pgx.Effect

variable {recv : Op BackendMessage}

/-- Whether the connection stays open when the message is received. -/
def Env.passes (env : Env) : BackendMessage → Bool
  | .errorResponse err => !env.closesOn err
  | _ => true

/-- The connection after this message was taken, with the rest left to read. -/
def PgConn.deliver (c : PgConn) (msg : BackendMessage) (rest : List Incoming) : PgConn :=
  let d := { c with peekedMsg := none, inbox := rest, wire := c.wire ++ [.received msg] }
  match msg with
  | .readyForQuery txStatus => { d with txStatus := txStatus }
  | .parameterStatus name value =>
    { d with parameterStatuses := d.parameterStatuses.insert name value }
  | _ => d

section Deliver

variable (c : PgConn) (msg : BackendMessage) (rest : List Incoming)

@[simp] theorem deliver_status : (c.deliver msg rest).status = c.status := by
  cases msg <;> rfl

@[simp] theorem deliver_pending : (c.deliver msg rest).pending = rest := by
  cases msg <;> rfl

@[simp] theorem deliver_resultReader : (c.deliver msg rest).resultReader = c.resultReader := by
  cases msg <;> rfl

@[simp] theorem deliver_multiResultReader : (c.deliver msg rest).multiResultReader =
    c.multiResultReader := by
  cases msg <;> rfl

@[simp] theorem deliver_pipeline : (c.deliver msg rest).pipeline = c.pipeline := by
  cases msg <;> rfl

@[simp] theorem deliver_wbuf : (c.deliver msg rest).wbuf = c.wbuf := by
  cases msg <;> rfl

@[simp] theorem deliver_peer : (c.deliver msg rest).peer = c.peer := by
  cases msg <;> rfl

@[simp] theorem deliver_wire : (c.deliver msg rest).wire = c.wire ++ [.received msg] := by
  cases msg <;> rfl

end Deliver

variable {E : Error → PgConn → Prop}

variable {hrecv : Reads 1 recv}

/-- One round of a reading loop keeps `I`, or leaves the loop with `Q`. -/
theorem wp_readLoop {ι β : Type}
    {done : PgConn → Option β} {onError : Error → Op β} {step : ι → BackendMessage → Op (ι ⊕ β)}
    {hstep : ∀ i msg, Reads 0 (step i msg)} {I : ι → PgConn → Prop} {Q : β → PgConn → Prop}
    {i : ι} {c : PgConn} (hdone : ∀ i d b, I i d → done d = some b → Q b d)
    (hround : ∀ i d, I i d → done d = none → wp recv
      (fun msg => wp (step i msg) (fun r t => r.elim (fun j => I j t) (fun b => Q b t)) E)
      (fun e t => if e.isPanic then E e t else wp (onError e) Q E t) d) (hi : I i c) :
    wp ((readLoop recv hrecv done onError step hstep).run i) Q E c := by
  apply (readLoop recv hrecv done onError step hstep).wp_run (I := I)
  · intro j d hd
    show wp (readRound recv done onError step j) _ E d
    unfold readRound
    rw [wp_bind, wp_get]
    cases hb : done d with
    | some b => exact hdone j d b hd hb
    | none =>
      rw [wp_bind, wp_attempt_iff]
      refine wp_weaken_error (hround j d hd hb) fun e t he => ?_
      by_cases hp : e.isPanic = true
      · rw [if_pos hp] at he ⊢
        exact he
      · rw [wp_map]
        exact he
  · exact hi

theorem wp_readLoop_done {ι β : Type}
    {done : PgConn → Option β} {onError : Error → Op β} {step : ι → BackendMessage → Op (ι ⊕ β)}
    {hstep : ∀ i msg, Reads 0 (step i msg)} {Q : β → PgConn → Prop} {i : ι}
    {c : PgConn} {b : β} (hdone : done c = some b) (h : Q b c) :
    wp ((readLoop recv hrecv done onError step hstep).run i) Q E c := by
  apply Loop.wp_run_round
  show wp (readRound recv done onError step i) _ E c
  unfold readRound
  rw [wp_bind, wp_get, hdone]
  exact h

section Receive

variable {env : Env} {c : PgConn} {msg : BackendMessage} {rest : List Incoming}

/-- What is peeked at stays where it is; only the representation changes. -/
theorem peekMessage_pending (hpend : c.pending = .message msg :: rest) :
    peekMessage c = .ok msg { c with inbox := rest, peekedMsg := some msg } := by
  unfold PgConn.pending at hpend
  unfold peekMessage
  cases hp : c.peekedMsg with
  | some m =>
    rw [hp] at hpend
    have hm : m = msg ∧ c.inbox = rest := by simpa using hpend
    obtain ⟨rfl, rfl⟩ := hm
    simp only [get_bind, hp]
    show EStateM.Result.ok m c = _
    rw [← hp]
  | none =>
    rw [hp] at hpend
    have hi : c.inbox = .message msg :: rest := hpend
    simp only [get_bind, hp, hi]
    rfl

section

variable (hs : c.status ≠ .closed) (hpend : c.pending = .message msg :: rest)
    (hpass : env.passes msg = true)

include hs hpend hpass

/-- The message is received, unless the error handler closes the connection on it. -/
theorem receiveMessage_deliver : receiveMessage env c = .ok msg (c.deliver msg rest) := by
  have hpeek := peekMessage_pending hpend
  rw [receiveMessage, get_bind, if_neg hs]
  simp only [bind, EStateM.bind, hpeek]
  cases msg with
  | errorResponse err =>
    unfold Env.passes Env.closesOn at hpass
    unfold noteMessage
    cases hh : env.onPgError with
    | none => rfl
    | some handler =>
      rw [hh] at hpass
      have hok : handler err = true := by simpa using hpass
      simp only [hok]
      rfl
  | _ => rfl

theorem wp_receiveMessage {Q : BackendMessage → PgConn → Prop} (h : Q msg (c.deliver msg rest)) :
    wp (receiveMessage env) Q E c := by
  unfold wp
  rw [receiveMessage_deliver hs hpend hpass]
  exact h

end

end Receive

/-- The messages were written to a connection that is in use now. -/
def PgConn.asking (c : PgConn) (msgs : List FrontendMessage) : PgConn :=
  { c with
    wbuf := []
    wire := c.wire ++ msgs.map .sent
    inbox := c.inbox ++ c.peer c.wire msgs }

theorem asking_pending (c : PgConn) (msgs : List FrontendMessage) :
    (c.asking msgs).pending = c.pending ++ c.peer c.wire msgs := (List.append_assoc _ _ _).symm

section Sending

variable {env : Env} {c : PgConn} {Q : Unit → PgConn → Prop} {E : Error → PgConn → Prop}

theorem wp_lock_idle (hs : c.status = .idle) (h : Q () { c with status := .busy }) :
    wp lock Q E c := by
  unfold lock
  rw [wp_bind, wp_get, hs]
  exact h

theorem wp_flush (msgs : List FrontendMessage) (hw : c.wbuf = msgs) (hne : msgs ≠ [])
    (hok : env.write c.wire msgs = none → Q () (c.asking msgs))
    (hfail : ∀ text d, env.write c.wire msgs = some text → d.resultReader = c.resultReader →
      d.pipeline = c.pipeline → E (.io text) d) : wp (flush env) Q E c := by
  subst hw
  obtain ⟨m, ms, hm⟩ := List.exists_cons_of_ne_nil hne
  unfold flush
  rw [wp_bind, wp_get, hm]
  dsimp only
  rw [← hm, wp_bind]
  unfold writeBuffer
  rw [wp_bind, wp_get]
  cases hwr : env.write c.wire c.wbuf with
  | some text => exact hfail text _ hwr rfl rfl
  | none => exact hok hwr

end Sending

/-! ## Computations that only read -/

def Incoming.message? : Incoming → Option BackendMessage
  | .message msg => some msg
  | .failure _ _ => none

def PgConn.arrived (c : PgConn) : List BackendMessage := c.pending.filterMap Incoming.message?

/-- Between `c` and `d` the driver has read from the network, if it was open, and has not
written to it. -/
structure Fed (c d : PgConn) : Prop where
  peer : d.peer = c.peer
  wbuf : d.wbuf = c.wbuf
  wire : ∃ msgs : List BackendMessage, d.wire = c.wire ++ msgs.map .received ∧
    c.arrived = msgs ++ d.arrived
  closed : c.status = .closed → d.status = .closed ∧ d.wire = c.wire

theorem Fed.refl (c : PgConn) : Fed c c :=
    ⟨rfl, rfl, ⟨[], (List.append_nil _).symm, rfl⟩, fun h => ⟨h, rfl⟩⟩

theorem Fed.trans {c d e : PgConn} (h : Fed c d) (k : Fed d e) : Fed c e := by
  obtain ⟨ms, hms, hma⟩ := h.wire
  obtain ⟨ns, hns, hna⟩ := k.wire
  refine ⟨k.peer.trans h.peer, k.wbuf.trans h.wbuf, ⟨ms ++ ns, ?_, ?_⟩, fun hc => ?_⟩
  · rw [hns, hms, List.map_append, List.append_assoc]
  · rw [hma, hna, List.append_assoc]
  · obtain ⟨hd, hw⟩ := h.closed hc
    obtain ⟨he, hv⟩ := k.closed hd
    exact ⟨he, hv.trans hw⟩

theorem Fed.of_eq {c d : PgConn} (hp : d.peer = c.peer) (hb : d.wbuf = c.wbuf) (hw : d.wire = c.wire)
    (ha : d.arrived = c.arrived) (hs : c.status = .closed → d.status = .closed) : Fed c d :=
  ⟨hp, hb, ⟨[], by rw [hw]; exact (List.append_nil _).symm, ha.symm⟩, fun hc => ⟨hs hc, hw⟩⟩

instance : Std.Refl Fed := ⟨Fed.refl⟩

instance : Trans Fed Fed Fed := ⟨Fed.trans⟩

def Feeds {α : Type} (x : Op α) : Prop := ∀ c, wp x (fun _ => Fed c) (fun _ => Fed c) c

theorem readLoop_gains {β ι : Type} {R : Int → PgConn → PgConn → Prop} [Graded R]
    {done : PgConn → Option β} {onError : Error → Op β} {step : ι → BackendMessage → Op (ι ⊕ β)}
    {hstep : ∀ i msg, Reads 0 (step i msg)} {n : Int} (hr : Gains R 2 recv) (hn : n ≤ 2)
    (hdone : ∀ c b, done c = some b → n ≤ 0) (herr : ∀ e, Gains R n (onError e))
    (hs : ∀ i msg, Gains R 0 (step i msg)) (i : ι) :
    Gains R n ((readLoop recv hrecv done onError step hstep).run i) := by
  refine .loop (fun j c => ?_) i
  show wp (readRound recv done onError step j) _ _ c
  unfold readRound
  rw [wp_bind, wp_get]
  cases hd : done c with
  | some b => exact Graded.mono (Graded.refl c) (hdone c b hd)
  | none =>
    rw [wp_bind]
    apply wp_attempt
    apply wp_mono (hr c)
    · intro msg d hd
      refine wp_weaken ((hs j msg).after hd (by decide) (k := 2) (by decide)) fun r e he => ?_
      cases r with
      | inl k => exact Graded.mono he (by show (0 : Int) ≤ 2; decide)
      | inr b => exact Graded.mono he hn
    · intro e d hd
      refine ⟨hd, ?_⟩
      rw [wp_map]
      exact (herr e).after hd (Int.le_refl 0) (by show n ≤ 0 + n; omega)

/-- Receiving a message leaves the readers and the pipeline alone. -/
structure Received (c d : PgConn) : Prop extends Fed c d where
  resultReader : d.resultReader = c.resultReader
  multiResultReader : d.multiResultReader = c.multiResultReader
  pipeline : d.pipeline = c.pipeline

theorem Missed.arrived {c d : PgConn} (h : Missed c d) : d.arrived = c.arrived := by
  unfold PgConn.arrived
  rcases h.pending with hp | ⟨timeout, err, hp⟩
  · rw [hp]
  · rw [hp]
    rfl

theorem Missed.received {c d : PgConn} (h : Missed c d) : Received c d :=
  ⟨.of_eq h.peer h.wbuf h.wire h.arrived fun hc => h.status.elim id fun hs => hs.trans hc,
    h.resultReader, h.multiResultReader, h.pipeline⟩

theorem Drew.received {msg : BackendMessage} {c d : PgConn} (h : Drew msg c d) : Received c d :=
  ⟨⟨h.peer, h.wbuf, ⟨[msg], h.wire, by unfold PgConn.arrived; rw [h.pending]; rfl⟩, fun hc =>
    absurd hc h.wasOpen⟩,
    h.resultReader, h.multiResultReader, h.pipeline⟩

theorem receiveMessage_received (env : Env) (c : PgConn) :
    wp (receiveMessage env) (fun _ => Received c) (fun _ => Received c) c := by
  apply wp_mono (receiveMessage_spec env c)
  · exact fun _ _ hd => hd.1.received
  · rintro - d (hd | ⟨err, hd, -⟩)
    · exact hd.received
    · exact hd.received

theorem receiveMessage_feeds (env : Env) : Feeds (receiveMessage env) := by
  intro c
  apply wp_mono (receiveMessage_received env c)
  · exact fun _ _ hd => hd.toFed
  · exact fun _ _ hd => hd.toFed

end Pgx.Conn
