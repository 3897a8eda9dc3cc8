import Pgx.Conn.State

/-!
# What goes over the network

`Talks w x Q E` says what `x` reads and writes, in order, behind the events `w`, from
any state whose write buffer is empty: `Q` relates the events to the value returned, and `E`
holds of the events of a run that fails.
-/
namespace Pgx.Conn

open Pgx.Go Pgx.Wire Pgx.Effect List

/-- What the driver will read, when the server says nothing more. -/
def PgConn.pending (c : PgConn) : List Incoming := c.peekedMsg.toList.map .message ++ c.inbox

def PgConn.unread (c : PgConn) : Nat := c.pending.length

def received : List Event → List BackendMessage
  | [] => []
  | .sent _ :: es => received es
  | .received msg :: es => msg :: received es

/-- Messages are received in order. -/
theorem received_append (es fs : List Event) : received (es ++ fs) = received es ++ received fs := by
  induction es with
  | nil => rfl
  | cons e es ih =>
    cases e with
    | sent m => exact ih
    | received m => simp [received, ih]

theorem mem_received {es : List Event} {m : BackendMessage} :
    m ∈ received es ↔ Event.received m ∈ es := by
  induction es with
  | nil => simp [received]
  | cons e es ih =>
    cases e with
    | sent k => simp [received, ih]
    | received k => simp [received, ih]

/-- From `c` to `c'` exactly these events took place. -/
structure Ran (es : List Event) (c c' : PgConn) : Prop where
  wire : c'.wire = c.wire ++ es
  pending : c.pending = (received es).map .message ++ c'.pending
  wbuf : c'.wbuf = []

theorem Ran.trans {es fs : List Event} {c d e : PgConn} (h : Ran es c d) (k : Ran fs d e) :
    Ran (es ++ fs) c e := by
  refine ⟨?_, ?_, k.wbuf⟩
  · rw [k.wire, h.wire, append_assoc]
  · rw [h.pending, k.pending, received_append, map_append, append_assoc]

/-- The same for a run that failed: it may have thrown away what it could not read. -/
structure Broke (es : List Event) (c c' : PgConn) : Prop where
  wire : c'.wire = c.wire ++ es
  pending : (received es).map .message <+: c.pending

theorem Ran.broke {es fs : List Event} {c d e : PgConn} (h : Ran es c d) (k : Broke fs d e) :
    Broke (es ++ fs) c e := by
  refine ⟨?_, ?_⟩
  · rw [k.wire, h.wire, append_assoc]
  · rw [h.pending, received_append, map_append]
    exact (prefix_append_right_inj _).mpr k.pending

theorem Broke.nil {c d : PgConn} (h : d.wire = c.wire) : Broke [] c d :=
    ⟨by rw [h, append_nil], nil_prefix⟩

def Talks {α : Type} (w : List Event) (x : Op α) (Q : α → List Event → Prop)
    (E : List Event → Prop) : Prop :=
  ∀ c : PgConn, c.wbuf = [] → c.wire = w →
    wp x (fun a d => ∃ es, Ran es c d ∧ Q a es) (fun _ d => ∃ es, Broke es c d ∧ E es) c

namespace Talks

variable {α β : Type} {w : List Event} {x : Op α} {Q Q' : α → List Event → Prop}
    {E E' : List Event → Prop}

theorem mono (h : Talks w x Q E) (hQ : ∀ a es, Q a es → Q' a es) (hE : ∀ es, E es → E' es) :
    Talks w x Q' E' := by
  intro c hc hw
  apply wp_mono (h c hc hw)
  · rintro a d ⟨es, hr, hq⟩
    exact ⟨es, hr, hQ a es hq⟩
  · rintro - d ⟨es, hw, he⟩
    exact ⟨es, hw, hE es he⟩

theorem pure {a : α} (h : Q a []) : Talks w (pure a) Q E := by
  intro c hc hw
  exact ⟨[], ⟨(append_nil _).symm, rfl, hc⟩, h⟩

theorem throw {e : Error} (h : E []) : Talks w (throw e) Q E := by
  intro c hc hw
  exact ⟨[], .nil rfl, h⟩

variable {R : β → List Event → Prop}

theorem bind {f : α → Op β} {F : List Event → Prop} (h : Talks w x Q E)
    (hE : ∀ es, E es → F es) (hf : ∀ a es, Q a es →
      Talks (w ++ es) (f a) (fun b fs => R b (es ++ fs)) (fun fs => F (es ++ fs))) :
    Talks w (x >>= f) R F := by
  intro c hc hw
  rw [wp_bind]
  apply wp_mono (h c hc hw)
  · rintro a d ⟨es, hr, hq⟩
    apply wp_mono (hf a es hq d hr.wbuf (hw ▸ hr.wire))
    · rintro b e ⟨fs, hs, hb⟩
      exact ⟨es ++ fs, hr.trans hs, hb⟩
    · rintro - e ⟨fs, hk, hb⟩
      exact ⟨es ++ fs, hr.broke hk, hb⟩
  · rintro - d ⟨es, hw, he⟩
    exact ⟨es, hw, hE es he⟩

theorem get_bind {f : PgConn → Op β} (hf : ∀ c : PgConn, c.wire = w → Talks w (f c) R E) :
    Talks w (get >>= f) R E := by
  intro c hc hw
  exact hf c hw c hc hw

theorem modify {g : PgConn → PgConn} {R : Unit → List Event → Prop} (h : R () [])
    (hg : ∀ c, (g c).wire = c.wire ∧ (g c).pending = c.pending ∧ (g c).wbuf = c.wbuf) :
    Talks w (modify g) R E := by
  intro c hc hw
  obtain ⟨hg, hp, hb⟩ := hg c
  exact ⟨[], ⟨by rw [hg, append_nil], by rw [hp]; rfl, by rw [hb, hc]⟩, h⟩

theorem ofExcept {r : Except Error α} (hok : ∀ a, r = .ok a → Q a [])
    (herr : ∀ e, r = .error e → E []) : Talks w (ofExcept r) Q E := by
  cases r with
  | ok a => exact .pure (hok a rfl)
  | error e => exact .throw (herr e rfl)

theorem ofExcept_bind {r : Except Error α} {f : α → Op β} (hE : E [])
    (hf : ∀ a, r = .ok a → Talks w (f a) R E) : Talks w (MonadExcept.ofExcept r >>= f) R E := by
  cases r with
  | ok a => exact hf a rfl
  | error e => exact .throw hE

theorem adaptExcept {f : Error → Error} (h : Talks w x Q E) : Talks w (x.adaptExcept f) Q E := by
  intro c hc hw
  have hx := h c hc hw
  unfold wp at *
  unfold EStateM.adaptExcept
  cases hr : x c with
  | ok a d =>
    rw [hr] at hx
    exact hx
  | error e d =>
    rw [hr] at hx
    exact hx

/-- `J` holds of the local value and the events so far at the start of every round. -/
theorem loop {ι : Type} {L : Loop PgConn Error ι β} {J : ι → List Event → Prop}
    {F : List Event → Prop} (hbody : ∀ i es, J i es → Talks (w ++ es) (L.body i)
      (fun r fs => r.elim (fun j => J j (es ++ fs)) (fun b => R b (es ++ fs)))
        (fun fs => F (es ++ fs)))
    {i : ι} (hi : J i []) : Talks w (L.run i) R F := by
  intro c hc hw
  apply L.wp_run (I := fun j d => d.wbuf = [] ∧ ∃ es, Ran es c d ∧ J j es)
  · rintro j d ⟨hd, es, hr, hj⟩
    apply wp_mono (hbody j es hj d hd (hw ▸ hr.wire))
    · rintro r e ⟨fs, hs, hq⟩
      cases r with
      | inl k => exact ⟨hs.wbuf, es ++ fs, hr.trans hs, hq⟩
      | inr b => exact ⟨es ++ fs, hr.trans hs, hq⟩
    · rintro - e ⟨fs, hk, hf⟩
      exact ⟨es ++ fs, hr.broke hk, hf⟩
  · exact ⟨hc, [], ⟨(append_nil _).symm, rfl, hc⟩, hi⟩

end Talks

/-! ## The primitives -/

structure Apart (c d : PgConn) : Prop where
  peer : d.peer = c.peer
  wbuf : d.wbuf = c.wbuf
  resultReader : d.resultReader = c.resultReader
  multiResultReader : d.multiResultReader = c.multiResultReader
  pipeline : d.pipeline = c.pipeline

/-- No message was read; at most a failure was taken off what is left to read. -/
structure Missed (c d : PgConn) : Prop extends Apart c d where
  wire : d.wire = c.wire
  status : d.status = .closed ∨ d.status = c.status
  pending : d.pending = c.pending ∨ ∃ timeout err, c.pending = .failure timeout err :: d.pending

structure Drew (msg : BackendMessage) (c d : PgConn) : Prop extends Apart c d where
  wasOpen : c.status ≠ .closed
  wire : d.wire = c.wire ++ [.received msg]
  pending : c.pending = .message msg :: d.pending

theorem Missed.unread {c d : PgConn} (h : Missed c d) : d.unread ≤ c.unread := by
  unfold PgConn.unread
  rcases h.pending with hp | ⟨timeout, err, hp⟩
  · rw [hp]
  · rw [hp, length_cons]
    omega

theorem Drew.unread {msg : BackendMessage} {c d : PgConn} (h : Drew msg c d) :
    d.unread + 1 = c.unread :=
  (congrArg length h.pending).symm

theorem peekMessage_spec (c : PgConn) :
    wp peekMessage (fun msg d => Apart c d ∧ d.wire = c.wire ∧ d.status = c.status ∧
      d.pending = c.pending ∧
      d.peekedMsg = some msg) (fun _ => Missed c) c := by
  unfold peekMessage
  rw [wp_bind, wp_get]
  cases hp : c.peekedMsg with
  | some msg => exact ⟨⟨rfl, rfl, rfl, rfl, rfl⟩, rfl, rfl, rfl, hp⟩
  | none =>
    cases hi : c.inbox with
    | nil => exact ⟨⟨rfl, rfl, rfl, rfl, rfl⟩, rfl, .inl rfl, .inl rfl⟩
    | cons i rest =>
      cases i with
      | message msg =>
        exact ⟨⟨rfl, rfl, rfl, rfl, rfl⟩, rfl, rfl, by simp [PgConn.pending, hp, hi], rfl⟩
      | failure timeout err =>
        have hpend : c.pending = .failure timeout err :: rest := by simp [PgConn.pending, hp, hi]
        cases timeout with
        | true => exact ⟨⟨rfl, rfl, rfl, rfl, rfl⟩, rfl, .inr rfl, .inr ⟨_, _, by rw [hpend]; rfl⟩⟩
        | false => exact ⟨⟨rfl, rfl, rfl, rfl, rfl⟩, rfl, .inl rfl, .inr ⟨_, _, by rw [hpend]; rfl⟩⟩

/-- All that receiving does: a message is handed on, or it is an error on which the error handler
closes the connection, or there is none. -/
theorem receiveMessage_spec (env : Env) (c : PgConn) : wp (receiveMessage env)
      (fun msg d => Drew msg c d ∧ d.status = c.status ∧ ∀ err, msg = .errorResponse err →
        env.closesOn err = false)
      (fun _ d => Missed c d ∨ ∃ err, Drew (.errorResponse err) c d ∧ d.status = .closed) c := by
  unfold receiveMessage
  rw [wp_bind, wp_get]
  by_cases hs : c.status = .closed
  · rw [if_pos hs]
    exact .inl ⟨⟨rfl, rfl, rfl, rfl, rfl⟩, rfl, .inr rfl, .inl rfl⟩
  · rw [if_neg hs, wp_bind]
    apply wp_mono (peekMessage_spec c)
    · rintro msg d ⟨⟨hpeer, hwbuf, hrr, hmrr, hpipe⟩, hwire, hstatus, hpend, hpeek⟩
      have hdrew : ∀ t : PgConn, t.peer = d.peer → t.wbuf = d.wbuf → t.resultReader = d.resultReader →
          t.multiResultReader = d.multiResultReader → t.pipeline = d.pipeline →
          t.wire = d.wire ++ [.received msg] →
          t.peekedMsg = none → t.inbox = d.inbox → Drew msg c t := by
        intro t h1 h2 h3 h4 h5 h6 h7 h8
        refine ⟨⟨h1.trans hpeer, h2.trans hwbuf, h3.trans hrr, h4.trans hmrr, h5.trans hpipe⟩,
          hs, by rw [h6, hwire], ?_⟩
        rw [← hpend]
        simp [PgConn.pending, hpeek, h7, h8]
      cases msg with
      | errorResponse err =>
        unfold noteMessage Env.closesOn
        cases env.onPgError with
        | none => exact ⟨hdrew _ rfl rfl rfl rfl rfl rfl rfl rfl, hstatus, fun _ _ => rfl⟩
        | some handler =>
          by_cases hh : handler err = true
          · simp only [hh, if_true]
            refine ⟨hdrew _ rfl rfl rfl rfl rfl rfl rfl rfl, hstatus, fun err' herr => ?_⟩
            cases herr
            simp [hh]
          · simp only [hh]
            exact .inr ⟨err, hdrew _ rfl rfl rfl rfl rfl rfl rfl rfl, rfl⟩
      | _ => exact ⟨hdrew _ rfl rfl rfl rfl rfl rfl rfl rfl, hstatus, nofun⟩
    · exact fun _ _ hd => .inl hd

/-- A message that is handed on, or a server error that closed the connection. -/
theorem receiveMessage_talks {w : List Event} (env : Env) :
    Talks w (receiveMessage env) (fun msg es => es = [.received msg])
      (fun es => es = [] ∨ ∃ err, es = [.received (.errorResponse err)]) := by
  intro c hc _
  apply wp_mono (receiveMessage_spec env c)
  · rintro msg d ⟨hd, -⟩
    exact ⟨_, ⟨hd.wire, hd.pending, hd.wbuf.trans hc⟩, rfl⟩
  · rintro - d (hd | ⟨err, hd, -⟩)
    · exact ⟨[], .nil hd.wire, .inl rfl⟩
    · exact ⟨_, ⟨hd.wire, ⟨d.pending, hd.pending.symm⟩⟩, .inr ⟨err, rfl⟩⟩

/-- One message is sent, also when the write reports an error. -/
theorem transmit_talks {w : List Event} (env : Env) (msg : FrontendMessage) :
    Talks w (do send msg; writeBuffer env) (fun _ es => es = [.sent msg])
      (fun es => es = [.sent msg]) := by
  intro c hc _
  unfold send writeBuffer
  rw [wp_bind, wp_modify, wp_bind, wp_get]
  cases env.write c.wire (c.wbuf ++ [msg]) with
  | some err => exact ⟨[.sent msg], ⟨by simp [hc], nil_prefix⟩, rfl⟩
  | none => exact ⟨_, ⟨by simp [hc], rfl, rfl⟩, rfl⟩

/-!
## Progress

A run of `x` that returns takes at least `n` messages off those that are left to
read. Nothing is said about runs that fail, which end every loop.
-/

def Reads {α : Type} (n : Nat) (x : Op α) : Prop :=
  ∀ c : PgConn, wp x (fun _ d => d.unread + n ≤ c.unread) (fun _ _ => True) c

namespace Reads

variable {α β : Type} {x : Op α} {m n : Nat}

theorem pure {a : α} : Reads 0 (pure a : Op α) := fun _ => le_rfl

theorem throw {e : Error} : Reads n (throw e : Op α) := fun _ => trivial

theorem bind {f : α → Op β} (h : Reads m x) (hf : ∀ a, Reads n (f a)) : Reads (m + n) (x >>= f) := by
  intro c
  rw [wp_bind]
  apply wp_mono (h c)
  · intro a d hd
    apply wp_mono (hf a d)
    · intro b e he
      omega
    · exact fun _ _ _ => trivial
  · exact fun _ _ _ => trivial

theorem weaken (h : Reads m x) (hn : n ≤ m) : Reads n x := by
  intro c
  apply wp_mono (h c)
  · intro a d hd
    omega
  · exact fun _ _ _ => trivial

theorem get_bind {f : PgConn → Op β} (hf : ∀ c, Reads n (f c)) : Reads n (get >>= f) :=
    fun c => hf c c

theorem modify {g : PgConn → PgConn} (hg : ∀ c, (g c).pending = c.pending) :
    Reads 0 (modify g : Op PUnit) := by
  intro c
  show (g c).unread ≤ c.unread
  unfold PgConn.unread
  rw [hg c]

theorem ofExcept {r : Except Error α} : Reads 0 (ofExcept r : Op α) := by
  cases r with
  | ok a => exact .pure
  | error e => exact .throw

theorem adaptExcept {f : Error → Error} (h : Reads n x) : Reads n (x.adaptExcept f) := by
  intro c
  have hx := h c
  unfold wp at *
  unfold EStateM.adaptExcept
  cases hr : x c with
  | ok a d =>
    rw [hr] at hx
    exact hx
  | error e d => trivial

theorem progress {a : α} {c d : PgConn} (h : Reads 1 x) (hr : x c = .ok a d) :
    d.unread < c.unread := by
  have hd := wp_of_ok (h c) hr
  exact hd

theorem loop {ι : Type} {L : Loop PgConn Error ι β} (h : ∀ i, Reads 0 (L.body i)) (i : ι) :
    Reads 0 (L.run i) := by
  intro c
  apply L.wp_run (I := fun _ d => d.unread ≤ c.unread)
  · intro j d hd
    apply wp_mono (h j d)
    · intro r e he
      have hle : e.unread ≤ c.unread := Nat.le_trans he hd
      cases r with
      | inl k => exact hle
      | inr b => exact hle
    · exact fun _ _ _ => trivial
  · exact le_rfl

end Reads

theorem receiveMessage_reads (env : Env) : Reads 1 (receiveMessage env) := by
  intro c
  apply wp_mono (receiveMessage_spec env c)
  · exact fun _ _ hd => Nat.le_of_eq hd.1.unread
  · exact fun _ _ _ => trivial

theorem send_reads (msg : FrontendMessage) : Reads 0 (send msg) := Reads.modify fun _ => rfl

theorem writeBuffer_reads (env : Env) : Reads 0 (writeBuffer env) := by
  intro c
  unfold writeBuffer
  rw [wp_bind, wp_get]
  cases env.write c.wire c.wbuf with
  | some err => trivial
  | none => exact le_rfl

end Pgx.Conn
