import Pgx.Conn.Conforming

/-!
# Operations stay in step with the server

The invariant of a connection outside pipeline mode. An idle connection has
consumed one `ReadyForQuery` for each request, and has nothing of an old answer
left to read; a busy one has at most one answer outstanding. Every operation and
every method of a reader keeps it, but for `Deallocate` on a server error and a
batch that is executed again.
-/
namespace Pgx.Conn

open Pgx.Go Pgx.Wire Pgx.Effect

variable {msgs : List FrontendMessage} {m : Nat}

/-- At most `k` answers are outstanding. -/
structure Outstanding (owed : List Event → Nat) (k : Nat) (c : PgConn) : Prop where
  server : Conforming c.peer owed
  wbuf : c.wbuf = []
  count : sentAsks c.wire = readySeen c.wire + readyCount c.pending + owed c.wire
  settled : owed c.wire = 0 → AllAsync (afterReady c.pending)
  bound : readyCount c.pending + owed c.wire ≤ k

/-- When the connection is idle nothing is outstanding, and at most `k` answers are when it is
busy. Nothing is asked of a closed connection. -/
def Within (owed : List Event → Nat) (k : Nat) (c : PgConn) : Prop :=
  match c.status with
  | .closed => True
  | .idle => Outstanding owed 0 c
  | .busy => Outstanding owed k c
  | _ => False

/-- The invariant of the connection between calls. -/
abbrev Inv (owed : List Event → Nat) : PgConn → Prop := Within owed 1

section Invariant

variable {owed : List Event → Nat} {k : Nat} {c d : PgConn}

theorem Outstanding.congr (h : Outstanding owed k c) (hpeer : d.peer = c.peer)
    (hbuf : d.wbuf = c.wbuf)
    (hwire : d.wire = c.wire) (hpend : d.pending = c.pending) : Outstanding owed k d := by
  obtain ⟨server, wbuf, count, settled, bound⟩ := h
  constructor
  · rwa [hpeer]
  · rwa [hbuf]
  · rwa [hwire, hpend]
  · rwa [hwire, hpend]
  · rwa [hwire, hpend]

theorem Outstanding.mono (h : Outstanding owed k c) (hle : k ≤ m) : Outstanding owed m c :=
  { h with bound := Nat.le_trans h.bound hle }

theorem Within.of_closed (h : c.status = .closed) : Within owed k c := by
  unfold Within
  rw [h]
  trivial

theorem Within.mono (h : Within owed k c) (hle : k ≤ m) : Within owed m c := by
  unfold Within at *
  cases hs : c.status with
  | closed => trivial
  | idle => rwa [hs] at h
  | busy =>
    rw [hs] at h
    exact h.mono hle
  | _ => rw [hs] at h; exact h

/-- Closed, idle with nothing outstanding, or busy -/
theorem Within.cases {P : Prop} (h : Within owed k c) (hclosed : c.status = .closed → P)
    (hidle : c.status = .idle → Outstanding owed 0 c → P)
    (hbusy : c.status = .busy → Outstanding owed k c → P) : P := by
  unfold Within at h
  cases hs : c.status with
  | closed => exact hclosed hs
  | idle => exact hidle hs (by rwa [hs] at h)
  | busy => exact hbusy hs (by rwa [hs] at h)
  | _ => rw [hs] at h; exact h.elim

theorem Within.of_idle (hs : c.status = .idle) (h : Outstanding owed 0 c) : Within owed k c := by
  unfold Within
  rwa [hs]

theorem Within.of_busy (hs : c.status = .busy) (h : Outstanding owed k c) : Within owed k c := by
  unfold Within
  rwa [hs]

theorem Within.congr (h : Within owed k c) (hstatus : d.status = c.status) (hpeer : d.peer = c.peer)
    (hbuf : d.wbuf = c.wbuf) (hwire : d.wire = c.wire) (hpend : d.pending = c.pending) :
    Within owed k d := by
  apply h.cases
  · exact fun hs => .of_closed (hstatus.trans hs)
  · exact fun hs ho => .of_idle (hstatus.trans hs) (ho.congr hpeer hbuf hwire hpend)
  · exact fun hs ho => .of_busy (hstatus.trans hs) (ho.congr hpeer hbuf hwire hpend)

theorem Outstanding.receive {msg : BackendMessage} (h : Outstanding owed k c)
    (hpeer : d.peer = c.peer) (hbuf : d.wbuf = c.wbuf) (hwire : d.wire = c.wire ++ [.received msg])
    (hpend : c.pending = .message msg :: d.pending) :
    Outstanding owed (k - if msg.isReadyForQuery then 1 else 0) d := by
  have howed : owed d.wire = owed c.wire := by rw [hwire, h.server.received]
  have hready : readyCount c.pending = readyCount d.pending +
      if msg.isReadyForQuery then 1 else 0 := by
    rw [hpend, readyCount_cons]
    rfl
  have hcount := h.count
  have hbound := h.bound
  constructor
  · rw [hpeer]
    exact h.server
  · rw [hbuf, h.wbuf]
  · rw [howed, hwire]
    simp only [sentAsks, readySeen, List.countP_append] at hcount ⊢
    simp
    omega
  · intro h0
    have hs := h.settled (howed ▸ h0)
    rw [hpend] at hs
    exact hs.tail
  · omega

theorem Outstanding.skip {timeout : Bool} {err : Error} (h : Outstanding owed k c)
    (hpeer : d.peer = c.peer) (hbuf : d.wbuf = c.wbuf) (hwire : d.wire = c.wire)
    (hpend : c.pending = .failure timeout err :: d.pending) : Outstanding owed k d := by
  have hready : readyCount c.pending = readyCount d.pending := by
    rw [hpend]
    rfl
  have hcount := h.count
  have hbound := h.bound
  constructor
  · rw [hpeer]
    exact h.server
  · rw [hbuf, h.wbuf]
  · rw [hwire]
    omega
  · intro h0
    rw [hwire] at h0
    have hs := h.settled h0
    rw [hpend] at hs
    exact hs.tail
  · rw [hwire]
    omega

/-- A request is sent when nothing is outstanding, and copy messages at any time. -/
theorem Outstanding.request (h : Outstanding owed k c)
    (hreq : Requests msgs) (hpeer : d.peer = c.peer) (hbuf : d.wbuf = [])
    (hwire : d.wire = c.wire ++ msgs.map .sent)
    (hpend : d.pending = c.pending ++ c.peer c.wire msgs) :
    Outstanding owed (k + askCount msgs) d := by
  have hbal := h.server.balance c.wire msgs hreq
  have hready : readyCount d.pending = readyCount c.pending + readyCount (c.peer c.wire msgs) := by
    rw [hpend, readyCount_append]
  have hcount := h.count
  have hbound := h.bound
  rw [← hwire] at hbal
  constructor
  · rw [hpeer]
    exact h.server
  · exact hbuf
  · rw [hwire, sentAsks_sent, readySeen_sent, ← hwire]
    omega
  · intro h0
    rw [hpend]
    apply AllAsync.afterReady_append
    · intro hnone
      apply h.settled
      omega
    · apply h.server.settled c.wire msgs hreq
      rw [← hwire]
      exact h0
  · omega

end Invariant

/-! ## Computations that keep it -/

/-- From at most `j` outstanding answers to at most `Q a`, where `a` is what `x` returns, or to
at most `E e`, where `e` is the error. -/
def Keeps (owed : List Event → Nat) {α : Type} (j : Nat) (x : Op α) (Q : α → Nat)
    (E : Error → Nat) : Prop :=
  ∀ c, Within owed j c → wp x (fun a => Within owed (Q a)) (fun e => Within owed (E e)) c

abbrev one {α : Type} : α → Nat := fun _ => 1

abbrev zero {α : Type} : α → Nat := fun _ => 0

/-- No answer is outstanding after an error that the caller looks at. -/
abbrev zeroUnlessPanic : Error → Nat := fun e => if e.isPanic then 1 else 0

def left (msg : BackendMessage) : Nat := if msg.isReadyForQuery then 0 else 1

theorem left_le (msg : BackendMessage) : left msg ≤ 1 := by
  unfold left
  split <;> omega

namespace Keeps

variable {owed : List Event → Nat} {α β ι : Type} {x : Op α} {i j k : Nat} {Q : α → Nat}
  {E : Error → Nat}

theorem pure {a : α} (h : j ≤ Q a) : Keeps owed j (pure a) Q E := fun _ hc => hc.mono h

theorem throw {e : Error} (h : j ≤ E e) : Keeps owed j (throw e) Q E := fun _ hc => hc.mono h

variable {R : β → Nat}

theorem bind {f : α → Op β} (h : Keeps owed j x Q E)
    (hf : ∀ a, Keeps owed (Q a) (f a) R E) : Keeps owed j (x >>= f) R E := by
  intro c hc
  rw [wp_bind]
  exact wp_weaken (h c hc) fun a d hd => hf a d hd

theorem get_bind {f : PgConn → Op β} (hf : ∀ c, Keeps owed j (f c) R E) :
    Keeps owed j (get >>= f) R E := fun c hc => hf c c hc

theorem map {f : α → β} (h : Keeps owed j x (fun a => R (f a)) E) : Keeps owed j (f <$> x) R E := by
  intro c hc
  rw [wp_map]
  exact h c hc

theorem discard (h : Keeps owed j x (fun _ => k) E) :
    Keeps owed j (discard x) (fun _ => k) E := Keeps.map h

/-- Fewer answers are outstanding before, and more afterwards. -/
theorem weaken {R : α → Nat} {F : Error → Nat} (h : Keeps owed j x Q E) (hi : i ≤ j)
    (hQ : ∀ a, Q a ≤ R a) (hE : ∀ e, E e ≤ F e) : Keeps owed i x R F := by
  intro c hc
  apply wp_mono (h c (hc.mono hi))
  · exact fun a d hd => hd.mono (hQ a)
  · exact fun e d hd => hd.mono (hE e)

theorem modify {g : PgConn → PgConn} (hg : ∀ c, (g c).status = c.status ∧ (g c).peer = c.peer ∧
    (g c).wbuf = c.wbuf ∧ (g c).wire = c.wire ∧ (g c).pending = c.pending) :
    Keeps owed j (modify g) (fun _ => j) E := by
  intro c hc
  obtain ⟨hs, hp, hb, hw, hd⟩ := hg c
  exact hc.congr hs hp hb hw hd

theorem outcome_bind {f : Except Error α → Op β} {F : Error → Nat}
    (h : Keeps owed j x Q E) (hok : ∀ a, Keeps owed (Q a) (f (.ok a)) R F)
    (herr : ∀ e, e.isPanic = false → Keeps owed (E e) (f (.error e)) R F)
    (hpanic : ∀ e, e.isPanic = true → E e ≤ F e) : Keeps owed j (outcome x >>= f) R F := by
  intro c hc
  rw [wp_bind, wp_attempt_iff]
  apply wp_mono (h c hc)
  · exact fun a d hd => hok a d hd
  · intro e d hd
    by_cases hp : e.isPanic = true
    · rw [if_pos hp]
      exact hd.mono (hpanic e hp)
    · rw [if_neg hp]
      exact herr e (Bool.eq_false_iff.mpr hp) d hd

/-- Every round keeps the invariant, and the last one leaves what the loop promises. -/
theorem loop {L : Loop PgConn Error ι β}
    (hbody : ∀ i, Keeps owed j (L.body i) (fun r => r.elim (fun _ => j) R) E) (i : ι) :
    Keeps owed j (L.run i) R E := by
  intro c hc
  apply L.wp_run (I := fun _ => Within owed j)
  · intro j d hd
    refine wp_weaken (hbody j d hd) fun r e he => ?_
    cases r with
    | inl j => exact he
    | inr b => exact he
  · exact hc

end Keeps

section Primitives

variable {owed : List Event → Nat} {α β ι : Type} {j k : Nat} {E : Error → Nat}

theorem asyncClose_keeps : Keeps owed j asyncClose zero E := by
  intro c _
  show Within owed 0 { c with status := .closed }
  exact .of_closed rfl

theorem closeAndThrow_keeps {Q : α → Nat} (err : Error) : Keeps owed j (closeAndThrow err) Q E := by
  intro c _
  show Within owed (E err) { c with status := .closed }
  exact .of_closed rfl

theorem modifyReader_keeps (f : ResultReader → ResultReader) :
    Keeps owed j (modifyReader f) (fun _ => j) E := Keeps.modify fun _ => ⟨rfl, rfl, rfl, rfl, rfl⟩

theorem modifyMulti_keeps (f : MultiResultReader → MultiResultReader) :
    Keeps owed j (modifyMulti f) (fun _ => j) E := Keeps.modify fun _ => ⟨rfl, rfl, rfl, rfl, rfl⟩

/-- The connection is unlocked when the answer has been read. -/
theorem unlock_keeps : Keeps owed 0 unlock zero E := by
  intro c hc
  unfold unlock
  rw [wp_bind, wp_get]
  cases hs : c.status with
  | busy =>
    have ho : Outstanding owed 0 c := hc.cases (fun h => nomatch hs.symm.trans h)
      (fun h => nomatch hs.symm.trans h) (fun _ h => h)
    show Within owed 0 { c with status := .idle }
    exact .of_idle rfl (ho.congr rfl rfl rfl rfl)
  | closed => exact hc
  | _ => exact hc.mono (Nat.zero_le _)

variable {c : PgConn}

theorem Missed.within {d : PgConn} (h : Missed c d) (hc : Within owed j c) : Within owed j d := by
  rcases h.status with hs | hs
  · exact .of_closed hs
  · rcases h.pending with hp | ⟨timeout, err, hp⟩
    · exact hc.congr hs h.peer h.wbuf h.wire hp
    · apply hc.cases
      · exact fun hc => .of_closed (hs.trans hc)
      · exact fun hc ho => .of_idle (hs.trans hc) (ho.skip h.peer h.wbuf h.wire hp)
      · exact fun hc ho => .of_busy (hs.trans hc) (ho.skip h.peer h.wbuf h.wire hp)

theorem peekMessage_keeps : Keeps owed j peekMessage (fun _ => j) (fun _ => j) := by
  intro c hc
  apply wp_mono (peekMessage_spec c)
  · rintro msg d ⟨hd, hwire, hstatus, hpend, -⟩
    exact hc.congr hstatus hd.peer hd.wbuf hwire hpend
  · exact fun _ _ hd => hd.within hc

/-- The message is taken off the network; `ReadyForQuery` ends the answer. -/
theorem receiveMessage_within (env : Env) :
    Keeps owed j (receiveMessage env) (fun msg => j - if msg.isReadyForQuery then 1 else 0)
      (fun _ => j) := by
  intro c hc
  apply wp_mono (receiveMessage_spec env c)
  · rintro msg d ⟨hd, hstatus, -⟩
    apply hc.cases
    · exact fun hs => absurd hs hd.wasOpen
    · intro hs ho
      exact .of_idle (hstatus.trans hs)
        ((ho.receive hd.peer hd.wbuf hd.wire hd.pending).mono (by omega))
    · exact fun hs ho => .of_busy (hstatus.trans hs) (ho.receive hd.peer hd.wbuf hd.wire hd.pending)
  · rintro - d (hd | ⟨err, -, hs⟩)
    · exact hd.within hc
    · exact .of_closed hs

theorem receiveMessage_keeps (env : Env) : Keeps owed 1 (receiveMessage env) left one := by
  refine (receiveMessage_within env).weaken (Nat.le_refl 1) (fun msg => ?_) fun _ => Nat.le_refl 1
  unfold left
  split <;> omega

/-- The connection is held by an operation, which has these messages in the write buffer. -/
structure Held (owed : List Event → Nat) (k : Nat) (msgs : List FrontendMessage)
    (c : PgConn) : Prop where
  wbuf : c.wbuf = msgs
  notIdle : c.status ≠ .idle
  within : Within owed k { c with wbuf := [] }

theorem Held.inv (h : Held owed k [] c) : Within owed k c := h.within.congr rfl rfl h.wbuf rfl rfl

theorem Held.mono (h : Held owed k [] c) (hle : k ≤ m) : Held owed m [] c :=
    { h with within := h.within.mono hle }

theorem Held.sendAll (h : Held owed k msgs c)
    (more : List FrontendMessage) : Held owed k (msgs ++ more) { c with wbuf := c.wbuf ++ more } where
  wbuf := by rw [h.wbuf]
  notIdle := h.notIdle
  within := h.within

theorem lock_held (hc : Inv owed c) : wp lock (fun _ => Held owed 0 []) (fun _ => Inv owed) c := by
  unfold lock
  rw [wp_bind, wp_get]
  cases hs : c.status with
  | idle =>
    have ho : Outstanding owed 0 c := hc.cases (fun h => nomatch hs.symm.trans h) (fun _ h => h)
      (fun h => nomatch hs.symm.trans h)
    refine ⟨ho.wbuf, nofun, ?_⟩
    exact .of_busy rfl (ho.congr rfl ho.wbuf.symm rfl rfl)
  | connecting => exact (hc.cases (fun h => nomatch hs.symm.trans h)
      (fun h => nomatch hs.symm.trans h) (fun h => nomatch hs.symm.trans h) : False).elim
  | _ => exact hc

theorem flush_held {env : Env} (h : Held owed k msgs c) (hne : msgs ≠ []) (hreq : Requests msgs) :
    wp (flush env) (fun _ => Held owed (k + askCount msgs) []) (fun e _ => e.isPanic = false) c := by
  obtain ⟨rfl, hbusy, hw⟩ := h
  unfold flush
  rw [wp_bind, wp_get]
  cases hb : c.wbuf with
  | nil => exact absurd hb hne
  | cons m ms =>
    simp only [← hb]
    unfold writeBuffer
    rw [wp_bind, wp_bind, wp_get]
    cases env.write c.wire c.wbuf with
    | some text => rfl
    | none =>
      refine ⟨rfl, hbusy, ?_⟩
      apply hw.cases
      · exact fun hs => .of_closed hs
      · exact fun hs => absurd hs hbusy
      · intro hs ho
        refine .of_busy hs (ho.request hreq rfl rfl rfl ?_)
        simp [PgConn.pending]

/-- What follows a flush, when it closes the connection on an error. -/
theorem wp_outcome_flush {env : Env} {f : Except Error Unit → Op β} {Q : β → PgConn → Prop}
    {F : Error → PgConn → Prop} (h : Held owed k msgs c) (hne : msgs ≠ []) (hreq : Requests msgs)
    (hok : ∀ d, Held owed (k + askCount msgs) [] d → wp (f (.ok ())) Q F d)
    (herr : ∀ e d, wp (f (.error e)) Q F d) : wp (outcome (flush env) >>= f) Q F c := by
  rw [wp_bind, wp_attempt_iff]
  apply wp_mono (flush_held h hne hreq)
  · exact fun _ d hd => hok d hd
  · intro e d hp
    rw [if_neg (by simp [hp])]
    exact herr e d

theorem flushOrClose_held (env : Env) (h : Held owed k msgs c) (hne : msgs ≠ [])
    (hreq : Requests msgs) :
    wp (flushOrClose env) (fun _ => Held owed (k + askCount msgs) [])
      (fun _ d => d.status = .closed) c := by
  refine wp_outcome_flush h hne hreq ?_ ?_
  · exact fun d hd => hd
  · exact fun e d => rfl

theorem receiveMessage_held (env : Env) (hc : Held owed 1 [] c) :
    wp (receiveMessage env) (fun msg => Held owed (left msg) []) (fun _ => Held owed 1 []) c := by
  have hheld : ∀ {k d}, Within owed k d → (d.status = .closed ∨ d.status = c.status) →
      d.wbuf = c.wbuf → Held owed k [] d := by
    intro k d hw hs hb
    have hb' : d.wbuf = [] := by rw [hb, hc.wbuf]
    refine ⟨hb', ?_, hw.congr rfl rfl hb'.symm rfl rfl⟩
    rcases hs with hs | hs
    · rw [hs]
      exact nofun
    · rw [hs]
      exact hc.notIdle
  apply wp_mono (wp_and (receiveMessage_keeps env c hc.inv) (receiveMessage_spec env c))
  · exact fun msg d hd => hheld hd.1 (.inr hd.2.2.1) hd.2.1.wbuf
  · rintro e d ⟨hk, hd | ⟨err, hd, hs⟩⟩
    · exact hheld hk hd.status hd.wbuf
    · exact hheld hk (.inl hs) hd.wbuf

/-- A function that unlocks when it returns has read the answer by then. -/
theorem wp_deferUnlock {body : Op α}
    (h : wp body (fun _ => Within owed 0) (fun e => Within owed (zeroUnlessPanic e)) c) :
    wp (deferUnlock body) (fun _ => Inv owed) (fun _ => Inv owed) c := by
  unfold deferUnlock
  rw [wp_bind, wp_attempt_iff]
  apply wp_mono h
  · intro a d hd
    have hun : Keeps owed 0 (do unlock; pure a) one one :=
      unlock_keeps.bind fun _ => .pure (Nat.zero_le _)
    exact hun d hd
  · intro e d hd
    by_cases hp : e.isPanic = true
    · rw [if_pos hp]
      have hle : zeroUnlessPanic e ≤ 1 := by simp [zeroUnlessPanic, hp]
      exact hd.mono hle
    · rw [if_neg hp]
      have hle : zeroUnlessPanic e ≤ 0 := by simp [zeroUnlessPanic, hp]
      have hun : Keeps owed 0 (do unlock; throw e : Op α) one one :=
        unlock_keeps.bind fun _ => .throw (Nat.zero_le _)
      exact hun d (hd.mono hle)

end Primitives

end Pgx.Conn
