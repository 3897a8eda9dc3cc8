import Pgx.Conn.InSync

/-!
# Readers and operations keep the invariant

One lemma for each method of a reader and for each operation. `Deallocate` and
`ExecBatch` need an assumption: that no server error stops `Deallocate` before
the end of the answer, and that the batch asks for one answer only.
-/
namespace Pgx.Conn

open Pgx.Go Pgx.Wire Pgx.Effect List

variable {msgs : List FrontendMessage}

/-! ## The readers -/

section Readers

variable {owed : List Event → Nat} {ι β : Type} {E : Error → Nat}

/-- A loop keeps what each of its rounds keeps. -/
theorem readLoop_keeps {recv : Op BackendMessage} {hrecv : Reads 1 recv} {done : PgConn → Option β}
    {onError : Error → Op β} {step : ι → BackendMessage → Op (ι ⊕ β)}
    {hstep : ∀ i msg, Reads 0 (step i msg)} {k : Nat} {Q : BackendMessage → Nat} {R : β → Nat}
    (hr : Keeps owed k recv Q (fun _ => k)) (hdone : ∀ c b, done c = some b → k ≤ R b)
    (herr : ∀ e, Keeps owed k (onError e) R E)
    (hs : ∀ i msg, Keeps owed (Q msg) (step i msg) (fun r => r.elim (fun _ => k) R) E)
    (hpanic : ∀ e, e.isPanic = true → k ≤ E e) (i : ι) :
    Keeps owed k ((readLoop recv hrecv done onError step hstep).run i) R E := by
  refine .loop (fun i => ?_) i
  refine .get_bind fun c => ?_
  cases hd : done c with
  | some b => exact .pure (hdone c b hd)
  | none => exact hr.outcome_bind (fun msg => hs i msg) (fun e _ => .map (f := Sum.inr) (herr e)) hpanic

theorem MultiResultReader.note_keeps (msg : BackendMessage) :
    Keeps owed (left msg) (MultiResultReader.note msg) (fun _ => left msg) E := by
  cases msg with
  | readyForQuery tx => exact (modifyMulti_keeps _).bind fun _ => unlock_keeps
  | errorResponse err => exact .modify fun _ => ⟨rfl, rfl, rfl, rfl, rfl⟩
  | _ => exact .pure le_rfl

theorem MultiResultReader.receiveMessage_keeps (env : Env) :
    Keeps owed 1 (MultiResultReader.receiveMessage env) left one := by
  refine (Conn.receiveMessage_keeps env).outcome_bind (fun msg => ?_)
    (fun e _ => ?_) fun _ _ => Nat.le_refl 1
  · exact (note_keeps msg).bind fun _ => .pure le_rfl
  · exact (modifyMulti_keeps _).bind fun _ => closeAndThrow_keeps e

namespace ResultReader

theorem notePipeline_keeps {j : Nat} (msg : BackendMessage) :
    Keeps owed j (notePipeline msg) (fun _ => j) E := by
  cases msg with
  | errorResponse err =>
    refine .modify fun c => ?_
    split <;> exact ⟨rfl, rfl, rfl, rfl, rfl⟩
  | _ => exact .pure le_rfl

theorem fail_keeps (multi : Bool) (err : Error) : Keeps owed 1 (fail multi err) left one := by
  refine (modifyReader_keeps _).bind fun _ => ?_
  cases multi with
  | true => exact .get_bind fun c => .throw le_rfl
  | false => exact asyncClose_keeps.bind fun _ => .get_bind fun c => .throw (Nat.zero_le _)

theorem receiveMessage_keeps (env : Env) : Keeps owed 1 (receiveMessage env) left one := by
  refine .get_bind fun c => ?_
  have hrecv : Keeps owed 1 (if c.resultReader.multiResultReader then
      MultiResultReader.receiveMessage env else Conn.receiveMessage env) left one := by
    cases c.resultReader.multiResultReader with
    | true => exact MultiResultReader.receiveMessage_keeps env
    | false => exact Conn.receiveMessage_keeps env
  refine hrecv.outcome_bind (fun msg => ?_) (fun e _ => fail_keeps _ e) fun _ _ => Nat.le_refl 1
  exact (notePipeline_keeps msg).bind fun _ => (modifyReader_keeps _).bind fun _ => .pure le_rfl

theorem nextRow_keeps (env : Env) : Keeps owed 1 (nextRow env) one one := by
  refine .get_bind fun c => ?_
  by_cases hp : c.resultReader.preloaded = true
  · rw [if_pos hp]
    exact (modifyReader_keeps _).bind fun _ => .pure le_rfl
  · rw [if_neg hp]
    refine readLoop_keeps (receiveMessage_keeps env) (fun _ _ _ => le_rfl)
      (fun _ => .pure le_rfl) (fun _ msg => ?_) (fun _ _ => le_rfl) ()
    cases msg with
    | dataRow values => exact (modifyReader_keeps _).bind fun _ => .pure le_rfl
    | readyForQuery tx => exact .pure (Nat.zero_le _)
    | _ => exact .pure le_rfl

theorem concludeLoop_keeps (env : Env) : Keeps owed 1 ((concludeLoop env).run ()) one one := by
  refine readLoop_keeps (receiveMessage_keeps env) (fun _ _ _ => le_rfl)
    (fun _ => .pure le_rfl) (fun _ msg => ?_) (fun _ _ => le_rfl) ()
  exact .pure (left_le msg)

theorem readyLoop_keeps (env : Env) : Keeps owed 1 ((readyLoop env).run ()) one one := by
  refine readLoop_keeps (receiveMessage_keeps env) (fun _ _ _ => le_rfl)
    (fun _ => .pure le_rfl) (fun _ msg => ?_) (fun _ _ => le_rfl) ()
  cases msg with
  | errorResponse err => exact (modifyReader_keeps _).bind fun _ => .pure le_rfl
  | readyForQuery tx => exact unlock_keeps.bind fun _ => .pure (Nat.zero_le _)
  | _ => exact .pure le_rfl

theorem close_keeps (env : Env) : Keeps owed 1 (close env) one one := by
  refine .get_bind fun c => ?_
  split
  · exact .pure le_rfl
  · refine (modifyReader_keeps _).bind fun _ => (concludeLoop_keeps env).bind fun ok =>
      Keeps.get_bind fun d => ?_
    split
    · exact .pure le_rfl
    · split
      · exact .pure le_rfl
      · exact (readyLoop_keeps env).bind fun _ => .get_bind fun _ => .pure le_rfl

theorem readUntilRowDescription_keeps (env : Env) (sd : Option StatementDescription)
    (resultFormats : List Int) :
    Keeps owed 1 (readUntilRowDescription env sd resultFormats) one one := by
  refine readLoop_keeps (receiveMessage_keeps env) (fun _ _ _ => le_rfl)
    (fun _ => .pure le_rfl) (fun _ msg => ?_) (fun _ _ => le_rfl) ()
  cases msg with
  | dataRow values => exact (modifyReader_keeps _).bind fun _ => .pure le_rfl
  | commandComplete tag => exact (modifyReader_keeps _).bind fun _ => .pure le_rfl
  | readyForQuery tx => exact .pure (Nat.zero_le _)
  | _ => exact .pure le_rfl

end ResultReader

namespace MultiResultReader

theorem describeRows_keeps : Keeps owed 1 describeRows one one := by
  refine .get_bind fun c => ?_
  split
  · exact (modifyMulti_keeps _).bind fun _ => .pure le_rfl
  · exact .throw le_rfl
  · exact (modifyMulti_keeps _).bind fun _ => (modifyReader_keeps _).bind fun _ => .pure le_rfl

theorem receiveResult_keeps (env : Env) : Keeps owed 1 (receiveResult env) one one := by
  refine (receiveMessage_keeps env).outcome_bind (fun msg => ?_)
    (fun _ _ => .pure le_rfl) fun _ _ => Nat.le_refl 1
  dsimp only
  cases startResult msg with
  | none => exact .pure (left_le msg)
  | some rr => exact (modifyReader_keeps _).bind fun _ => (modifyMulti_keeps _).bind fun _ =>
      Keeps.pure (left_le msg)

theorem nextResult_keeps (env : Env) : Keeps owed 1 (nextResult env) one one := by
  have hround : ∀ r : Unit ⊕ Bool, 1 ≤ r.elim one one := by
    intro r
    cases r <;> exact Nat.le_refl 1
  refine .loop (fun u => ?_) ()
  refine .get_bind fun c => ?_
  split
  · exact .pure le_rfl
  · have hrecv : Keeps owed 1 (receiveResult env) (fun r => r.elim one one) one :=
      (receiveResult_keeps env).weaken le_rfl hround fun _ => Nat.le_refl 1
    refine peekMessage_keeps.outcome_bind (fun msg => ?_) (fun _ _ => hrecv) fun _ _ => Nat.le_refl 1
    cases msg with
    | dataRow values => exact .map (f := Sum.inr) describeRows_keeps
    | _ => exact hrecv

theorem close_keeps (env : Env) : Keeps owed 1 (close env) one one := by
  have hloop : Keeps owed 1 ((closeLoop env).run ()) one one := by
    refine readLoop_keeps (receiveMessage_keeps env) (fun _ _ _ => le_rfl)
      (fun _ => .pure le_rfl) (fun _ msg => ?_) (fun _ _ => le_rfl) ()
    exact .pure (left_le msg)
  exact hloop.bind fun _ => .get_bind fun _ => .pure le_rfl

end MultiResultReader

end Readers

/-! ## The operations -/

theorem requests_of_last (init : List FrontendMessage) {last : FrontendMessage}
    (hlast : last.asks = true) (hinit : ∀ msg ∈ init, msg.asks = false) :
    Requests (init ++ [last]) ∧ askCount (init ++ [last]) = 1 := by
  constructor
  · exact .inl ⟨init, last, rfl, hlast, hinit⟩
  · have hzero : init.countP FrontendMessage.asks = 0 := by
      rw [countP_eq_zero]
      intro msg hmsg
      rw [hinit msg hmsg]
      exact nofun
    simp [askCount, countP_append, hzero, hlast]

theorem requests_of_sync (init : List FrontendMessage) (hinit : ∀ msg ∈ init, msg.asks = false) :
    Requests (init ++ [.sync]) ∧ askCount (init ++ [.sync]) = 1 := requests_of_last init rfl hinit

theorem requests_of_query (sql : Bytes) : Requests [.query sql] ∧ askCount [.query sql] = 1 :=
  requests_of_last [] rfl nofun

section Operations

variable {owed : List Event → Nat} {env : Env} {α β ι : Type} {c : PgConn} {Q : α → Nat}
  {E : Error → Nat} {k : Nat}

theorem Held.congr {d : PgConn} (h : Held owed k msgs c)
    (hstatus : d.status = c.status) (hpeer : d.peer = c.peer) (hbuf : d.wbuf = c.wbuf)
    (hwire : d.wire = c.wire) (hpend : d.pending = c.pending) : Held owed k msgs d where
  wbuf := hbuf.trans h.wbuf
  notIdle := by rw [hstatus]; exact h.notIdle
  within := h.within.congr hstatus hpeer rfl hwire hpend

theorem operationLoop_keeps {step : ι → BackendMessage → Op (ι ⊕ β)}
    {hstep : ∀ i msg, Reads 0 (step i msg)} {R : β → Nat}
    (hs : ∀ i msg, Keeps owed (left msg) (step i msg) (fun r => r.elim one R) E)
    (hpanic : ∀ e, e.isPanic = true → 1 ≤ E e) (i : ι) :
    Keeps owed 1 ((operationLoop env step hstep).run i) R E := by
  exact readLoop_keeps (receiveMessage_keeps env)
    (fun _ _ h => absurd h (by simp)) closeAndThrow_keeps hs hpanic i

theorem one_le_zeroUnlessPanic (e : Error) (h : e.isPanic = true) : 1 ≤ zeroUnlessPanic e := by
  simp [zeroUnlessPanic, h]

/-- A request of an operation that holds the connection, and what it does with the answer. -/
theorem wp_request {x : Op α} (h : Held owed 0 [] c)
    (hreq : Requests msgs ∧ askCount msgs = 1) (hx : Keeps owed 1 x Q E) :
    wp (do sendAll msgs; flushOrClose env; x) (fun a => Within owed (Q a))
      (fun e => Within owed (E e)) c := by
  have hne : msgs ≠ [] := by
    rintro rfl
    exact absurd hreq.2 (by decide)
  rw [wp_bind, sendAll, wp_modify, wp_bind]
  apply wp_mono (flushOrClose_held env (h.sendAll msgs) hne hreq.1)
  · intro _ d hd
    have hk : 0 + askCount ([] ++ msgs) = 1 := by
      rw [nil_append, hreq.2]
    exact hx d (hk ▸ hd.inv)
  · exact fun _ d hd => .of_closed hd

/-- Behind `lock` nothing is outstanding. -/
theorem lock_bind_keeps {x : Op α} (h : ∀ d, Held owed 0 [] d →
      wp x (fun _ => Inv owed) (fun _ => Inv owed) d) :
    Keeps owed 1 (do lock; x) one one := by
  intro c hc
  rw [wp_bind]
  exact wp_weaken (lock_held hc) fun _ => h

theorem prepare_keeps (name sql : Bytes) (paramOIDs : List UInt32) :
    Keeps owed 1 (prepare env name sql paramOIDs) one one := by
  refine lock_bind_keeps fun d hd => ?_
  apply wp_deferUnlock
  refine wp_request hd (requests_of_last [.parse name sql paramOIDs, .describe 'S' name]
    rfl (by simp [FrontendMessage.asks])) ?_
  have hloop : ∀ s, Keeps owed 1 ((prepareLoop env).run s) zero zeroUnlessPanic := by
    intro s
    refine operationLoop_keeps (fun s msg => ?_) one_le_zeroUnlessPanic s
    refine .pure ?_
    cases msg <;> exact le_rfl
  refine (hloop _).bind fun s => ?_
  cases s.pgErr with
  | some err => exact .throw le_rfl
  | none => exact .pure le_rfl

/-- Whatever the state was, it is that of a closed connection now. -/
theorem wp_asyncClose_bind {x : Op α} (hx : Keeps owed 0 x Q E) (c : PgConn) :
    wp (do asyncClose; x) (fun a => Within owed (Q a)) (fun e => Within owed (E e)) c := by
  exact hx _ (.of_closed rfl)

theorem unlock_one : Keeps owed 0 unlock one one :=
  unlock_keeps.weaken (Nat.le_refl 0) (fun _ => Nat.zero_le 1) fun _ => Nat.le_refl 1

theorem exec_keeps (sql : Bytes) : Keeps owed 1 (exec env sql) one one := by
  refine lock_bind_keeps fun d hd => ?_
  have hreq := requests_of_query sql
  have hheld : Held owed 0 [] { d with multiResultReader := {} } := hd.congr rfl rfl rfl rfl rfl
  refine wp_outcome_flush (hheld.sendAll [.query sql]) nofun hreq.1 ?_ ?_
  · exact fun e he => he.inv
  · exact fun err e => wp_asyncClose_bind ((modifyMulti_keeps _).bind fun _ => unlock_one) e

theorem execExtendedPrefix_held (paramValues : List (Option Bytes)) {c : PgConn} (hc : Inv owed c) :
    wp (execExtendedPrefix paramValues)
      (fun go d => if go then Held owed 0 [] d else Inv owed d) (fun _ => Inv owed) c := by
  unfold execExtendedPrefix
  rw [wp_bind, modifyReader, wp_modify, wp_bind]
  apply wp_attempt
  have hc' : Inv owed { c with resultReader := {} } := hc.congr rfl rfl rfl rfl rfl
  apply wp_mono (lock_held hc')
  · intro _ d hd
    dsimp only
    split
    · rw [wp_bind, modifyReader, wp_modify, wp_bind]
      refine wp_mono (unlock_one _ ?_) (fun _ e he => he) fun _ _ he => he
      exact hd.inv.congr rfl rfl rfl rfl rfl
    · exact hd
  · exact fun e d hd => ⟨hd, hd.congr rfl rfl rfl rfl rfl⟩

theorem execExtendedSuffix_keeps (hask : ∀ msg ∈ msgs, msg.asks = false)
    (sd : Option StatementDescription) (resultFormats : List Int) {c : PgConn}
    (hc : Held owed 0 msgs c) :
    wp (execExtendedSuffix env sd resultFormats) (fun _ => Inv owed) (fun _ => Inv owed) c := by
  have hsnoc : ∀ (init : List FrontendMessage) (last : FrontendMessage), last.asks = false →
      (∀ msg ∈ init, msg.asks = false) → ∀ msg ∈ init ++ [last], msg.asks = false := by
    intro init last hlast hinit msg hmsg
    rcases mem_append.mp hmsg with h | h
    · exact hinit msg h
    · rw [mem_singleton.mp h]
      exact hlast
  have hreq : ∀ init : List FrontendMessage, (∀ msg ∈ init, msg.asks = false) →
      Requests (init ++ [.execute, .sync]) ∧ askCount (init ++ [.execute, .sync]) = 1 := by
    intro init hinit
    have hmsgs : init ++ [.execute, .sync] = (init ++ [.execute]) ++ [.sync] := by simp
    rw [hmsgs]
    exact requests_of_sync _ (hsnoc init .execute rfl hinit)
  cases sd with
  | some sd =>
    refine wp_outcome_flush (hc.sendAll [.execute, .sync]) (by simp) (hreq msgs hask).1
      (fun e he => ?_)
      fun err => wp_asyncClose_bind ((modifyReader_keeps _).bind fun _ => unlock_one)
    rw [(hreq msgs hask).2] at he
    exact ResultReader.readUntilRowDescription_keeps env sd resultFormats e he.inv
  | none =>
    have hinit := hsnoc msgs (.describe 'P' []) rfl hask
    refine wp_outcome_flush ((hc.sendAll [.describe 'P' []]).sendAll [.execute, .sync]) (by simp)
      (hreq _ hinit).1 (fun e he => ?_)
      fun err => wp_asyncClose_bind ((modifyReader_keeps _).bind fun _ => unlock_one)
    rw [(hreq _ hinit).2] at he
    exact ResultReader.readUntilRowDescription_keeps env none resultFormats e he.inv

theorem execExtended_keeps (hask : ∀ msg ∈ msgs, msg.asks = false)
    (paramValues : List (Option Bytes)) (sd : Option StatementDescription)
    (resultFormats : List Int) :
    Keeps owed 1 (execExtended env paramValues msgs sd resultFormats) one one := by
  intro c hc
  unfold execExtended
  rw [wp_bind]
  refine wp_weaken (execExtendedPrefix_held paramValues hc) fun go d hd => ?_
  cases go with
  | false => exact hd
  | true =>
    have hd : Held owed 0 [] d := hd
    exact execExtendedSuffix_keeps hask sd resultFormats (hd.sendAll msgs)

theorem execBatch_keeps {batch : Batch} (hask : ∀ msg ∈ batch.buf, msg.asks = false) :
    Keeps owed 1 (execBatch env batch) one one := by
  intro c hc
  unfold execBatch
  cases batch.err with
  | some err => exact hc
  | none =>
    refine lock_bind_keeps (fun d hd => ?_) c hc
    rw [wp_bind, modifyMulti, wp_modify]
    cases env.encodeError .sync with
    | some err =>
      rw [wp_bind, modifyMulti, wp_modify, wp_bind, asyncClose, wp_modify, wp_pure]
      exact .of_closed rfl
    | none =>
      have hreq := requests_of_sync batch.buf hask
      have hheld : Held owed 0 [] { d with multiResultReader :=
          { statementDescriptions := batch.statementDescriptions
            resultFormats := batch.resultFormats } } := hd.congr rfl rfl rfl rfl rfl
      refine wp_outcome_flush (hheld.sendAll (batch.buf ++ [.sync])) (by simp) hreq.1 ?_ ?_
      · intro e he
        rw [hreq.2] at he
        exact he.inv
      · intro err e
        rw [wp_bind, modifyMulti, wp_modify, wp_bind, asyncClose, wp_modify, wp_pure]
        exact .of_closed rfl

theorem copyTo_keeps (w : Writer) (sql : Bytes) : Keeps owed 1 (copyTo env w sql) one one := by
  refine lock_bind_keeps fun d hd => ?_
  have hreq := requests_of_query sql
  have hloop : Keeps owed 1 ((copyToLoop env w).run {}) one one := by
    refine operationLoop_keeps (fun s msg => ?_) (fun _ _ => le_rfl) _
    cases msg with
    | copyData data =>
      dsimp only [copyToStep]
      cases w (s.written ++ [data]) with
      | some err => exact closeAndThrow_keeps err
      | none => exact .pure le_rfl
    | readyForQuery tx => exact unlock_one.bind fun _ => .pure le_rfl
    | _ => exact .pure le_rfl
  refine wp_outcome_flush (hd.sendAll [.query sql]) nofun hreq.1 ?_ ?_
  · exact fun e he => hloop e he.inv
  · exact fun err e => wp_asyncClose_bind (unlock_one.bind fun _ => .throw le_rfl) e

theorem requests_copy {msg : FrontendMessage} (h : msg.isCopy = true) :
    Requests [msg] ∧ askCount [msg] = 0 := by
  constructor
  · refine .inr fun m hm => ?_
    rw [mem_singleton.mp hm]
    exact h
  · cases msg <;> first | rfl | cases h

theorem sendCopy_held (msg : FrontendMessage) (hmsg : msg.isCopy = true) (hc : Held owed k [] c) :
    wp (do sendAll [msg]; flushOrClose env) (fun _ => Held owed k [])
      (fun _ d => d.status = .closed) c := by
  obtain ⟨hreq, hask⟩ := requests_copy hmsg
  have hflush := flushOrClose_held env (hc.sendAll [msg]) nofun hreq
  rwa [nil_append, hask] at hflush

theorem copyData_held (steps : List CopyStep) (hc : Held owed 1 [] c) :
    wp (copyData env steps) (fun _ => Held owed 1 [])
      (fun e => Within owed (zeroUnlessPanic e)) c := by
  induction steps generalizing c with
  | nil => exact hc
  | cons step steps ih =>
    cases step with
    | chunk data =>
      unfold copyData
      rw [wp_bind]
      apply wp_mono (sendCopy_held (.copyData data) rfl hc)
      · exact fun _ d hd => ih hd
      · exact fun _ d hd => .of_closed hd
    | message =>
      unfold copyData
      rw [wp_bind, wp_attempt_iff]
      apply wp_mono (receiveMessage_held env hc)
      · intro msg d hd
        have hd' : Held owed 1 [] d := hd.mono (left_le msg)
        cases msg with
        | errorResponse err => exact hd'
        | _ => exact ih hd'
      · intro e d hd
        by_cases hp : e.isPanic = true
        · rw [if_pos hp]
          exact hd.inv.mono (one_le_zeroUnlessPanic e hp)
        · rw [if_neg hp]
          show Within owed (zeroUnlessPanic e) { d with status := .closed }
          exact .of_closed rfl

theorem sendLate_held (r : CopySource) (pgErr : Option PgError) (hc : Held owed 1 [] c) :
    wp (sendLate env r pgErr) (fun _ => Held owed 1 []) (fun _ d => d.status = .closed) c := by
  unfold sendLate
  split
  · exact sendCopy_held _ rfl hc
  · exact hc

theorem finishCopy_answered (r : CopySource) (pgErr : Option PgError) (hc : Held owed 1 [] c) :
    wp (finishCopy env r pgErr) (fun _ => Within owed 0)
      (fun e => Within owed (zeroUnlessPanic e)) c := by
  have hloop : ∀ s, Keeps owed 1 ((copyFromLoop env).run s) zero zeroUnlessPanic := by
    intro s
    refine operationLoop_keeps (fun s msg => ?_) one_le_zeroUnlessPanic s
    refine .pure ?_
    cases msg <;> exact le_rfl
  have hcopy : (copyEnd r pgErr).isCopy = true := by
    unfold copyEnd
    split <;> rfl
  obtain ⟨hreq, hask⟩ := requests_copy hcopy
  unfold finishCopy
  rw [wp_bind, sendAll, wp_modify, wp_bind]
  apply wp_mono (flushOrClose_held env (hc.sendAll [copyEnd r pgErr]) nofun hreq)
  · intro _ d hd
    rw [nil_append, hask] at hd
    exact hloop _ d hd.inv
  · exact fun _ d hd => .of_closed hd

theorem copyFrom_keeps (r : CopySource) (sql : Bytes) :
    Keeps owed 1 (copyFrom env r sql) one one := by
  refine lock_bind_keeps fun d hd => ?_
  apply wp_deferUnlock
  have hreq := requests_of_query sql
  rw [wp_bind, sendAll, wp_modify, wp_bind]
  apply wp_mono (flushOrClose_held env (hd.sendAll [.query sql]) nofun hreq.1)
  · intro _ e he
    rw [wp_bind]
    apply wp_mono (copyData_held r.steps he)
    · intro pgErr e he
      rw [wp_bind]
      apply wp_mono (sendLate_held r pgErr he)
      · exact fun _ e he => finishCopy_answered r pgErr he
      · exact fun _ e he => .of_closed he
    · exact fun _ e he => he
  · exact fun _ e he => .of_closed he

/-- Every server error that is left to read closes the connection. -/
def Spared (env : Env) (c : PgConn) : Prop :=
  ∀ err, .message (.errorResponse err) ∈ c.pending → env.closesOn err = true

/-- The loop of `Deallocate` reads the answer to its end when it meets no error. -/
theorem deallocateLoop_answered (hc : Inv owed c) (hs : Spared env c) :
    wp ((deallocateLoop env).run ()) (fun _ => Within owed 0)
      (fun e => Within owed (zeroUnlessPanic e)) c := by
  apply (deallocateLoop env).wp_run (I := fun _ d => Inv owed d ∧ Spared env d)
  · intro u d hd
    obtain ⟨hd, hsd⟩ := hd
    show wp (readRound (receiveMessage env) (fun _ => none) closeAndThrow deallocateStep u) _ _ d
    unfold readRound
    rw [wp_bind, wp_get]
    rw [wp_bind, wp_attempt_iff]
    apply wp_mono (wp_and (receiveMessage_keeps env d hd) (receiveMessage_spec env d))
    · intro msg e he
      obtain ⟨hw, hdrew, -, hpass⟩ := he
      have hpend := hdrew.pending
      have hse : Spared env e := fun err herr => hsd err (by rw [hpend]; exact .tail _ herr)
      cases msg with
      | errorResponse err =>
        have hclose := hsd err (by rw [hpend]; exact (.head _))
        rw [hpass err rfl] at hclose
        cases hclose
      | readyForQuery tx => exact hw
      | _ => exact ⟨hw, hse⟩
    · intro err e he
      by_cases hp : err.isPanic = true
      · rw [if_pos hp]
        exact he.1.mono (one_le_zeroUnlessPanic err hp)
      · rw [if_neg hp]
        show Within owed (zeroUnlessPanic err) { e with status := .closed }
        exact .of_closed rfl
  · exact ⟨hc, hs⟩

theorem lock_spec (hc : Inv owed c) :
    wp lock (fun _ d => c.status = .idle ∧ d = { c with status := .busy }) (fun _ d => d = c) c := by
  unfold lock
  rw [wp_bind, wp_get]
  cases hs : c.status with
  | idle => exact ⟨rfl, rfl⟩
  | connecting => exact (hc.cases (fun h => nomatch hs.symm.trans h)
      (fun h => nomatch hs.symm.trans h) (fun h => nomatch hs.symm.trans h) : False).elim
  | _ => rfl

theorem flush_pending (c : PgConn) (hne : c.wbuf ≠ []) :
    wp (flush env) (fun _ d => d.pending = c.pending ++ c.peer c.wire c.wbuf)
      (fun _ _ => True) c := by
  unfold flush
  rw [wp_bind, wp_get]
  cases hb : c.wbuf with
  | nil => exact absurd hb hne
  | cons m ms =>
    unfold writeBuffer
    rw [wp_bind, wp_bind, wp_get]
    cases env.write c.wire c.wbuf with
    | some text => trivial
    | none => exact (append_assoc _ _ _).symm

theorem Outstanding.allAsync (h : Outstanding owed 0 c) : AllAsync c.pending := by
  have hbound := h.bound
  have hset := h.settled (by omega)
  rwa [afterReady_of_none (by omega)] at hset

/-- `Deallocate` reads the answer to its end unless the server reports an error and the
connection stays open. -/
theorem deallocate_keeps {name : Bytes} (hclean : c.status = .idle → ∀ err,
      .message (.errorResponse err) ∈ c.peer c.wire [.close 'S' name, .sync] →
      env.closesOn err = true) (hc : Inv owed c) :
    wp (deallocate env name) (fun _ => Inv owed) (fun _ => Inv owed) c := by
  unfold deallocate
  rw [wp_bind]
  apply wp_mono (wp_and (lock_held hc) (lock_spec hc))
  · intro _ d hd
    obtain ⟨hd, hidle, rfl⟩ := hd
    apply wp_deferUnlock
    rw [wp_bind, sendAll, wp_modify, wp_bind]
    have hreq := requests_of_sync [.close 'S' name] (by simp [FrontendMessage.asks])
    have hbuf : c.wbuf = [] := hd.wbuf
    have hasync : AllAsync c.pending := hd.inv.cases nofun nofun fun _ ho => ho.allAsync
    have hheld := hd.sendAll [.close 'S' name, .sync]
    unfold flushOrClose
    rw [wp_bind, wp_attempt_iff]
    apply wp_mono (wp_and (flush_held hheld nofun hreq.1) (flush_pending _ (by simp)))
    · intro _ e he
      obtain ⟨he, hpend⟩ := he
      refine deallocateLoop_answered he.inv fun err herr => ?_
      rw [hpend] at herr
      rcases mem_append.mp herr with h | h
      · exact nomatch hasync _ h
      · apply hclean hidle err
        rwa [hbuf] at h
    · intro err e he
      rw [if_neg (by simp [he.1])]
      show Within owed (zeroUnlessPanic err) { e with status := .closed }
      exact .of_closed rfl
  · exact fun _ _ hd => hd.1

/-- What an operation does when nothing is outstanding leaves nothing outstanding. -/
theorem lock_deferUnlock_keeps {body : Op α} (h : Keeps owed 0 body zero zero) :
    Keeps owed 1 (do lock; deferUnlock body) one one := by
  refine lock_bind_keeps fun d hd => ?_
  apply wp_deferUnlock
  exact wp_weaken_error (h d hd.inv) fun e t he => he.mono (Nat.zero_le _)

theorem receiveMessage_zero (env : Env) : Keeps owed 0 (receiveMessage env) zero zero :=
  (receiveMessage_within env).weaken (Nat.le_refl 0) (fun msg => by omega) fun _ => Nat.le_refl 0

theorem exportedReceiveMessage_keeps : Keeps owed 1 (exportedReceiveMessage env) one one := by
  apply lock_deferUnlock_keeps
  refine (receiveMessage_zero env).outcome_bind ?_ ?_ ?_
  · exact fun _ => .pure le_rfl
  · exact fun e _ => .throw le_rfl
  · exact fun _ _ => Nat.le_refl 0

theorem waitForNotification_keeps : Keeps owed 1 (waitForNotification env) one one := by
  apply lock_deferUnlock_keeps
  refine readLoop_keeps (receiveMessage_zero env) (fun _ _ h => absurd h (by simp))
    (fun _ => .throw le_rfl) (fun _ msg => ?_) (fun _ _ => Nat.le_refl 0) ()
  exact .pure (Nat.zero_le _)

theorem hijack_keeps : Keeps owed 1 hijack one one := by
  refine lock_bind_keeps fun d _ => ?_
  show Within owed 1 { d with status := .closed }
  exact .of_closed rfl

theorem startPipeline_keeps : Keeps owed 1 startPipeline one one := by
  refine lock_bind_keeps fun d hd => ?_
  exact (hd.inv.mono (Nat.zero_le 1)).congr rfl rfl rfl rfl rfl

/-- An operation that reads no answer, or reads one answer to its end. -/
def Operation.Clean (env : Env) (c : PgConn) : Operation → Prop
  | deallocate name => c.status = .idle → ∀ err,
      .message (.errorResponse err) ∈ c.peer c.wire [.close 'S' name, .sync] →
      env.closesOn err = true
  | execBatch batch => ∀ msg ∈ batch.buf, msg.asks = false
  | _ => True

theorem Operation.run_keeps (op : Operation) (hclean : op.Clean env c) (hc : Inv owed c) :
    wp (op.run env) (fun _ => Inv owed) (fun _ => Inv owed) c := by
  cases op with
  | prepare name sql paramOIDs =>
    exact (prepare_keeps name sql paramOIDs).discard c hc
  | deallocate name => exact deallocate_keeps hclean hc
  | exec sql => exact exec_keeps sql c hc
  | execParams sql paramValues paramOIDs paramFormats resultFormats =>
    exact execExtended_keeps (by simp [FrontendMessage.asks]) paramValues none [] c hc
  | execPrepared stmtName paramValues paramFormats resultFormats =>
    exact execExtended_keeps (by simp [FrontendMessage.asks]) paramValues none [] c hc
  | execStatement sd paramValues paramFormats resultFormats =>
    exact execExtended_keeps (by simp [FrontendMessage.asks]) paramValues (some sd) resultFormats c hc
  | execBatch batch => exact (execBatch_keeps hclean).discard c hc
  | copyTo w sql => exact (copyTo_keeps w sql).discard c hc
  | copyFrom r sql => exact (copyFrom_keeps r sql).discard c hc
  | ping => exact ((exec_keeps _).bind fun _ => MultiResultReader.close_keeps env).discard c hc
  | receiveMessage => exact exportedReceiveMessage_keeps.discard c hc
  | waitForNotification => exact waitForNotification_keeps c hc
  | hijack => exact hijack_keeps c hc
  | startPipeline => exact startPipeline_keeps c hc

theorem ReaderCall.run_keeps (call : ReaderCall) : Keeps owed 1 (call.run env) one one := by
  cases call with
  | nextResult => exact .map (MultiResultReader.nextResult_keeps env)
  | closeMultiResult => exact .map (MultiResultReader.close_keeps env)
  | nextRow => exact .map (ResultReader.nextRow_keeps env)
  | closeResult => exact .map (ResultReader.close_keeps env)
  | fieldDescriptions => exact fun _ hc => hc
  | values => exact fun _ hc => hc

end Operations

end Pgx.Conn
