import Pgx.Conn.Busy
import Pgx.Conn.PipelineTally

/-!
# One query, two ways

The same query is run with `ExecParams`, and as the only request of a pipeline.
Both send the same messages, so both read the same answer; what their callers
see is compared.
-/
namespace Pgx.Conn

open Pgx.Go Pgx.Wire Pgx.Effect Item

variable {syncErr : Option PgError}

structure Query where
  sql : Bytes
  paramValues : List (Option Bytes)
  paramOIDs : List UInt32
  paramFormats : List Int
  resultFormats : List Int

def Query.request (q : Query) : Request :=
  .queryParams q.sql q.paramValues q.paramOIDs q.paramFormats q.resultFormats

def Query.messages (q : Query) : List FrontendMessage := messagesOf [.request q.request, .sync]

/-- The error of the server that an error is, if it is one. -/
def serverError : Error → Option PgError
  | .pgError err => some err
  | _ => none

structure Seen where
  fieldDescriptions : List FieldDescription := []
  rows : List (List (Option Bytes)) := []
  commandTag : Bytes := []
  err : Option PgError := none
  deriving DecidableEq

def viaExecParams (env : Env) (q : Query) : Op Seen := do
  execParams env q.sql q.paramValues q.paramOIDs q.paramFormats q.resultFormats
  let c ← get
  let br ← ResultReader.read env
  pure
    { fieldDescriptions := c.resultReader.fieldDescriptions
      rows := br.rows
      commandTag := br.commandTag
      err := br.err.bind serverError }

/-- The result of the only query is read to the end, and the pipeline closed. The error is the first
one of the server that any of the calls has returned. -/
def onlyResult (env : Env) : Op Seen := do
  match ← outcome (Pipeline.exportedGetResults env) with
  | .ok (some .resultReader) =>
    let c ← get
    let br ← ResultReader.read env
    let err ← Pipeline.close env
    pure
      { fieldDescriptions := c.resultReader.fieldDescriptions
        rows := br.rows
        commandTag := br.commandTag
        err := (br.err.bind serverError).or (err.bind serverError) }
  | .ok _ =>
    let err ← Pipeline.close env
    pure { err := err.bind serverError }
  | .error e =>
    let err ← Pipeline.close env
    pure { err := (serverError e).or (err.bind serverError) }

def viaPipeline (env : Env) (q : Query) : Op Seen := do
  startPipeline
  Pipeline.sendQueryParams q.sql q.paramValues q.paramOIDs q.paramFormats q.resultFormats
  let _ ← outcome (Pipeline.sync env)
  onlyResult env

/-- What was seen, and whether the connection was left open. -/
def seen (x : Op Seen) (c : PgConn) : Option (Seen × Bool) :=
  match x c with
  | .ok s d => some (s, d.status != .closed)
  | .error _ _ => none

theorem seen_of_wp {x : Op Seen} {c : PgConn} {s : Seen × Bool}
    (h : wp x (fun a d => (a, d.status != .closed) = s) never c) : seen x c = some s := by
  unfold seen
  cases hx : x c with
  | ok a d =>
    have hs := wp_of_ok h hx
    exact congrArg some hs
  | error e d => exact (wp_of_error h hx).elim

namespace Outcome

def ending : Outcome → Ending
  | executed _ _ ending => ending
  | failed _ err => .failed err
  | _ => .empty

def fields : Outcome → List FieldDescription
  | executed fields _ _ => fields.getD []
  | _ => []

def rows : Outcome → List (List (Option Bytes))
  | executed _ rows _ => rows
  | _ => []

end Outcome

/-- Whether the error of the `Sync`, if there is one, closes the connection. -/
def Env.cuts (env : Env) (err : Option PgError) : Bool := err.any env.closesOn

/-- A reader that reads alone, at the end of its result. -/
def AtEnd (env : Env) (rr : ResultReader) (ending : Ending) (ms : List BackendMessage)
    (d : PgConn) : Prop :=
  (env.passes ending.message = true ∧ d.status = .busy ∧ Carries d.pending ms ∧
      d.resultReader = rr.finish ending) ∨
    (env.passes ending.message = false ∧ d.status = .closed ∧
      d.resultReader = { rr.finish ending with closed := true })

variable {ending : Ending}

theorem AtEnd.of_finished {env : Env} {c d : PgConn} {ms : List BackendMessage}
    (hs : c.status = .busy) (h : ResultReader.Finished env c d ending ms) :
    AtEnd env c.resultReader ending ms d := by
  rcases h with ⟨hp, hg, hrr⟩ | ⟨hp, hshut, hrr, -⟩
  · exact .inl ⟨hp, hg.status.trans hs, hg.pending, hrr⟩
  · exact .inr ⟨hp, hshut.status, hrr⟩

namespace ResultReader

variable {env : Env} {c : PgConn} {m : BackendMessage} {ms : List BackendMessage}

/-- What the reader knows when `ExecParams` returns. -/
def Opened (env : Env) (o : Outcome) (ms : List BackendMessage) (d : PgConn) : Prop :=
  match o with
  | .executed (some fields) rows ending =>
    d.status = .busy ∧ Carries d.pending (rows.map .dataRow ++ ending.message :: ms) ∧
      d.resultReader = { fieldDescriptions := fields }
  | o => AtEnd env {} o.ending ms d

theorem descriptionStep_noise {k : BackendMessage} (h : k.isAsync = true) :
    descriptionStep none [] () k = pure (.inl ()) := by
  cases k <;> first | rfl | cases h

theorem live_new : Live {} := ⟨rfl, rfl, rfl⟩

section ReadUntil

variable {Q : Unit → PgConn → Prop} {E : Error → PgConn → Prop} (hs : c.status = .busy)
  (hrr : c.resultReader = {})

include hs hrr

theorem readUntil_skip (hm : m = .parseComplete ∨ m = .bindComplete ∨ m = .noData)
    (hc : Carries c.pending (m :: ms))
    (h : ∀ d, d.status = .busy → d.resultReader = {} → Carries d.pending ms →
      wp (readUntilRowDescription env none []) Q E d) :
      wp (readUntilRowDescription env none []) Q E c := by
  have hpass : env.passes m = true := by rcases hm with rfl | rfl | rfl <;> rfl
  have hstep : descriptionStep none [] () m = pure (.inl ()) := by
    rcases hm with rfl | rfl | rfl <;> rfl
  have hnote : ({} : ResultReader).note m = {} := by rcases hm with rfl | rfl | rfl <;> rfl
  have hlive : Live c.resultReader := by rw [hrr]; exact live_new
  refine wp_readerLoop (fun _ => descriptionStep_noise) (fun d hd => concluded_none ?_)
    (by rw [hs]; exact nofun) (.inl hlive.multiResultReader) (.inr hpass) hc ?_ ?_
  · rw [hd, hrr]
  · intro d _ hd
    rw [hstep]
    exact h d (hd.status.trans hs) (by rw [hd.resultReader, hrr, hnote]) hd.pending
  · intro e d hp
    rw [hpass] at hp
    cases hp

theorem readUntil_rowDescription {fields : List FieldDescription}
    (hc : Carries c.pending (.rowDescription fields :: ms))
    (h : ∀ d, d.status = .busy → d.resultReader = { fieldDescriptions := fields } →
      Carries d.pending ms →
      Q () d) : wp (readUntilRowDescription env none []) Q E c := by
  have hlive : Live c.resultReader := by rw [hrr]; exact live_new
  refine wp_readerLoop (fun _ => descriptionStep_noise) (fun d hd => concluded_none ?_)
    (by rw [hs]; exact nofun) (.inl hlive.multiResultReader) (.inl hlive.err) hc ?_
    fun e d hp => nomatch hp
  · rw [hd, hrr]
  · exact fun d _ hd => h d (hd.status.trans hs) (by rw [hd.resultReader, hrr]; rfl) hd.pending

theorem readUntil_ending (hc : Carries c.pending (ending.message :: ms)) :
    wp (readUntilRowDescription env none []) (fun _ => AtEnd env {} ending ms) never c := by
  have hlive : Live c.resultReader := by rw [hrr]; exact live_new
  have hopen : c.status ≠ .closed := by rw [hs]; exact nofun
  cases ending with
  | complete tag =>
    refine wp_readerLoop (fun _ => descriptionStep_noise) (fun d hd => concluded_none ?_)
      hopen (.inl hlive.multiResultReader) (.inl hlive.err) hc ?_ fun e d hp => nomatch hp
    · rw [hd, hrr]
    · intro d hp hd
      refine .inl ⟨hp, hd.status.trans hs, hd.pending, ?_⟩
      show d.resultReader = _
      rw [hd.resultReader, hrr]
      rfl
  | _ =>
    refine wp_readerLoop_ending (fun _ => descriptionStep_noise) rfl hopen hlive.unfinished hc ?_ ?_
    · exact fun d hp hd hf => hrr ▸ AtEnd.of_finished hs (.inl ⟨hp, hd, hf⟩)
    · exact fun e d hp hd hf => hrr ▸ AtEnd.of_finished hs (.inr ⟨hp, hd, hf⟩)

theorem readUntil_before (before : List BackendMessage)
    (hb : ∀ m ∈ before, m = .parseComplete ∨ m = .bindComplete ∨ m = .noData)
    (hc : Carries c.pending (before ++ ending.message :: ms)) :
    wp (readUntilRowDescription env none []) (fun _ => AtEnd env {} ending ms) never c := by
  induction before generalizing c with
  | nil => exact readUntil_ending hs hrr hc
  | cons m before ih =>
    refine readUntil_skip hs hrr (hb m (.head _)) hc fun d hsd hrd hd => ?_
    exact ih hsd hrd (fun k hk => hb k (.tail _ hk)) hd

theorem readUntil_opened {q : Query} {o : Outcome} (ho : Suits (.request q.request) o)
    (hc : Carries c.pending ((request q.request).reply o ++ ms)) :
    wp (readUntilRowDescription env none []) (fun _ => Opened env o ms) never c := by
  have hprelude : ∀ before : List BackendMessage, before <+: q.request.prelude none →
      ∀ m ∈ before, m = .parseComplete ∨ m = .bindComplete ∨ m = .noData := by
    intro before hb m hm
    have hmem : m ∈ [BackendMessage.parseComplete, .bindComplete, .noData] := hb.subset hm
    simpa using hmem
  cases ho with
  | rows fields rows ending hr hne =>
    have hc' : Carries c.pending ([.parseComplete, .bindComplete] ++
        .rowDescription fields :: (rows.map .dataRow ++ ending.message :: ms)) := by
      simpa [reply, prelude, Query.request, Request.prelude, describeMessage] using hc
    refine readUntil_skip hs hrr (.inl rfl) hc' fun d hsd hrd hd => ?_
    refine readUntil_skip hsd hrd (.inr (.inl rfl)) hd fun e hse hre he => ?_
    exact readUntil_rowDescription hse hre he fun t hst hrt ht => ⟨hst, ht, hrt⟩
  | noRows ending hr hf =>
    have hc' : Carries c.pending (q.request.prelude none ++ ending.message :: ms) := by
      simpa [reply, prelude] using hc
    exact readUntil_before hs hrr _ (hprelude _ List.prefix_rfl) hc'
  | queryFailed before err hr hb =>
    have hc' : Carries c.pending (before ++ (Ending.failed err).message :: ms) := by
      simpa [reply, Ending.message] using hc
    exact readUntil_before hs hrr before (hprelude _ hb) hc'

end ReadUntil

/-! ### Closing -/

theorem readyStep_noise {k : BackendMessage} (h : k.isAsync = true) :
    readyStep () k = pure (.inl ()) := by
  cases k <;> first | rfl | cases h

section Ready

variable {txStatus : UInt8} (hs : c.status = .busy)
    (hmulti : c.resultReader.multiResultReader = false)

include hs hmulti

theorem readyLoop_ready (hc : Carries c.pending [.readyForQuery txStatus]) :
    wp ((readyLoop env).run ()) (fun ok d => ok = true ∧ d.status = .idle ∧
      d.resultReader = c.resultReader)
      never c := by
  refine wp_readerLoop (fun _ => readyStep_noise) (fun _ _ => rfl) (by rw [hs]; exact nofun)
    (.inl hmulti) (.inr rfl) hc ?_ fun e d hp => nomatch hp
  intro d _ hd
  unfold readyStep
  rw [wp_bind]
  exact wp_unlock_busy (hd.status.trans hs) ⟨rfl, rfl, hd.resultReader⟩

theorem readyLoop_error {err : PgError} (hdone : c.resultReader.commandConcluded = true)
    (herr : c.resultReader.err = none)
    (hc : Carries c.pending [.errorResponse err, .readyForQuery txStatus]) :
    wp ((readyLoop env).run ()) (fun ok d => ok = !env.closesOn err ∧ (d.status != .closed) = ok ∧
        d.resultReader.commandTag = c.resultReader.commandTag ∧
        d.resultReader.err = some (.pgError err)) never c := by
  refine wp_readerLoop (fun _ => readyStep_noise) (fun _ _ => rfl) (by rw [hs]; exact nofun)
    (.inl hmulti) (.inl herr) hc ?_ ?_
  · intro d hp hd
    have hrr : d.resultReader = { c.resultReader with err := some (.pgError err) } := by
      rw [hd.resultReader]
      simp [note, concludeCommand, hdone, herr]
    unfold readyStep
    show wp ((readyLoop env).run ()) _ _ _
    refine wp_mono (readyLoop_ready (c := { d with
      resultReader := { d.resultReader with err := some (.pgError err) } }) (hd.status.trans hs) ?_
      hd.pending) ?_ fun _ _ he => he
    · rw [hrr, hmulti]
    · intro ok e he
      obtain ⟨rfl, hse, hre⟩ := he
      refine ⟨hp.symm, by rw [hse]; rfl, ?_, by rw [hre]⟩
      rw [hre]
      rw [hrr]
  · intro e d hp he hd
    obtain ⟨err', h1, rfl⟩ := he
    cases h1
    refine ⟨hp.symm, by rw [hd.status]; rfl, ?_, ?_⟩
    · rw [hd.resultReader]
      simp [concludeCommand, hdone]
    · rw [hd.resultReader]
      simp [concludeCommand, hdone, herr]

end Ready

/-- What `Close` returns at the end of the result, and whether the connection is open then. -/
def closes (env : Env) (ending : Ending) (syncErr : Option PgError) : (Bytes × Option Error) × Bool :=
  if env.passes ending.message then
    if env.cuts syncErr then (([], syncErr.map .pgError), false)
    else ((ending.commandTag, (syncErr.map .pgError).or ending.err), true)
  else ((ending.commandTag, ending.err), false)

theorem close_atEnd {fields : List FieldDescription} {txStatus : UInt8}
    (hone : ending.fails = true → syncErr = none)
    (h : AtEnd env { fieldDescriptions := fields } ending (sync.reply (.synced syncErr txStatus)) c) :
    wp (close env) (fun r d => (r, d.status != .closed) = closes env ending syncErr) never c := by
  unfold close
  rw [wp_bind, wp_get]
  rcases h with ⟨hp, hs, hc, hrr⟩ | ⟨hp, hs, hrr⟩
  · rw [if_neg (by rw [hrr]; exact Bool.false_ne_true), wp_bind, modifyReader, wp_modify, wp_bind]
    let t : PgConn := { c with resultReader := { c.resultReader with closed := true } }
    have ht : t.resultReader = { ({ fieldDescriptions := fields } : ResultReader).finish ending with
        closed := true } := by
      show { c.resultReader with closed := true } = _
      rw [hrr]
    refine wp_readLoop_done (b := true) (concluded_some (by rw [ht]; rfl)) ?_
    rw [wp_bind, wp_get, if_neg (by decide), if_neg (by rw [ht]; exact Bool.false_ne_true), wp_bind]
    unfold closes
    rw [if_pos hp]
    cases syncErr with
    | none =>
      refine wp_weaken (readyLoop_ready (c := t) hs (by rw [ht]; rfl) hc) fun ok d hd => ?_
      obtain ⟨rfl, hsd, hrd⟩ := hd
      rw [wp_bind, wp_get, wp_pure, if_pos rfl, hsd, hrd, ht]
      rfl
    | some err =>
      have herr : ending.err = none := by
        cases ending with
        | failed e => cases hone rfl
        | _ => rfl
      have hcuts : env.cuts (some err) = env.closesOn err := rfl
      refine wp_weaken (readyLoop_error (c := t) hs (by rw [ht]; rfl) (by rw [ht]; rfl)
        (by rw [ht]; exact herr) hc) fun ok d hd => ?_
      obtain ⟨rfl, hsd, htag, hre⟩ := hd
      rw [wp_bind, wp_get, wp_pure, hsd, htag, hre, ht, hcuts]
      cases env.closesOn err <;> rfl
  · rw [if_pos (by rw [hrr])]
    unfold closes
    rw [if_neg (by simp [hp]), hrr]
    show ((_, _), c.status != .closed) = _
    rw [hs]
    rfl

/-- Reading a result whose rows `ExecParams` has not come to. -/
theorem read_opened {q : Query} {o : Outcome} {txStatus : UInt8}
    (ho : Suits (.request q.request) o) (hone : o.ending.fails = true → syncErr = none)
    (h : Opened env o (sync.reply (.synced syncErr txStatus)) c) :
    wp (read env) (fun br d => br.rows = o.rows ∧
      ((br.commandTag, br.err), d.status != .closed) = closes env o.ending syncErr) never c := by
  have hclose : ∀ (br : Result) (d : PgConn) (fields : List FieldDescription),
      AtEnd env { fieldDescriptions := fields } o.ending (sync.reply (.synced syncErr txStatus)) d →
      br.rows = o.rows →
      wp (close env >>= fun r => pure { br with commandTag := r.1, err := r.2 })
        (fun br d => br.rows = o.rows ∧
        ((br.commandTag, br.err), d.status != .closed) = closes env o.ending syncErr)
        never d := by
    intro br d fields hd hrows
    rw [wp_bind]
    exact wp_mono (close_atEnd hone hd) (fun r e he => ⟨hrows, he⟩) fun _ _ he => he
  have hnone : ∀ d, AtEnd env {} o.ending (sync.reply (.synced syncErr txStatus)) d → o.rows = [] →
      wp (read env) (fun br d => br.rows = o.rows ∧
        ((br.commandTag, br.err), d.status != .closed) = closes env o.ending syncErr)
        never d := by
    intro d hd hrows
    have hrr : d.resultReader.commandConcluded = true ∧ d.resultReader.preloaded = false := by
      rcases hd with ⟨-, -, -, hrr⟩ | ⟨-, -, hrr⟩ <;> exact ⟨by rw [hrr]; rfl, by rw [hrr]; rfl⟩
    unfold read
    rw [wp_bind]
    apply Loop.wp_run_round
    show wp (readRound env {}) _ _ d
    unfold readRound
    rw [wp_bind]
    unfold nextRow
    rw [wp_bind, wp_get, if_neg (by simp [hrr.2])]
    refine wp_readLoop_done (b := false) (concluded_some hrr.1) ?_
    exact hclose {} d [] hd hrows.symm
  cases ho with
  | rows fields rows ending hr hne =>
    obtain ⟨hs, hc, hrr⟩ := h
    unfold read
    rw [wp_bind]
    refine wp_weaken (readRows_rows rows {} (by simp [hs])
      (by rw [hrr]; exact ⟨rfl, rfl⟩) (by rw [hrr]) hc) fun br d hd => ?_
    obtain ⟨hrows, t, values, hfin, -, hst, hrt, -⟩ := hd
    refine hclose br d fields ?_ hrows
    have hend := AtEnd.of_finished (hst.trans hs) hfin
    rw [hrt, hrr] at hend
    exact hend
  | noRows ending hr hf => exact hnone c h rfl
  | queryFailed before err hr hb => exact hnone c h rfl

theorem Opened.fieldDescriptions {q : Query} {o : Outcome} (ho : Suits (.request q.request) o)
    (h : Opened env o ms c) : c.resultReader.fieldDescriptions = o.fields := by
  have hnone : ∀ ending, AtEnd env {} ending ms c → c.resultReader.fieldDescriptions = [] := by
    intro ending h
    rcases h with ⟨-, -, -, hrr⟩ | ⟨-, -, hrr⟩ <;> rw [hrr] <;> rfl
  cases ho with
  | rows fields rows ending hr hne => rw [h.2.2]; rfl
  | noRows ending hr hf => exact hnone _ h
  | queryFailed before err hr hb => exact hnone _ h

end ResultReader

/-- The query was not sent, for a reason that is not an error of the server. -/
def Unsent (isOpen : Bool) (d : PgConn) : Prop :=
  (d.status != .closed) = isOpen ∧
    ∃ err, serverError err = none ∧ d.resultReader = ({} : ResultReader).reject err

section ViaExecParams

variable {env : Env} {c : PgConn} {q : Query} (hs : c.status = .idle) (hw : c.wbuf = [])

include hs

include hw

theorem execParams_sent (hlen : q.paramValues.length ≤ maxUint16) {Q : Unit → PgConn → Prop}
    (hok : env.write c.wire q.messages = none → ∀ d, d.status = .busy → d.resultReader = {} →
      d.pending = c.pending ++ c.peer c.wire q.messages →
      wp (ResultReader.readUntilRowDescription env none []) Q never d)
    (hfail : ∀ text, env.write c.wire q.messages = some text → ∀ d, Unsent false d → Q () d) :
    wp (execParams env q.sql q.paramValues q.paramOIDs q.paramFormats q.resultFormats) Q never c := by
  unfold execParams execExtended execExtendedPrefix
  rw [wp_bind, wp_bind, modifyReader, wp_modify, wp_bind, wp_attempt_iff]
  refine wp_lock_idle hs ?_
  rw [if_neg (by omega), wp_pure, if_pos rfl, wp_bind]
  show wp (sendAll [.describe 'P' []] >>= fun _ => sendAll [.execute, .sync] >>= fun _ =>
    outcome (flush env) >>= _) _ _ _
  rw [wp_bind, sendAll, wp_modify, wp_bind, sendAll, wp_modify, wp_bind, wp_attempt_iff]
  refine wp_flush q.messages ?_ (List.cons_ne_nil _ _) ?_ ?_
  · rw [hw]
    rfl
  · exact fun hwr => hok hwr _ rfl rfl (asking_pending _ _)
  · intro text d hwr hrr _
    rw [wp_bind, asyncClose, wp_modify]
    refine hfail text hwr _ ⟨rfl, .io text, rfl, ?_⟩
    rw [hrr]

end ViaExecParams

/-- What `ExecParams` shows of an answer. -/
def shownByExecParams (env : Env) (o : Outcome) (syncErr : Option PgError) : Seen × Bool :=
  let (r, isOpen) := ResultReader.closes env o.ending syncErr
  ({ fieldDescriptions := o.fields, rows := o.rows, commandTag := r.1, err := r.2.bind serverError }, isOpen)

section SeenViaExecParams

variable {env : Env} {c d : PgConn} {q : Query} {Q : Seen → PgConn → Prop}

theorem wp_viaExecParams
    (h : wp (execParams env q.sql q.paramValues q.paramOIDs q.paramFormats q.resultFormats)
      (fun _ d => wp (ResultReader.read env) (fun br e => Q
        { fieldDescriptions := d.resultReader.fieldDescriptions
          rows := br.rows
          commandTag := br.commandTag
          err := br.err.bind serverError } e) never d) never c) :
    wp (viaExecParams env q) Q never c := by
  unfold viaExecParams
  rw [wp_bind]
  refine wp_weaken h fun _ d hd => ?_
  rw [wp_bind, wp_get, wp_bind]
  exact hd

theorem read_unsent {isOpen : Bool} (h : Unsent isOpen d) :
    wp (ResultReader.read env) (fun br e => (({
        fieldDescriptions := d.resultReader.fieldDescriptions
        rows := br.rows
        commandTag := br.commandTag
        err := br.err.bind serverError } : Seen), e.status != .closed) = ({}, isOpen))
      never d := by
  obtain ⟨hstatus, err, hserver, hrr⟩ := h
  refine wp_weaken (ResultReader.read_closed (by rw [hrr]; rfl) (by rw [hrr]; rfl)
    (by rw [hrr]; rfl)) fun br e he => ?_
  obtain ⟨⟨hrows, htag, herr⟩, rfl⟩ := he
  have hbind : br.err.bind serverError = none := by
    rw [herr, hrr]
    exact hserver
  rw [hbind, hrows, htag, hrr, hstatus]
  rfl

theorem seen_viaExecParams_tooMany (hs : c.status = .idle) (hlen : maxUint16 < q.paramValues.length) :
    seen (viaExecParams env q) c = some ({}, true) := by
  apply seen_of_wp
  apply wp_viaExecParams
  unfold execParams execExtended execExtendedPrefix
  rw [wp_bind, wp_bind, modifyReader, wp_modify, wp_bind, wp_attempt_iff]
  refine wp_lock_idle hs ?_
  rw [if_pos hlen, wp_bind, modifyReader, wp_modify, wp_bind]
  exact wp_unlock_busy rfl (read_unsent ⟨rfl, _, rfl, rfl⟩)

section

variable (hs : c.status = .idle) (hw : c.wbuf = []) (hlen : q.paramValues.length ≤ maxUint16)

include hs hw hlen

theorem seen_viaExecParams_unwritten {text : String} (hwr : env.write c.wire q.messages = some text) :
    seen (viaExecParams env q) c = some ({}, false) := by
  apply seen_of_wp
  apply wp_viaExecParams
  refine execParams_sent hs hw hlen (fun hnone => ?_) fun _ _ d hd => read_unsent hd
  rw [hwr] at hnone
  cases hnone

theorem seen_viaExecParams_answered {o : Outcome} {txStatus : UInt8}
    (hwr : env.write c.wire q.messages = none) (hc : Carries c.pending [])
    (ho : Suits (.request q.request) o) (hone : o.ending.fails = true → syncErr = none)
    (hpeer : Carries (c.peer c.wire q.messages)
      ((request q.request).reply o ++ sync.reply (.synced syncErr txStatus))) :
    seen (viaExecParams env q) c = some (shownByExecParams env o syncErr) := by
  apply seen_of_wp
  apply wp_viaExecParams
  refine execParams_sent hs hw hlen (fun _ d hsd hrd hd => ?_) fun text hsome => ?_
  · have hstream : Carries d.pending
        ((request q.request).reply o ++ sync.reply (.synced syncErr txStatus)) := by
      rw [hd]
      exact hc.append hpeer
    refine wp_weaken (ResultReader.readUntil_opened hsd hrd ho hstream) fun _ t ht => ?_
    refine wp_weaken (ResultReader.read_opened ho hone ht) fun br e he => ?_
    obtain ⟨hrows, hclose⟩ := he
    rw [ht.fieldDescriptions ho, hrows]
    unfold shownByExecParams
    rw [← hclose]
  · rw [hwr] at hsome
    cases hsome

end

end SeenViaExecParams

/-! ## With a pipeline -/

/-- Only the `Sync` is left of the pipeline. -/
structure LastSync (c : PgConn) (ms : List BackendMessage) : Prop where
  status : c.status = .busy
  reader : c.resultReader.closed = true
  pending : Carries c.pending ms
  queue : c.pipeline.state.requestEventQueue = [syncEvent]
  expected : c.pipeline.state.expectedReadyForQueryCount = 1

namespace Pipeline

variable {env : Env} {c : PgConn} {ms : List BackendMessage} {txStatus : UInt8}

theorem wp_getResults_lastSync {Q : Option Results → PgConn → Prop} {E : Error → PgConn → Prop}
    (h : LastSync c ms)
    (hsync : wp (getResultsSync env) Q E { c with pipeline := { c.pipeline with
      state := { c.pipeline.state with requestEventQueue := [], pgErr := none } } }) :
    wp (getResults env) Q E c := by
  have hfront : c.pipeline.state.extractFrontRequestType =
      (.syncRequest, { c.pipeline.state with requestEventQueue := [], pgErr := none }) := by
    unfold PipelineState.extractFrontRequestType
    rw [h.queue]
    rfl
  unfold getResults
  rw [wp_bind]
  unfold closeReader
  rw [wp_bind, wp_get, if_pos h.reader]
  show wp (getResultsOf env c.pipeline.state.extractFrontRequestType.1) _ _
    { c with pipeline := { c.pipeline with state := c.pipeline.state.extractFrontRequestType.2 } }
  rw [hfront]
  exact hsync

theorem closeLoop_done (h : c.pipeline.state.expectedReadyForQueryCount = 0) :
    wp ((closeLoop env).run ()) (fun _ d => d = c) never c := by
  apply Loop.wp_run_round
  show wp (get >>= _) _ _ c
  rw [wp_bind, wp_get, if_neg (by rw [h]; exact Int.lt_irrefl 0)]
  rfl

theorem closeLoop_ready (h : LastSync c [.readyForQuery txStatus]) :
    wp ((closeLoop env).run ()) (fun _ d => d.status = .busy ∧ d.pipeline.err = c.pipeline.err)
      never c := by
  have hopen : c.status ≠ .closed := by rw [h.status]; exact nofun
  apply Loop.wp_run_round
  show wp (get >>= _) _ _ c
  rw [wp_bind, wp_get, if_pos (by rw [h.expected]; decide), wp_bind, wp_attempt_iff]
  apply wp_getResults_lastSync h
  unfold getResultsSync
  rw [wp_bind]
  refine wp_receiveMessage hopen h.pending (fun d _ hd => ?_) fun _ _ hp => nomatch hp
  rw [wp_bind, modifyState, modifyPipeline, wp_modify]
  show wp ((closeLoop env).run ()) _ _ _
  refine wp_mono (closeLoop_done ?_) ?_ fun _ _ he => he
  · rw [hd.pipeline]
    show c.pipeline.state.expectedReadyForQueryCount - 1 = 0
    rw [h.expected]
    rfl
  · intro _ e he
    rw [he]
    refine ⟨hd.status.trans h.status, ?_⟩
    rw [hd.pipeline]

/-- On a connection that was closed `Close` gives up, with an error of its own or the one that
closed the connection. -/
def GaveUp (c : PgConn) (r : Option Error) : Prop :=
  r.bind serverError = none ∨ r = c.pipeline.err

theorem closeLoop_ended (h : Ended c) :
    wp ((closeLoop env).run ()) (fun _ d => d.status = .closed ∧
      GaveUp c d.pipeline.err) never c := by
  apply Loop.wp_run_round
  show wp (get >>= _) _ _ c
  rw [wp_bind, wp_get]
  split
  · rw [wp_bind, wp_attempt_iff]
    apply wp_mono h.getResults
    · intro r d hd
      obtain ⟨rfl, -, -, herr⟩ := hd
      rw [wp_bind, asyncClose, wp_modify, wp_bind, modifyPipeline, wp_modify]
      refine ⟨rfl, ?_⟩
      rw [herr]
      unfold GaveUp
      cases c.pipeline.err with
      | none => exact .inl rfl
      | some e => exact .inr rfl
    · intro e d hd
      obtain ⟨-, rfl | ⟨text, rfl⟩⟩ := hd
      · exact ⟨rfl, .inl rfl⟩
      · exact ⟨rfl, .inl rfl⟩
  · exact ⟨h.status, .inr rfl⟩

theorem closeLoop_cut {e : Error} (hs : c.status = .closed) (hrr : c.resultReader.closed = true)
    (hqueue : c.pipeline.state.requestEventQueue = []) (herr : c.pipeline.err = some e) :
    wp ((closeLoop env).run ()) (fun _ d => d.status = .closed ∧
      d.pipeline.err = some e) never c := by
  apply Loop.wp_run_round
  show wp (get >>= _) _ _ c
  rw [wp_bind, wp_get]
  split
  · rw [wp_bind, wp_attempt_iff]
    unfold getResults
    rw [wp_bind]
    unfold closeReader
    rw [wp_bind, wp_get, if_pos hrr]
    show wp (getResultsOf env c.pipeline.state.extractFrontRequestType.1) _ _ _
    have hfront : c.pipeline.state.extractFrontRequestType.1 = .nil := by
      unfold PipelineState.extractFrontRequestType
      rw [hqueue]
      rfl
    rw [hfront]
    refine ⟨rfl, ?_⟩
    show c.pipeline.err.or _ = _
    rw [herr]
    rfl
  · exact ⟨hs, herr⟩

theorem closeLoop_error {err : PgError}
    (h : LastSync c [.errorResponse err, .readyForQuery txStatus]) :
    wp ((closeLoop env).run ()) (fun _ d => d.status = (if env.closesOn err then .closed else .busy) ∧
        d.pipeline.err.bind serverError = some err) never c := by
  have hopen : c.status ≠ .closed := by rw [h.status]; exact nofun
  apply Loop.wp_run_round
  show wp (get >>= _) _ _ c
  rw [wp_bind, wp_get, if_pos (by rw [h.expected]; decide), wp_bind, wp_attempt_iff]
  apply wp_getResults_lastSync h
  unfold getResultsSync
  rw [wp_bind]
  refine wp_receiveMessage hopen h.pending (fun d hp hd => ?_) fun e d hp he hd => ?_
  · rw [wp_bind, modifyState, modifyPipeline, wp_modify]
    unfold handleErrorClosed
    show wp ((closeLoop env).run ()) _ _ _
    have hready : ∀ t, LastSync t [.readyForQuery txStatus] → wp ((closeLoop env).run ())
        (fun _ d => d.status = .busy ∧ d.pipeline.err = t.pipeline.err) never t :=
      fun _ => closeLoop_ready
    refine wp_mono (hready _ ⟨hd.status.trans h.status, rfl, hd.pending, ?_, ?_⟩) ?_ fun _ _ he => he
    · show syncEvent :: d.pipeline.state.requestEventQueue = _
      rw [hd.pipeline]
    · rw [hd.pipeline]
      exact h.expected
    · intro _ e he
      have hno : env.closesOn err = false := by simpa [Env.passes] using hp
      rw [hno]
      exact ⟨he.1, by rw [he.2]; rfl⟩
  · obtain ⟨err', h1, rfl⟩ := he
    cases h1
    have hyes : env.closesOn err = true := by simpa [Env.passes] using hp
    refine wp_mono (closeLoop_cut hd.status ?_ ?_ rfl) ?_ fun _ _ he => he
    · rw [hd.resultReader]
      exact h.reader
    · show d.pipeline.state.requestEventQueue = []
      rw [hd.pipeline]
    · intro _ e he
      rw [hyes, he.2]
      exact ⟨he.1, rfl⟩

theorem close_ended (h : Ended c) : wp (close env)
    (fun r d => GaveUp c r ∧ (d.status != .closed) = false) never c := by
  unfold close
  rw [wp_bind, wp_get]
  cases hclosed : c.pipeline.closed with
  | true => exact ⟨.inr rfl, by rw [h.status]; rfl⟩
  | false =>
    rw [if_neg Bool.false_ne_true, wp_bind, modifyPipeline, wp_modify]
    split
    · exact ⟨.inl rfl, rfl⟩
    · rw [wp_bind]
      have hended : Ended { c with pipeline := { c.pipeline with closed := true } } :=
        ⟨h.status, h.reader⟩
      refine wp_weaken (closeLoop_ended hended) fun _ d hd => ?_
      obtain ⟨hs, hgave⟩ := hd
      rw [wp_bind]
      unfold unlock
      rw [wp_bind, wp_get, hs]
      exact ⟨hgave, by rw [hs]; rfl⟩

theorem close_lastSync (hopen : c.pipeline.closed = false)
    (herr : c.pipeline.err = none) (h : LastSync c (Item.sync.reply (.synced syncErr txStatus))) :
    wp (close env) (fun r d => r.bind serverError = syncErr ∧
      (d.status != .closed) = !env.cuts syncErr) never c := by
  have hpending : c.pipeline.state.pendingSync = false := by
    unfold PipelineState.pendingSync
    rw [h.queue]
    rfl
  unfold close
  rw [wp_bind, wp_get, hopen, if_neg Bool.false_ne_true, wp_bind, modifyPipeline, wp_modify, hpending,
    if_neg Bool.false_ne_true, wp_bind]
  let t : PgConn := { c with pipeline := { c.pipeline with closed := true } }
  have ht : LastSync t (Item.sync.reply (.synced syncErr txStatus)) :=
    ⟨h.status, h.reader, h.pending, h.queue, h.expected⟩
  have hidle : ∀ d : PgConn, d.status = .busy → d.pipeline.err.bind serverError = syncErr →
      env.cuts syncErr = false → wp (unlock >>= fun _ => get >>= fun d => pure d.pipeline.err)
        (fun r d => r.bind serverError = syncErr ∧ (d.status != .closed) = !env.cuts syncErr)
        never d := by
    intro d hd herr hcuts
    rw [wp_bind]
    refine wp_unlock_busy hd ?_
    rw [hcuts]
    exact ⟨herr, rfl⟩
  cases syncErr with
  | none =>
    refine wp_weaken (closeLoop_ready ht) fun _ d hd => ?_
    exact hidle d hd.1 (by rw [hd.2]; show c.pipeline.err.bind _ = _; rw [herr]; rfl) rfl
  | some err =>
    refine wp_weaken (closeLoop_error ht) fun _ d hd => ?_
    obtain ⟨hs, herr⟩ := hd
    have hcuts : env.cuts (some err) = env.closesOn err := rfl
    cases hon : env.closesOn err with
    | false =>
      rw [hon] at hs
      exact hidle d hs herr (hcuts.trans hon)
    | true =>
      rw [hon] at hs
      rw [wp_bind]
      unfold unlock
      rw [wp_bind, wp_get, hs, hcuts, hon]
      exact ⟨herr, by rw [hs]; rfl⟩

/-- The pipeline once the result of its only query was asked for. -/
def queried : Pipeline :=
  { state :=
      { requestEventQueue := [syncEvent], lastRequestType := .syncRequest, expectedReadyForQueryCount := 1 } }

/-- The query and the `Sync` were sent. -/
def asked : Pipeline :=
  { queried with
    state :=
      { queried.state with
        requestEventQueue :=
          [{ requestType := .queryParams, wasSentToServer := true, beforeFlushOrSync := true },
            syncEvent] } }

section ViaPipeline

variable {q : Query} {o : Outcome}

/-- What is known when the result of the query was asked for and there is one. -/
def Opens (o : Outcome) (ms : List BackendMessage) (d : PgConn) : Prop :=
  d.status = .busy ∧ d.pipeline = queried ∧
    match o with
    | .executed (some fields) rows ending =>
      Carries d.pending (rows.map .dataRow ++ ending.message :: ms) ∧
        d.resultReader = { pipeline := true, fieldDescriptions := fields }
    | o =>
      Carries d.pending ms ∧ o.ending ≠ .empty ∧ o.ending.fails = false ∧ d.resultReader =
        { commandTag := o.ending.commandTag, commandConcluded := true, closed := true }

def Refuses (env : Env) (o : Outcome) (ms : List BackendMessage) (e : Error) (d : PgConn) : Prop :=
  e.isPanic = false ∧
  match o with
  | .failed _ err => serverError e = some err ∧
      ((env.passes (.errorResponse err) = true ∧ d.pipeline.closed = false ∧ d.pipeline.err = none ∧
          LastSync d ms) ∨
        (env.passes (.errorResponse err) = false ∧ Ended d))
  | .executed none [] .empty =>
    serverError e = none ∧ Ended d ∧ d.pipeline.err.bind serverError = none
  | _ => False

section

variable (ho : Suits (.request q.request) o) (hs : c.status = .busy)
    (hrr : c.resultReader.closed = true)

include ho hs hrr

theorem getResultsOf_single (hp : c.pipeline = queried)
    (hc : Carries c.pending ((request q.request).reply o ++ ms)) :
    wp (getResultsOf env (request q.request).requestType)
      (fun r d => r = some .resultReader ∧ Opens o ms d) (Refuses env o ms) c := by
  have hopen : c.status ≠ .closed := by rw [hs]; exact nofun
  have hkeep : ∀ {t d : PgConn} {ks ns : List BackendMessage}, Took c t ns →
      Settled t d t.pipeline.state ks → d.status = .busy ∧ d.pipeline = queried := by
    intro t d ks ns ht hd
    refine ⟨hd.status.trans (ht.status.trans hs), ?_⟩
    rw [hd.pipeline, ht.pipeline, hp]
  cases ho with
  | rows fields rows ending hr hne =>
    have hc' : Carries c.pending
        (q.request.prelude (some fields) ++ (rows.map .dataRow ++ ending.message :: ms)) := by
      simpa [reply, prelude] using hc
    refine getResultsOf_opening hopen rfl hc' fun t errStr ht => ?_
    refine wp_total (receiveDescribedResultReader_rows (took_open hopen ht) ht.pending)
      fun x d hd => ?_
    obtain ⟨rfl, hset, hd⟩ := hd
    obtain ⟨hsd, hpd⟩ := hkeep ht hset
    exact ⟨rfl, hsd, hpd, hset.pending, hd⟩
  | noRows ending hr hf =>
    have hc' : Carries c.pending (q.request.prelude none ++ ending.message :: ms) := by
      simpa [reply, prelude] using hc
    refine getResultsOf_opening hopen rfl hc' fun t errStr ht => ?_
    cases ending with
    | complete tag =>
      refine wp_total (receiveDescribedResultReader_complete (took_open hopen ht) ht.pending)
        fun x d hd => ?_
      obtain ⟨rfl, hset, hd⟩ := hd
      obtain ⟨hsd, hpd⟩ := hkeep ht hset
      exact ⟨rfl, hsd, hpd, hset.pending, nofun, rfl, hd⟩
    | empty =>
      refine wp_fails (receiveDescribedResultReader_empty (took_open hopen ht) ht.pending)
        fun e d hd => ?_
      obtain ⟨hcut, text, args, rfl⟩ := hd
      refine ⟨rfl, rfl, ⟨hcut.status, ?_⟩, ?_⟩
      · rw [hcut.resultReader]
        exact took_closed hrr ht
      · rw [hcut.pipeline]
        rfl
    | failed err => cases hf
  | queryFailed before err hr hb =>
    refine wp_fails (getResultsOf_refusal hopen hrr rfl hb hc) fun e d hd => ?_
    obtain ⟨rfl, ⟨hpass, hset, hclosed⟩ | ⟨hpass, hcut⟩⟩ := hd
    · refine ⟨rfl, rfl, .inl ⟨hpass, ?_, ?_, hset.status.trans hs, hclosed, hset.pending, ?_, ?_⟩⟩ <;>
        rw [hset.pipeline, hp] <;> rfl
    · refine ⟨rfl, rfl, .inr ⟨hpass, hcut.status, ?_⟩⟩
      rw [hcut.resultReader]
      exact hrr

theorem exportedGetResults_single (hp : c.pipeline = asked)
    (hc : Carries c.pending ((request q.request).reply o ++ ms)) :
    wp (exportedGetResults env) (fun r d => r = some .resultReader ∧ Opens o ms d)
      (Refuses env o ms) c := by
  unfold exportedGetResults
  rw [wp_bind, wp_get, if_neg (by rw [hp]; exact Bool.false_ne_true)]
  unfold getResults
  rw [wp_bind]
  unfold closeReader
  rw [wp_bind, wp_get, if_pos hrr]
  show wp (getResultsOf env c.pipeline.state.extractFrontRequestType.1) _ _
    { c with pipeline := { c.pipeline with state := c.pipeline.state.extractFrontRequestType.2 } }
  rw [hp]
  exact getResultsOf_single (c := { c with pipeline := queried }) ho hs hrr rfl hc

end

theorem noted_queried {m : BackendMessage} (hp : c.pipeline = queried) :
    (c.noted m).closed = false ∧ (c.noted m).err = none ∧
    (c.noted m).state.requestEventQueue = [syncEvent] ∧
      (c.noted m).state.expectedReadyForQueryCount = 1 := by
  have hsame : c.pipeline.closed = false ∧ c.pipeline.err = none ∧
      c.pipeline.state.requestEventQueue = [syncEvent] ∧
      c.pipeline.state.expectedReadyForQueryCount = 1 := by
    rw [hp]
    exact ⟨rfl, rfl, rfl, rfl⟩
  cases m with
  | errorResponse err =>
    unfold PgConn.noted
    dsimp only
    split <;> exact hsame
  | _ => exact hsame

theorem read_opens (ho : Suits (.request q.request) o)
    (h : Opens o (Item.sync.reply (.synced syncErr txStatus)) c) :
    wp (ResultReader.read env) (fun br d =>
      (br.rows = o.rows ∧ br.commandTag = o.ending.commandTag ∧ br.err = o.ending.err) ∧
        o.ending ≠ .empty ∧ ((env.passes o.ending.message = true ∧ d.pipeline.closed = false ∧
          d.pipeline.err = none ∧ LastSync d (Item.sync.reply (.synced syncErr txStatus))) ∨
        (env.passes o.ending.message = false ∧ Ended d))) never c := by
  obtain ⟨hs, hp, h⟩ := h
  have hopen : c.status ≠ .closed := by rw [hs]; exact nofun
  cases ho with
  | rows fields rows ending hr hne =>
    obtain ⟨hc, hrr⟩ := h
    refine wp_weaken
      (ResultReader.read_rows_out rows hopen (by rw [hrr]; exact ⟨rfl, rfl, rfl⟩) (by rw [hrr])
      (by rw [hrr]) (by rw [hrr]) hc) fun br d hd => ?_
    obtain ⟨hbr, hout⟩ := hd
    refine ⟨hbr, hne, ?_⟩
    rcases hout.rest with ⟨hpass, hsd, hcd, hpd⟩ | ⟨hpass, hsd, -⟩
    · obtain ⟨hcl, her, hq, hexp⟩ := noted_queried (m := ending.message) hp
      rw [← hpd] at hcl her hq hexp
      exact .inl ⟨hpass, hcl, her, hsd.trans hs, hout.reader, hcd, hq, hexp⟩
    · exact .inr ⟨hpass, hsd, hout.reader⟩
  | noRows ending hr hf =>
    obtain ⟨hc, hne, -, hrr⟩ := h
    refine wp_weaken (ResultReader.read_closed (by rw [hrr]) (by rw [hrr]) (by rw [hrr]))
      fun br d hd => ?_
    obtain ⟨⟨hrows, htag, herr⟩, rfl⟩ := hd
    rw [hrr] at htag herr
    have hnone : ending.err = none ∧ env.passes ending.message = true := by
      cases ending with
      | failed err => cases hf
      | _ => exact ⟨rfl, rfl⟩
    refine ⟨⟨hrows, htag, herr.trans hnone.1.symm⟩, hne, .inl ⟨hnone.2, ?_, ?_, hs, ?_, hc, ?_, ?_⟩⟩
    · rw [hp]; rfl
    · rw [hp]; rfl
    · rw [hrr]
    · rw [hp]; rfl
    · rw [hp]; rfl
  | queryFailed before err hr hb => cases h.2.2.1

end ViaPipeline

end Pipeline

def shownByPipeline (env : Env) (o : Outcome) (syncErr : Option PgError) : Seen × Bool :=
  match o.ending with
  | .empty => ({}, false)
  | ending =>
    ({ fieldDescriptions := o.fields
       rows := o.rows
       commandTag := ending.commandTag
       err := (ending.err.bind serverError).or syncErr },
      env.passes ending.message && !env.cuts syncErr)

section SeenViaPipeline

variable {env : Env} {c d : PgConn} {q : Query} {Q : Seen → PgConn → Prop}

/-- The query was sent, or it was not and the pipeline is closed. -/
theorem wp_viaPipeline (hs : c.status = .idle) (hw : c.wbuf = [])
    (hok : env.write c.wire q.messages = none → ∀ d, d.status = .busy → d.resultReader.closed = true →
      d.pending = c.pending ++ c.peer c.wire q.messages → d.pipeline = Pipeline.asked →
      wp (onlyResult env) Q never d)
    (hfail : ∀ text, env.write c.wire q.messages = some text → ∀ d, d.status = .closed → Q {} d) :
    wp (viaPipeline env q) Q never c := by
  unfold viaPipeline startPipeline
  rw [wp_bind, wp_bind]
  refine wp_lock_idle hs ?_
  rw [wp_modify]
  dsimp only
  rw [wp_bind]
  unfold Pipeline.sendQueryParams Pipeline.sendRequest
  rw [wp_bind, wp_get, if_neg Bool.false_ne_true, wp_bind, sendAll, wp_modify, Pipeline.modifyState,
    Pipeline.modifyPipeline, wp_modify]
  dsimp only
  rw [wp_bind, wp_attempt_iff]
  unfold Pipeline.sync Pipeline.sendPipelineSync Pipeline.sendRequest
  rw [wp_bind, wp_bind, wp_get, if_neg Bool.false_ne_true, wp_bind, sendAll, wp_modify,
    Pipeline.modifyState, Pipeline.modifyPipeline, wp_modify]
  dsimp only
  unfold Pipeline.flush
  rw [wp_bind, wp_get, if_neg Bool.false_ne_true, wp_bind, wp_attempt_iff]
  refine wp_flush q.messages ?_ (List.cons_ne_nil _ _) ?_ ?_
  · show c.wbuf ++ _ ++ _ = _
    rw [hw]
    rfl
  · intro hwr
    exact hok hwr _ rfl rfl (asking_pending c q.messages) rfl
  · intro text d hwr hrr hp
    exact hfail text hwr _ rfl

theorem seen_viaPipeline_unwritten {text : String} (hs : c.status = .idle) (hw : c.wbuf = [])
    (hwr : env.write c.wire q.messages = some text) :
    seen (viaPipeline env q) c = some ({}, false) := by
  apply seen_of_wp
  refine wp_viaPipeline hs hw (fun hnone => ?_) fun _ _ d hd => by rw [hd]; rfl
  rw [hwr] at hnone
  cases hnone

theorem close_after {first : Option PgError} {txStatus : UInt8} {pass : Bool}
    (h : (pass = true ∧ c.pipeline.closed = false ∧ c.pipeline.err = none ∧
        LastSync c (Item.sync.reply (.synced syncErr txStatus))) ∨
        (pass = false ∧ first.isSome ∧ Ended c)) :
    wp (Pipeline.close env) (fun r d => first.or (r.bind serverError) = first.or syncErr ∧
      (d.status != .closed) = (pass && !env.cuts syncErr)) never c := by
  rcases h with ⟨rfl, hopen, herr, h⟩ | ⟨rfl, hfirst, h⟩
  · refine wp_weaken (Pipeline.close_lastSync hopen herr h) fun r d hd => ?_
    rw [hd.1, hd.2]
    exact ⟨rfl, rfl⟩
  · refine wp_weaken (Pipeline.close_ended h) fun r d hd => ?_
    obtain ⟨e, rfl⟩ := Option.isSome_iff_exists.mp hfirst
    exact ⟨rfl, hd.2⟩

theorem shownByPipeline_of_ne {o : Outcome} (h : o.ending ≠ .empty) : shownByPipeline env o syncErr =
      ({ fieldDescriptions := o.fields
         rows := o.rows
         commandTag := o.ending.commandTag
         err := (o.ending.err.bind serverError).or syncErr },
        env.passes o.ending.message && !env.cuts syncErr) := by
  unfold shownByPipeline
  cases hend : o.ending with
  | empty => exact absurd hend h
  | _ => rfl

theorem isSome_of_not_passes (h : env.passes ending.message = false) :
    (ending.err.bind serverError).isSome = true := by
  cases ending with
  | failed err => rfl
  | _ => cases h

theorem Opens.fieldDescriptions {o : Outcome} {ms : List BackendMessage}
    (ho : Suits (.request q.request) o)
    (h : Pipeline.Opens o ms d) : d.resultReader.fieldDescriptions = o.fields := by
  obtain ⟨-, -, h⟩ := h
  cases ho with
  | rows fields rows ending hr hne => rw [h.2]; rfl
  | noRows ending hr hf => rw [h.2.2.2]; rfl
  | queryFailed before err hr hb => cases h.2.2.1

theorem seen_viaPipeline_answered {o : Outcome} {txStatus : UInt8}
    (hs : c.status = .idle) (hw : c.wbuf = []) (hwr : env.write c.wire q.messages = none)
    (hc : Carries c.pending []) (ho : Suits (.request q.request) o)
    (hone : o.ending.fails = true → syncErr = none)
    (hpeer : Carries (c.peer c.wire q.messages)
      ((request q.request).reply o ++ sync.reply (.synced syncErr txStatus))) :
    seen (viaPipeline env q) c = some (shownByPipeline env o syncErr) := by
  apply seen_of_wp
  refine wp_viaPipeline hs hw (fun _ d hsd hrd hd hp => ?_) fun text hsome => ?_
  · have hstream : Carries d.pending
        ((request q.request).reply o ++ sync.reply (.synced syncErr txStatus)) := by
      rw [hd]
      exact hc.append hpeer
    unfold onlyResult
    rw [wp_bind, wp_attempt_iff]
    refine wp_mono (Pipeline.exportedGetResults_single ho hsd hrd hp hstream)
      (fun r t ht => ?_) fun e t ht => ?_
    · obtain ⟨rfl, ht⟩ := ht
      rw [wp_bind, wp_get, wp_bind]
      refine wp_weaken (Pipeline.read_opens ho ht) fun br u hu => ?_
      obtain ⟨⟨hrows, htag, herr⟩, hne, hu⟩ := hu
      rw [wp_bind, hrows, htag, herr, Opens.fieldDescriptions ho ht, shownByPipeline_of_ne hne]
      have hafter := hu.imp_right fun h => And.intro h.1 (And.intro (isSome_of_not_passes h.1) h.2)
      refine wp_weaken (close_after hafter) fun x v hv => ?_
      rw [wp_pure, hv.1, hv.2]
    · obtain ⟨hpanic, ht⟩ := ht
      rw [if_neg (by simp [hpanic])]
      rw [wp_bind]
      cases ho with
      | rows fields rows ending hr hne => exact ht.elim
      | noRows ending hr hf =>
        cases ending with
        | complete tag => exact ht.elim
        | failed err => exact ht.elim
        | empty =>
          -- The error is not one of the server, and neither is what `Close` finds.
          obtain ⟨hserver, hended, hnone⟩ := ht
          refine wp_weaken (Pipeline.close_ended hended) fun r v hv => ?_
          have hr : r.bind serverError = none := by
            rcases hv.1 with h | h
            · exact h
            · rw [h, hnone]
          rw [wp_pure, hr, hserver, hv.2]
          rfl
      | queryFailed before err hr hb =>
        obtain ⟨hserver, ht⟩ := ht
        have hafter :=
          ht.imp_right fun h => And.intro h.1 (And.intro (Option.isSome_some (a := err)) h.2)
        refine wp_weaken (close_after hafter) fun x v hv => ?_
        rw [wp_pure, hserver, hv.1, hv.2]
        rfl
  · rw [hwr] at hsome
    cases hsome

end SeenViaPipeline

theorem shown_same_iff {env : Env} {o : Outcome} (hone : o.ending.fails = true → syncErr = none) :
    shownByPipeline env o syncErr = shownByExecParams env o syncErr ↔
      o.ending ≠ .empty ∧ (env.cuts syncErr = true → o.ending.commandTag = []) := by
  unfold shownByPipeline shownByExecParams ResultReader.closes
  cases hend : o.ending with
  | failed err =>
    obtain rfl := hone (by rw [hend]; rfl)
    cases hon : env.closesOn err <;>
      simp [Ending.message, Env.passes, Env.cuts, hon, serverError, Ending.err, Ending.commandTag]
  | _ =>
    cases syncErr with
    | none => simp [Ending.message, Env.passes, Env.cuts, Ending.err, Ending.commandTag]
    | some err =>
      cases hon : env.closesOn err <;>
        simp [Ending.message, Env.passes, Env.cuts, hon, serverError, Ending.err, Ending.commandTag]

/-- A query that is the only one of a pipeline shows what `ExecParams` shows of it, and leaves the
connection as open, except when it has more parameters than the protocol can count, when the server
finds it empty, and when the error of the `Sync` closes the connection after a command that was
completed. -/
theorem sendQueryParams_same_iff (env : Env) (q : Query) (c : PgConn) (o : Outcome)
    (syncErr : Option PgError) (txStatus : UInt8) (hs : c.status = .idle) (hw : c.wbuf = [])
    (hc : Carries c.pending []) (ho : Suits (.request q.request) o)
    (hone : o.ending.fails = true → syncErr = none)
    (hpeer : Carries (c.peer c.wire q.messages)
      ((Item.request q.request).reply o ++ Item.sync.reply (.synced syncErr txStatus)))
    (hbig : maxUint16 < q.paramValues.length → env.write c.wire q.messages ≠ none) :
    seen (viaPipeline env q) c = seen (viaExecParams env q) c ↔
      q.paramValues.length ≤ maxUint16 ∧ (env.write c.wire q.messages = none →
        o.ending ≠ .empty ∧ (env.cuts syncErr = true → o.ending.commandTag = [])) := by
  rcases Nat.lt_or_ge maxUint16 q.paramValues.length with hlen | hlen
  · obtain ⟨text, hwr⟩ := Option.ne_none_iff_exists'.mp (hbig hlen)
    rw [seen_viaPipeline_unwritten hs hw hwr, seen_viaExecParams_tooMany hs hlen]
    constructor
    · exact nofun
    · intro h
      omega
  · cases hwr : env.write c.wire q.messages with
    | some text =>
      rw [seen_viaPipeline_unwritten hs hw hwr, seen_viaExecParams_unwritten hs hw hlen hwr]
      exact ⟨fun _ => ⟨hlen, nofun⟩, fun _ => rfl⟩
    | none =>
      rw [seen_viaPipeline_answered hs hw hwr hc ho hone hpeer,
        seen_viaExecParams_answered hs hw hlen hwr hc ho hone hpeer, Option.some_inj,
        shown_same_iff hone]
      exact ⟨fun h => ⟨hlen, fun _ => h⟩, fun h => h.2 rfl⟩

/-- A connection to a server that sends these messages whatever it is sent. -/
def repeating (answer : List BackendMessage) : PgConn where
  peer := fun _ _ => answer.map .message
  inbox := []
  status := .idle

def unparameterized (sql : Bytes) : Query :=
  { sql, paramValues := [], paramOIDs := [], paramFormats := [], resultFormats := [] }

def oneRowAnswer : List BackendMessage :=
  [.noticeResponse Session.permissionDenied, .parseComplete, .bindComplete,
    .rowDescription [textColumn (ascii "a")], .dataRow [some (ascii "1")],
    .commandComplete (ascii "SELECT 1"), .readyForQuery 73]

/-- A notice before the answer makes no difference. -/
theorem sendQueryParams_same_select :
    seen (viaPipeline plainEnv (unparameterized (ascii "select 1"))) (repeating oneRowAnswer) =
      seen (viaExecParams plainEnv (unparameterized (ascii "select 1")))
        (repeating oneRowAnswer) := by
  let o : Outcome := .executed (some [textColumn (ascii "a")]) [[some (ascii "1")]]
    (.complete (ascii "SELECT 1"))
  have hsuits : Suits (.request (unparameterized (ascii "select 1")).request) o :=
    .rows _ _ _ rfl nofun
  exact (sendQueryParams_same_iff plainEnv (unparameterized (ascii "select 1"))
    (repeating oneRowAnswer) o none 73 rfl rfl rfl hsuits nofun rfl nofun).mpr
    ⟨by decide, fun _ => ⟨nofun, nofun⟩⟩

/-- The empty query is a success for `ExecParams`, and closes the connection of the pipeline. -/
theorem sendQueryParams_empty_differs :
    seen (viaExecParams plainEnv (unparameterized []))
        (repeating [.parseComplete, .bindComplete, .noData, .emptyQueryResponse, .readyForQuery 73]) =
      some ({}, true) ∧
    seen (viaPipeline plainEnv (unparameterized []))
        (repeating [.parseComplete, .bindComplete, .noData, .emptyQueryResponse, .readyForQuery 73]) =
      some ({}, false) := by
  constructor <;> decide +kernel

end Pgx.Conn
