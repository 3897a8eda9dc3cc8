import Pgx.Conn.PipelineRun
import Pgx.Conn.ReadAll

/-!
# The columns of the results of a batch

A batch is queued, executed, and its results are read in order. The descriptions
of its statements are queued apart from its messages, and taken off their queue
when a result begins with a row.
-/
namespace Pgx.Conn

open Pgx.Go Pgx.Wire Pgx.Effect List Request ResultReader

/-! ## Queuing -/

inductive Queued where
  | execParams (sql : Bytes) (paramValues : List (Option Bytes)) (paramOIDs : List UInt32)
      (paramFormats resultFormats : List Int)
  | execPrepared (stmtName : Bytes) (paramValues : List (Option Bytes))
      (paramFormats resultFormats : List Int)
  | execStatement (statementDescription : StatementDescription) (paramValues : List (Option Bytes))
      (paramFormats resultFormats : List Int)
  deriving DecidableEq

variable {ending : Ending} {rows : List (List (Option Bytes))} {answers : List (Queued × Outcome)}
    {before : List BackendMessage} {queries : List Queued}

namespace Queued

def add (env : Env) : Queued → Batch → Batch
  | execParams sql paramValues paramOIDs paramFormats resultFormats =>
    Batch.execParams env sql paramValues paramOIDs paramFormats resultFormats
  | execPrepared stmtName paramValues paramFormats resultFormats =>
    Batch.execPrepared env stmtName paramValues paramFormats resultFormats
  | execStatement sd paramValues paramFormats resultFormats =>
    Batch.execStatement env sd paramValues paramFormats resultFormats

def request : Queued → Request
  | execParams sql paramValues paramOIDs paramFormats resultFormats =>
    .queryParams sql paramValues paramOIDs paramFormats resultFormats
  | execPrepared stmtName paramValues paramFormats resultFormats =>
    .queryPrepared stmtName paramValues paramFormats resultFormats
  | execStatement sd paramValues paramFormats resultFormats =>
    .queryStatement sd paramValues paramFormats resultFormats

def statement : Queued → Option (StatementDescription × List Int)
  | execStatement sd _ _ resultFormats => some (sd, resultFormats)
  | _ => none

end Queued

def batchOf (env : Env) (queries : List Queued) : Batch :=
    queries.foldl (fun batch q => q.add env batch) {}

def itemsOf (queries : List Queued) : List Item := queries.map fun q => .request q.request

def batchStatements (queries : List Queued) : List (StatementDescription × List Int) :=
  queries.filterMap Queued.statement

namespace Batch

variable {env : Env} {b : Batch}

theorem encode_ok {m : FrontendMessage} (h : (b.encode env m).err = none) :
    b.err = none ∧ b.encode env m = { b with buf := b.buf ++ [m] } := by
  unfold encode at *
  cases hb : b.err with
  | some e =>
    rw [hb] at h
    exact nomatch hb.symm.trans h
  | none =>
    rw [hb] at h
    refine ⟨rfl, ?_⟩
    cases hm : env.encodeError m with
    | some e =>
      rw [hm] at h
      cases h
    | none => rfl

structure Added (q : Queued) (b d : Batch) : Prop where
  err : b.err = none
  buf : d.buf = b.buf ++ q.request.messages
  statementDescriptions : d.statementDescriptions =
    b.statementDescriptions ++ q.statement.toList.map Prod.fst
  resultFormats : d.resultFormats = b.resultFormats ++ q.statement.toList.map Prod.snd

theorem add_ok {q : Queued} (h : (q.add env b).err = none) : Added q b (q.add env b) := by
  have hprepared : ∀ (b : Batch) name values formats formats',
      (b.execPrepared env name values formats formats').err = none →
      b.err = none ∧ b.execPrepared env name values formats formats' =
        { b with buf := b.buf ++ [.bind name formats values formats', .describe 'P' [], .execute] } := by
    intro b name values formats formats' h
    unfold execPrepared at *
    obtain ⟨h3, e3⟩ := encode_ok h
    obtain ⟨h2, e2⟩ := encode_ok h3
    obtain ⟨h1, e1⟩ := encode_ok h2
    refine ⟨h1, ?_⟩
    rw [e3, e2, e1]
    simp
  cases q with
  | execParams sql values oids formats formats' =>
    have h' : ((b.encode env (.parse [] sql oids)).execPrepared env
        [] values formats formats').err = none := h
    obtain ⟨h1, e1⟩ := hprepared _ _ _ _ _ h'
    obtain ⟨h0, e0⟩ := encode_ok h1
    have heq : Queued.add env (.execParams sql values oids formats formats') b =
        { b with buf := b.buf ++ (Queued.execParams sql values oids formats formats').request.messages } := by
      show (b.encode env (.parse [] sql oids)).execPrepared env [] values formats formats' = _
      rw [e1, e0]
      simp [Queued.request, messages]
    rw [heq]
    exact ⟨h0, rfl, (append_nil _).symm, (append_nil _).symm⟩
  | execPrepared name values formats formats' =>
    obtain ⟨h0, e0⟩ := hprepared b _ _ _ _ h
    have heq : Queued.add env (.execPrepared name values formats formats') b =
        { b with buf := b.buf ++ (Queued.execPrepared name values formats formats').request.messages } := e0
    rw [heq]
    exact ⟨h0, rfl, (append_nil _).symm, (append_nil _).symm⟩
  | execStatement sd values formats formats' =>
    have hadd : Queued.add env (.execStatement sd values formats formats') b =
        b.execStatement env sd values formats formats' := rfl
    rw [hadd] at h ⊢
    unfold execStatement at *
    dsimp only at h ⊢
    cases he : (b.encode env (.bind sd.name formats values formats')).err with
    | some e =>
      rw [he] at h
      exact nomatch he.symm.trans h
    | none =>
      rw [he] at h
      obtain ⟨h0, e0⟩ := encode_ok he
      obtain ⟨-, e1⟩ := encode_ok h
      rw [e1, e0]
      exact ⟨h0, by simp [Queued.request, messages], rfl, rfl⟩

end Batch

theorem foldl_add_ok {env : Env} (queries : List Queued) {b : Batch}
    (h : (queries.foldl (fun batch q => q.add env batch) b).err = none) : b.err = none ∧
      (queries.foldl (fun batch q => q.add env batch) b).buf = b.buf ++ messagesOf (itemsOf queries) ∧
      (queries.foldl (fun batch q => q.add env batch) b).statementDescriptions =
        b.statementDescriptions ++ (batchStatements queries).map Prod.fst ∧
      (queries.foldl (fun batch q => q.add env batch) b).resultFormats =
        b.resultFormats ++ (batchStatements queries).map Prod.snd := by
  induction queries generalizing b with
  | nil => exact ⟨h, by simp [messagesOf, itemsOf], by simp [batchStatements], by simp [batchStatements]⟩
  | cons q queries ih =>
    rw [foldl_cons] at h ⊢
    obtain ⟨herr, hbuf, hsds, hformats⟩ := ih h
    have hadd := Batch.add_ok herr
    have hcons : (batchStatements (q :: queries)) = q.statement.toList ++
        batchStatements queries := by
      unfold batchStatements
      cases hq : q.statement <;> simp [hq]
    refine ⟨hadd.err, ?_, ?_, ?_⟩
    · rw [hbuf, hadd.buf]
      simp [messagesOf, itemsOf, Item.messages]
    · rw [hsds, hadd.statementDescriptions, hcons]
      simp
    · rw [hformats, hadd.resultFormats, hcons]
      simp

namespace MultiResultReader

variable {env : Env} {c d : PgConn} {queue : List (StatementDescription × List Int)}
  {ms : List BackendMessage}

theorem noted_ending {mrr : MultiResultReader} (h : ending.fails = false) :
    mrr.noted ending.message = mrr := by
  cases ending with
  | failed err => cases h
  | _ => rfl

/-- A result was read to its end, and is the last one if it has failed. -/
def Ended (queue : List (StatementDescription × List Int)) (ending : Ending)
    (ms : List BackendMessage) (c : PgConn) : Prop :=
  (ending.fails = false ∧ Between queue ms c) ∨ (ending.fails = true ∧ Over c)

theorem read_result {fields : List FieldDescription}
    (h : Between queue (rows.map .dataRow ++ ending.message :: ms) c)
    (hrr : c.resultReader = { multiResultReader := true, fieldDescriptions := fields }) :
    wp (ResultReader.read env) (fun br d => br.rows = rows ∧ Ended queue ending ms d) never c := by
  unfold ResultReader.read
  rw [wp_bind]
  refine wp_mono
    (ResultReader.readRows_rows rows {} h.open (by rw [hrr]; exact ⟨rfl, rfl⟩) (by rw [hrr])
    h.pending) (fun br d hd => ?_) fun _ _ he => he
  obtain ⟨hrows, t, values, hfin, -, hst, hrt, -, hmt⟩ := hd
  rw [wp_bind]
  have hmulti : t.resultReader.multiResultReader = true := by rw [hrt, hrr]
  rcases hfin with ⟨hp, hg, hf⟩ | ⟨hp, hshut, hf, -, hclosed⟩
  · have hmd : d.multiResultReader = c.multiResultReader.noted ending.message := by
      rw [hg.multiResultReader]
      unfold PgConn.multiNoted
      rw [hmulti, if_pos rfl, hmt]
    refine wp_mono
      (ResultReader.close_concluded (by rw [hf, hrt, hrr]; rfl) (by rw [hf, hrt, hrr]; rfl)
      (by rw [hf]; rfl)) (fun r e he => ?_) fun _ _ he => he
    obtain ⟨-, rfl⟩ := he
    refine ⟨hrows, ?_⟩
    cases hfails : ending.fails with
    | false =>
      rw [noted_ending hfails] at hmd
      refine .inl ⟨hfails, hg.status.trans (hst.trans h.status), ?_, ?_, ?_, ?_, hg.pending⟩
      · rw [hmd, h.closed]
      · rw [hmd, h.err]
      · rw [hmd, h.statementDescriptions]
      · rw [hmd, h.resultFormats]
    | true =>
      refine .inr ⟨hfails, .inr ?_⟩
      rw [hmd]
      cases ending with
      | failed err => rfl
      | _ => cases hfails
  · refine wp_weaken (ResultReader.close_closed (by rw [hf])) fun r e he => ?_
    obtain ⟨-, rfl⟩ := he
    refine ⟨hrows, .inr ⟨?_, .inl (hclosed hmulti)⟩⟩
    cases ending with
    | failed err => rfl
    | _ => cases hp

/-- The rows of a result whose columns do not fit are not read. -/
theorem read_misfit {err : Error}
    (hrr : c.resultReader = ({ multiResultReader := true } : ResultReader).concludeCommand []
      (some err)) :
    wp (ResultReader.read env) (fun br _ => br.rows = []) never c := by
  unfold ResultReader.read
  rw [wp_bind]
  apply Loop.wp_run_round
  show wp (ResultReader.readRound env {}) _ _ c
  unfold ResultReader.readRound
  rw [wp_bind]
  unfold ResultReader.nextRow
  rw [wp_bind, wp_get, if_neg (by rw [hrr]; exact Bool.false_ne_true)]
  refine wp_readLoop_done (b := false) (ResultReader.concluded_some (by rw [hrr]; rfl)) ?_
  refine (wp_bind (ResultReader.close env) _).mpr ?_
  exact wp_mono (ResultReader.close_concluded (by rw [hrr]; rfl) (by rw [hrr]; rfl)
    (by rw [hrr]; rfl))
    (fun _ _ _ => rfl) fun _ _ he => he

end MultiResultReader

/-! ## All results -/

/-- The columns and the rows of the queries that were executed. -/
def columnsOf (answers : List (Queued × Outcome)) :
    List (List FieldDescription × List (List (Option Bytes))) :=
  answers.filterMap fun a =>
    match a.2 with
    | .executed fields rows _ => some (a.1.request.columns fields, rows)
    | _ => none

def Yielded.observed (y : Yielded) : List FieldDescription × List (List (Option Bytes)) :=
  (y.fieldDescriptions, y.result.rows)

/-- With these descriptions in the queue, each statement finds its own columns. -/
def Matched (queue : List (StatementDescription × List Int)) : List (Queued × Outcome) → Prop
  | [] => True
  | (q, o) :: answers =>
    match q.statement, o, queue with
    | some (sd, resultFormats), .executed _ [] _, _ =>
      statementColumns sd resultFormats = [] ∧ Matched queue answers
    | some _, .executed _ (_ :: _) _, [] => False
    | some (sd, resultFormats), .executed _ (_ :: _) _, s :: queue =>
      combineFieldDescriptionsAndResultFormats s.1.fields s.2 = .ok
        (statementColumns sd resultFormats) ∧
        Matched queue answers
    | _, _, _ => Matched queue answers

/-- A query without a description, or one that was not executed, is as it may be. -/
theorem matched_cons {queue : List (StatementDescription × List Int)} {q : Queued} {o : Outcome}
    (h : q.statement = none ∨ ∀ fields rows ending, o ≠ .executed fields rows ending) :
    Matched queue ((q, o) :: answers) ↔ Matched queue answers := by
  rcases h with h | h
  · cases q with
    | execStatement _ _ _ _ => cases h
    | _ => exact Iff.rfl
  · cases o with
    | executed fields rows ending => exact absurd rfl (h fields rows ending)
    | _ => cases q <;> exact Iff.rfl

theorem skipped_columns {outcomes : List Outcome} {skip : Bool}
    (h : Serves true (itemsOf queries ++ [.sync]) outcomes skip)
    (queue : List (StatementDescription × List Int)) :
    columnsOf (queries.zip outcomes) = [] ∧ Matched queue (queries.zip outcomes) := by
  induction queries generalizing outcomes with
  | nil => exact ⟨rfl, trivial⟩
  | cons q queries ih =>
    cases h with
    | skipped hi h =>
      obtain ⟨h1, h2⟩ := ih h
      refine ⟨h1, (matched_cons (.inr ?_)).mpr h2⟩
      exact nofun
    | answered hskip ho h =>
      rcases hskip with h | h
      · cases h
      · cases h

namespace MultiResultReader

variable {env : Env} {c d : PgConn} {queue : List (StatementDescription × List Int)}
  {ms : List BackendMessage} {results : List Yielded}

theorem wp_readResults_round {Q : List Yielded → PgConn → Prop} {E : Error → PgConn → Prop}
    (h : wp (nextResult env) (fun more d => if more then wp (read env)
      (fun result e => wp ((readResults env).run
        (results ++ [{ fieldDescriptions := d.resultReader.fieldDescriptions, result }])) Q E e) E d
      else Q results d) E c) : wp ((readResults env).run results) Q E c := by
  apply Loop.wp_run_round
  show wp (readResultsRound env results) _ _ c
  unfold readResultsRound
  rw [wp_bind]
  refine wp_weaken h fun more d hd => ?_
  cases more with
  | false => exact hd
  | true =>
    rw [if_pos rfl] at hd ⊢
    rw [wp_bind, wp_get, wp_bind]
    exact hd

/-- What is seen from here on is what is expected of these answers, exactly when they are aligned
with the queue. -/
def Shows (env : Env) (queue : List (StatementDescription × List Int))
    (answers : List (Queued × Outcome)) (c : PgConn) : Prop :=
  ∀ results, wp ((readResults env).run results)
    (fun rs _ => ∃ out, rs.map Yielded.observed = results.map Yielded.observed ++ out ∧
      (out = columnsOf answers ↔ Matched queue answers)) (fun _ _ => ¬ Matched queue answers) c

variable {rest : List (Queued × Outcome)}

theorem shows_cons (queue' : List (StatementDescription × List Int))
    (seen expected : List FieldDescription × List (List (Option Bytes)))
    (hcolumns : columnsOf answers = expected :: columnsOf rest)
    (hmatched : Matched queue answers ↔ seen = expected ∧ Matched queue' rest)
    (hseen : wp (nextResult env) (fun more d => more = true ∧ wp (read env)
      (fun br e => (d.resultReader.fieldDescriptions, br.rows) = seen ∧ Shows env queue' rest e)
      never d) never c) : Shows env queue answers c := by
  intro results
  apply wp_readResults_round
  refine wp_mono hseen (fun more d hd => ?_) fun _ _ he => he.elim
  obtain ⟨rfl, hd⟩ := hd
  refine wp_mono hd (fun br e he => ?_) fun _ _ he => he.elim
  obtain ⟨hbr, he⟩ := he
  refine wp_mono (he _) (fun rs t hrs => ?_) fun _ _ hne h => hne (hmatched.mp h).2
  obtain ⟨out, hrs, hout⟩ := hrs
  refine ⟨seen :: out, ?_, ?_⟩
  · rw [hrs, map_append, append_assoc]
    show _ ++ ([(d.resultReader.fieldDescriptions, br.rows)] ++ out) = _
    rw [hbr]
    rfl
  · rw [hcolumns, hmatched, ← hout]
    exact cons_eq_cons

theorem shows_ended (hok : ending.fails = false → Between queue ms c → Shows env queue rest c)
    (hfail : ending.fails = true → columnsOf rest = [] ∧ Matched queue rest)
    (h : Ended queue ending ms c) : Shows env queue rest c := by
  rcases h with ⟨hf, h⟩ | ⟨hf, h⟩
  · exact hok hf h
  · intro results
    apply wp_readResults_round
    exact nextResult_over h ⟨[], (append_nil _).symm, by simp [hfail hf]⟩

section Answer

variable {q : Queued} {o : Outcome} {rest : List (Queued × Outcome)}

theorem shows_rows {fields : List FieldDescription} (hq : q.request.describes = true)
    (h : Between queue ((Item.request q.request).reply (.executed (some fields) rows ending) ++ ms) c)
    (hrest : ∀ d, Ended queue ending ms d → Shows env queue rest d) :
    Shows env queue ((q, .executed (some fields) rows ending) :: rest) c := by
  obtain ⟨before, hprelude, hbefore, hnone⟩ : ∃ before,
      q.request.prelude (some fields) = before ++ [.rowDescription fields] ∧
        (∀ m ∈ before, skips m = true) ∧ q.statement = none := by
    cases q with
    | execParams _ _ _ _ _ =>
      exact ⟨[.parseComplete, .bindComplete], rfl, by simp [skips], rfl⟩
    | execPrepared _ _ _ _ => exact ⟨[.bindComplete], rfl, by simp [skips], rfl⟩
    | execStatement _ _ _ _ => cases hq
  have h' : Between queue
      (before ++ (.rowDescription fields :: (rows.map .dataRow ++ ending.message :: ms))) c := by
    simpa [Item.reply, Item.prelude, hprelude] using h
  have hcolumns : columnsOf ((q, .executed (some fields) rows ending) :: rest) = (fields, rows) ::
      columnsOf rest := by
    simp [columnsOf, Pipeline.columns_of_describes hq]
  have hmatched : Matched queue ((q, .executed (some fields) rows ending) :: rest) ↔
      (fields, rows) = (fields, rows) ∧ Matched queue rest :=
    (matched_cons (.inl hnone)).trans ⟨fun h => ⟨rfl, h⟩, fun h => h.2⟩
  refine shows_cons queue (fields, rows) (fields, rows) hcolumns hmatched ?_
  refine nextResult_skip before hbefore h' fun d hd => ?_
  refine nextResult_start rfl hd fun t ht hrr => ⟨rfl, ?_⟩
  refine wp_weaken (read_result ht hrr) fun br e he => ?_
  exact ⟨by rw [hrr, he.1], hrest e he.2⟩

theorem shows_noRows {fields : Option (List FieldDescription)}
    {expected : List FieldDescription} (hf : ending.fails = false)
    (hbefore : ∀ m ∈ before, skips m = true)
    (h : Between queue (before ++ ending.message :: ms) c)
    (hcolumns : q.request.columns fields = expected)
    (hmatched : Matched queue ((q, .executed fields [] ending) :: rest) ↔ [] = expected ∧
      Matched queue rest)
    (hrest : ∀ d, Between queue ms d → Shows env queue rest d) :
    Shows env queue ((q, .executed fields [] ending) :: rest) c := by
  obtain ⟨rr, hstart, hclosed, hconcluded, hpreloaded, hfields⟩ :
      ∃ rr, startResult ending.message = some rr ∧
      rr.closed = true ∧ rr.commandConcluded = true ∧ rr.preloaded = false ∧
      rr.fieldDescriptions = [] := by
    cases ending with
    | failed err => cases hf
    | _ => exact ⟨_, rfl, rfl, rfl, rfl, rfl⟩
  have hcolumns' : columnsOf ((q, .executed fields [] ending) :: rest) = (expected, []) ::
      columnsOf rest := by
    simp [columnsOf, hcolumns]
  refine shows_cons queue ([], []) (expected, []) hcolumns' (hmatched.trans (by simp)) ?_
  refine nextResult_skip before hbefore h fun d hd => ?_
  refine nextResult_start hstart hd fun t ht hrr => ⟨rfl, ?_⟩
  refine wp_mono (read_closed (by rw [hrr, hclosed]) (by rw [hrr, hconcluded])
    (by rw [hrr, hpreloaded])) (fun br e he => ?_) fun _ _ he => he
  obtain ⟨⟨hrows, -, -⟩, rfl⟩ := he
  exact ⟨by rw [hrr, hfields, hrows], hrest e ht⟩

theorem shows_failed {err : PgError} (hbefore : ∀ m ∈ before, skips m = true)
    (h : Between queue ((Item.request q.request).reply (.failed before err) ++ ms) c)
    (hrest : columnsOf rest = [] ∧ Matched queue rest) :
    Shows env queue ((q, .failed before err) :: rest) c := by
  have h' : Between queue (before ++ (.errorResponse err :: ms)) c := by
    simpa [Item.reply] using h
  have hmatched : Matched queue ((q, .failed before err) :: rest) := by
    refine (matched_cons (.inr ?_)).mpr hrest.2
    exact nofun
  intro results
  apply wp_readResults_round
  refine nextResult_skip before hbefore h' fun d hd => ?_
  refine nextResult_error hd fun t _ => ?_
  refine ⟨[], (append_nil _).symm, ?_⟩
  show [] = columnsOf rest ↔ _
  simp [hrest.1, hmatched]

/-- The rows of a statement, for which the description at the front of the queue is taken. -/
theorem shows_statement {sd : StatementDescription} {paramValues : List (Option Bytes)}
    {paramFormats resultFormats : List Int} {values : List (Option Bytes)}
    (h : Between queue (.bindComplete :: ((values :: rows).map .dataRow ++ ending.message :: ms)) c)
    (hrest : ∀ queue d, Ended queue ending ms d → Shows env queue rest d) :
    Shows env queue ((.execStatement sd paramValues paramFormats resultFormats,
      .executed none (values :: rows) ending) :: rest) c := by
  have hskip : ∀ m ∈ [BackendMessage.bindComplete], skips m = true := by simp [skips]
  cases queue with
  | nil =>
    intro results
    apply wp_readResults_round
    refine nextResult_skip [.bindComplete] hskip h fun d hd => ?_
    refine nextResult_dataRow hd (fun _ t _ => ?_) fun _ _ _ _ hq => nomatch hq
    exact ⟨[], (append_nil _).symm, by simp [columnsOf, Matched, Queued.statement]⟩
  | cons s queue =>
    cases hcombine : combineFieldDescriptionsAndResultFormats s.1.fields s.2 with
    | ok fields =>
      refine shows_cons queue (fields, values :: rows)
        (statementColumns sd resultFormats, values :: rows) rfl ?_ ?_
      · simp [Matched, Queued.statement, hcombine]
      · refine nextResult_skip [.bindComplete] hskip h fun d hd => ?_
        refine nextResult_dataRow hd nofun fun sd' formats rest' t hq ht hrr => ⟨rfl, ?_⟩
        injection hq with h1 h2
        subst h1 h2
        dsimp only [describe] at hrr
        rw [hcombine] at hrr
        have ht' : Between queue ((values :: rows).map .dataRow ++ ending.message :: ms) t := ht
        refine wp_weaken (read_result ht' hrr) fun br e he => ?_
        exact ⟨by rw [hrr, he.1], hrest queue e he.2⟩
    | error err =>
      have hnot : ¬ Matched (s :: queue) ((.execStatement sd paramValues paramFormats resultFormats,
          .executed none (values :: rows) ending) :: rest) := by
        simp [Matched, Queued.statement, hcombine]
      intro results
      apply wp_readResults_round
      refine nextResult_skip [.bindComplete] hskip h fun d hd => ?_
      refine nextResult_dataRow hd nofun fun sd' formats rest' t hq ht hrr => ?_
      injection hq with h1 h2
      subst h1 h2
      dsimp only [describe] at hrr
      rw [hcombine] at hrr
      refine wp_mono (read_misfit hrr) (fun br e he => ?_) fun _ _ he => he.elim
      refine wp_mono (readResults_extends env _ e) (fun rs _ hrs => ?_) fun _ _ _ => hnot
      obtain ⟨more, rfl⟩ := hrs
      refine ⟨(t.resultReader.fieldDescriptions, []) :: more.map Yielded.observed, ?_, ?_⟩
      · rw [map_append, map_append, append_assoc]
        show _ ++ ([(t.resultReader.fieldDescriptions, br.rows)] ++ _) = _
        rw [he]
        rfl
      · simp [columnsOf, hnot]

end Answer

theorem skips_of_preceding {r : Request} (hb : before <+: r.prelude none) :
    ∀ m ∈ before, skips m = true := by
  intro m hm
  have hmem := hb.subset hm
  cases r with
  | prepare _ _ _ => cases hmem
  | deallocate _ => cases hmem
  | queryParams _ _ _ _ _ =>
    have : m = .parseComplete ∨ m = .bindComplete ∨ m = .noData := by
      simpa [prelude, describeMessage] using hmem
    rcases this with rfl | rfl | rfl <;> rfl
  | queryPrepared _ _ _ _ =>
    have : m = .bindComplete ∨ m = .noData := by
      simpa [prelude, describeMessage] using hmem
    rcases this with rfl | rfl <;> rfl
  | queryStatement _ _ _ _ =>
    have : m = .bindComplete := by simpa [prelude] using hmem
    rw [this]
    rfl

theorem shows_answer {q : Queued} {o : Outcome}
    (ho : Suits (.request q.request) o) (h : Between queue ((Item.request q.request).reply o ++ ms) c)
    (hok : ∀ queue d, o.fails = false → Between queue ms d → Shows env queue rest d)
    (hfail : o.fails = true → ∀ queue, columnsOf rest = [] ∧ Matched queue rest) :
    Shows env queue ((q, o) :: rest) c := by
  generalize hr : q.request = r at ho
  cases ho with
  | rows fields rows ending hdescribes hne =>
    exact shows_rows (by rw [hr]; exact hdescribes) h fun d hd =>
      shows_ended (hok queue d) (fun hf => hfail hf queue) hd
  | noRows ending hdescribes hf =>
    have h' : Between queue (q.request.prelude none ++ ending.message :: ms) c := by
      simpa [Item.reply, Item.prelude] using h
    have hcolumns : q.request.columns none = [] :=
      Pipeline.columns_of_describes (by rw [hr]; exact hdescribes)
    have hnone : q.statement = none := by
      cases q with
      | execStatement _ _ _ _ =>
        rw [← hr] at hdescribes
        cases hdescribes
      | _ => rfl
    refine shows_noRows hf (skips_of_preceding prefix_rfl) h' hcolumns ?_ fun d hd =>
      hok queue d hf hd
    exact (matched_cons (.inl hnone)).trans ⟨fun h => ⟨rfl, h⟩, fun h => h.2⟩
  | queryFailed before err hdescribes hb =>
    exact shows_failed (skips_of_preceding hb) h (hfail rfl queue)
  | statement rows ending he hf =>
    cases q with
    | execStatement sd paramValues paramFormats resultFormats =>
      cases rows with
      | nil =>
        have hends : ending.fails = false := hf.resolve_left fun h => h rfl
        have h' : Between queue ([.bindComplete] ++ ending.message :: ms) c := h
        refine shows_noRows hends (by simp [skips]) h' rfl ?_ fun d hd => hok queue d hends hd
        constructor
        · exact fun h => ⟨h.1.symm, h.2⟩
        · exact fun h => ⟨h.1.symm, h.2⟩
      | cons values rows =>
        refine shows_statement (by simpa [Item.reply, Item.prelude, Queued.request, prelude] using h)
          fun queue d hd => ?_
        exact shows_ended (hok queue d) (fun hf => hfail hf queue) hd
    | _ => cases hr
  | statementFailed before err hb =>
    have hskips : ∀ m ∈ before, skips m = true := by
      intro m hm
      obtain rfl : m = .bindComplete := mem_singleton.mp (hb.subset hm)
      rfl
    exact shows_failed hskips h (hfail rfl queue)
  | _ => cases q <;> cases hr

theorem shows_answers {outcomes : List Outcome} {skip : Bool}
    (hserves : Serves false (itemsOf queries ++ [.sync]) outcomes skip)
    (h : Between queue (repliesOf (itemsOf queries ++ [.sync]) outcomes) c) :
    Shows env queue (queries.zip outcomes) c := by
  induction queries generalizing queue outcomes c with
  | nil =>
    cases hserves with
    | answered _ ho hnil =>
      cases ho with
      | synced err txStatus =>
        intro results
        apply wp_readResults_round
        have hnone : ∃ out, results.map Yielded.observed = results.map Yielded.observed ++ out ∧
            (out = columnsOf [] ↔ Matched queue []) :=
          ⟨[], (append_nil _).symm, ⟨fun _ => trivial, fun _ => rfl⟩⟩
        cases err with
        | none => exact nextResult_ready h fun _ _ => hnone
        | some err => exact nextResult_error h fun _ _ => hnone
  | cons q queries ih =>
    cases hserves with
    | answered _ ho hrest =>
      refine shows_answer ho h (fun queue d hf hd => ?_) fun hf queue => ?_
      · rw [hf] at hrest
        exact ih hrest hd
      · rw [hf] at hrest
        exact skipped_columns hrest queue

end MultiResultReader

/-! ## The batch -/

/-- A statement of the batch that has returned rows. -/
def hasRows : Queued × Outcome → Bool
  | (.execStatement _ _ _ _, .executed _ (_ :: _) _) => true
  | _ => false

/-- Without rows a statement has no columns; with rows it has those of the `k`-th statement of the
batch. -/
def Fits (statements : List (StatementDescription × List Int)) (k : Nat) : Queued × Outcome → Prop
  | (.execStatement sd _ _ resultFormats, .executed _ [] _) => statementColumns sd resultFormats = []
  | (.execStatement sd _ _ resultFormats, .executed _ (_ :: _) _) =>
    ∃ s, statements[k]? = some s ∧
      combineFieldDescriptionsAndResultFormats s.1.fields s.2 = .ok
        (statementColumns sd resultFormats)
  | _ => True

/-- Each statement that was executed fits at the number of statements before it that have returned
rows. -/
def InPlace (statements : List (StatementDescription × List Int))
    (answers : List (Queued × Outcome)) : Prop :=
  ∀ before a after, answers = before ++ a :: after → Fits statements (before.countP hasRows) a

theorem matched_step (statements : List (StatementDescription × List Int))
    (answers : List (Queued × Outcome))
    (n : Nat) (a : Queued × Outcome) : Matched (statements.drop n) (a :: answers) ↔
      Fits statements n a ∧ Matched (statements.drop (n + if hasRows a then 1 else 0)) answers := by
  obtain ⟨q, o⟩ := a
  cases q with
  | execParams _ _ _ _ _ =>
    exact (matched_cons (.inl rfl)).trans ⟨fun h => ⟨trivial, h⟩, fun h => h.2⟩
  | execPrepared _ _ _ _ =>
    exact (matched_cons (.inl rfl)).trans ⟨fun h => ⟨trivial, h⟩, fun h => h.2⟩
  | execStatement sd paramValues paramFormats resultFormats =>
    cases o with
    | executed fields rows ending =>
      cases rows with
      | nil => exact Iff.rfl
      | cons values rows =>
        show _ ↔ (∃ s, _) ∧ Matched (statements.drop (n + 1)) answers
        rw [← drop_drop, ← head?_drop]
        cases statements.drop n with
        | nil =>
          constructor
          · exact fun h => h.elim
          · rintro ⟨⟨s, hs, -⟩, -⟩
            cases hs
        | cons s queue =>
          constructor
          · exact fun h => ⟨⟨s, rfl, h.1⟩, h.2⟩
          · rintro ⟨⟨s', hs, hfits⟩, h⟩
            cases hs
            exact ⟨hfits, h⟩
    | _ => exact ⟨fun h => ⟨trivial, h⟩, fun h => h.2⟩

theorem matched_iff (statements : List (StatementDescription × List Int))
    (answers : List (Queued × Outcome)) (n : Nat) : Matched (statements.drop n) answers ↔
      ∀ before a after, answers = before ++ a :: after →
      Fits statements (n + before.countP hasRows) a := by
  induction answers generalizing n with
  | nil =>
    refine ⟨fun _ before a after h => ?_, fun _ => trivial⟩
    exact absurd h.symm (append_ne_nil_of_right_ne_nil _ nofun)
  | cons a answers ih =>
    have hsplit : (∀ before b after, a :: answers = before ++ b :: after →
          Fits statements (n + before.countP hasRows) b) ↔
        Fits statements n a ∧ ∀ before b after, answers = before ++ b :: after →
          Fits statements ((n + if hasRows a then 1 else 0) + before.countP hasRows) b := by
      constructor
      · intro h
        refine ⟨h [] a answers rfl, fun before b after hb => ?_⟩
        have hfits := h (a :: before) b after (by rw [hb]; rfl)
        rw [countP_cons] at hfits
        rwa [show n + (if hasRows a then 1 else 0) + before.countP hasRows =
          n + (before.countP hasRows + if hasRows a then 1 else 0) by omega]
      · rintro ⟨h0, h⟩ before b after hb
        cases before with
        | nil =>
          injection hb with h1 h2
          subst h1
          exact h0
        | cons a' before =>
          injection hb with h1 h2
          subst h1
          have hfits := h before b after h2
          rw [countP_cons]
          rwa [show n + (before.countP hasRows + if hasRows a then 1 else 0) =
            n + (if hasRows a then 1 else 0) + before.countP hasRows by omega]
    rw [hsplit, ← ih]
    exact matched_step statements answers n a

theorem inPlace_iff (statements : List (StatementDescription × List Int))
    (answers : List (Queued × Outcome)) :
    Matched statements answers ↔ InPlace statements answers := by
  have h := matched_iff statements answers 0
  simp only [drop_zero, Nat.zero_add] at h
  exact h

/-- What is seen of the readers of a batch: their columns, and their rows. -/
def yields (env : Env) (batch : Batch) (c : PgConn) :
    Option (List (List FieldDescription × List (List (Option Bytes)))) :=
  match (execBatch env batch >>= fun _ => (MultiResultReader.readResults env).run []) c with
  | .ok results _ => some (results.map Yielded.observed)
  | .error _ _ => none

theorem execBatch_between {env : Env} {c : PgConn} {ms : List BackendMessage}
    (hs : c.status = .idle) (hw : c.wbuf = []) (hc : Carries c.pending [])
    (hbatch : (batchOf env queries).err = none) (hsync : env.encodeError .sync = none)
    (hwrite : env.write c.wire (messagesOf (itemsOf queries ++ [.sync])) = none)
    (hpeer : Carries (c.peer c.wire (messagesOf (itemsOf queries ++ [.sync]))) ms) :
    wp (execBatch env (batchOf env queries))
      (fun _ => MultiResultReader.Between (batchStatements queries) ms)
      never c := by
  obtain ⟨-, hbuf, hsds, hformats⟩ := foldl_add_ok queries hbatch
  have hmessages : (batchOf env queries).buf ++ [.sync] = messagesOf
      (itemsOf queries ++ [.sync]) := by
    unfold batchOf
    rw [hbuf]
    simp [messagesOf, Item.messages]
  unfold execBatch
  rw [hbatch]
  rw [wp_bind]
  refine wp_lock_idle hs ?_
  rw [wp_bind, modifyMulti, wp_modify, hsync]
  rw [wp_bind, sendAll, wp_modify, wp_bind, wp_attempt_iff]
  refine wp_flush (messagesOf (itemsOf queries ++ [.sync])) ?_ ?_ (fun _ => ?_) fun text d hwr => ?_
  · rw [hw]
    exact hmessages
  · rw [← hmessages]
    exact append_ne_nil_of_right_ne_nil _ (cons_ne_nil _ _)
  · refine ⟨rfl, rfl, rfl, hsds, hformats, ?_⟩
    rw [asking_pending]
    exact hc.append hpeer
  · cases hwrite.symm.trans hwr

/-- The readers of a batch have the columns of the queries that produced their rows exactly when
each statement is in its place. -/
theorem execBatch_columns_iff (env : Env) (queries : List Queued)
    (outcomes : List Outcome) (c : PgConn)
    (skip : Bool) (hs : c.status = .idle) (hw : c.wbuf = []) (hc : Carries c.pending [])
    (hbatch : (batchOf env queries).err = none) (hsync : env.encodeError .sync = none)
    (hwrite : env.write c.wire (messagesOf (itemsOf queries ++ [.sync])) = none)
    (hserves : Serves false (itemsOf queries ++ [.sync]) outcomes skip)
    (hpeer : Carries (c.peer c.wire (messagesOf (itemsOf queries ++ [.sync])))
      (repliesOf (itemsOf queries ++ [.sync]) outcomes)) :
    yields env (batchOf env queries) c = some (columnsOf (queries.zip outcomes)) ↔
      InPlace (batchStatements queries) (queries.zip outcomes) := by
  have hrun : wp (execBatch env (batchOf env queries) >>= fun _ =>
    (MultiResultReader.readResults env).run [])
      (fun rs _ => rs.map Yielded.observed = columnsOf (queries.zip outcomes) ↔
        Matched (batchStatements queries) (queries.zip outcomes))
      (fun _ _ => ¬ Matched (batchStatements queries) (queries.zip outcomes)) c := by
    rw [wp_bind]
    refine wp_mono (execBatch_between hs hw hc hbatch hsync hwrite hpeer)
      (fun _ d hd => ?_) fun _ _ he => he.elim
    refine wp_weaken (MultiResultReader.shows_answers hserves hd []) fun rs _ hrs => ?_
    obtain ⟨out, hout, hiff⟩ := hrs
    rw [hout]
    exact hiff
  rw [← inPlace_iff]
  unfold yields
  cases hx : (execBatch env (batchOf env queries) >>= fun _ =>
    (MultiResultReader.readResults env).run []) c with
  | ok rs d =>
    have hiff := wp_of_ok hrun hx
    rw [Option.some_inj]
    exact hiff
  | error e d =>
    have hnot := wp_of_error hrun hx
    exact ⟨nofun, fun h => absurd h hnot⟩

/-- A query and two statements with one row each. -/
def mixedBatch : List Queued :=
  [.execParams (ascii "select 1") [] [] [] [],
    .execStatement (oneColumn (ascii "s") (ascii "a")) [] [] [],
    .execStatement (oneColumn (ascii "t") (ascii "b")) [] [] []]

def singleRow (fields : Option (List FieldDescription)) : Outcome :=
  .executed fields [[some (ascii "1")]] (.complete (ascii "SELECT 1"))

/-- A connection to a server that gives these outcomes to a batch. -/
def batchServer (queries : List Queued) (outcomes : List Outcome) : PgConn :=
  (Session.answered ((repliesOf (itemsOf queries) outcomes).map .message)).conn

/-- Each result has its own columns -/
theorem execBatch_columns_mixed :
    yields plainEnv (batchOf plainEnv mixedBatch)
        (batchServer mixedBatch [singleRow (some [textColumn (ascii "n")]), singleRow none,
          singleRow none]) =
      some [([textColumn (ascii "n")], [[some (ascii "1")]]),
        ([textColumn (ascii "a")], [[some (ascii "1")]]),
        ([textColumn (ascii "b")], [[some (ascii "1")]])] := by
  have hserves : Serves false (itemsOf mixedBatch ++ [.sync])
      [singleRow (some [textColumn (ascii "n")]), singleRow none, singleRow none,
        .synced none 73] false :=
    .answered (.inl rfl) (.rows _ _ _ rfl nofun)
      (.answered (.inl rfl) (.statement _ _ (.inr nofun) (.inr rfl))
        (.answered (.inl rfl) (.statement _ _ (.inr nofun) (.inr rfl))
          (.answered (.inl rfl) (.synced none 73) .nil)))
  refine (execBatch_columns_iff plainEnv mixedBatch _
    (batchServer mixedBatch [singleRow (some [textColumn (ascii "n")]), singleRow none,
      singleRow none])
    false rfl rfl rfl rfl rfl rfl hserves rfl).mpr ?_
  rw [← inPlace_iff]
  exact ⟨rfl, rfl, trivial⟩

set_option synthInstance.maxSize 256 in
/-- A statement without rows leaves its description to the next one, and has none itself. -/
theorem execBatch_columns_shifted :
    yields plainEnv (batchOf plainEnv (mixedBatch.drop 1))
        (batchServer (mixedBatch.drop 1) [.executed none [] (.complete (ascii "SELECT 0")),
          singleRow none]) =
      some [([], []), ([textColumn (ascii "a")], [[some (ascii "1")]])] ∧
    columnsOf ((mixedBatch.drop 1).zip [.executed none [] (.complete (ascii "SELECT 0")),
      singleRow none]) =
      [([textColumn (ascii "a")], []), ([textColumn (ascii "b")], [[some (ascii "1")]])] := by
  constructor <;> decide +kernel

end Pgx.Conn
