import Pgx.Copy.CopyFrom
import Pgx.Go.Cursor

/-!
# Rows that were copied

The data of a copy as the server reads it, in PostgreSQL's binary format, from a source that
reports no error.
-/
namespace Pgx.Copy

open Pgx.Go Pgx.Conn Pgx.Effect List CopyFrom

/-- A tuple: the number of its fields, and each field behind its length. -/
def readTuple : Cursor Unit (List (Option Bytes)) := do
  let n ← Cursor.int16
  Cursor.collect (Cursor.sizedField fun _ _ => ()) n.toInt.toNat

def tupleBytes (fields : List (Option Bytes)) : Bytes :=
  appendInt16 [] fields.length ++ fields.flatMap Cursor.sizedWritten

variable {A : Type} {ct : CopyFrom A} {item : Item A} {fields : List (Option Bytes)}

/-- The fields of a row, with counts and lengths that the format can express. -/
structure Encodes (ct : CopyFrom A) (item : Item A) (fields : List (Option Bytes)) : Prop where
  values : ∃ values, item.values = .ok values ∧ values.mapIdx ct.encode = fields.map .ok
  columns : fields.length = ct.columnNames.length
  err : item.err = none
  count : fields.length < 2 ^ 15
  lengths : ∀ b, some b ∈ fields → b.length < 2 ^ 31

theorem encodeValues_eq {i : Nat} {values : List A} (buf : Bytes)
    (h : values.mapIdx (fun k v => ct.encode (i + k) v) = fields.map .ok) :
    ct.encodeValues buf i values = .ok (buf ++ fields.flatMap Cursor.sizedWritten) := by
  induction values generalizing i fields buf with
  | nil =>
    obtain rfl := map_eq_nil_iff.mp h.symm
    rw [encodeValues, flatMap_nil, append_nil]
  | cons v values ih =>
    rw [mapIdx_cons] at h
    obtain ⟨field, fields, rfl, hv, hrest⟩ := map_eq_cons_iff.mp h.symm
    have hval : ct.encodeCopyValue buf i v = .ok (buf ++ Cursor.sizedWritten field) := by
      rw [encodeCopyValue, ← Nat.add_zero i, ← hv]
      cases field <;> simp [appendInt32, Cursor.sizedWritten]
    rw [encodeValues, hval, flatMap_cons, ← append_assoc]
    refine ih _ ?_
    rw [hrest]
    congr 1
    funext k
    rw [Nat.add_assoc, Nat.add_comm 1]

namespace Encodes

variable (h : Encodes ct item fields)

include h

theorem rowBytes_eq : ct.rowBytes item = .ok (tupleBytes fields) := by
  obtain ⟨values, hvalues, henc⟩ := h.values
  have hlen : values.length = fields.length := by simpa using congrArg length henc
  rw [rowBytes, appendRow, hvalues]
  dsimp only
  rw [if_neg (by rw [hlen, h.columns]; simp),
    encodeValues_eq (i := 0) _ (by simpa using henc), ← h.columns]
  rfl

theorem reads : Cursor.Reads readTuple (tupleBytes fields) fields := by
  intro src
  have hcount := h.count
  have hn : (Int16.ofInt fields.length).toInt.toNat = fields.length := by
    rw [Int16.toInt_ofInt_of_le (by omega) (by omega)]
    rfl
  have hbytes : (Int16.ofInt fields.length).toUInt16.toNat = unsigned 16 fields.length := by
    show (BitVec.ofInt 16 fields.length).toNat = _
    rw [BitVec.toNat_ofInt]
    rfl
  rw [tupleBytes, appendInt16, nil_append, append_assoc, ← hbytes]
  refine .bind (Cursor.reads_int16 _ _) ?_
  rw [hn]
  exact Cursor.Reads.collect fields (fun b hb => Cursor.reads_sizedField _ fun bs hbs =>
    h.lengths bs (hbs ▸ hb)) src

end Encodes

/-- A copy that was completed, with data that reads as these tuples and leaves nothing over. -/
def ReadsAs (tuples : List (List (Option Bytes))) (es : List Event) : Prop :=
  .sent .copyDone ∈ es ∧ ∃ data, copied es = header ++ data ∧
    Cursor.Runs (Cursor.collect readTuple tuples.length) data tuples []

theorem reads_tuples {items : List (Item A)} {tuples : List (List (Option Bytes))}
    (h : Forall₂ (Encodes ct) items tuples) :
    Cursor.Reads (Cursor.collect readTuple tuples.length) (tuples.flatMap tupleBytes) tuples := by
  refine Cursor.Reads.collect tuples fun fields hf => ?_
  induction h with
  | nil => cases hf
  | cons hrow _ ih => exact (mem_cons.mp hf).elim (fun he => he ▸ hrow.reads) ih

/-- Unless the server reports an error first, what `CopyFrom` sends it reads as the rows of the
source, in order. -/
theorem copyFrom_readBack (env : Env) (s : Source A) (r : CopySource) (hr : Realises ct s r)
    (hs : s.err = none)
    (tuples : List (List (Option Bytes))) (h : Forall₂ (Encodes ct) s.items tuples)
    (sql : Bytes) (c : PgConn)
    (hc : c.wbuf = []) : wp (Conn.copyFrom env r sql)
      (fun _ d => ∃ es, d.wire = c.wire ++ es ∧ (ServerErrorFirst es ∨ ReadsAs tuples es))
        (fun _ _ => True) c := by
  have hrows : Forall₂ (fun item row => ct.rowBytes item = .ok row ∧ item.err = none) s.items
      (tuples.map tupleBytes) :=
    forall₂_map_right_iff.mpr (h.imp fun _ _ he => ⟨he.rowBytes_eq, he.err⟩)
  obtain ⟨hclosed, hflat⟩ : (ct.producer s).closed = none ∧ _ := ct.produce_clean hs hrows header
  refine wp_mono (copyFrom_emits env r sql c hc) ?_ fun _ _ _ => trivial
  rintro _ d ⟨_, es, hw, pgErr, pre, post, hend, _⟩
  refine ⟨es, hw, or_iff_not_imp_left.mpr fun hfirst => ?_⟩
  rw [hend.serverErrorFirst_iff, not_not] at hfirst
  have hread : r.readErr = none := by rw [hr.readErr, hclosed]; rfl
  refine ⟨by simpa [copyEnd, hread] using hend.end_mem, _, ?_, (reads_tuples h).all⟩
  rw [hend.copied_eq hfirst, hr.steps, pipeReads_flatten]
  exact hflat

def oneRow : Source Bytes := copyFromRows [[[7]]]

/-- One row of one column -/
theorem copyFrom_readBack_oneRow : wp
    (Conn.copyFrom plainEnv (eofSchedule (pipeReads (bytesCopy.producer oneRow).writes)) [])
    (fun _ d => ∃ es, d.wire = [] ++ es ∧ (ServerErrorFirst es ∨ ReadsAs [[some [7]]] es))
      (fun _ _ => True) idleConn := by
  refine copyFrom_readBack plainEnv oneRow _ ⟨stepData_chunks _, ?_⟩ rfl _ (.cons ?_ .nil)
    [] idleConn rfl
  · rw [producer, produce]
    rfl
  · exact ⟨⟨_, rfl, rfl⟩, rfl, rfl, by decide, by simp⟩

end Pgx.Copy
