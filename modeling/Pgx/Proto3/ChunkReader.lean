import Pgx.Go.Cursor

/-!
# The chunk reader

`chunkReader` keeps what it has read from an `io.Reader` in a buffer, between a read and a write
position. A connection is given by the reads that it will answer: how much each brings, and whether
it reports an error. `Next` either takes bytes from the front of what is unread and to come, or
reports an error and loses nothing.
-/
namespace Pgx.Proto3

open Pgx.Go List

inductive IOError where
  | eof
  | unexpectedEOF
  | shortBuffer
  | other (text : String)
  deriving DecidableEq

/-! ## The connection -/

/-- One `Read`: the bytes that it brings if they fit, and an error that comes with the last of them.
-/
structure Read where
  data : Bytes
  err : Option IOError
  deriving DecidableEq

/-- The reads that are to come; behind them is the end of the stream. -/
abbrev Incoming : Type := List Read

def stream (reads : Incoming) : Bytes := reads.flatMap Read.data

def failures (reads : Incoming) : Nat := reads.countP fun r => r.err.isSome

/-- The error of `io.ReadAtLeast` with so many bytes read -/
def readError (n : Nat) (err : IOError) : IOError :=
    if 0 < n ∧ err = .eof then .unexpectedEOF else err

/-- The loop of `io.ReadAtLeast` with `acc` read so far into a slice of length `space` -/
def readLoop (min space : Nat) (acc : Bytes) : Incoming → Bytes × Option IOError × Incoming
  | [] => (acc, if min ≤ acc.length then none else some (readError acc.length .eof), [])
  | r :: reads =>
    if min ≤ acc.length then (acc, none, r :: reads)
    else if r.data.length ≤ space - acc.length then
      match r.err with
      | none => readLoop min space (acc ++ r.data) reads
      | some err =>
        (acc ++ r.data,
          if min ≤ (acc ++ r.data).length then none else some
            (readError (acc ++ r.data).length err), reads)
    else
      -- The slice is full; the rest of the data waits for the next read.
      (acc ++ r.data.take (space - acc.length), none,
        { r with data := r.data.drop (space - acc.length) } :: reads)

def readAtLeast (min space : Nat) (reads : Incoming) : Bytes × Option IOError × Incoming :=
  if space < min then ([], some .shortBuffer, reads) else readLoop min space [] reads

/-- What `io.ReadAtLeast` has done: bytes moved from the stream to the slice, enough of them if
there is no error; an error has used up a read that reports one, or all reads. -/
structure ReadDone (min space : Nat) (acc : Bytes) (reads : Incoming) (data : Bytes)
    (err : Option IOError) (reads' : Incoming) : Prop where
  kept : data ++ stream reads' = acc ++ stream reads
  fits : data.length ≤ space
  enough : err = none → min ≤ data.length
  short : err ≠ none → failures reads' < failures reads ∨ (acc ++ stream reads).length < min
  fewer : failures reads' ≤ failures reads

theorem stream_cons (r : Read) (reads : Incoming) : stream (r :: reads) = r.data ++ stream reads :=
    rfl

theorem failures_cons (r : Read) (reads : Incoming) :
    failures (r :: reads) = failures reads + if r.err.isSome then 1 else 0 := by
  unfold failures
  rw [countP_cons]

theorem readLoop_done {min space : Nat} (hroom : min ≤ space) (acc : Bytes) (reads : Incoming)
    (hacc : acc.length ≤ space) :
    ReadDone min space acc reads (readLoop min space acc reads).1 (readLoop min space acc reads).2.1
      (readLoop min space acc reads).2.2 := by
  induction reads generalizing acc with
  | nil =>
    by_cases hmin : min ≤ acc.length
    · exact ⟨rfl, hacc, fun _ => hmin, fun h => absurd (by simp [readLoop, hmin]) h, le_refl _⟩
    · refine ⟨rfl, hacc, fun h => ?_, fun _ => .inr ?_, le_refl _⟩
      · simp [readLoop, hmin] at h
      · simp only [stream, flatMap_nil, append_nil]
        omega
  | cons r reads ih =>
    by_cases hmin : min ≤ acc.length
    · simp only [readLoop, hmin, if_true]
      exact ⟨rfl, hacc, fun _ => hmin, fun h => absurd rfl h, le_refl _⟩
    · by_cases hfit : r.data.length ≤ space - acc.length
      · have hlen : (acc ++ r.data).length ≤ space := by
          rw [length_append]
          omega
        cases herr : r.err with
        | none =>
          simp only [readLoop, hmin, hfit, herr, if_true, if_false]
          obtain ⟨hkept, hfits, henough, hshort, hfewer⟩ := ih (acc ++ r.data) hlen
          have hfail : failures (r :: reads) = failures reads := by simp [failures_cons, herr]
          rw [append_assoc] at hkept hshort
          exact ⟨hkept, hfits, henough, by rw [hfail]; exact hshort, by rw [hfail]; exact hfewer⟩
        | some err =>
          simp only [readLoop, hmin, hfit, herr, if_true, if_false]
          have hfail : failures (r :: reads) = failures reads + 1 := by simp [failures_cons, herr]
          refine ⟨by rw [stream_cons, append_assoc], hlen, fun h => ?_, fun _ => .inl (by omega), by omega⟩
          by_contra hlt
          rw [if_neg hlt] at h
          cases h
      · simp only [readLoop, hmin, hfit, if_false]
        have hfull : (acc ++ r.data.take (space - acc.length)).length = space := by
          rw [length_append, length_take]
          omega
        refine ⟨?_, by omega, fun _ => by omega, fun h => absurd rfl h, ?_⟩
        · rw [stream_cons, stream_cons, append_assoc, ← append_assoc (take _ _), take_append_drop]
        · rw [failures_cons, failures_cons]

/-! ## The buffer -/

/-- `iobufpool`: a buffer of the length that is asked for, with anything in it -/
structure Pool where
  get : Nat → Bytes
  length_get : ∀ n, (get n).length = n

structure ChunkReader where
  buf : Bytes
  rp : Nat
  wp : Nat
  minBufSize : Nat

/-- `b[i:j]` -/
def bufSlice (b : Bytes) (i j : Nat) : Checked IOError Bytes :=
  if i ≤ j ∧ j ≤ b.length then .ok ((b.drop i).take (j - i)) else .error .panic

/-- What `copy(dst, src)` makes of `dst` -/
def copyInto (dst src : Bytes) : Bytes := src.take dst.length ++ dst.drop src.length

namespace ChunkReader

/-- `newChunkReader` -/
def new (pool : Pool) (minBufSize : Nat) : ChunkReader :=
  let size := if minBufSize = 0 then 8192 else minBufSize
  { buf := pool.get size, rp := 0, wp := 0, minBufSize := size }

def reset (pool : Pool) (r : ChunkReader) : ChunkReader :=
  if r.rp = r.wp then
    { r with
      buf := if r.buf.length ≠ r.minBufSize then pool.get r.minBufSize else r.buf
      rp := 0
      wp := 0 }
  else r

/-- What is unread is moved to the start of a buffer. -/
def moveTo (buf : Bytes) (r : ChunkReader) : Checked IOError ChunkReader := do
  let data ← bufSlice r.buf r.rp r.wp
  pure { r with buf := copyInto buf data, wp := min buf.length data.length, rp := 0 }

/-- A larger buffer if this one is too small for `n` bytes -/
def grow (pool : Pool) (n : Nat) (r : ChunkReader) : Checked IOError ChunkReader :=
  if r.buf.length < n then r.moveTo (pool.get n) else pure r

/-- The filled area is moved if there is not enough space behind it. -/
def shift (n : Nat) (r : ChunkReader) : Checked IOError ChunkReader :=
  if r.buf.length - r.wp < n - (r.wp - r.rp) then r.moveTo r.buf else pure r

/-- `buf[rp : rp+n : rp+n]`, and the read position behind it -/
def take (n : Nat) (r : ChunkReader) : Checked IOError Bytes × ChunkReader :=
  match bufSlice r.buf r.rp (r.rp + n) with
  | .ok b => (.ok b, { r with rp := r.rp + n })
  | .error e => (.error e, r)

/-- `io.ReadAtLeast` into `buf[wp:]`, and the bytes from the buffer -/
def readAndTake (n : Nat) (r : ChunkReader) (reads : Incoming) :
    Checked IOError Bytes × ChunkReader × Incoming :=
  match bufSlice r.buf r.wp r.buf.length with
  | .error e => (.error e, r, reads)
  | .ok space =>
    let (data, err, reads) := readAtLeast (n - (r.wp - r.rp)) space.length reads
    let r := { r with buf := r.buf.take r.wp ++ copyInto space data, wp := r.wp + data.length }
    match err with
    | some err => (.error (.returned err), r, reads)
    | none => ((r.take n).1, (r.take n).2, reads)

def next (pool : Pool) (n : Nat) (r : ChunkReader) (reads : Incoming) :
    Checked IOError Bytes × ChunkReader × Incoming :=
  let r := r.reset pool
  if r.wp - r.rp ≥ n then ((r.take n).1, (r.take n).2, reads)
  else
    match r.grow pool n >>= shift n with
    | .error e => (.error e, r, reads)
    | .ok r => r.readAndTake n reads

/-! ## What is unread -/

structure Valid (r : ChunkReader) : Prop where
  rp_le : r.rp ≤ r.wp
  wp_le : r.wp ≤ r.buf.length

def unread (r : ChunkReader) : Bytes := (r.buf.drop r.rp).take (r.wp - r.rp)

variable {pool : Pool} {n : Nat} {r : ChunkReader}

theorem unread_length (h : r.Valid) : r.unread.length = r.wp - r.rp := by
  have := h.wp_le
  unfold unread
  rw [length_take, length_drop]
  omega

theorem new_valid (pool : Pool) (minBufSize : Nat) : (new pool minBufSize).Valid :=
    ⟨le_refl _, Nat.zero_le _⟩

theorem new_unread (pool : Pool) (minBufSize : Nat) : (new pool minBufSize).unread = [] := by
  simp [new, unread]

theorem reset_valid (h : r.Valid) : (r.reset pool).Valid := by
  unfold reset
  split
  · exact ⟨le_refl _, Nat.zero_le _⟩
  · exact h

theorem reset_unread (pool : Pool) (r : ChunkReader) : (r.reset pool).unread = r.unread := by
  unfold reset
  split
  · next heq => simp [unread, heq]
  · rfl

theorem moveTo_spec (h : r.Valid) (buf : Bytes) (hfit : r.wp - r.rp ≤ buf.length) :
    ∃ r', r.moveTo buf = .ok r' ∧ r'.Valid ∧ r'.unread = r.unread ∧ r'.buf.length = buf.length ∧
    r'.rp = 0 := by
  have hlen := unread_length h
  have hslice : bufSlice r.buf r.rp r.wp = .ok r.unread := by
    rw [bufSlice, if_pos ⟨h.rp_le, h.wp_le⟩]
    rfl
  have hcopy : copyInto buf r.unread = r.unread ++ buf.drop r.unread.length := by
    rw [copyInto, take_of_length_le (by omega)]
  refine ⟨{ r with buf := copyInto buf r.unread, wp := min buf.length r.unread.length, rp := 0 },
    ?_, ⟨?_, ?_⟩, ?_, ?_, rfl⟩
  · rw [moveTo, hslice]
    rfl
  · exact Nat.zero_le _
  · show min buf.length r.unread.length ≤ (copyInto buf r.unread).length
    rw [hcopy, length_append]
    omega
  · show ((copyInto buf r.unread).drop 0).take (min buf.length r.unread.length - 0) = r.unread
    rw [hcopy, drop_zero, Nat.sub_zero, Nat.min_eq_right (by omega), take_left]
  · rw [hcopy, length_append, length_drop]
    omega

/-- After this there is room for what is missing of `n` bytes. -/
theorem makeRoom_spec (pool : Pool) (h : r.Valid) (hmissing : r.wp - r.rp < n) :
    ∃ r', (r.grow pool n >>= shift n) = .ok r' ∧ r'.Valid ∧ r'.unread = r.unread ∧
      n - (r'.wp - r'.rp) ≤ r'.buf.length - r'.wp := by
  have hgrow : ∃ g, r.grow pool n = .ok g ∧ g.Valid ∧ g.unread = r.unread ∧ n ≤ g.buf.length := by
    unfold grow
    split
    · obtain ⟨g, hg, hvalid, hunread, hlen, _⟩ :=
        moveTo_spec h (pool.get n) (by rw [pool.length_get]; omega)
      exact ⟨g, hg, hvalid, hunread, by rw [hlen, pool.length_get]⟩
    · exact ⟨r, rfl, h, rfl, by omega⟩
  obtain ⟨g, hg, hvalid, hunread, hlen⟩ := hgrow
  rw [hg]
  show ∃ r', g.shift n = .ok r' ∧ _
  unfold shift
  split
  · obtain ⟨s, hs, hsvalid, hsunread, hslen, hsrp⟩ :=
      moveTo_spec hvalid g.buf (by have := hvalid.wp_le; omega)
    refine ⟨s, hs, hsvalid, hsunread.trans hunread, ?_⟩
    omega
  · exact ⟨g, rfl, hvalid, hunread, by omega⟩

theorem take_spec (h : r.Valid) (hn : n ≤ r.wp - r.rp) :
    (r.take n).1 = .ok (r.unread.take n) ∧ (r.take n).2.Valid ∧
    (r.take n).2.unread = r.unread.drop n := by
  have hrp := h.rp_le
  have hwp := h.wp_le
  have hslice : bufSlice r.buf r.rp (r.rp + n) = .ok (r.unread.take n) := by
    rw [bufSlice, if_pos ⟨by omega, by omega⟩, unread, take_take, Nat.min_eq_left hn,
      Nat.add_sub_cancel_left]
  have htake : r.take n = (.ok (r.unread.take n), { r with rp := r.rp + n }) := by rw [take, hslice]
  rw [htake]
  refine ⟨rfl, ⟨?_, hwp⟩, ?_⟩
  · show r.rp + n ≤ r.wp
    omega
  · show (r.buf.drop (r.rp + n)).take (r.wp - (r.rp + n)) = r.unread.drop n
    rw [unread, drop_take, drop_drop, Nat.sub_sub]

/-- Reading into the space behind the write position adds to what is unread. -/
theorem overwrite_spec (h : r.Valid) (data : Bytes) (hfit : data.length ≤ r.buf.length - r.wp) :
    ChunkReader.Valid { r with
      buf := r.buf.take r.wp ++ copyInto (r.buf.drop r.wp) data, wp := r.wp + data.length } ∧
    ChunkReader.unread { r with
      buf := r.buf.take r.wp ++ copyInto (r.buf.drop r.wp) data, wp :=
        r.wp + data.length } = r.unread ++ data := by
  have hrp := h.rp_le
  have hwp := h.wp_le
  have hcopy : copyInto (r.buf.drop r.wp) data = data ++ (r.buf.drop r.wp).drop data.length := by
    rw [copyInto, take_of_length_le (by rw [length_drop]; exact hfit)]
  have htake : (r.buf.take r.wp).length = r.wp := by
    rw [length_take]
    omega
  constructor
  · constructor
    · show r.rp ≤ r.wp + data.length
      omega
    · show r.wp + data.length ≤ (r.buf.take r.wp ++ copyInto (r.buf.drop r.wp) data).length
      rw [hcopy, length_append, length_append]
      omega
  · show ((r.buf.take r.wp ++ copyInto (r.buf.drop r.wp) data).drop r.rp).take
        (r.wp + data.length - r.rp) = _
    have hunread : (r.buf.take r.wp).drop r.rp = r.unread := by rw [unread, drop_take]
    rw [hcopy, drop_append_of_le_length (by omega), hunread, ← append_assoc]
    have hlen : r.wp + data.length - r.rp = (r.unread ++ data).length := by
      rw [length_append, unread_length h]
      omega
    rw [hlen, take_left]

def ahead (r : ChunkReader) (reads : Incoming) : Bytes := r.unread ++ stream reads

/-- What `Next` has done: it took `n` bytes from the front, or it reports an error and nothing is
lost. -/
inductive NextDone (n : Nat) (r : ChunkReader) (reads : Incoming) :
    Checked IOError Bytes × ChunkReader × Incoming → Prop where
  | taken {b : Bytes} {r' : ChunkReader} {reads' : Incoming} (length : b.length = n)
      (front : b ++ r'.ahead reads' = r.ahead reads) (valid : r'.Valid)
      (fewer : failures reads' ≤ failures reads) :
      NextDone n r reads (.ok b, r', reads')
  | failed {err : IOError} {r' : ChunkReader} {reads' : Incoming}
    (kept : r'.ahead reads' = r.ahead reads)
      (valid : r'.Valid) (fewer : failures reads' ≤ failures reads)
      (why : failures reads' < failures reads ∨ (r.ahead reads).length < n) :
      NextDone n r reads (.error (.returned err), r', reads')

theorem NextDone.of_ahead {r s : ChunkReader} {reads : Incoming}
    {out : Checked IOError Bytes × ChunkReader × Incoming}
    (hahead : s.ahead reads = r.ahead reads) (h : NextDone n s reads out) :
    NextDone n r reads out := by
  cases h with
  | taken length front valid fewer => exact .taken length (front.trans hahead) valid fewer
  | failed kept valid fewer why => exact .failed (kept.trans hahead) valid fewer (hahead ▸ why)

theorem readAndTake_done (h : r.Valid) (reads : Incoming)
    (hroom : n - (r.wp - r.rp) ≤ r.buf.length - r.wp) :
    NextDone n r reads (r.readAndTake n reads) := by
  have hslice : bufSlice r.buf r.wp r.buf.length = .ok (r.buf.drop r.wp) := by
    rw [bufSlice, if_pos ⟨h.wp_le, le_refl _⟩, take_of_length_le (by rw [length_drop])]
  have hspace : n - (r.wp - r.rp) ≤ (r.buf.drop r.wp).length := by
    rw [length_drop]
    exact hroom
  have hread : readAtLeast (n - (r.wp - r.rp)) (r.buf.drop r.wp).length reads =
      readLoop (n - (r.wp - r.rp)) (r.buf.drop r.wp).length [] reads := by
    rw [readAtLeast, if_neg (by omega)]
  have hdone := readLoop_done hspace [] reads (Nat.zero_le _)
  unfold readAndTake
  rw [hslice]
  simp only [hread]
  revert hdone
  rcases readLoop (n - (r.wp - r.rp)) (r.buf.drop r.wp).length [] reads with ⟨data, err, reads'⟩
  intro ⟨hkept, hfits, henough, hshort, hfewer⟩
  simp only [nil_append] at hkept hshort
  obtain ⟨hvalid, hunread⟩ := overwrite_spec h data (by rw [length_drop] at hfits; exact hfits)
  have hlen := unread_length h
  have hahead : (r.unread ++ data) ++ stream reads' = r.ahead reads := by
    rw [ahead, append_assoc, hkept]
  cases err with
  | some err =>
    refine .failed ?_ hvalid hfewer ?_
    · rw [ahead, hunread, hahead]
    · rcases hshort (by simp) with hlt | hlt
      · exact .inl hlt
      · right
        rw [ahead, length_append]
        omega
  | none =>
    have hdata : n - (r.wp - r.rp) ≤ data.length := henough rfl
    have htake := take_spec hvalid (n := n) (by
      show n ≤ r.wp + data.length - r.rp
      have := h.rp_le
      omega)
    obtain ⟨hb, hv, hu⟩ := htake
    rw [hunread] at hb hu
    rw [hb]
    refine .taken ?_ ?_ hv hfewer
    · rw [length_take, length_append]
      omega
    · rw [ahead, hu, ← append_assoc, take_append_drop, hahead]

/-- `Next` in every case -/
theorem next_done (pool : Pool) (n : Nat) (h : r.Valid) (reads : Incoming) :
    NextDone n r reads (r.next pool n reads) := by
  have hvalid : (r.reset pool).Valid := reset_valid h
  have hahead : (r.reset pool).ahead reads = r.ahead reads := by rw [ahead, ahead, reset_unread]
  refine .of_ahead hahead ?_
  unfold next
  simp only
  split
  · next hn =>
    obtain ⟨hb, hv, hu⟩ := take_spec hvalid hn
    have hlen := unread_length hvalid
    rw [hb]
    refine .taken ?_ ?_ hv (le_refl _)
    · rw [length_take]
      omega
    · rw [ahead, hu, ← append_assoc, take_append_drop, ahead]
  · next hn =>
    obtain ⟨r', hroom, hv, hu, hfit⟩ := makeRoom_spec pool hvalid (Nat.lt_of_not_le hn)
    rw [hroom]
    exact .of_ahead (by rw [ahead, ahead, hu]) (readAndTake_done hv reads hfit)

end ChunkReader

end Pgx.Proto3
