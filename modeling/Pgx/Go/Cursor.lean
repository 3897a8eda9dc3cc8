import Pgx.Go.BigEndian

/-!
# Reading a byte slice

Decoders walk over a slice with a position, or over a `bytes.Buffer`. The state is what is left of
the slice, `src[rp:]`. An index or a slice out of range and a negative length for `make` panic; a
panic is told apart from an error that is returned.

`wp` gives what a decoder needs to run without a panic; `Runs` and `Reads` say that a decoder reads
back what was written.
-/
namespace Pgx.Go

variable {bs : Bytes} {n : Nat} {ε' : Type}

inductive Fault (ε : Type) where
  | returned (err : ε)
  | panic
  deriving DecidableEq

abbrev Checked (ε α : Type) : Type := Except (Fault ε) α

def NoPanic {ε α : Type} (x : Checked ε α) : Prop := x ≠ .error .panic

instance {ε α : Type} (x : Checked ε α) : Decidable (NoPanic x) :=
  match x with
  | .ok _ => .isTrue (nofun)
  | .error (.returned _) => .isTrue (nofun)
  | .error .panic => .isFalse (fun h => h rfl)

theorem noPanic_ok {ε α : Type} (a : α) : NoPanic (.ok a : Checked ε α) := nofun

theorem noPanic_returned {ε α : Type} (err : ε) :
    NoPanic (.error (.returned err) : Checked ε α) := nofun

theorem ok_of_noPanic {α : Type} {x : Checked Empty α} (h : NoPanic x) : ∃ a, x = .ok a := by
  match x with
  | .ok a => exact ⟨a, rfl⟩
  | .error (.returned err) => exact err.elim
  | .error .panic => exact absurd rfl h

theorem noPanic_error {ε α β : Type} {x : Checked ε α} {e : Fault ε} (hx : NoPanic x)
    (h : x = .error e) :
    NoPanic (.error e : Checked ε β) := by
  intro he
  cases he
  exact hx h

theorem bind_eq_ok {ε α β : Type} {x : Checked ε α} {f : α → Checked ε β} {b : β} :
    x >>= f = .ok b ↔ ∃ a, x = .ok a ∧ f a = .ok b := by
  cases x with
  | error e => simp [bind, Except.bind]
  | ok a => simp [bind, Except.bind]

theorem map_eq_ok {ε α β : Type} {x : Checked ε α} {f : α → β} {b : β} :
    f <$> x = .ok b ↔ ∃ a, x = .ok a ∧ f a = b := by
  cases x with
  | error e => simp [Functor.map, Except.map]
  | ok a => simp [Functor.map, Except.map]

theorem noPanic_bind {ε α β : Type} {x : Checked ε α} {f : α → Checked ε β} (hx : NoPanic x)
    (hf : ∀ a, x = .ok a → NoPanic (f a)) : NoPanic (x >>= f) := by
  cases x with
  | ok a => exact hf a rfl
  | error e =>
    intro h
    exact hx (by cases h; rfl)

theorem noPanic_bind_iff {ε α β : Type} {x : Checked ε α} {f : α → Checked ε β} :
    NoPanic (x >>= f) ↔ NoPanic x ∧ ∀ a, x = .ok a → NoPanic (f a) := by
  refine ⟨fun h => ⟨fun hx => h (by rw [hx]; rfl), fun a hx => ?_⟩, fun h => noPanic_bind h.1 h.2⟩
  rw [hx] at h
  exact h

theorem noPanic_map_iff {ε α β : Type} {x : Checked ε α} {f : α → β} :
    NoPanic (f <$> x) ↔ NoPanic x := by
  cases x with
  | error e => exact ⟨fun h he => h (by rw [he]; rfl), fun h => noPanic_error h rfl⟩
  | ok a => exact iff_of_true (noPanic_ok _) (noPanic_ok _)

theorem noPanic_map {ε α β : Type} {x : Checked ε α} (f : α → β) (hx : NoPanic x) :
    NoPanic (f <$> x) := by
  cases x with
  | ok a => exact noPanic_ok _
  | error e =>
    intro h
    exact hx (by cases h; rfl)

/-- The caller returns the error wrapped; a panic goes on. -/
def Checked.wrap {ε ε' α : Type} (f : ε → ε') : Checked ε α → Checked ε' α
  | .ok a => .ok a
  | .error (.returned err) => .error (.returned (f err))
  | .error .panic => .error .panic

theorem noPanic_wrap {ε α : Type} {f : ε → ε'} {x : Checked ε α} :
    NoPanic (x.wrap f) ↔ NoPanic x := by
  match x with
  | .ok a => simp [Checked.wrap, NoPanic]
  | .error (.returned err) => simp [Checked.wrap, NoPanic]
  | .error .panic => simp [Checked.wrap, NoPanic]

theorem wrap_eq_ok {ε α : Type} {f : ε → ε'} {x : Checked ε α} {a : α} :
    x.wrap f = .ok a ↔ x = .ok a := by
  match x with
  | .ok b => simp [Checked.wrap]
  | .error (.returned err) => simp [Checked.wrap]
  | .error .panic => simp [Checked.wrap]

abbrev Cursor (ε α : Type) : Type := StateT Bytes (Except (Fault ε)) α

namespace Cursor

variable {ε α β : Type}

def panic : Cursor ε α := fun _ => .error .panic

def fail (err : ε) : Cursor ε α := fun _ => .error (.returned err)

def failIf (c : Prop) [Decidable c] (err : ε) : Cursor ε Unit := if c then fail err else pure ()

/-- A call that does not read from the slice; its error is wrapped. -/
def lift {ε' : Type} (wrap : ε' → ε) (x : Checked ε' α) : Cursor ε α := fun src =>
  match x with
  | .ok a => .ok (a, src)
  | .error (.returned err) => .error (.returned (wrap err))
  | .error .panic => .error .panic

/-- `src[rp:]` -/
def rest : Cursor ε Bytes := get

/-- `rp += n`. A position behind the end panics here, not when it is used. -/
def advance (n : Nat) : Cursor ε Unit := fun src =>
  if n ≤ src.length then .ok ((), src.drop n) else .error .panic

/-- `src[rp : rp+n]` for a slice that ends at its capacity -/
def slice (n : Nat) : Cursor ε Bytes := fun src =>
  if n ≤ src.length then .ok (src.take n, src) else .error .panic

/-- `if len(src[rp:]) < n` with a return -/
def require (n : Nat) (err : ε) : Cursor ε Unit := fun src =>
  if src.length < n then .error (.returned err) else .ok ((), src)

/-- A call of `make` with this length or capacity -/
def make (n : Int) : Cursor ε Unit := if n < 0 then panic else pure ()

/-- As `make`, but more elements than the limit count as a panic: a decoder that does not panic with
it makes no more than that. -/
def makeAtMost (limit : Nat) (n : Int) : Cursor ε Unit := if n < 0 ∨ limit < n then panic else pure ()

/-- `b[i]` -/
def index (b : Bytes) (i : Nat) : Cursor ε UInt8 :=
  match b[i]? with
  | some c => pure c
  | none => panic

/-- `binary.BigEndian.Uint16` and `Uint32` look at the last byte that they need first. -/
def bigEndianUint (width : Nat) (b : Bytes) : Cursor ε Nat :=
  if b.length < width then panic else pure (fromBigEndian (b.take width))

/-- A number at the position, and the position behind it -/
def uint (width : Nat) : Cursor ε Nat := do
  let b ← rest
  let n ← bigEndianUint width b
  advance width
  pure n

def uint16 : Cursor ε UInt16 := UInt16.ofNat <$> uint 2

def uint32 : Cursor ε UInt32 := UInt32.ofNat <$> uint 4

def int16 : Cursor ε Int16 := UInt16.toInt16 <$> uint16

def int32 : Cursor ε Int32 := UInt32.toInt32 <$> uint32

/-- `for i := range count` with an assignment to the element `i` of a slice of this length -/
def fill (len : Nat) (body : Cursor ε α) : (count i : Nat) → Cursor ε (List α)
  | 0, _ => pure []
  | count + 1, i => do
    let a ← body
    if i < len then do
      let as ← fill len body count (i + 1)
      pure (a :: as)
    else panic

/-- `for range count` with an `append` -/
def collect (body : Cursor ε α) : Nat → Cursor ε (List α)
  | 0 => pure []
  | count + 1 => do
    let a ← body
    let as ← collect body count
    pure (a :: as)

/-- The bytes behind a length of 32 bits; a negative length leaves the slice at nil. -/
def takeSized (exceeds : Int → Nat → ε) (n : Int32) : Cursor ε (Option Bytes) :=
  if n.toInt < 0 then pure none
  else do
    let b ← rest
    failIf ((b.length : Int) < n.toInt) (exceeds n.toInt b.length)
    let bytes ← slice n.toInt.toNat
    advance n.toInt.toNat
    pure (some bytes)

/-- `buf.Next(n)` gives what there is. -/
def bufNext (n : Nat) : Cursor ε Bytes := fun src => .ok (src.take n, src.drop n)

def bufReadByte (eof : ε) : Cursor ε UInt8 := fun
  | [] => .error (.returned eof)
  | b :: src => .ok (b, src)

/-- `buf.ReadBytes(delim)` gives the delimiter too. -/
def bufReadBytes (delim : UInt8) (eof : ε) : Cursor ε Bytes := fun src =>
  match indexByte delim src with
  | none => .error (.returned eof)
  | some i => .ok (src.take (i + 1), src.drop (i + 1))

/-- `b[:len(b)-1]` -/
def dropLastByte (b : Bytes) : Cursor ε Bytes :=
    if b.length < 1 then panic else pure (b.take (b.length - 1))

/-! ## No panic -/

/-- What must hold of the slice for the decoder not to panic, and to leave `Q` if it returns a
result. -/
def wp (d : Cursor ε α) (Q : α → Bytes → Prop) (src : Bytes) : Prop :=
  match d src with
  | .ok (a, src') => Q a src'
  | .error (.returned _) => True
  | .error .panic => False

variable {d : Cursor ε α}

theorem noPanic_of_wp {Q : α → Bytes → Prop} {src : Bytes} (h : wp d Q src) : NoPanic (d src) := by
  intro hp
  simp [wp, hp] at h

/-- No panic is the weakest of the postconditions. -/
theorem noPanic_iff_wp {src : Bytes} : NoPanic (d src) ↔ wp d (fun _ _ => True) src := by
  unfold wp NoPanic
  cases hd : d src with
  | ok r => simp
  | error e => cases e <;> simp

/-- What a result satisfies -/
theorem of_wp {Q : α → Bytes → Prop} {src src' : Bytes} {a : α} (h : wp d Q src)
    (hd : d src = .ok (a, src')) : Q a src' := by
  unfold wp at h
  rwa [hd] at h

theorem wp_mono {P Q : α → Bytes → Prop} {src : Bytes} (h : wp d P src)
    (hpq : ∀ a src', P a src' → Q a src') : wp d Q src := by
  unfold wp at h ⊢
  cases hd : d src with
  | ok r =>
    rw [hd] at h
    exact hpq _ _ h
  | error e =>
    rw [hd] at h
    cases e with
    | returned err => trivial
    | panic => exact h

section Rules

variable {Q : α → Bytes → Prop} {src : Bytes}

@[simp] theorem wp_pure (a : α) : wp (pure a : Cursor ε α) Q src ↔ Q a src := Iff.rfl

@[simp] theorem wp_bind (d : Cursor ε β) (k : β → Cursor ε α) :
    wp (d >>= k) Q src ↔ wp d (fun b src' => wp (k b) Q src') src := by
  show wp (.bind d k) Q src ↔ _
  unfold wp StateT.bind
  cases hd : d src with
  | error e =>
    cases e with
    | returned err => exact Iff.rfl
    | panic => exact Iff.rfl
  | ok r => exact Iff.rfl

@[simp] theorem wp_map (f : β → α) (d : Cursor ε β) :
    wp (f <$> d) Q src ↔ wp d (fun b src' => Q (f b) src') src := by
  show wp (.map f d) Q src ↔ _
  unfold wp StateT.map
  cases hd : d src with
  | error e =>
    cases e with
    | returned err => exact Iff.rfl
    | panic => exact Iff.rfl
  | ok r => exact Iff.rfl

@[simp] theorem wp_panic : wp (panic : Cursor ε α) Q src ↔ False := Iff.rfl

@[simp] theorem wp_fail (err : ε) : wp (fail err : Cursor ε α) Q src ↔ True := Iff.rfl

theorem wp_ite (c : Prop) [Decidable c] (d e : Cursor ε α) :
    wp (if c then d else e) Q src ↔ (c → wp d Q src) ∧ (¬ c → wp e Q src) := by
  split <;> simp_all

@[simp] theorem wp_failIf (c : Prop) [Decidable c] (err : ε) (Q : Unit → Bytes → Prop) :
    wp (failIf c err) Q src ↔ (¬ c → Q () src) := by
  simp [failIf, wp_ite]

@[simp] theorem wp_lift (wrap : ε' → ε) (x : Checked ε' α) :
    wp (lift wrap x) Q src ↔ NoPanic x ∧ ∀ a, x = .ok a → Q a src := by
  unfold wp lift NoPanic
  cases x with
  | ok a => simp
  | error e => cases e <;> simp

@[simp] theorem wp_rest (Q : Bytes → Bytes → Prop) :
    wp (rest : Cursor ε Bytes) Q src ↔ Q src src := Iff.rfl

@[simp] theorem wp_advance (n : Nat) (Q : Unit → Bytes → Prop) :
    wp (advance n : Cursor ε Unit) Q src ↔ n ≤ src.length ∧ Q () (src.drop n) := by
  by_cases h : n ≤ src.length <;> simp [wp, advance, h]

@[simp] theorem wp_slice (n : Nat) (Q : Bytes → Bytes → Prop) :
    wp (slice n : Cursor ε Bytes) Q src ↔ n ≤ src.length ∧ Q (src.take n) src := by
  by_cases h : n ≤ src.length <;> simp [wp, slice, h]

@[simp] theorem wp_require (n : Nat) (err : ε) (Q : Unit → Bytes → Prop) :
    wp (require n err) Q src ↔ (n ≤ src.length → Q () src) := by
  unfold wp require
  by_cases h : src.length < n
  · simp [h]
  · simp [h, Nat.le_of_not_lt h]

@[simp] theorem wp_make (n : Int) (Q : Unit → Bytes → Prop) :
    wp (make n : Cursor ε Unit) Q src ↔ 0 ≤ n ∧ Q () src := by
  unfold make
  rw [wp_ite]
  by_cases h : n < 0
  · simp [h]
  · simp [h, Int.not_lt.mp h]

@[simp] theorem wp_makeAtMost (limit : Nat) (n : Int) (Q : Unit → Bytes → Prop) :
    wp (makeAtMost limit n : Cursor ε Unit) Q src ↔ (0 ≤ n ∧ n ≤ limit) ∧ Q () src := by
  unfold makeAtMost
  rw [wp_ite]
  by_cases h : n < 0 ∨ (limit : Int) < n
  · have hno : ¬ (0 ≤ n ∧ n ≤ limit) := by omega
    simp [h, hno]
  · have hyes : 0 ≤ n ∧ n ≤ limit := by omega
    simp [h, hyes]

@[simp] theorem wp_index (b : Bytes) (i : Nat) (Q : UInt8 → Bytes → Prop) :
    wp (index b i : Cursor ε UInt8) Q src ↔ ∃ c, b[i]? = some c ∧ Q c src := by
  unfold index
  cases h : b[i]? <;> simp

@[simp] theorem wp_bigEndianUint (width : Nat) (b : Bytes) (Q : Nat → Bytes → Prop) :
    wp (bigEndianUint width b : Cursor ε Nat) Q src ↔ width ≤ b.length ∧
    Q (fromBigEndian (b.take width)) src := by
  unfold bigEndianUint
  rw [wp_ite]
  by_cases h : b.length < width
  · simp [h]
  · simp [h, Nat.le_of_not_lt h]

@[simp] theorem wp_uint (width : Nat) (Q : Nat → Bytes → Prop) :
    wp (uint width : Cursor ε Nat) Q src ↔
      width ≤ src.length ∧ Q (fromBigEndian (src.take width)) (src.drop width) := by
  unfold uint
  simp only [wp_bind, wp_rest, wp_bigEndianUint, wp_advance, wp_pure]
  tauto

theorem wp_takeSized (exceeds : Int → Nat → ε) (n : Int32) (Q : Option Bytes → Bytes → Prop) :
    wp (takeSized exceeds n) Q src ↔ (n.toInt < 0 → Q none src) ∧
      (0 ≤ n.toInt → n.toInt ≤ src.length → Q (some (src.take n.toInt.toNat))
        (src.drop n.toInt.toNat)) := by
  simp only [takeSized, wp_ite, wp_pure, wp_bind, wp_rest, wp_failIf, wp_slice,
    wp_advance, Int.not_lt]
  constructor
  · rintro ⟨hneg, hpos⟩
    exact ⟨hneg, fun h0 hle => (hpos h0 hle).2.2⟩
  · rintro ⟨hneg, hpos⟩
    exact ⟨hneg, fun h0 hle => ⟨by omega, by omega, hpos h0 hle⟩⟩

@[simp] theorem wp_bufNext (n : Nat) (Q : Bytes → Bytes → Prop) :
    wp (bufNext n : Cursor ε Bytes) Q src ↔ Q (src.take n) (src.drop n) := Iff.rfl

@[simp] theorem wp_bufReadByte (eof : ε) (Q : UInt8 → Bytes → Prop) :
    wp (bufReadByte eof) Q src ↔ ∀ b src', src = b :: src' → Q b src' := by
  cases src <;> simp [wp, bufReadByte]

@[simp] theorem wp_bufReadBytes (delim : UInt8) (eof : ε) (Q : Bytes → Bytes → Prop) :
    wp (bufReadBytes delim eof) Q src ↔
      ∀ i, indexByte delim src = some i → Q (src.take (i + 1)) (src.drop (i + 1)) := by
  unfold wp bufReadBytes
  cases h : indexByte delim src <;> simp

@[simp] theorem wp_dropLastByte (b : Bytes) (Q : Bytes → Bytes → Prop) :
    wp (dropLastByte b : Cursor ε Bytes) Q src ↔ 1 ≤ b.length ∧ Q (b.take (b.length - 1)) src := by
  unfold dropLastByte
  rw [wp_ite]
  by_cases h : b.length < 1
  · simp [h]
  · simp [h, Nat.le_of_not_lt h]

end Rules

/-- The rule of a loop over a slice that is long enough; `I` is indexed by the rounds that are left.
-/
theorem wp_fill {len : Nat} {body : Cursor ε α} (I : Nat → Bytes → Prop)
    (hbody : ∀ k src, I (k + 1) src → wp body (fun _ src' => I k src') src) :
    ∀ {count i : Nat} {src : Bytes}, I count src → i + count ≤ len →
      wp (fill len body count i) (fun _ src' => I 0 src') src
  | 0, _, _, hI, _ => hI
  | count + 1, i, src, hI, hlen => by
    unfold fill
    rw [wp_bind]
    refine wp_mono (hbody count src hI) fun _ src' hI' => ?_
    rw [if_pos (by omega), wp_bind]
    exact wp_mono (wp_fill I hbody hI' (by omega)) fun _ _ h => h

theorem wp_collect {body : Cursor ε α} (I : Nat → Bytes → Prop)
    (hbody : ∀ k src, I (k + 1) src → wp body (fun _ src' => I k src') src) :
    ∀ {count : Nat} {src : Bytes}, I count src → wp (collect body count) (fun _ src' => I 0 src') src
  | 0, _, hI => hI
  | count + 1, src, hI => by
    unfold collect
    rw [wp_bind]
    refine wp_mono (hbody count src hI) fun _ src' hI' => ?_
    rw [wp_bind]
    exact wp_mono (wp_collect I hbody hI') fun _ _ h => h

/-! ## Reading back -/

/-- The decoder returns this, and leaves this of the slice. -/
def Runs (d : Cursor ε α) (src : Bytes) (a : α) (src' : Bytes) : Prop := d src = .ok (a, src')

namespace Runs

variable {src src' mid : Bytes} {a : α} {b : β}

theorem pure (a : α) : Runs (Pure.pure a : Cursor ε α) src a src := rfl

theorem bind {d : Cursor ε β} {k : β → Cursor ε α} (hd : Runs d src b mid)
    (hk : Runs (k b) mid a src') :
    Runs (d >>= k) src a src' := by
  show StateT.bind d k src = _
  unfold StateT.bind
  rw [show d src = .ok (b, mid) from hd]
  exact hk

theorem map {d : Cursor ε β} (f : β → α) (hd : Runs d src b src') :
    Runs (f <$> d) src (f b) src' := by
  show StateT.map f d src = _
  unfold StateT.map
  rw [show d src = .ok (b, src') from hd]
  rfl

theorem run' (h : Runs d src a src') : StateT.run' d src = .ok a := by
  show Prod.fst <$> d src = _
  rw [show d src = .ok (a, src') from h]
  rfl

theorem lift (wrap : ε' → ε) {x : Checked ε' α} (h : x = .ok a) :
    Runs (Cursor.lift wrap x) src a src := by
  subst h
  rfl

theorem rest : Runs (Cursor.rest : Cursor ε Bytes) src src src := rfl

theorem failIf {c : Prop} [Decidable c] (err : ε) (h : ¬ c) :
    Runs (Cursor.failIf c err) src () src := by
  unfold Cursor.failIf
  rw [if_neg h]
  rfl

theorem require (err : ε) (h : n ≤ src.length) : Runs (Cursor.require n err) src () src :=
    if_neg (by omega)

theorem make {n : Int} (h : 0 ≤ n) : Runs (Cursor.make n : Cursor ε Unit) src () src := by
  unfold Cursor.make
  rw [if_neg (by omega)]
  rfl

theorem advance (h : n ≤ src.length) : Runs (Cursor.advance n : Cursor ε Unit) src ()
    (src.drop n) := if_pos h

theorem slice (h : n ≤ src.length) : Runs (Cursor.slice n : Cursor ε Bytes) src
    (src.take n) src := if_pos h

theorem index {i : Nat} {c : UInt8} (h : bs[i]? = some c) :
    Runs (Cursor.index bs i : Cursor ε UInt8) src c src := by
  unfold Cursor.index
  rw [h]
  rfl

theorem bigEndianUint {width : Nat} (h : width ≤ bs.length) :
    Runs (Cursor.bigEndianUint width bs : Cursor ε Nat) src (fromBigEndian (bs.take width)) src := by
  unfold Cursor.bigEndianUint
  rw [if_neg (by omega)]
  rfl

theorem bufNext (n : Nat) : Runs (Cursor.bufNext n : Cursor ε Bytes) src (src.take n)
    (src.drop n) := rfl

end Runs

/-- The decoder reads exactly these bytes, whatever stands behind them. -/
def Reads (d : Cursor ε α) (bs : Bytes) (a : α) : Prop := ∀ src, Runs d (bs ++ src) a src

theorem Reads.all {a : α} (h : Reads d bs a) : Runs d bs a [] := by
  have := h []
  rwa [List.append_nil] at this

theorem take_bigEndian (width n : Nat) (src : Bytes) :
    (bigEndian width n ++ src).take width = bigEndian width n :=
  List.take_left' (bigEndian_length width n)

theorem drop_bigEndian (width n : Nat) (src : Bytes) : (bigEndian width n ++ src).drop width = src :=
  List.drop_left' (bigEndian_length width n)

theorem length_bigEndian_append (width n : Nat) (src : Bytes) :
    (bigEndian width n ++ src).length = width + src.length := by
  rw [List.length_append, bigEndian_length]

theorem reads_uint (width : Nat) (h : n < 256 ^ width) :
    Reads (uint width : Cursor ε Nat) (bigEndian width n) n := by
  intro src
  have hlen : width ≤ (bigEndian width n ++ src).length := by
    rw [length_bigEndian_append]
    omega
  have hread : Runs (bigEndianUint width (bigEndian width n ++ src) : Cursor ε Nat)
      (bigEndian width n ++ src) _ _ :=
    .bigEndianUint hlen
  have hskip := Runs.advance hlen (ε := ε)
  rw [take_bigEndian, fromBigEndian_bigEndian_of_lt h] at hread
  rw [drop_bigEndian] at hskip
  exact .bind .rest (.bind hread (.bind hskip (.pure n)))

theorem reads_uint16 (n : UInt16) : Reads (uint16 : Cursor ε UInt16) (bigEndian 2 n.toNat) n := by
  intro src
  have hlt : n.toNat < 256 ^ 2 := n.toNat_lt
  have h := (reads_uint 2 hlt src).map UInt16.ofNat (ε := ε)
  rwa [UInt16.ofNat_toNat] at h

theorem reads_uint32 (n : UInt32) : Reads (uint32 : Cursor ε UInt32) (bigEndian 4 n.toNat) n := by
  intro src
  have hlt : n.toNat < 256 ^ 4 := n.toNat_lt
  have h := (reads_uint 4 hlt src).map UInt32.ofNat (ε := ε)
  rwa [UInt32.ofNat_toNat] at h

theorem reads_int16 (n : Int16) : Reads (int16 : Cursor ε Int16)
    (bigEndian 2 n.toUInt16.toNat) n := by
  intro src
  have h := (reads_uint16 n.toUInt16 src).map UInt16.toInt16 (ε := ε)
  rwa [Int16.toInt16_toUInt16] at h

theorem reads_int32 (n : Int32) : Reads (int32 : Cursor ε Int32)
    (bigEndian 4 n.toUInt32.toNat) n := by
  intro src
  have h := (reads_uint32 n.toUInt32 src).map UInt32.toInt32 (ε := ε)
  rwa [Int32.toInt32_toUInt32] at h

/-- A slice that is read from a length of 32 bits in front of it, or nil for a negative length -/
def sizedField (exceeds : Int → Nat → ε) : Cursor ε (Option Bytes) := int32 >>= takeSized exceeds

/-- The next field with a length in front of it, and what is behind it -/
def nextSized (src : Bytes) : Option (Option Bytes × Bytes) :=
  let n := (UInt32.ofNat (fromBigEndian (src.take 4))).toInt32.toInt
  let left := src.drop 4
  if src.length < 4 then none
  else if n < 0 then some (none, left)
  else if left.length < n then none
  else some (some (left.take n.toNat), left.drop n.toNat)

/-- The fields that the bytes hold, up to this many -/
def sizedFields : Nat → Bytes → List (Option Bytes)
  | 0, _ => []
  | count + 1, src =>
    match nextSized src with
    | some (b, left) => b :: sizedFields count left
    | none => []

theorem length_of_nextSized {src left : Bytes} {b : Option Bytes}
    (h : nextSized src = some (b, left)) :
    4 ≤ src.length := by
  by_contra hlt
  rw [nextSized, if_pos (by omega)] at h
  cases h

theorem wp_sizedField {src : Bytes} (exceeds : Int → Nat → ε) (h4 : 4 ≤ src.length)
    (Q : Option Bytes → Bytes → Prop) :
    wp (sizedField exceeds) Q src ↔ ∀ b left, nextSized src = some (b, left) → Q b left := by
  simp only [sizedField, int32, uint32, wp_bind, wp_map, wp_uint, wp_takeSized, nextSized]
  rw [if_neg (by omega)]
  generalize (UInt32.ofNat (fromBigEndian (src.take 4))).toInt32.toInt = n
  by_cases hneg : n < 0
  · rw [if_pos hneg]
    refine ⟨fun h b left hb => ?_, fun h => ⟨h4, fun _ => h _ _ rfl, fun h0 => by omega⟩⟩
    cases hb
    exact h.2.1 hneg
  rw [if_neg hneg]
  by_cases hlen : ((src.drop 4).length : Int) < n
  · rw [if_pos hlen]
    exact ⟨nofun, fun _ => ⟨h4, fun h => absurd h hneg, fun _ hle => by omega⟩⟩
  · rw [if_neg hlen]
    refine ⟨fun h b left hb => ?_, fun h => ⟨h4, fun h' => absurd h' hneg, fun _ _ => h _ _ rfl⟩⟩
    cases hb
    exact h.2.2 (by omega) (by omega)

theorem Runs.sizedField {src left : Bytes} {b : Option Bytes} (exceeds : Int → Nat → ε)
    (h : nextSized src = some (b, left)) : Runs (Cursor.sizedField exceeds) src b left := by
  have h4 := length_of_nextSized h
  -- no panic, and a returned error only where no field is next
  have hwp := (wp_sizedField exceeds h4 fun b' left' => b' = b ∧ left' = left).mpr
      fun b' left' hb => by
    rw [h] at hb
    cases hb
    exact ⟨rfl, rfl⟩
  have hnot : ¬ wp (Cursor.sizedField exceeds) (fun _ _ => False) src :=
    fun hno => (wp_sizedField exceeds h4 _).mp hno b left h
  unfold wp at hwp hnot
  unfold Runs
  cases hd : Cursor.sizedField exceeds src with
  | ok r =>
    rw [hd] at hwp
    obtain ⟨rfl, rfl⟩ := hwp
    rfl
  | error e =>
    rw [hd] at hwp hnot
    cases e with
    | returned err => exact absurd trivial hnot
    | panic => exact hwp.elim

/-- A field whose length is there is read and scanned. -/
theorem wp_sizedScan {ε' : Type} {src : Bytes} (exceeds : Int → Nat → ε) (wrap : ε' → ε)
    (scan : Option Bytes → Checked ε' α) (Q : α → Bytes → Prop) :
    (4 ≤ src.length → wp (sizedField exceeds) (fun b left => wp (lift wrap (scan b)) Q left) src) ↔
      ∀ b left, nextSized src = some (b, left) → NoPanic (scan b) ∧ ∀ a, scan b = .ok a → Q a left := by
  simp only [wp_lift]
  constructor
  · intro h b left hb
    have h4 := length_of_nextSized hb
    exact (wp_sizedField _ h4 _).mp (h h4) b left hb
  · intro h h4
    rwa [wp_sizedField _ h4]

/-- The scan of one of these panics, and those of all before it succeed. -/
def Trips (scan : Option Bytes → Checked ε α) : List (Option Bytes) → Prop
  | [] => False
  | b :: bs => scan b = .error .panic ∨ (∃ a, scan b = .ok a) ∧ Trips scan bs

theorem not_trips_cons {scan : Option Bytes → Checked ε α} {b : Option Bytes}
    {bs : List (Option Bytes)} :
    ¬ Trips scan (b :: bs) ↔ NoPanic (scan b) ∧ ∀ a, scan b = .ok a → ¬ Trips scan bs := by
  simp only [Trips, not_or, not_and, forall_exists_index]
  rfl

theorem not_trips_of_noPanic {scan : Option Bytes → Checked ε α} (h : ∀ b, NoPanic (scan b)) :
    ∀ bs : List (Option Bytes), ¬ Trips scan bs
  | [] => id
  | b :: bs => not_trips_cons.mpr ⟨h b, fun _ _ => not_trips_of_noPanic h bs⟩

/-- Bytes with their length in front, or the length -1 for nil -/
def sizedWritten : Option Bytes → Bytes
  | none => bigEndian 4 (unsigned 32 (-1))
  | some bs => bigEndian 4 (unsigned 32 bs.length) ++ bs

theorem toNat_toUInt32_ofInt (n : Int) : (Int32.ofInt n).toUInt32.toNat = unsigned 32 n := by
  show (BitVec.ofInt 32 n).toNat = _
  rw [BitVec.toNat_ofInt]
  rfl

theorem reads_int32_ofInt {n : Int} : Reads (int32 : Cursor ε Int32) (bigEndian 4 (unsigned 32 n))
    (Int32.ofInt n) := by
  have h := reads_int32 (ε := ε) (Int32.ofInt n)
  rwa [toNat_toUInt32_ofInt] at h

theorem reads_sizedField (exceeds : Int → Nat → ε) {b : Option Bytes}
    (h : ∀ bs, b = some bs → bs.length < 2 ^ 31) :
    Reads (sizedField exceeds) (sizedWritten b) b := by
  intro src
  cases b with
  | none =>
    refine .bind (reads_int32_ofInt src) ?_
    have hneg : (Int32.ofInt (-1)).toInt < 0 := by decide
    unfold takeSized
    rw [if_pos hneg]
    rfl
  | some bs =>
    have hlen := h bs rfl
    have hn : (Int32.ofInt bs.length).toInt = bs.length :=
      Int32.toInt_ofInt_of_le (by omega) (by omega)
    have hfits : (Int32.ofInt bs.length).toInt.toNat = bs.length := by omega
    show Runs _ ((bigEndian 4 (unsigned 32 bs.length) ++ bs) ++ src) _ _
    rw [List.append_assoc]
    refine .bind (reads_int32_ofInt _) ?_
    unfold takeSized
    rw [if_neg (by omega), hfits]
    refine .bind .rest (.bind (.failIf _ (by simp [hn])) ?_)
    have hle : bs.length ≤ (bs ++ src).length := by simp
    have htake := Runs.slice hle (ε := ε)
    have hdrop := Runs.advance hle (ε := ε)
    rw [List.take_left] at htake
    rw [List.drop_left] at hdrop
    exact .bind htake (.bind hdrop (.pure _))

section

variable {body : Cursor ε α} {enc : α → Bytes} (xs : List α) (hbody : ∀ x ∈ xs, Reads body (enc x) x)

include xs hbody

theorem Reads.fill {len : Nat} : ∀ {i : Nat}, i + xs.length ≤ len →
      Reads (Cursor.fill len body xs.length i) (xs.flatMap enc) xs := by
  induction xs with
  | nil => exact fun _ src => .pure []
  | cons x xs ih =>
    intro i hlen src
    rw [List.length_cons] at hlen
    rw [List.flatMap_cons, List.append_assoc]
    refine .bind (hbody x (.head _) _) ?_
    rw [if_pos (by omega)]
    exact .bind (ih (fun y hy => hbody y (.tail _ hy)) (by omega) src) (.pure _)

theorem Reads.collect : Reads (Cursor.collect body xs.length) (xs.flatMap enc) xs := by
  induction xs with
  | nil => exact fun src => .pure []
  | cons x xs ih =>
    intro src
    rw [List.flatMap_cons, List.append_assoc]
    exact .bind (hbody x (.head _) _) (.bind (ih (fun y hy => hbody y (.tail _ hy)) src) (.pure _))

end

end Cursor

end Pgx.Go
