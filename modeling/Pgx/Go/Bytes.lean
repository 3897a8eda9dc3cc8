import Pgx.Go.Format

/-!
# Byte strings

Values of type `[]byte`, and strings whose bytes matter. A slice is the list of
its bytes, so `buf[:i]` is `take` and `buf[i:]` is `drop`.
-/
namespace Pgx.Go

abbrev Bytes := List UInt8

/-- The bytes of a text whose characters are all ASCII. -/
def asciiText (t : Text) : Bytes := t.map fun c => UInt8.ofNat c.toNat

def ascii (s : String) : Bytes := asciiText s.toList

def comma : UInt8 := 44

/-- `bytes.IndexByte`, with `none` for -1. -/
def indexByte (c : UInt8) : Bytes → Option Nat
  | [] => none
  | b :: bs => if b = c then some 0 else (indexByte c bs).map (· + 1)

/-- The first of its kind is found. -/
theorem indexByte_append {c : UInt8} {a : Bytes} (h : c ∉ a) (b : Bytes) :
    indexByte c (a ++ c :: b) = some a.length := by
  induction a with
  | nil => simp [indexByte]
  | cons x a ih =>
    obtain ⟨hx, ha⟩ := not_or.mp (List.mem_cons.not.mp h)
    simp [indexByte, Ne.symm hx, ih ha]

theorem indexByte_eq_none {c : UInt8} {a : Bytes} (h : c ∉ a) : indexByte c a = none := by
  induction a with
  | nil => rfl
  | cons x a ih =>
    obtain ⟨hx, ha⟩ := not_or.mp (List.mem_cons.not.mp h)
    simp [indexByte, Ne.symm hx, ih ha]

/-- Where the separator was found the text splits, and there is none before it. -/
theorem indexByte_some {c : UInt8} {buf : Bytes} {k : Nat} (h : indexByte c buf = some k) :
    c ∉ buf.take k ∧ buf = buf.take k ++ c :: buf.drop (k + 1) := by
  induction buf generalizing k with
  | nil => simp [indexByte] at h
  | cons x buf ih =>
    unfold indexByte at h
    by_cases hx : x = c
    · rw [if_pos hx] at h
      obtain rfl := Option.some.inj h
      simp [hx]
    · rw [if_neg hx] at h
      obtain ⟨j, hj, rfl⟩ := Option.map_eq_some_iff.mp h
      obtain ⟨hn, hs⟩ := ih hj
      constructor
      · simpa [Ne.symm hx] using hn
      · simpa using hs

/-! ## `strconv.Atoi` on a 64-bit platform -/

inductive NumError where
  | errSyntax
  | errRange
  deriving DecidableEq, Repr

def maxUint64 : Nat := 2 ^ 64 - 1

/-- The digit loop of `strconv.ParseUint` in base 10. -/
def parseUint (n : Nat) : Bytes → Except NumError Nat
  | [] => .ok n
  | c :: cs =>
    if c < 48 ∨ 57 < c then .error .errSyntax
    else if n * 10 + (c.toNat - 48) > maxUint64 then .error .errRange
    else parseUint (n * 10 + (c.toNat - 48)) cs

/-- The digit loop of `strconv.ParseUint` in base 10, for numbers up to `maxVal`. -/
def parseUintUpTo (maxVal n : Nat) : Bytes → Except NumError Nat
  | [] => .ok n
  | c :: cs =>
    if c < 48 ∨ 57 < c then .error .errSyntax
    else if n * 10 + (c.toNat - 48) > maxVal then .error .errRange
    else parseUintUpTo maxVal (n * 10 + (c.toNat - 48)) cs

theorem parseUint_eq (n : Nat) (cs : Bytes) : parseUint n cs = parseUintUpTo maxUint64 n cs := by
  induction cs generalizing n with
  | nil => rfl
  | cons c cs ih => simp only [parseUint, parseUintUpTo, ih]

def splitSign : Bytes → Bool × Bytes
  | 45 :: cs => (true, cs)
  | 43 :: cs => (false, cs)
  | cs => (false, cs)

def atoi (s : Bytes) : Except NumError Int :=
  if (splitSign s).2 = [] then .error .errSyntax
  else match parseUint 0 (splitSign s).2 with
    | .error e => .error e
    | .ok n =>
      if (splitSign s).1 then
        if n ≤ 2 ^ 63 then .ok (-(n : Int)) else .error .errRange
      else if n < 2 ^ 63 then .ok n else .error .errRange

theorem asciiDigit_bounds {c : Char} (h : isDigit c = true) :
    (UInt8.ofNat c.toNat).toNat = c.toNat ∧ 48 ≤ c.toNat ∧ c.toNat ≤ 57 := by
  simp only [isDigit, Bool.and_eq_true, decide_eq_true_eq] at h
  have h0 : 48 ≤ c.toNat := h.1
  have h9 : c.toNat ≤ 57 := h.2
  refine ⟨?_, h0, h9⟩
  simp only [UInt8.toNat_ofNat']
  omega

theorem parseUintUpTo_digits {maxVal : Nat} {t : Text} (ht : ∀ c ∈ t, isDigit c = true) {n : Nat}
    (hb : Nat.ofDigitChars 10 t n ≤ maxVal) :
    parseUintUpTo maxVal n (asciiText t) = .ok (Nat.ofDigitChars 10 t n) := by
  induction t generalizing n with
  | nil => simp [asciiText, parseUintUpTo]
  | cons c t ih =>
    obtain ⟨hv, h0, h9⟩ := asciiDigit_bounds (ht c (.head _))
    have hnext : Nat.ofDigitChars 10 (c :: t) n = Nat.ofDigitChars 10 t
        (n * 10 + (c.toNat - 48)) := by
      rw [Nat.ofDigitChars_cons, Nat.mul_comm]
      rfl
    have hge : n * 10 + (c.toNat - 48) ≤ Nat.ofDigitChars 10 (c :: t) n := by
      rw [hnext, Nat.ofDigitChars_eq_ofDigitChars_zero]
      exact Nat.le_add_right_of_le (Nat.le_mul_of_pos_left _ (Nat.pow_pos (by omega)))
    have hdigit : ¬ (UInt8.ofNat c.toNat < 48 ∨ 57 < UInt8.ofNat c.toNat) := by
      rw [UInt8.lt_iff_toNat_lt, UInt8.lt_iff_toNat_lt, hv]
      show ¬ (c.toNat < 48 ∨ 57 < c.toNat)
      omega
    show parseUintUpTo maxVal n (UInt8.ofNat c.toNat :: asciiText t) = _
    unfold parseUintUpTo
    rw [if_neg hdigit, hv, if_neg (by omega), hnext]
    rw [hnext] at hb
    exact ih (fun d hd => ht d (.tail _ hd)) hb

theorem parseUintUpTo_formatUint {maxVal n : Nat} (h : n ≤ maxVal) :
    parseUintUpTo maxVal 0 (asciiText (formatUint n)) = .ok n := by
  have hv : Nat.ofDigitChars 10 (formatUint n) 0 = n :=
    Nat.ofDigitChars_toDigits (by omega) (by omega)
  rw [parseUintUpTo_digits (fun _ => isDigit_of_mem_formatUint) (by rw [hv]; exact h), hv]

theorem asciiText_formatUint_ne_nil (n : Nat) : asciiText (formatUint n) ≠ [] := by
  unfold asciiText formatUint
  simp

theorem splitSign_digits {t : Text} (ht : ∀ c ∈ t, isDigit c = true) :
    splitSign (asciiText t) = (false, asciiText t) := by
  cases t with
  | nil => rfl
  | cons c t =>
    obtain ⟨hv, h0, h9⟩ := asciiDigit_bounds (ht c (.head _))
    have h45 : UInt8.ofNat c.toNat ≠ 45 := by
      intro h
      have : (UInt8.ofNat c.toNat).toNat = 45 := by rw [h]; rfl
      omega
    have h43 : UInt8.ofNat c.toNat ≠ 43 := by
      intro h
      have : (UInt8.ofNat c.toNat).toNat = 43 := by rw [h]; rfl
      omega
    unfold splitSign
    split
    · rename_i heq
      exact absurd (List.cons.inj heq).1 h45
    · rename_i heq
      exact absurd (List.cons.inj heq).1 h43
    · rfl

theorem splitSign_formatInt (n : Int) :
    splitSign (asciiText (formatInt n)) = (decide (n < 0), asciiText (formatUint n.natAbs)) := by
  unfold formatInt
  by_cases hneg : n < 0
  · rw [if_pos hneg, decide_eq_true hneg]
    rfl
  · rw [if_neg hneg, decide_eq_false hneg]
    exact splitSign_digits fun _ => isDigit_of_mem_formatUint

/-- The text is the number in decimal, perhaps with zeros in front. -/
structure Writes (t : Text) (n : Nat) : Prop where
  digits : ∀ c ∈ t, isDigit c = true
  ne_nil : t ≠ []
  value : Nat.ofDigitChars 10 t 0 = n

theorem writes_formatUint (n : Nat) : Writes (formatUint n) n where
  digits _ := isDigit_of_mem_formatUint
  ne_nil := by
    unfold formatUint
    simp
  value := Nat.ofDigitChars_toDigits (by omega) (by omega)

theorem writes_formatPadded (width n : Nat) : Writes (formatPadded width n) n where
  digits _ := isDigit_of_mem_formatPadded
  ne_nil h := (writes_formatUint n).ne_nil (List.append_eq_nil_iff.mp h).2
  value := by
    unfold formatPadded
    rw [Nat.ofDigitChars_append, Nat.ofDigitChars_replicate_zero, Nat.mul_zero]
    exact (writes_formatUint n).value

theorem Writes.not_mem {t : Text} {n : Nat} (h : Writes t n) {b : UInt8}
    (hb : b.toNat < 48 ∨ 57 < b.toNat) :
    b ∉ asciiText t := by
  intro hmem
  obtain ⟨c, hc, rfl⟩ := List.mem_map.mp hmem
  obtain ⟨hv, h0, h9⟩ := asciiDigit_bounds (h.digits c hc)
  omega

theorem Writes.atoi {s : Bytes} {neg : Bool} {t : Text} {n : Nat} (h : Writes t n)
    (hs : splitSign s = (neg, asciiText t)) (hn : n < 2 ^ 63) :
    Go.atoi s = .ok (if neg then -(n : Int) else n) := by
  have hp : parseUint 0 (asciiText t) = .ok n := by
    rw [parseUint_eq, parseUintUpTo_digits h.digits
      (by rw [h.value]; unfold maxUint64; omega), h.value]
  have hne : asciiText t ≠ [] := fun hnil => h.ne_nil (List.map_eq_nil_iff.mp hnil)
  unfold Go.atoi
  rw [hs]
  cases neg with
  | true => simp only [hne, hp, if_false, if_true, if_pos (Nat.le_of_lt hn)]
  | false => simp only [hne, hp, if_false, Bool.false_eq_true, if_pos hn]

theorem atoi_formatUint {n : Nat} (h : n < 2 ^ 63) :
    atoi (asciiText (formatUint n)) = .ok (n : Int) :=
  (writes_formatUint n).atoi (splitSign_digits fun _ => isDigit_of_mem_formatUint) h

end Pgx.Go
