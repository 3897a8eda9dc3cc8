import Pgx.Go.Bytes

/-!
# Base 64

`base64.StdEncoding` and `base64.RawStdEncoding`. The decoder skips carriage
returns and line feeds, wants the padding and does not look at the spare bits of
the last character, as `DecodeString` does.
-/
namespace Pgx.Go.Base64

def pad : UInt8 := 61

def encodeSextet (n : Nat) : UInt8 :=
  UInt8.ofNat <|
    if n < 26 then 65 + n else if n < 52 then 71 + n else if n < 62 then n - 4
    else if n = 62 then 43 else 47

def decodeSextet (c : UInt8) : Option Nat :=
  if 65 ≤ c ∧ c ≤ 90 then some (c.toNat - 65)
  else if 97 ≤ c ∧ c ≤ 122 then some (c.toNat - 71)
  else if 48 ≤ c ∧ c ≤ 57 then some (c.toNat + 4)
  else if c = 43 then some 62
  else if c = 47 then some 63
  else none

theorem decodeSextet_encodeSextet : ∀ n < 64, decodeSextet (encodeSextet n) = some n := by decide

theorem encodeSextet_plain : ∀ n < 64, encodeSextet n ≠ pad ∧ encodeSextet n ≠ 10 ∧
    encodeSextet n ≠ 13 ∧
      encodeSextet n ≠ comma := by decide

def word (a b c : UInt8) : Nat := a.toNat * 65536 + b.toNat * 256 + c.toNat

/-- The `i`-th sextet of a 24-bit number, counted from the left. -/
def sextet (n i : Nat) : UInt8 := encodeSextet (n / 64 ^ (3 - i) % 64)

/-- `RawStdEncoding.Encode` when `padding` is off, else `StdEncoding.Encode`. -/
def encode (padding : Bool) : Bytes → Bytes
  | [] => []
  | [a] => [sextet (word a 0 0) 0, sextet (word a 0 0) 1] ++ if padding then [pad, pad] else []
  | [a, b] =>
    [sextet (word a b 0) 0, sextet (word a b 0) 1, sextet (word a b 0) 2] ++
      if padding then [pad] else []
  | a :: b :: c :: rest =>
    sextet (word a b c) 0 :: sextet (word a b c) 1 :: sextet (word a b c) 2 ::
      sextet (word a b c) 3 :: encode padding rest

def byteAt (n i : Nat) : UInt8 := UInt8.ofNat (n / 256 ^ (2 - i) % 256)

/-- The quantum loop of `DecodeString`, once the line ends are gone. -/
def decodeQuanta : Bytes → Option Bytes
  | [] => some []
  | c0 :: c1 :: c2 :: c3 :: rest =>
    match decodeSextet c0, decodeSextet c1 with
    | some v0, some v1 =>
      if c2 = pad then
        if c3 = pad ∧ rest = [] then some [byteAt (v0 * 262144 + v1 * 4096) 0] else none
      else match decodeSextet c2 with
        | none => none
        | some v2 =>
          if c3 = pad then
            if rest = [] then
              some [byteAt (v0 * 262144 + v1 * 4096 + v2 * 64) 0,
                byteAt (v0 * 262144 + v1 * 4096 + v2 * 64) 1]
            else none
          else match decodeSextet c3 with
            | none => none
            | some v3 =>
              (decodeQuanta rest).map fun bs =>
                byteAt (v0 * 262144 + v1 * 4096 + v2 * 64 + v3) 0 ::
                byteAt (v0 * 262144 + v1 * 4096 + v2 * 64 + v3) 1 ::
                byteAt (v0 * 262144 + v1 * 4096 + v2 * 64 + v3) 2 :: bs
    | _, _ => none
  | _ => none

/-- `StdEncoding.DecodeString`, with `none` for a `CorruptInputError`. -/
def decodeString (s : Bytes) : Option Bytes := decodeQuanta (s.filter fun c => c ≠ 10 ∧ c ≠ 13)

theorem decodeSextet_sextet (n i : Nat) : decodeSextet (sextet n i) = some (n / 64 ^ (3 - i) % 64) :=
  decodeSextet_encodeSextet _ (Nat.mod_lt _ (by omega))

theorem sextet_plain (n i : Nat) : sextet n i ≠ pad ∧ sextet n i ≠ 10 ∧ sextet n i ≠ 13 ∧
    sextet n i ≠ comma :=
  encodeSextet_plain _ (Nat.mod_lt _ (by omega))

theorem byteAt_eq {n i : Nat} {b : UInt8} (h : n / 256 ^ (2 - i) % 256 = b.toNat) :
    byteAt n i = b := by
  unfold byteAt
  rw [h]
  exact UInt8.ofNat_toNat

/-- The characters of an encoding are letters, digits, `+`, `/` and `=`. -/
theorem mem_encode {padding : Bool} {s : Bytes} {c : UInt8} (h : c ∈ encode padding s) :
    c ≠ 10 ∧ c ≠ 13 ∧ c ≠ comma := by
  have hpad : pad ≠ 10 ∧ pad ≠ 13 ∧ pad ≠ comma := by decide
  have hsextet : ∀ n i, sextet n i ≠ 10 ∧ sextet n i ≠ 13 ∧ sextet n i ≠ comma :=
    fun n i => (sextet_plain n i).2
  fun_induction encode padding s with
  | case1 => simp at h
  | case2 a =>
    cases padding <;> simp at h <;> grind
  | case3 a b =>
    cases padding <;> simp at h <;> grind
  | case4 a b c' rest ih =>
    grind

theorem decodeQuanta_encode (s : Bytes) : decodeQuanta (encode true s) = some s := by
  fun_induction encode true s with
  | case1 => rfl
  | case2 a =>
    have ha := a.toNat_lt
    simp only [List.cons_append, List.nil_append, if_true, decodeQuanta,
      decodeSextet_sextet, and_self]
    congr 2
    apply byteAt_eq
    simp only [word, UInt8.toNat_zero]
    omega
  | case3 a b =>
    have ha := a.toNat_lt
    have hb := b.toNat_lt
    have h2 := (sextet_plain (word a b 0) 2).1
    simp only [List.cons_append, List.nil_append, if_true, decodeQuanta,
      decodeSextet_sextet, if_neg h2]
    congr 2
    · apply byteAt_eq
      simp only [word, UInt8.toNat_zero]
      omega
    · congr 1
      apply byteAt_eq
      simp only [word, UInt8.toNat_zero]
      omega
  | case4 a b c rest ih =>
    have ha := a.toNat_lt
    have hb := b.toNat_lt
    have hc := c.toNat_lt
    have h2 := (sextet_plain (word a b c) 2).1
    have h3 := (sextet_plain (word a b c) 3).1
    simp only [decodeQuanta, decodeSextet_sextet, if_neg h2, if_neg h3, ih, Option.map_some]
    congr 2
    · apply byteAt_eq
      simp only [word]
      omega
    · congr 1
      · apply byteAt_eq
        simp only [word]
        omega
      · congr 1
        apply byteAt_eq
        simp only [word]
        omega

theorem decodeString_encode (s : Bytes) : decodeString (encode true s) = some s := by
  have hf : (encode true s).filter (fun c => c ≠ 10 ∧ c ≠ 13) = encode true s := by
    apply List.filter_eq_self.mpr
    intro c hc
    obtain ⟨h10, h13, -⟩ := mem_encode hc
    simp [h10, h13]
  unfold decodeString
  rw [hf]
  exact decodeQuanta_encode s

end Pgx.Go.Base64
