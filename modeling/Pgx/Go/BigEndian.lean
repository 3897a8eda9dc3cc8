import Pgx.Go.Bytes
import Pgx.Go.Radix

/-!
# Big-endian numbers

Fixed-width numbers as `encoding/binary` and `pgio` read and write them. A number
that does not fit its width is cut, as Go's integer conversions cut it; signed
numbers are written in two's complement.
-/
namespace Pgx.Go

/-- The bytes of a number, most significant first. -/
def bigEndian (width n : Nat) : Bytes :=
  (List.range width).map fun i => UInt8.ofNat (n / 256 ^ (width - 1 - i))

def fromBigEndian (bs : Bytes) : Nat := bs.foldl (fun n b => n * 256 + b.toNat) 0

theorem bigEndian_length (width n : Nat) : (bigEndian width n).length = width := by
  simp [bigEndian]

theorem bigEndian_succ (width n : Nat) : bigEndian (width + 1) n = bigEndian width
    (n / 256) ++ [UInt8.ofNat n] := by
  unfold bigEndian
  rw [List.range_succ, List.map_append, List.map_singleton, Nat.add_sub_cancel, Nat.sub_self,
    pow_zero, Nat.div_one]
  congr 1
  apply List.map_congr_left
  intro i hi
  have hlt := List.mem_range.mp hi
  rw [Nat.div_div_eq_div_mul, ← pow_succ']
  congr 3
  omega

theorem fromBigEndian_eq (bs : Bytes) : fromBigEndian bs = Radix.value 256 (bs.map UInt8.toNat) := by
  unfold fromBigEndian Radix.value
  rw [List.foldl_map]

theorem fromBigEndian_concat (bs : Bytes) (b : UInt8) :
    fromBigEndian (bs ++ [b]) = fromBigEndian bs * 256 + b.toNat := by
  simp only [fromBigEndian_eq, List.map_append, List.map_cons, List.map_nil, Radix.value_concat]

theorem fromBigEndian_lt (bs : Bytes) : fromBigEndian bs < 256 ^ bs.length := by
  rw [fromBigEndian_eq, ← List.length_map (f := UInt8.toNat)]
  apply Radix.value_lt
  intro d hd
  obtain ⟨b, -, rfl⟩ := List.mem_map.mp hd
  exact b.toNat_lt

theorem fromBigEndian_bigEndian (width n : Nat) :
    fromBigEndian (bigEndian width n) = n % 256 ^ width := by
  induction width generalizing n with
  | zero => simp [bigEndian, fromBigEndian, Nat.mod_one]
  | succ width ih =>
    have hmod : n % 256 ^ (width + 1) = n % 256 + 256 * (n / 256 % 256 ^ width) := by
      rw [pow_succ', Nat.mod_mul]
    rw [bigEndian_succ, fromBigEndian_concat, ih, UInt8.toNat_ofNat', hmod]
    omega

theorem fromBigEndian_bigEndian_of_lt {width n : Nat} (h : n < 256 ^ width) :
    fromBigEndian (bigEndian width n) = n := by
  rw [fromBigEndian_bigEndian, Nat.mod_eq_of_lt h]

/-- The signed number with the low bits of `n`. -/
def signed (bits : Nat) (n : Int) : Int := n.bmod (2 ^ bits)

theorem signed_of_fits {bits : Nat} {n : Int} (hlow : -(2 ^ bits) ≤ 2 * n)
    (hhigh : 2 * n < 2 ^ bits) :
    signed bits n = n := by
  apply Int.bmod_eq_of_le_mul_two
  · push_cast
    omega
  · push_cast
    omega

theorem signed16_range (n : Int) : -32768 ≤ signed 16 n ∧ signed 16 n ≤ 32767 := by
  unfold signed
  have hlow := Int.le_bmod (x := n) (m := 2 ^ 16) (by omega)
  have hhigh := Int.bmod_lt (x := n) (m := 2 ^ 16) (by omega)
  omega

/-- The number a field of this width holds for a signed number. -/
def unsigned (bits : Nat) (n : Int) : Nat := (n % 2 ^ bits).toNat

theorem unsigned_lt (bits : Nat) (n : Int) : unsigned bits n < 2 ^ bits := by
  have hpos : (0 : Int) < 2 ^ bits := by positivity
  have hlt := Int.emod_lt_of_pos n hpos
  have hnn := Int.emod_nonneg n hpos.ne'
  unfold unsigned
  zify
  rw [Int.toNat_of_nonneg hnn]
  exact hlt

theorem signed_unsigned (bits : Nat) (n : Int) : signed bits (unsigned bits n) = signed bits n := by
  have hpos : (0 : Int) < 2 ^ bits := by positivity
  unfold unsigned
  rw [Int.toNat_of_nonneg (Int.emod_nonneg n hpos.ne')]
  have h := Int.emod_bmod (n := 2 ^ bits) n
  push_cast at h
  exact h

def appendInt16 (buf : Bytes) (n : Int) : Bytes := buf ++ bigEndian 2 (unsigned 16 n)

def appendInt32 (buf : Bytes) (n : Int) : Bytes := buf ++ bigEndian 4 (unsigned 32 n)

def appendUint64 (buf : Bytes) (n : Nat) : Bytes := buf ++ bigEndian 8 n

end Pgx.Go
