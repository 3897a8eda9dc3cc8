import Mathlib.Algebra.Group.Nat.Defs
import Mathlib.Data.Nat.Size
import Mathlib.Tactic.Common

/-!
# The pools of buffers

`internal/iobufpool`. Pool `i` makes buffers of `2 ^ (8 + i)` bytes, and whoever
returns a buffer may have cut it first, so that any capacity comes back. Of a buffer
only its length and its capacity matter, and memory does not run out.
-/
namespace Pgx.Proto3.Iobufpool

structure Buf where
  len : Nat
  cap : Nat
  fits : len ≤ cap

/-- `buf[:size]`, which panics outside of the capacity. -/
def Buf.upTo (buf : Buf) (size : Int) : Option Buf :=
  if h : 0 ≤ size ∧ size ≤ buf.cap then some ⟨size.toNat, buf.cap, by omega⟩ else none

/-- `make([]byte, size)` -/
def Buf.make (size : Nat) : Buf := ⟨size, size, Nat.le_refl size⟩

abbrev Pools := Nat → List Buf

def minPoolExpOf2 : Nat := 8

/-- `len(pools)` -/
def poolCount : Nat := 18

/-- `bits.TrailingZeros` of a word of so many bits. -/
def trailingZeros : Nat → Nat → Nat
  | 0, _ => 0
  | width + 1, n => if n % 2 = 1 then 0 else trailingZeros width (n / 2) + 1

def getPoolIdx (size : Int) : Int :=
  if size < 2 then 0
  else
    let idx : Int := Nat.size (size - 1).toNat - minPoolExpOf2
    if idx < 0 then 0 else idx

def putPoolIdx (size : Nat) : Int :=
  if size &&& (size - 1) ≠ 0 then -1
  else
    let idx : Int := trailingZeros 64 size - minPoolExpOf2
    if idx < 0 ∨ idx ≥ poolCount then -1 else idx

/-- `pools[i].Get()`: the `k`-th buffer in the pool or, if there is none, a new one. What the
collector has taken is never asked for. -/
def take (pools : Pools) (i k : Nat) : Buf × Pools :=
  match (pools i)[k]? with
  | some buf => (buf, Function.update pools i ((pools i).eraseIdx k))
  | none => (.make (2 ^ (minPoolExpOf2 + i)), pools)

def get (pools : Pools) (size : Int) (k : Nat) : Option Buf × Pools :=
  let i := getPoolIdx size
  if i ≥ poolCount then (some (.make size.toNat), pools)
  else ((take pools i.toNat k).1.upTo size, (take pools i.toNat k).2)

def put (pools : Pools) (buf : Buf) : Pools :=
  let i := putPoolIdx buf.cap
  if i < 0 then pools else Function.update pools i.toNat (buf :: pools i.toNat)

/-- A buffer that is returned has any length and any capacity. -/
inductive Call where
  | get (size : Int) (k : Nat)
  | put (buf : Buf)

def step (pools : Pools) : Call → Pools
  | .get size k => (get pools size k).2
  | .put buf => put pools buf

def run (calls : List Call) : Pools := calls.foldl step fun _ => []

/-- Every pool holds buffers of its own capacity. -/
def Sized (pools : Pools) : Prop := ∀ i, ∀ buf ∈ pools i, buf.cap = 2 ^ (minPoolExpOf2 + i)

variable {pools : Pools}

/-- Clearing the lowest bit of a number leaves nothing, so that bit is all there is. -/
theorem eq_two_pow {width n : Nat} (h : n &&& (n - 1) = 0) (hw : trailingZeros width n < width) :
    n = 2 ^ trailingZeros width n := by
  induction width generalizing n with
  | zero => cases hw
  | succ width ih =>
    have hhalf : n / 2 &&& (n - 1) / 2 = 0 := by rw [← Nat.and_div_two, h]
    unfold trailingZeros at hw ⊢
    by_cases hodd : n % 2 = 1
    · have hsame : (n - 1) / 2 = n / 2 := by omega
      rw [hsame, Nat.and_self] at hhalf
      rw [if_pos hodd, pow_zero]
      omega
    · have hpred : (n - 1) / 2 = n / 2 - 1 := by omega
      rw [hpred] at hhalf
      rw [if_neg hodd] at hw ⊢
      have := ih hhalf (by omega)
      rw [pow_succ, ← this]
      omega

theorem cap_of_putPoolIdx {cap : Nat} (h : 0 ≤ putPoolIdx cap) :
    cap = 2 ^ (minPoolExpOf2 + (putPoolIdx cap).toNat) := by
  unfold putPoolIdx at h ⊢
  split at h
  · cases h
  · rename_i hbit
    rw [if_neg hbit]
    dsimp only at h ⊢
    split at h
    · cases h
    · rename_i hidx
      rw [if_neg hidx]
      have hzeros : trailingZeros 64 cap < 64 := by
        unfold poolCount minPoolExpOf2 at hidx
        omega
      have hcap := eq_two_pow (not_not.mp hbit) hzeros
      have hexp : minPoolExpOf2 + ((trailingZeros 64 cap : Int) - minPoolExpOf2).toNat =
          trailingZeros 64 cap := by
        omega
      rw [hexp]
      exact hcap

theorem getPoolIdx_bounds (size : Nat) : 0 ≤ getPoolIdx size ∧
    size ≤ 2 ^ (minPoolExpOf2 + (getPoolIdx size).toNat) ∧
      (2 ^ (minPoolExpOf2 + (getPoolIdx size).toNat) < 2 * size ∨
        2 ^ (minPoolExpOf2 + (getPoolIdx size).toNat) < 2 * 256) := by
  have hpred : ((size : Int) - 1).toNat = size - 1 := by omega
  have hlt := Nat.lt_size_self (size - 1)
  have hlow : ∀ k, k < Nat.size (size - 1) → 2 ^ k ≤ size - 1 := fun _ => Nat.lt_size.mp
  have hfirst : size ≤ 256 → 0 ≤ (0 : Int) ∧ size ≤ 2 ^ (8 + (0 : Int).toNat) ∧
      (2 ^ (8 + (0 : Int).toNat) < 2 * size ∨ 2 ^ (8 + (0 : Int).toNat) < 2 * 256) := by
    rw [show 2 ^ (8 + (0 : Int).toNat) = 256 from rfl]
    omega
  unfold getPoolIdx minPoolExpOf2
  rw [hpred]
  generalize Nat.size (size - 1) = bits at hlt hlow
  split
  · exact hfirst (by omega)
  · dsimp only
    split
    · have hmono : 2 ^ bits ≤ 2 ^ 8 := Nat.pow_le_pow_right (by decide) (by omega)
      exact hfirst (by omega)
    · obtain ⟨k, rfl⟩ : ∃ k, bits = k + 1 := ⟨bits - 1, by omega⟩
      have hk := hlow k (Nat.lt_succ_self k)
      rw [show 8 + (((k + 1 : Nat) : Int) - (8 : Nat)).toNat = k + 1 by omega]
      rw [pow_succ] at hlt ⊢
      exact ⟨by omega, by omega, by omega⟩

theorem Sized.update (h : Sized pools) {i : Nat} {bufs : List Buf}
    (hbufs : ∀ buf ∈ bufs, buf.cap = 2 ^ (minPoolExpOf2 + i)) :
    Sized (Function.update pools i bufs) := by
  intro j
  by_cases hj : j = i
  · subst hj
    rw [Function.update_self]
    exact hbufs
  · rw [Function.update_of_ne hj]
    exact h j

theorem Sized.take (h : Sized pools) (i k : Nat) :
    (take pools i k).1.cap = 2 ^ (minPoolExpOf2 + i) ∧ Sized (take pools i k).2 := by
  unfold Iobufpool.take
  cases hk : (pools i)[k]? with
  | none =>
    dsimp only
    exact ⟨rfl, h⟩
  | some buf =>
    exact ⟨h i buf (List.mem_of_getElem? hk), h.update fun b hb =>
      h i b (List.mem_of_mem_eraseIdx hb)⟩

theorem Sized.put (h : Sized pools) (buf : Buf) : Sized (put pools buf) := by
  unfold Iobufpool.put
  dsimp only
  split
  · exact h
  · rename_i hidx
    refine h.update fun b hb => ?_
    rcases List.mem_cons.mp hb with rfl | hb
    · exact cap_of_putPoolIdx (by omega)
    · exact h _ b hb

theorem Sized.step (h : Sized pools) (call : Call) : Sized (step pools call) := by
  cases call with
  | put buf => exact h.put buf
  | get size k =>
    show Sized (Iobufpool.get pools size k).2
    unfold Iobufpool.get
    dsimp only
    split
    · exact h
    · exact (h.take _ k).2

theorem run_sized (calls : List Call) : Sized (run calls) := by
  suffices hall : ∀ pools, Sized pools → Sized (calls.foldl step pools) from hall _ fun _ _ hb => by
    cases hb
  induction calls with
  | nil => exact fun _ h => h
  | cons call calls ih => exact fun pools h => ih _ (h.step call)

/-- After any calls the pools hold what they should, and `Get` cuts a buffer of the length that is
asked for inside of its capacity. -/
theorem get_after_calls (calls : List Call) : Sized (run calls) ∧ ∀ size k : Nat, ∃ buf,
    (get (run calls) size k).1 = some buf ∧ buf.len = size ∧
    (buf.cap < 2 * size ∨ buf.cap < 2 * 256) := by
  refine ⟨run_sized calls, fun size k => ?_⟩
  obtain ⟨-, hfits, hbelow⟩ := getPoolIdx_bounds size
  unfold get
  dsimp only
  split
  · refine ⟨_, rfl, Int.toNat_natCast size, ?_⟩
    rw [Int.toNat_natCast]
    show size < 2 * size ∨ size < 2 * 256
    omega
  · have hcap := ((run_sized calls).take (getPoolIdx size).toNat k).1
    unfold Buf.upTo
    rw [dif_pos ⟨by omega, by rw [hcap]; exact_mod_cast hfits⟩]
    rw [← hcap] at hbelow
    exact ⟨_, rfl, Int.toNat_natCast size, hbelow⟩

end Pgx.Proto3.Iobufpool
