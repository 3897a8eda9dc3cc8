import Pgx.Go.BigEndian

/-!
# SHA-256

`crypto/sha256`, with `crypto/hmac` and `crypto/pbkdf2` over it. Words are
numbers below `2 ^ 32`.
-/
namespace Pgx.Go.Sha256

def word (n : Nat) : Nat := n % 2 ^ 32

def rotr (x n : Nat) : Nat := word (x >>> n ||| x <<< (32 - n))

def roundConstants : List Nat :=
  [0x428a2f98, 0x71374491, 0xb5c0fbcf, 0xe9b5dba5, 0x3956c25b, 0x59f111f1,
    0x923f82a4, 0xab1c5ed5, 0xd807aa98, 0x12835b01, 0x243185be, 0x550c7dc3,
    0x72be5d74, 0x80deb1fe, 0x9bdc06a7, 0xc19bf174, 0xe49b69c1, 0xefbe4786,
    0x0fc19dc6, 0x240ca1cc, 0x2de92c6f, 0x4a7484aa, 0x5cb0a9dc, 0x76f988da,
    0x983e5152, 0xa831c66d, 0xb00327c8, 0xbf597fc7, 0xc6e00bf3, 0xd5a79147,
    0x06ca6351, 0x14292967, 0x27b70a85, 0x2e1b2138, 0x4d2c6dfc, 0x53380d13,
    0x650a7354, 0x766a0abb, 0x81c2c92e, 0x92722c85, 0xa2bfe8a1, 0xa81a664b,
    0xc24b8b70, 0xc76c51a3, 0xd192e819, 0xd6990624, 0xf40e3585, 0x106aa070,
    0x19a4c116, 0x1e376c08, 0x2748774c, 0x34b0bcb5, 0x391c0cb3, 0x4ed8aa4a,
    0x5b9cca4f, 0x682e6ff3, 0x748f82ee, 0x78a5636f, 0x84c87814, 0x8cc70208,
    0x90befffa, 0xa4506ceb, 0xbef9a3f7, 0xc67178f2]

def initialHash : List Nat :=
  [0x6a09e667, 0xbb67ae85, 0x3c6ef372, 0xa54ff53a, 0x510e527f, 0x9b05688c, 0x1f83d9ab, 0x5be0cd19]

/-- The message with a one bit, zeros up to eight bytes before a block's end, and its bit length. -/
def padded (msg : Bytes) : Bytes :=
  msg ++ [0x80] ++ List.replicate ((119 - msg.length % 64) % 64) 0 ++ bigEndian 8 (8 * msg.length)

def extendSchedule : Nat → List Nat → List Nat
  | 0, ws => ws
  | n + 1, ws =>
    let w2 := ws.getD 1 0
    let w15 := ws.getD 14 0
    let s0 := rotr w15 7 ^^^ rotr w15 18 ^^^ w15 >>> 3
    let s1 := rotr w2 17 ^^^ rotr w2 19 ^^^ w2 >>> 10
    extendSchedule n (word (ws.getD 15 0 + s0 + ws.getD 6 0 + s1) :: ws)

def schedule (block : Bytes) : List Nat :=
  let ws := (List.range 16).map fun i => fromBigEndian ((block.drop (4 * i)).take 4)
  (extendSchedule 48 ws.reverse).reverse

def round (h : List Nat) (kw : Nat × Nat) : List Nat :=
  match h with
  | [a, b, c, d, e, f, g, h] =>
    let s1 := rotr e 6 ^^^ rotr e 11 ^^^ rotr e 25
    let ch := (e &&& f) ^^^ ((2 ^ 32 - 1 - e) &&& g)
    let t1 := h + s1 + ch + kw.1 + kw.2
    let s0 := rotr a 2 ^^^ rotr a 13 ^^^ rotr a 22
    let maj := (a &&& b) ^^^ (a &&& c) ^^^ (b &&& c)
    [word (t1 + s0 + maj), a, b, c, word (d + t1), e, f, g]
  | h => h

def compress (h : List Nat) (block : Bytes) : List Nat :=
  List.zipWith (fun x y => word (x + y)) h ((roundConstants.zip (schedule block)).foldl round h)

def blocks : Nat → Bytes → List Nat → List Nat
  | 0, _, h => h
  | n + 1, bs, h => blocks n (bs.drop 64) (compress h (bs.take 64))

def sum256 (msg : Bytes) : Bytes :=
  (blocks ((padded msg).length / 64) (padded msg) initialHash).flatMap (bigEndian 4)

theorem compress_length {h : List Nat} (block : Bytes) (hl : h.length = 8) :
    (compress h block).length = 8 := by
  have hfold : ∀ (kws : List (Nat × Nat)) (h : List Nat), h.length = 8 →
      (kws.foldl round h).length = 8 := by
    intro kws
    induction kws with
    | nil => exact fun _ hl => hl
    | cons kw kws ih =>
      refine fun h hl => ih _ ?_
      unfold round
      split
      · rfl
      · exact hl
  unfold compress
  rw [List.length_zipWith, hl, hfold _ h hl]
  rfl

theorem blocks_length (n : Nat) (bs : Bytes) {h : List Nat} (hl : h.length = 8) :
    (blocks n bs h).length = 8 := by
  induction n generalizing bs h with
  | zero => exact hl
  | succ n ih => exact ih _ (compress_length _ hl)

theorem sum256_length (msg : Bytes) : (sum256 msg).length = 32 := by
  have hb := blocks_length ((padded msg).length / 64) (padded msg) (h := initialHash) rfl
  unfold sum256
  rw [List.length_flatMap]
  simp only [bigEndian_length, List.map_const', hb]
  rfl

def hmac (key msg : Bytes) : Bytes :=
  let key := if 64 < key.length then sum256 key else key
  let key := key ++ List.replicate (64 - key.length) 0
  sum256 (key.map (· ^^^ 0x5c) ++ sum256 (key.map (· ^^^ 0x36) ++ msg))

theorem hmac_length (key msg : Bytes) : (hmac key msg).length = 32 := sum256_length _

/-- The exclusive or of the iterated digests, from `u` on. -/
def pbkdf2Rounds (password : Bytes) : Nat → Bytes → Bytes → Bytes
  | 0, _, t => t
  | n + 1, u, t =>
    let u := hmac password u
    pbkdf2Rounds password n u (List.zipWith (· ^^^ ·) t u)

/-- One block of PBKDF2, which is all of a 32-byte key. -/
def pbkdf2 (password salt : Bytes) (iterations : Nat) : Bytes :=
  let u := hmac password (salt ++ [0, 0, 0, 1])
  pbkdf2Rounds password (iterations - 1) u u

theorem pbkdf2_length (password salt : Bytes) (iterations : Nat) :
    (pbkdf2 password salt iterations).length = 32 := by
  have hrounds : ∀ (n : Nat) (u t : Bytes), t.length = 32 →
      (pbkdf2Rounds password n u t).length = 32 := by
    intro n
    induction n with
    | zero => exact fun _ _ ht => ht
    | succ n ih =>
      intro u t ht
      apply ih
      rw [List.length_zipWith, ht, hmac_length]
      rfl
  exact hrounds _ _ _ (hmac_length _ _)

end Pgx.Go.Sha256
