import Pgx.Go.Bytes

/-!
# Bytes and runes

Reading runes from a string that is not valid UTF-8 gives U+FFFD for a byte that starts no
character, and goes on behind that byte.
-/
namespace Pgx.Go

/-- `[]byte(s)` -/
def textBytes (s : Text) : Bytes := s.flatMap String.utf8EncodeChar

/-- `utf8.DecodeRune` for a slice that is not empty -/
def decodeRune (b : Bytes) : Char × Nat :=
  match ByteArray.utf8DecodeChar? b.toByteArray 0 with
  | some c => (c, c.utf8Size)
  | none => (runeError, 1)

/-- The runes behind the next `skip` bytes -/
def runesFrom : (skip : Nat) → Bytes → Text
  | _, [] => []
  | 0, b :: bs => (decodeRune (b :: bs)).1 :: runesFrom ((decodeRune (b :: bs)).2 - 1) bs
  | skip + 1, _ :: bs => runesFrom skip bs

def runes (b : Bytes) : Text := runesFrom 0 b

theorem runesFrom_drop (bs : Bytes) : ∀ skip, runesFrom skip bs = runesFrom 0 (bs.drop skip) := by
  induction bs with
  | nil => intro skip; simp [runesFrom]
  | cons b bs ih =>
    intro skip
    cases skip with
    | zero => rfl
    | succ skip => exact ih skip

theorem decodeRune_append (c : Char) (bs : Bytes) :
    decodeRune (String.utf8EncodeChar c ++ bs) = (c, c.utf8Size) := by
  have h : (String.utf8EncodeChar c ++ bs).toByteArray = (String.utf8EncodeChar c).toByteArray ++
      bs.toByteArray :=
    List.toByteArray_append
  unfold decodeRune
  rw [h, ByteArray.utf8DecodeChar?_utf8EncodeChar_append]

theorem runes_textBytes (s : Text) : runes (textBytes s) = s := by
  induction s with
  | nil => rfl
  | cons c s ih =>
    have hne : String.utf8EncodeChar c ≠ [] := by
      intro h
      have hlen := String.length_utf8EncodeChar c
      have hpos := c.utf8Size_pos
      rw [h] at hlen
      simp at hlen
      omega
    obtain ⟨b, bs, hbs⟩ := List.exists_cons_of_ne_nil hne
    have hbytes : textBytes (c :: s) = b :: (bs ++ textBytes s) := by
      simp [textBytes, hbs]
    have hdecode : decodeRune (b :: (bs ++ textBytes s)) = (c, c.utf8Size) := by
      rw [← List.cons_append, ← hbs]
      exact decodeRune_append c _
    have hlen : c.utf8Size - 1 = bs.length := by
      rw [← String.length_utf8EncodeChar, hbs, List.length_cons]
      omega
    have hrest : runesFrom 0 (textBytes s) = s := ih
    unfold runes
    rw [hbytes, runesFrom, hdecode, runesFrom_drop, hlen, List.drop_left, hrest]

theorem runes_length_le (bs : Bytes) : (runes bs).length ≤ bs.length := by
  have hfrom : ∀ skip, (runesFrom skip bs).length ≤ bs.length := by
    induction bs with
    | nil => intro skip; simp [runesFrom]
    | cons b bs ih =>
      intro skip
      cases skip with
      | zero => exact Nat.succ_le_succ (ih _)
      | succ skip => exact Nat.le_succ_of_le (ih skip)
  exact hfrom 0

def spaceRunes : Text :=
  ['\t', '\n', '\x0b', '\x0c', '\r', ' ', '\u0085', '\u00a0', '\u1680', '\u2000', '\u2001',
    '\u2002', '\u2003',
    '\u2004', '\u2005', '\u2006', '\u2007', '\u2008', '\u2009', '\u200a', '\u2028', '\u2029',
    '\u202f', '\u205f',
    '\u3000']

/-- `unicode.IsSpace` -/
def isSpaceRune (r : Char) : Bool := r ∈ spaceRunes

end Pgx.Go
