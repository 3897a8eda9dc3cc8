import Pgx.Go.Bytes

/-!
# Universally unique identifiers

What becomes of the bytes of a slice that is given for a `uuid`, and of the characters of a text
that is scanned as one. `copy` is content with slices of any length, and the places of the dashes
are cut out unseen.
-/
namespace Pgx.Pgtype

open Pgx.Go

inductive HexError where
  | invalidByte (c : UInt8)
  | errLength
  deriving DecidableEq

/-- The value of a digit, as in the table of `encoding/hex`. -/
def fromHexChar (c : UInt8) : Option Nat :=
  if 48 ≤ c ∧ c ≤ 57 then some (c.toNat - 48)
  else if 97 ≤ c ∧ c ≤ 102 then some (c.toNat - 87)
  else if 65 ≤ c ∧ c ≤ 70 then some (c.toNat - 55)
  else none

def hexDecodeString : Bytes → Except HexError Bytes
  | [] => .ok []
  | [p] => if fromHexChar p = none then .error (.invalidByte p) else .error .errLength
  | p :: q :: src =>
    match fromHexChar p, fromHexChar q with
    | none, _ => .error (.invalidByte p)
    | some _, none => .error (.invalidByte q)
    | some a, some b => (UInt8.ofNat (a * 16 + b) :: ·) <$> hexDecodeString src

structure UUID where
  bytes : Vector UInt8 16 := .replicate 16 0
  valid : Bool := false
  deriving DecidableEq

inductive UUIDError where
  | cannotParse (src : Bytes)
  | hex (err : HexError)
  deriving DecidableEq

/-- `copy(dst[:], src)`, over zeros. -/
def copyUUID (src : Bytes) : Vector UInt8 16 := .ofFn fun i => src.getD i 0

/-- The text without what stands in the four places of the dashes. -/
def cutDashes (src : Bytes) : Bytes :=
  src.take 8 ++
    ((src.drop 9).take 4 ++ ((src.drop 14).take 4 ++ ((src.drop 19).take 4 ++ src.drop 24)))

def parseUUID (src : Bytes) : Except UUIDError (Vector UInt8 16) := do
  let src ← match src.length with
    | 36 => .ok (cutDashes src)
    | 32 => .ok src
    | _ => .error (.cannotParse src)
  let buf ← (hexDecodeString src).mapError .hex
  pure (copyUUID buf)

/-- `UUIDValue` of a `byteSliceWrapper`; a nil slice is NULL. -/
def uuidValue : Option Bytes → Except UUIDError UUID
  | none => .ok {}
  | some w => .ok { bytes := copyUUID w, valid := true }

/-- `Scan` of `scanPlanTextAnyToUUIDScanner`. -/
def scanTextUUID : Option Bytes → Except UUIDError UUID
  | none => .ok {}
  | some src => do pure { bytes := ← parseUUID src, valid := true }

/-! ## What was given is what is there -/

def UUID.value (u : UUID) : Option Bytes := if u.valid then some u.bytes.toList else none

/-- The digits with the dashes at their four places. -/
def dashed (ds : Bytes) : Bytes :=
  ds.take 8 ++ 45 :: ((ds.drop 8).take 4 ++ 45 ::
    ((ds.drop 12).take 4 ++ 45 :: ((ds.drop 16).take 4 ++ 45 :: ds.drop 20)))

def nibbles (bs : Bytes) : List (Option Nat) :=
    bs.flatMap fun b => [some (b.toNat / 16), some (b.toNat % 16)]

/-- The text is the digits of these bytes, with or without dashes; a text that is NULL spells NULL.
-/
inductive Spells : Option Bytes → Option Bytes → Prop where
  | null : Spells none none
  | plain {ds bs : Bytes} : ds.map fromHexChar = nibbles bs → Spells (some ds) (some bs)
  | dashed {ds bs : Bytes} : ds.map fromHexChar = nibbles bs → Spells (some (dashed ds)) (some bs)

variable {ds bs src : Bytes}

theorem fromHexChar_lt {c : UInt8} {a : Nat} (h : fromHexChar c = some a) : a < 16 := by
  unfold fromHexChar at h
  simp only [UInt8.le_iff_toNat_le] at h
  grind

theorem length_of_digits (h : ds.map fromHexChar = nibbles bs) : ds.length = 2 * bs.length := by
  have hlen := congrArg List.length h
  simpa [nibbles, Nat.mul_comm] using hlen

theorem hexDecodeString_ok (h : hexDecodeString src = .ok bs) : src.map fromHexChar = nibbles bs := by
  fun_induction hexDecodeString src generalizing bs with
  | case1 => cases h; rfl
  | case2 | case3 | case4 | case5 => cases h
  | case6 p q src a b hb ha ih =>
    cases hrest : hexDecodeString src with
    | error e => rw [hrest] at h; cases h
    | ok rest =>
      rw [hrest] at h
      cases h
      have ha' := fromHexChar_lt ha
      have hb' := fromHexChar_lt hb
      have hhigh : (a * 16 + b) % 256 / 16 = a := by omega
      have hlow : (a * 16 + b) % 16 = b := by omega
      rw [List.map_cons, List.map_cons, ih hrest, ha, hb]
      simp [nibbles, hhigh, hlow]

theorem hexDecodeString_digits (h : ∀ c ∈ src, fromHexChar c ≠ none) (heven : src.length % 2 = 0) :
    ∃ bs, hexDecodeString src = .ok bs := by
  fun_induction hexDecodeString src with
  | case1 => exact ⟨[], rfl⟩
  | case2 | case3 => cases heven
  | case4 p q src hp => exact absurd hp (h p (.head _))
  | case5 p q src a ha hq => exact absurd ha (h q (.tail _ (.head _)))
  | case6 p q src a b ha hb ih =>
    rw [List.length_cons, List.length_cons] at heven
    obtain ⟨bs, hbs⟩ := ih (fun c hc => h c (.tail _ (.tail _ hc))) (by omega)
    rw [hbs]
    exact ⟨_, rfl⟩

theorem toList_copyUUID (h : src.length = 16) : (copyUUID src).toList = src := by
  refine List.ext_getElem (by simp [h]) fun i _ hi => ?_
  simp [copyUUID, hi]

theorem cutDashes_dashed (h : ds.length = 32) : cutDashes (dashed ds) = ds := by
  have hjoin : ∀ k, (ds.drop k).take 4 ++ ds.drop (k + 4) = ds.drop k := by
    intro k
    rw [← List.drop_drop, List.take_append_drop]
  have hcut : cutDashes (dashed ds) = ds.take 8 ++ ((ds.drop 8).take 4 ++ ((ds.drop 12).take 4 ++
      ((ds.drop 16).take 4 ++ ds.drop 20))) := by
    simp [cutDashes, dashed, List.drop_append, List.drop_take, h]
  rw [hcut, hjoin 16, hjoin 12, hjoin 8, List.take_append_drop]

theorem hexDecodeString_mapError {bytes : Vector UInt8 16}
    (h : (do pure (copyUUID (← (hexDecodeString ds).mapError .hex)) : Except
      UUIDError _) = .ok bytes) :
    ∃ bs, hexDecodeString ds = .ok bs ∧ bytes = copyUUID bs := by
  cases hd : hexDecodeString ds with
  | error e => rw [hd] at h; cases h
  | ok bs => rw [hd] at h; exact ⟨bs, rfl, (Except.ok.inj h).symm⟩

theorem parseUUID_ok {bytes : Vector UInt8 16} (h : parseUUID src = .ok bytes) :
    ∃ ds bs, hexDecodeString ds = .ok bs ∧ bytes = copyUUID bs ∧
      (src.length = 36 ∧ ds = cutDashes src ∨ src.length = 32 ∧ ds = src) := by
  unfold parseUUID at h
  split at h
  · rename_i h36
    obtain ⟨bs, hd, hb⟩ := hexDecodeString_mapError h
    exact ⟨_, bs, hd, hb, .inl ⟨h36, rfl⟩⟩
  · rename_i h32
    obtain ⟨bs, hd, hb⟩ := hexDecodeString_mapError h
    exact ⟨_, bs, hd, hb, .inr ⟨h32, rfl⟩⟩
  · cases h

theorem length_cutDashes (h : src.length = 36) : (cutDashes src).length = 32 := by
  simp [cutDashes, h]

/-- A text is spelled exactly when it is not its dashes that were ignored. -/
theorem scanTextUUID_iff (t : Bytes) :
    (∀ u, scanTextUUID (some t) = .ok u → Spells (some t) u.value) ↔
    (t.length = 36 → (∀ c ∈ cutDashes t, fromHexChar c ≠ none) → dashed (cutDashes t) = t) := by
  constructor
  · intro h h36 hdigits
    obtain ⟨bs, hd⟩ := hexDecodeString_digits hdigits (by rw [length_cutDashes h36])
    have hscan : scanTextUUID (some t) = .ok { bytes := copyUUID bs, valid := true } := by
      simp [scanTextUUID, parseUUID, h36, hd, Except.mapError, bind, Except.bind, pure, Except.pure]
    cases h _ hscan with
    | plain hds =>
      have := length_of_digits hds
      simp [h36] at this
    | dashed hds =>
      have hlen := length_of_digits hds
      rw [cutDashes_dashed (by simpa using hlen)]
  · intro h u hu
    cases hp : parseUUID t with
    | error e => simp [scanTextUUID, hp, bind, Except.bind] at hu
    | ok bytes =>
      obtain ⟨ds, bs, hd, rfl, hcase⟩ := parseUUID_ok hp
      have hmap := hexDecodeString_ok hd
      have hlen := length_of_digits hmap
      obtain rfl : { bytes := copyUUID bs, valid := true } = u := by
        simpa [scanTextUUID, hp, bind, Except.bind, pure, Except.pure] using hu
      rcases hcase with ⟨h36, rfl⟩ | ⟨h32, rfl⟩
      · have h16 : bs.length = 16 := by
          have := length_cutDashes h36
          omega
        have hdigits : ∀ c ∈ cutDashes t, fromHexChar c ≠ none := by
          intro c hc hnone
          have hmem : none ∈ nibbles bs := hmap ▸ List.mem_map.mpr ⟨c, hc, hnone⟩
          simp [nibbles] at hmem
        rw [← h h36 hdigits]
        simp only [UUID.value, if_true, toList_copyUUID h16]
        exact .dashed hmap
      · simp only [UUID.value, if_true, toList_copyUUID (show bs.length = 16 by omega)]
        exact .plain hmap

/-- Nothing is dropped, padded or ignored: for a slice, exactly when it has 16 bytes; for a text,
unless it has 36 characters of which all but the four in the places of the dashes are digits, and
one of these is no dash. -/
theorem uuid_exact_iff (w src : Option Bytes) :
    ((∀ u, uuidValue w = .ok u → u.value = w) ↔ ∀ b, w = some b → b.length = 16) ∧
      ((∀ u, scanTextUUID src = .ok u → Spells src u.value) ↔
        ∀ t, src = some t → t.length = 36 → (∀ c ∈ cutDashes t, fromHexChar c ≠ none) →
        dashed (cutDashes t) = t) := by
  constructor
  · cases w with
    | none => simp [uuidValue, UUID.value]
    | some b =>
      simp only [uuidValue]
      constructor
      · intro h b' hb
        cases hb
        have hv := h _ rfl
        have hlen := congrArg List.length (Option.some.inj hv)
        simpa using hlen.symm
      · intro h u hu
        cases hu
        exact congrArg some (toList_copyUUID (h b rfl))
  · cases src with
    | none =>
      refine iff_of_true (fun u hu => ?_) (by simp)
      cases hu
      exact .null
    | some t =>
      refine (scanTextUUID_iff t).trans ⟨fun h t' ht => ?_, fun h => h t rfl⟩
      cases ht
      exact h

/-- The 17th byte is dropped, and zeros are taken for dashes. -/
theorem uuid_inexact : uuidValue (some (List.replicate 17 1)) = .ok ⟨.replicate 16 1, true⟩ ∧
    scanTextUUID (some (List.replicate 36 48)) = .ok ⟨.replicate 16 0, true⟩ := by
  decide

end Pgx.Pgtype
