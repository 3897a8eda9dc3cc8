import Pgx.Go.Runes
import Pgx.Pgtype.BinaryScan

/-!
# Scanning text

The parsers for composites, intervals, dates and text search vectors go through the bytes by hand.
What is left of the input is the state; to look at a byte of it is to index a slice, which panics at
the end. How a composite's field is scanned is a parameter.
-/
namespace Pgx.Pgtype

open Pgx.Go List

variable {left rest : Bytes}

inductive TextScanError (ε : Type) where
  | errorf (format : String) (args : List Bytes)
  /-- The error of a field's scan plan, as it is -/
  | field (err : ε)
  deriving DecidableEq

section Slices

variable {ε : Type}

/-- `b[i]` -/
def byteAt (b : Bytes) (i : Nat) : Checked ε UInt8 :=
  match b[i]? with
  | some c => .ok c
  | none => .error .panic

/-- `b[lo:hi]` -/
def sliceAt (b : Bytes) (lo hi : Nat) : Checked ε Bytes :=
  if lo ≤ hi ∧ hi ≤ b.length then .ok ((b.take hi).drop lo) else .error .panic

def returnError {α : Type} (err : ε) : Checked ε α := .error (.returned err)

end Slices

section Scanners

variable {ε α : Type}

/-! ## Composites -/

/-- `CompositeTextScanner`: the bytes from `rp` on -/
structure CompositeTextScanner (ε : Type) where
  rest : Bytes
  err : Option (TextScanError ε)

def newCompositeTextScanner (src : Bytes) : Checked (TextScanError ε) (CompositeTextScanner ε) :=
  if src.length < 2 then .ok ⟨[], some (.errorf "Record incomplete %v" [src])⟩
  else do
    let first ← byteAt src 0
    if first ≠ 40 then .ok ⟨[], some (.errorf "composite text format must start with '('" [])⟩
    else do
      let last ← byteAt src (src.length - 1)
      if last ≠ 41 then .ok ⟨[], some (.errorf "composite text format must end with ')'" [])⟩
      else .ok ⟨src.drop 1, none⟩

/-- `,` or `)` -/
def isDelimiter (c : UInt8) : Bool := c == 44 || c == 41

/-- The loop inside quotes. The byte behind the closing quote is passed over without looking at it.
-/
def quotedValue : (rest fieldBytes : Bytes) → Checked (TextScanError ε) (Bytes × Bytes)
  | [], _ => .error .panic
  | 34 :: rest, fieldBytes =>
    match rest with
    | [] => .error .panic
    | 34 :: rest => quotedValue rest (fieldBytes ++ [34])
    | _ :: rest => .ok (fieldBytes, rest)
  | 92 :: rest, fieldBytes =>
    match rest with
    | [] => .error .panic
    | c :: rest => quotedValue rest (fieldBytes ++ [c])
  | c :: rest, fieldBytes => quotedValue rest (fieldBytes ++ [c])

def unquotedValue : (rest fieldBytes : Bytes) → Checked (TextScanError ε) (Bytes × Bytes)
  | [], _ => .error .panic
  | c :: rest, fieldBytes =>
    if isDelimiter c then .ok (fieldBytes, rest) else unquotedValue rest (fieldBytes ++ [c])

/-- The field at the front, if there is one, and what is behind it -/
def nextTextField : Bytes → Checked (TextScanError ε) (Option Bytes × Bytes)
  | [] => .error .panic
  | c :: rest =>
    if isDelimiter c then .ok (none, rest)
    else if c = 34 then (fun r => (some r.1, r.2)) <$> quotedValue rest []
    else (fun r => (some r.1, r.2)) <$> unquotedValue (c :: rest) []

/-- `CompositeTextScanner.Next` and `Bytes`; `none` for false -/
def CompositeTextScanner.next (s : CompositeTextScanner ε) :
    Checked (TextScanError ε) (Option (Option Bytes × CompositeTextScanner ε)) :=
  if s.err.isSome then .ok none
  else if s.rest = [] then .ok none
  else (fun r => some (r.1, { s with rest := r.2 })) <$> nextTextField s.rest

/-- The plan for the target's field and its `Scan` -/
abbrev ScanTextField (ε α : Type) : Type := (i : Nat) → Option Bytes → Checked ε α

def CompositeTarget.fieldAt (t : CompositeTarget) (i : Nat) : Checked (TextScanError ε) Unit :=
  if t.Has i then .ok () else .error .panic

/-- The loop over the codec's fields; `Err` is asked behind it. -/
def scanTextFields (t : CompositeTarget) (scan : ScanTextField ε α) :
    (count i : Nat) → CompositeTextScanner ε → Checked (TextScanError ε) (List α)
  | 0, _, s =>
    match s.err with
    | some err => returnError err
    | none => .ok []
  | count + 1, i, s => do
    match ← s.next with
    | none => returnError (.errorf "read past end of composite" [])
    | some (b, s) => do
      t.fieldAt i
      let a ← (scan i b).wrap .field
      let as ← scanTextFields t scan count (i + 1) s
      pure (a :: as)

/-- `scanPlanTextCompositeToCompositeIndexScanner.Scan` for a codec with this many fields -/
def scanCompositeText (count : Nat) (t : CompositeTarget) (scan : ScanTextField ε α) (src : Bytes) :
    Checked (TextScanError ε) (List α) := do
  let s ← newCompositeTextScanner src
  scanTextFields t scan count 0 s

/-! ## Intervals -/

/-- `strings.Split(s, string(sep))` -/
def splitByte (sep : UInt8) : Bytes → List Bytes
  | [] => [[]]
  | c :: cs =>
    if c = sep then [] :: splitByte sep cs
    else
      match splitByte sep cs with
      | [] => [[c]]
      | part :: parts => (c :: part) :: parts

/-- `strings.SplitN(s, string(sep), n+1)` -/
def splitByteN (sep : UInt8) : (n : Nat) → Bytes → List Bytes
  | 0, s => [s]
  | n + 1, s =>
    match indexByte sep s with
    | none => [s]
    | some i => s.take i :: splitByteN sep n (s.drop (i + 1))

structure Interval where
  microseconds : Int
  days : Int
  months : Int
  deriving DecidableEq

/-- The pairs of a number and a unit, with the months and days so far; what is left is one part or
none. -/
def intervalUnits : (parts : List Bytes) → (months days : Int) →
    Checked (TextScanError ε) (Int × Int × Option Bytes)
  | [], months, days => .ok (months, days, none)
  | [last], months, days => .ok (months, days, some last)
  | number :: unit :: parts, months, days =>
    match atoi number with
    | .error _ => returnError (.errorf "bad interval format" [])
    | .ok scalar =>
      if unit = asciiText "year".toList ∨ unit = asciiText "years".toList then
        intervalUnits parts (signed 32 (months + signed 32 (signed 64 (scalar * 12)))) days
      else if unit = asciiText "mon".toList ∨ unit = asciiText "mons".toList then
        intervalUnits parts (signed 32 (months + signed 32 scalar)) days
      else if unit = asciiText "day".toList ∨ unit = asciiText "days".toList then
        intervalUnits parts months (signed 32 scalar)
      else returnError (.errorf "bad interval format: %q" [unit])

/-- `strconv.ParseInt(s, 10, 64)`, with the message for a text that it does not take -/
def intervalNumber (format : String) (s : Bytes) : Checked (TextScanError ε) Int :=
  match atoi s with
  | .error _ => returnError (.errorf format [s])
  | .ok n => .ok n

/-- `uSeconds *= 10` as often as digits are missing -/
def scaleMicroseconds : Nat → Int → Int
  | 0, n => n
  | i + 1, n => scaleMicroseconds i (signed 64 (n * 10))

def intervalFraction : Option Bytes → Checked (TextScanError ε) Int
  | none => .ok 0
  | some secFrac => scaleMicroseconds (6 - secFrac.length) <$>
    intervalNumber "bad interval decimal format: %s" secFrac

/-- `strings.Cut(s, ".")` -/
def cutPoint (s : Bytes) : Bytes × Option Bytes :=
  match indexByte 46 s with
  | none => (s, none)
  | some i => (s.take i, some (s.drop (i + 1)))

/-- The hours without a sign. The first byte is looked at in any case. -/
def intervalSign (hours : Bytes) : Checked (TextScanError ε) (Bool × Bytes) := do
  let first ← byteAt hours 0
  if first = 45 then do
    let hours ← sliceAt hours 1 hours.length
    pure (true, hours)
  else pure (false, hours)

def intervalTime (last : Bytes) : Checked (TextScanError ε) Int :=
  match splitByteN 58 2 last with
  | [hours, minutes, secs] => do
    let (negative, hours) ← intervalSign hours
    let hours ← intervalNumber "bad interval hour format: %s" hours
    let minutes ← intervalNumber "bad interval minute format: %s" minutes
    let seconds ← intervalNumber "bad interval second format: %s" (cutPoint secs).1
    let uSeconds ← intervalFraction (cutPoint secs).2
    let microseconds :=
      signed 64 (hours * 3600000000 + minutes * 60000000 + seconds * 1000000 + uSeconds)
    pure (if negative then signed 64 (-microseconds) else microseconds)
  | _ => returnError (.errorf "bad interval format" [])

/-- `scanPlanTextAnyToIntervalScanner.Scan` -/
def scanIntervalText (src : Bytes) : Checked (TextScanError ε) Interval := do
  let (months, days, last) ← intervalUnits (splitByte 32 src) 0 0
  match last with
  | none => pure ⟨0, days, months⟩
  | some last => do
    let microseconds ← intervalTime last
    pure ⟨microseconds, days, months⟩

/-- What the scanner is given: the arguments of `time.Date` -/
inductive DateText where
  | infinity
  | negativeInfinity
  | civil (year month day : Int)
  deriving DecidableEq

def isDigitByte (c : UInt8) : Bool := 48 ≤ c && c ≤ 57

/-- The position of the first dash from `i` on, if only digits are in front of it -/
def findYearEnd : Bytes → (i : Nat) → Option Nat
  | [], _ => none
  | c :: cs, i => if c = 45 then some i else if isDigitByte c then findYearEnd cs (i + 1) else none

def invalidDate : TextScanError ε := .errorf "invalid date format" []

/-- The loop over the digits; the number is an `int64`. -/
def parseDigitsFrom (n : Int) : Bytes → Checked (TextScanError ε) Int
  | [] => .ok n
  | c :: cs =>
    if isDigitByte c then parseDigitsFrom (signed 64 (n * 10 + (c.toNat - 48 : Nat))) cs
    else returnError invalidDate

def parseDigits (b : Bytes) : Checked (TextScanError ε) Int :=
  if b = [] then returnError invalidDate else parseDigitsFrom 0 b

def parse2Digits (b : Bytes) : Checked (TextScanError ε) Int :=
  if b.length ≠ 2 then returnError invalidDate
  else do
    let d1 ← byteAt b 0
    let d2 ← byteAt b 1
    if isDigitByte d1 ∧ isDigitByte d2 then .ok ((d1.toNat - 48 : Nat) * 10 + (d2.toNat - 48 : Nat))
    else returnError invalidDate

/-- The date in front of ` BC` -/
def dateBeforeBC (src : Bytes) : Checked (TextScanError ε) (Bool × Bytes) :=
  if 13 ≤ src.length then do
    let suffix ← sliceAt src (src.length - 3) src.length
    if suffix = asciiText " BC".toList then do
      let datePart ← sliceAt src 0 (src.length - 3)
      pure (true, datePart)
    else pure (false, src)
  else .ok (false, src)

/-- The year, month and day around the dash at `yearEnd` -/
def dateParts (datePart : Bytes) (yearEnd : Nat) : Checked (TextScanError ε) (Int × Int × Int) :=
  if datePart.length < yearEnd + 6 then returnError invalidDate
  else do
    let dash ← byteAt datePart (yearEnd + 3)
    if dash ≠ 45 then returnError invalidDate
    else do
      let year ← parseDigits (← sliceAt datePart 0 yearEnd)
      let month ← parse2Digits (← sliceAt datePart (yearEnd + 1) (yearEnd + 3))
      let day ← parse2Digits (← sliceAt datePart (yearEnd + 4) (yearEnd + 6))
      if yearEnd + 6 ≠ datePart.length then returnError invalidDate else pure (year, month, day)

/-- `scanPlanTextAnyToDateScanner.Scan` -/
def scanDateText (src : Bytes) : Checked (TextScanError ε) DateText :=
  if src = asciiText "infinity".toList then .ok .infinity
  else if src = asciiText "-infinity".toList then .ok .negativeInfinity
  else if src.length < 10 then returnError invalidDate
  else do
    let (bc, datePart) ← dateBeforeBC src
    match findYearEnd (datePart.drop 4) 4 with
    | none => returnError invalidDate
    | some yearEnd => do
      let (year, month, day) ← dateParts datePart yearEnd
      pure (.civil (if bc then signed 64 (-year + 1) else year) month day)

/-! ## Text search vectors -/

/-- `p.atEnd()` -/
def atEnd (rest : Bytes) : Bool := rest.isEmpty

/-- `p.peek()` -/
def peek (rest : Bytes) : Checked ε UInt8 := byteAt rest 0

/-- `!p.atEnd() && f(p.peek())` -/
def peeks (f : UInt8 → Bool) (rest : Bytes) : Checked ε Bool :=
  if atEnd rest then .ok false else f <$> peek rest

def spaceBytes : List Bytes := spaceRunes.map String.utf8EncodeChar

/-- Bytes without those of a list in front, taken off again and again -/
def trimPrefixes (spaces : List Bytes) (s : Bytes) : Bytes :=
  match _h : spaces.find? fun b => 0 < b.length ∧ b.isPrefixOf s with
  | none => s
  | some b => trimPrefixes spaces (s.drop b.length)
termination_by s.length
decreasing_by
  have hb := find?_some _h
  simp only [decide_eq_true_eq, isPrefixOf_iff_prefix] at hb
  have := hb.2.length_le
  rw [length_drop]
  omega

/-- `strings.TrimSpace`: a white space rune ends the text if its encoding does. -/
def trimSpace (s : Bytes) : Bytes :=
  (trimPrefixes (spaceBytes.map reverse) (trimPrefixes spaceBytes s).reverse).reverse

/-- `p.consumeSpaces()` -/
def consumeSpaces (rest : Bytes) : Checked (TextScanError ε) Bytes :=
  match _h : (peeks (· == 32) rest : Checked (TextScanError ε) Bool) with
  | .error e => .error e
  | .ok false => .ok rest
  | .ok true => consumeSpaces (rest.drop 1)
termination_by rest.length
decreasing_by
  cases rest with
  | nil => cases _h
  | cons c cs => simp

/-- The loop of `consumeLexeme` behind the first quote -/
def lexemeLoop : (rest buf : Bytes) → Checked (TextScanError ε) (Bytes × Bytes)
  | [], _ => returnError (.errorf "invalid tsvector format: unterminated quoted lexeme" [])
  | ch :: rest, buf =>
    if ch = 39 then
      match (peeks (· == 39) rest : Checked (TextScanError ε) Bool) with
      | .error e => .error e
      | .ok true => lexemeLoop (rest.drop 1) (buf ++ [39])
      | .ok false => .ok (buf, rest)
    else if ch = 92 then
      match rest with
      | [] => returnError (.errorf "invalid tsvector format: unexpected end after backslash" [])
      | next :: rest => lexemeLoop rest (buf ++ [next])
    else lexemeLoop rest (buf ++ [ch])
termination_by rest => rest.length

/-- `p.consumeLexeme()` -/
def consumeLexeme : Bytes → Checked (TextScanError ε) (Bytes × Bytes)
  | 39 :: rest => lexemeLoop rest []
  | _ => returnError (.errorf "invalid tsvector format: lexeme must start with a single quote" [])

def consumeDigits (rest : Bytes) : Checked (TextScanError ε) (Bytes × Bytes) :=
  match _h : (peeks isDigitByte rest : Checked (TextScanError ε) Bool) with
  | .error e => .error e
  | .ok false => .ok ([], rest)
  | .ok true => (fun r => (rest.take 1 ++ r.1, r.2)) <$> consumeDigits (rest.drop 1)
termination_by rest.length
decreasing_by
  cases rest with
  | nil => cases _h
  | cons c cs => simp

def tsvectorWeightLetter (c : UInt8) : Option TSVectorWeight :=
  if c = 65 ∨ c = 97 then some .a
  else if c = 66 ∨ c = 98 then some .b
  else if c = 67 ∨ c = 99 then some .c
  else if c = 68 ∨ c = 100 then some .d
  else none

def consumeWeight (rest : Bytes) : Checked (TextScanError ε) (TSVectorWeight × Bytes) :=
  if atEnd rest then .ok (.d, rest)
  else do
    let c ← peek rest
    match tsvectorWeightLetter c with
    | some w => pure (w, rest.drop 1)
    | none => pure (.d, rest)

/-- `p.consumePosition()` -/
def consumePosition (rest : Bytes) : Checked (TextScanError ε) (TSVectorPosition × Bytes) := do
  let (digits, rest) ← consumeDigits rest
  if digits = [] then returnError (.errorf "invalid tsvector format: expected position number" [])
  else
    match parseUintUpTo (2 ^ 16 - 1) 0 digits with
    | .error _ => returnError (.errorf "invalid tsvector format: invalid position number %q" [digits])
    | .ok num => do
      let (weight, rest) ← consumeWeight rest
      pure (⟨UInt16.ofNat num, weight⟩, rest)

theorem consumeDigits_length {digits : Bytes}
    (h : consumeDigits rest = (.ok (digits, left) : Checked (TextScanError ε) _)) :
    left.length ≤ rest.length := by
  fun_induction consumeDigits (ε := ε) rest generalizing digits with
  | case1 => cases h
  | case2 =>
    cases h
    exact le_rfl
  | case3 rest _ ih =>
    obtain ⟨r, hr, hout⟩ := map_eq_ok.mp h
    have := ih (show _ = Except.ok (r.1, left) by rw [hr, ← (Prod.mk.inj hout).2])
    rw [length_drop] at this
    omega

theorem consumeWeight_length {w : TSVectorWeight}
    (h : consumeWeight rest = (.ok (w, left) : Checked (TextScanError ε) _)) :
    left.length ≤ rest.length := by
  unfold consumeWeight at h
  cases rest with
  | nil =>
    cases h
    exact le_rfl
  | cons c cs =>
    simp only [atEnd, isEmpty_cons, Bool.false_eq_true, if_false, peek, byteAt,
      getElem?_cons_zero, bind,
      Except.bind] at h
    cases hw : tsvectorWeightLetter c <;> simp only [hw, pure, Except.pure, Except.ok.injEq,
      Prod.mk.injEq] at h
    · rw [← h.2]
    · rw [← h.2]
      simp

theorem consumePosition_length {pos : TSVectorPosition}
    (h : consumePosition rest = (.ok (pos, left) : Checked (TextScanError ε) _)) :
    left.length ≤ rest.length := by
  obtain ⟨r, hdigits, h⟩ := bind_eq_ok.mp h
  have hlen := consumeDigits_length hdigits
  simp only at h
  split at h
  · cases h
  · split at h
    · cases h
    · obtain ⟨w, hweight, hout⟩ := bind_eq_ok.mp h
      have := consumeWeight_length hweight
      cases hout
      omega

/-- `p.consumePositions()` -/
def consumePositions (rest : Bytes) : Checked (TextScanError ε) (List TSVectorPosition × Bytes) :=
  match _h : (consumePosition rest : Checked (TextScanError ε) _) with
  | .error e => .error e
  | .ok (pos, left) =>
    match _hc : (peeks (· == 44) left : Checked (TextScanError ε) Bool) with
    | .error e => .error e
    | .ok false => .ok ([pos], left)
    | .ok true => (fun r => (pos :: r.1, r.2)) <$> consumePositions (left.drop 1)
termination_by rest.length
decreasing_by
  have := consumePosition_length _h
  cases left with
  | nil => cases _hc
  | cons c cs =>
    simp only [length_cons, drop_succ_cons, drop_zero] at this ⊢
    omega

/-- The positions of a lexeme, if a colon is behind it -/
def optionalPositions (rest : Bytes) : Checked (TextScanError ε) (List TSVectorPosition × Bytes) :=
  match (peeks (· == 58) rest : Checked (TextScanError ε) Bool) with
  | .error e => .error e
  | .ok false => .ok ([], rest)
  | .ok true => consumePositions (rest.drop 1)

theorem consumeSpaces_length (h : consumeSpaces rest = (.ok left : Checked (TextScanError ε) _)) :
    left.length ≤ rest.length := by
  fun_induction consumeSpaces (ε := ε) rest with
  | case1 => cases h
  | case2 =>
    cases h
    exact le_rfl
  | case3 rest _ ih =>
    have := ih h
    rw [length_drop] at this
    omega

theorem lexemeLoop_length {buf word : Bytes}
    (h : lexemeLoop rest buf = (.ok (word, left) : Checked (TextScanError ε) _)) :
    left.length ≤ rest.length := by
  fun_induction lexemeLoop (ε := ε) rest buf with
  | case1 => cases h
  | case2 => cases h
  | case3 rest buf _ ih =>
    have := ih h
    simp only [length_drop, length_cons] at this ⊢
    omega
  | case4 rest buf =>
    cases h
    simp
  | case5 => cases h
  | case6 buf next rest _ ih =>
    have := ih h
    simp only [length_cons]
    omega
  | case7 ch rest buf _ _ ih =>
    have := ih h
    simp only [length_cons]
    omega

theorem consumeLexeme_length {word : Bytes}
    (h : consumeLexeme rest = (.ok (word, left) : Checked (TextScanError ε) _)) :
    left.length < rest.length := by
  unfold consumeLexeme at h
  split at h
  · exact Nat.lt_succ_of_le (lexemeLoop_length h)
  · cases h

theorem consumePositions_length {positions : List TSVectorPosition}
    (h : consumePositions rest = (.ok (positions, left) : Checked (TextScanError ε) _)) :
    left.length ≤ rest.length := by
  fun_induction consumePositions (ε := ε) rest generalizing positions with
  | case1 => cases h
  | case2 => cases h
  | case3 rest pos left' hpos =>
    cases h
    exact consumePosition_length hpos
  | case4 rest pos left' hpos _ ih =>
    obtain ⟨r, hr, hout⟩ := map_eq_ok.mp h
    have hlen := ih (show _ = Except.ok (r.1, left) by rw [hr, ← (Prod.mk.inj hout).2])
    have := consumePosition_length hpos
    rw [length_drop] at hlen
    omega

theorem optionalPositions_length {positions : List TSVectorPosition}
    (h : optionalPositions rest = (.ok (positions, left) : Checked (TextScanError ε) _)) :
    left.length ≤ rest.length := by
  unfold optionalPositions at h
  split at h
  · cases h
  · cases h
    exact le_rfl
  · have := consumePositions_length h
    rw [length_drop] at this
    omega

/-- The loop of `parseTSVector` -/
def tsvectorLexemes (rest : Bytes) : Checked (TextScanError ε) (List TSVectorLexeme) :=
  if atEnd rest then .ok []
  else
    match _hs : (consumeSpaces rest : Checked (TextScanError ε) Bytes) with
    | .error e => .error e
    | .ok rest' =>
      if atEnd rest' then .ok []
      else
        match _hw : (consumeLexeme rest' : Checked (TextScanError ε) (Bytes × Bytes)) with
        | .error e => .error e
        | .ok (word, left) =>
          match _hp : (optionalPositions left :
            Checked (TextScanError ε) (List TSVectorPosition × Bytes)) with
          | .error e => .error e
          | .ok (positions, left') => (⟨word, positions⟩ :: ·) <$> tsvectorLexemes left'
termination_by rest.length
decreasing_by
  have := consumeSpaces_length _hs
  have := consumeLexeme_length _hw
  have := optionalPositions_length _hp
  omega

/-- `parseTSVector` -/
def parseTSVector (s : Bytes) : Checked (TextScanError ε) (List TSVectorLexeme) :=
    tsvectorLexemes (trimSpace s)

inductive TextScanner where
  | composite (count : Nat) (t : CompositeTarget)
  | interval
  | date
  | tsvector
  deriving DecidableEq

/-- The scanner's `Scan`; NULL is nil, which every scanner tests first. -/
def TextScanner.run (scan : ScanTextField ε α) :
    TextScanner → Option Bytes → Checked (TextScanError ε) Unit
  | _, none => .ok ()
  | .composite count t, some src => (fun _ => ()) <$> scanCompositeText count t scan src
  | .interval, some src => (fun _ => ()) <$> scanIntervalText src
  | .date, some src => (fun _ => ()) <$> scanDateText src
  | .tsvector, some src => (fun _ => ()) <$> parseTSVector src

end Scanners

end Pgx.Pgtype
