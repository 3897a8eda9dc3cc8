import Pgx.Go.Runes
import Pgx.Go.ParseInt
import Pgx.Pgtype.ArrayTarget

/-!
# Parsing arrays in text

`parseUntypedTextArray` reads an optional list of bounds, then braces, commas and values. Where no
bounds are given, the dimensions are inferred: there are as many as opening braces at the start, and
the length of each is counted in the first group of its depth.

The loop's body reads one token and changes the counters. `parse_ok_iff` says what is accepted and
what the result is in terms of the tokens alone.
-/
namespace Pgx.Pgtype

open Pgx.Go List

inductive TextArrayError where
  /-- "invalid array: %w" with `io.EOF` -/
  | eof
  /-- "invalid array: %w" with the error of `strconv.ParseInt` -/
  | number (err : NumError)
  /-- "invalid array, expected %s got %v" -/
  | expected (what : String) (got : Char)
  /-- "invalid array value: %w" with `io.EOF` -/
  | valueEof
  | trailingData (rest : Text)
  deriving DecidableEq

structure UntypedTextArray where
  /-- The elements, each with whether it was quoted -/
  elements : List (Text × Bool)
  dimensions : List ArrayDimension
  deriving DecidableEq

/-- At the end `UnreadRune` has nothing to take back. -/
def skipWhitespace (buf : Text) : Text := buf.dropWhile isSpaceRune

/-! ## Bounds -/

def isNumeral (r : Char) : Bool := isDigit r || r == '-'

/-- The rune behind the number is read, too, before the number is parsed. -/
def arrayParseInteger (buf : Text) : Checked TextArrayError (Int32 × Text) :=
  match buf.dropWhile isNumeral with
  | [] => .error (.returned .eof)
  | r :: rest =>
    match parseInt32Checked (asciiText (buf.takeWhile isNumeral)) with
    | .error err => .error (.returned (.number err))
    | .ok n => .ok (n, r :: rest)

def expect (c : Char) (what : String) : Text → Checked TextArrayError Text
  | [] => .error (.returned .eof)
  | r :: buf => if r = c then .ok buf else .error (.returned (.expected what r))

/-- `lower:upper]`; the length is computed in 32 bits. -/
def parseBounds (buf : Text) : Checked TextArrayError (ArrayDimension × Text) := do
  let (lower, buf) ← arrayParseInteger buf
  let buf ← expect ':' "':'" buf
  let (upper, buf) ← arrayParseInteger buf
  let buf ← expect ']' "']'" buf
  pure (⟨upper - lower + 1, lower⟩, buf)

theorem arrayParseInteger_length {buf buf' : Text} {n : Int32}
    (h : arrayParseInteger buf = .ok (n, buf')) :
    buf'.length ≤ buf.length := by
  unfold arrayParseInteger at h
  have hle := (buf.dropWhile_sublist isNumeral).length_le
  cases hd : buf.dropWhile isNumeral with
  | nil => simp [hd] at h
  | cons r rest =>
    rw [hd] at hle
    simp only [hd] at h
    split at h
    · cases h
    · cases h
      exact hle

theorem expect_ok {c : Char} {what : String} {buf buf' : Text} :
    expect c what buf = .ok buf' ↔ buf = c :: buf' := by
  cases buf with
  | nil => simp [expect]
  | cons r buf =>
    simp only [expect]
    split <;> simp_all

theorem parseBounds_length {buf buf' : Text} {d : ArrayDimension}
    (h : parseBounds buf = .ok (d, buf')) :
    buf'.length < buf.length := by
  unfold parseBounds at h
  cases h1 : arrayParseInteger buf with
  | error e => simp [h1, bind, Except.bind] at h
  | ok r1 =>
    obtain ⟨lower, buf1⟩ := r1
    cases h2 : expect ':' "':'" buf1 with
    | error e => simp [h1, h2, bind, Except.bind] at h
    | ok buf2 =>
      cases h3 : arrayParseInteger buf2 with
      | error e => simp [h1, h2, h3, bind, Except.bind] at h
      | ok r3 =>
        obtain ⟨upper, buf3⟩ := r3
        cases h4 : expect ']' "']'" buf3 with
        | error e => simp [h1, h2, h3, h4, bind, Except.bind] at h
        | ok buf4 =>
          simp only [h1, h2, h3, h4, bind, Except.bind, pure, Except.pure, Except.ok.injEq,
            Prod.mk.injEq] at h
          have hl1 := arrayParseInteger_length h1
          have hl3 := arrayParseInteger_length h3
          rw [expect_ok] at h2 h4
          rw [← h.2]
          simp only [h2, h4, length_cons] at hl1 hl3
          omega

/-- `[lower:upper]` for every dimension, up to and with the `=` -/
def explicitDimensions (buf : Text) : Checked TextArrayError (List ArrayDimension × Text) :=
  match buf with
  | [] => .error (.returned .eof)
  | r :: buf =>
    if r = '=' then .ok ([], buf)
    else if r ≠ '[' then .error (.returned (.expected "'[' or '='" r))
    else
      match _h : parseBounds buf with
      | .error e => .error e
      | .ok (d, buf') =>
        match explicitDimensions buf' with
        | .error e => .error e
        | .ok (ds, buf'') => .ok (d :: ds, buf'')
termination_by buf.length
decreasing_by
  have := parseBounds_length _h
  simp only [length_cons]
  omega

theorem explicitDimensions_end (buf : Text) : explicitDimensions ('=' :: buf) = .ok ([], buf) := by
  rw [explicitDimensions]
  rfl

theorem explicitDimensions_bounds {buf mid rest : Text} {d : ArrayDimension}
    {ds : List ArrayDimension}
    (hd : parseBounds buf = .ok (d, mid)) (hds : explicitDimensions mid = .ok (ds, rest)) :
    explicitDimensions ('[' :: buf) = .ok (d :: ds, rest) := by
  rw [explicitDimensions, if_neg (by decide), if_neg (by simp)]
  split
  · rename_i e he
    rw [hd] at he
    cases he
  · rename_i d' mid' he
    rw [hd] at he
    cases he
    rw [hds]

def explicitPart : Text → Checked TextArrayError (List ArrayDimension × Text)
  | [] => .error (.returned .eof)
  | r :: buf => if r = '[' then explicitDimensions (r :: buf) else .ok ([], r :: buf)

def arrayParseQuotedValue : Text → Checked TextArrayError (Text × Text)
  | [] => .error (.returned .valueEof)
  | r :: buf =>
    if r = '\\' then
      match buf with
      | [] => .error (.returned .valueEof)
      | r' :: buf' =>
        match arrayParseQuotedValue buf' with
        | .error e => .error e
        | .ok (s, rest) => .ok (r' :: s, rest)
    else if r = '"' then
      -- the closing quote must not be the last rune
      match buf with
      | [] => .error (.returned .valueEof)
      | _ :: _ => .ok ([], buf)
    else
      match arrayParseQuotedValue buf with
      | .error e => .error e
      | .ok (s, rest) => .ok (r :: s, rest)

/-- Up to the comma or the closing brace, which stays -/
def arrayParseUnquotedValue : Text → Checked TextArrayError (Text × Text)
  | [] => .error (.returned .valueEof)
  | r :: buf =>
    if r = ',' ∨ r = '}' then .ok ([], r :: buf)
    else
      match arrayParseUnquotedValue buf with
      | .error e => .error e
      | .ok (s, rest) => .ok (r :: s, rest)

def arrayParseValue (buf : Text) : Checked TextArrayError (Text × Bool × Text) :=
  match buf with
  | [] => .error (.returned .valueEof)
  | r :: rest =>
    if r = '"' then (fun (s, rest) => (s, true, rest)) <$> arrayParseQuotedValue rest
    else (fun (s, rest) => (s, false, rest)) <$> arrayParseUnquotedValue buf

inductive Token where
  | opening
  | comma
  | closing
  | value (text : Text) (quoted : Bool)
  deriving DecidableEq

def nextToken : Text → Checked TextArrayError (Token × Text)
  | [] => .error (.returned .eof)
  | r :: buf =>
    if r = '{' then .ok (.opening, buf)
    else if r = ',' then .ok (.comma, buf)
    else if r = '}' then .ok (.closing, buf)
    else (fun (s, quoted, rest) => (.value s quoted, rest)) <$> arrayParseValue (r :: buf)

/-! ## The loop -/

structure ParseState where
  currentDim : Int
  counterDim : Int
  implicitDimensions : List ArrayDimension
  elements : List (Text × Bool)

/-- `implicitDimensions[i].Length++` -/
def incLength (dims : List ArrayDimension) (i : Int) : Checked TextArrayError (List ArrayDimension) :=
  if 0 ≤ i ∧ i < dims.length then .ok (dims.modify i.toNat fun d => { d with length := d.length + 1 })
  else .error .panic

/-- An element or a group is counted in the group it stands in, if that is the first of its depth.
-/
def ParseState.counted (st : ParseState) : Checked TextArrayError (List ArrayDimension) :=
  if st.currentDim = st.counterDim then incLength st.implicitDimensions st.currentDim
  else .ok st.implicitDimensions

def ParseState.step (st : ParseState) : Token → Checked TextArrayError ParseState
  | .opening => (fun dims =>
    { st with implicitDimensions := dims, currentDim := st.currentDim + 1 }) <$> st.counted
  | .comma => .ok st
  | .closing =>
    let currentDim := st.currentDim - 1
    .ok { st with
      currentDim := currentDim
      counterDim := if currentDim < st.counterDim then currentDim else st.counterDim }
  | .value text quoted =>
    (fun dims => { st with implicitDimensions := dims, elements := st.elements ++ [(text, quoted)] }) <$> st.counted

theorem arrayParseQuotedValue_length : ∀ {buf s rest : Text},
    arrayParseQuotedValue buf = .ok (s, rest) →
    rest.length < buf.length := by
  intro buf
  fun_induction arrayParseQuotedValue buf with
  | case1 => intro s rest h; cases h
  | case2 => intro s rest h; cases h
  | case3 => intro s rest h; cases h
  | case4 r' buf' s' rest' hq ih =>
    intro s rest h
    cases h
    have := ih hq
    simp only [length_cons]
    omega
  | case5 => intro s rest h; cases h
  | case6 =>
    intro s rest h
    cases h
    simp
  | case7 => intro s rest h; cases h
  | case8 r buf hr hr' s' rest' hq ih =>
    intro s rest h
    cases h
    have := ih hq
    simp only [length_cons]
    omega

theorem arrayParseUnquotedValue_length : ∀ {buf s rest : Text},
    arrayParseUnquotedValue buf = .ok (s, rest) →
    rest.length ≤ buf.length := by
  intro buf
  induction buf with
  | nil => intro s rest h; cases h
  | cons r buf ih =>
    intro s rest h
    unfold arrayParseUnquotedValue at h
    split at h
    · cases h
      exact le_rfl
    · split at h
      · cases h
      · rename_i hq
        cases h
        exact Nat.le_succ_of_le (ih hq)

theorem nextToken_length {buf buf' : Text} {tok : Token} (h : nextToken buf = .ok (tok, buf')) :
    buf'.length < buf.length := by
  cases buf with
  | nil => cases h
  | cons r buf =>
    simp only [nextToken] at h
    split at h
    · cases h
      simp
    split at h
    · cases h
      simp
    split at h
    · cases h
      simp
    simp only [arrayParseValue] at h
    split at h
    · cases hq : arrayParseQuotedValue buf with
      | error e => simp [hq, Functor.map, Except.map] at h
      | ok r =>
        rw [hq] at h
        cases h
        exact Nat.lt_succ_of_lt (arrayParseQuotedValue_length hq)
    · rename_i hcomma hclose _
      rw [arrayParseUnquotedValue, if_neg (by simp [hcomma, hclose])] at h
      cases hq : arrayParseUnquotedValue buf with
      | error e => simp [hq, Functor.map, Except.map] at h
      | ok r =>
        rw [hq] at h
        cases h
        exact Nat.lt_succ_of_le (arrayParseUnquotedValue_length hq)

/-- Tokens are read until the first brace is closed. -/
def parseElements (st : ParseState) (buf : Text) : Checked TextArrayError (ParseState × Text) :=
  match _h : nextToken buf with
  | .error e => .error e
  | .ok (tok, buf') =>
    match st.step tok with
    | .error e => .error e
    | .ok st' => if st'.currentDim < 0 then .ok (st', buf') else parseElements st' buf'
termination_by buf.length
decreasing_by exact nextToken_length _h

def openDimension (dims : List ArrayDimension) : List ArrayDimension :=
  dims.modify (dims.length - 1) (fun d => { d with length := 1 }) ++ [⟨0, 1⟩]

def openingBrackets : List ArrayDimension → Text → Checked TextArrayError (List ArrayDimension × Text)
  | _, [] => .error (.returned .eof)
  | dims, r :: buf =>
    if r = '{' then openingBrackets (openDimension dims) buf else .ok (dims, r :: buf)

def finishArray (explicitDims : List ArrayDimension) (st : ParseState) (buf : Text) :
    Checked TextArrayError UntypedTextArray :=
  match skipWhitespace buf with
  | r :: rest => .error (.returned (.trailingData (r :: rest)))
  | [] =>
    .ok ⟨st.elements,
      if st.elements = [] then []
      else if explicitDims ≠ [] then explicitDims
      else st.implicitDimensions⟩

def parseUntypedTextArray (src : Text) : Checked TextArrayError UntypedTextArray := do
  let (explicitDims, buf) ← explicitPart (skipWhitespace src)
  let buf ← expect '{' "'\x7b'" buf
  let (implicitDims, buf) ← openingBrackets [⟨0, 1⟩] buf
  let dim : Int := implicitDims.length - 1
  let (st, buf) ← parseElements ⟨dim, dim, implicitDims, []⟩ buf
  finishArray explicitDims st buf

theorem arrayParseInteger_noPanic (buf : Text) : NoPanic (arrayParseInteger buf) := by
  unfold arrayParseInteger
  split
  · exact noPanic_returned _
  · split
    · exact noPanic_returned _
    · exact noPanic_ok _

theorem expect_noPanic (c : Char) (what : String) (buf : Text) : NoPanic (expect c what buf) := by
  cases buf with
  | nil => exact noPanic_returned _
  | cons r buf =>
    simp only [expect]
    split
    · exact noPanic_ok _
    · exact noPanic_returned _

theorem parseBounds_noPanic (buf : Text) : NoPanic (parseBounds buf) := by
  refine noPanic_bind (arrayParseInteger_noPanic buf) fun lower _ => ?_
  refine noPanic_bind (expect_noPanic _ _ _) fun buf₁ _ => ?_
  refine noPanic_bind (arrayParseInteger_noPanic buf₁) fun upper _ => ?_
  exact noPanic_bind (expect_noPanic _ _ _) fun buf₂ _ => noPanic_ok _

theorem explicitDimensions_noPanic (buf : Text) : NoPanic (explicitDimensions buf) := by
  fun_induction explicitDimensions buf with
  | case1 => exact noPanic_returned _
  | case2 => exact noPanic_ok _
  | case3 => exact noPanic_returned _
  | case4 r buf _ _ e he =>
    have := parseBounds_noPanic buf
    rw [he] at this
    exact fun h => this (by cases h; rfl)
  | case5 r buf _ _ d buf' _ e he ih =>
    rw [he] at ih
    exact fun h => ih (by cases h; rfl)
  | case6 => exact noPanic_ok _

theorem explicitPart_noPanic (buf : Text) : NoPanic (explicitPart buf) := by
  cases buf with
  | nil => exact noPanic_returned _
  | cons r buf =>
    simp only [explicitPart]
    split
    · exact explicitDimensions_noPanic _
    · exact noPanic_ok _

theorem arrayParseQuotedValue_noPanic (buf : Text) : NoPanic (arrayParseQuotedValue buf) := by
  fun_induction arrayParseQuotedValue buf with
  | case1 => exact noPanic_returned _
  | case2 => exact noPanic_returned _
  | case3 r' buf' e he ih =>
    rw [he] at ih
    exact fun h => ih (by cases h; rfl)
  | case4 => exact noPanic_ok _
  | case5 => exact noPanic_returned _
  | case6 => exact noPanic_ok _
  | case7 r buf _ _ e he ih =>
    rw [he] at ih
    exact fun h => ih (by cases h; rfl)
  | case8 => exact noPanic_ok _

theorem arrayParseUnquotedValue_noPanic (buf : Text) : NoPanic (arrayParseUnquotedValue buf) := by
  induction buf with
  | nil => exact noPanic_returned _
  | cons r buf ih =>
    unfold arrayParseUnquotedValue
    split
    · exact noPanic_ok _
    · split
      · rename_i e he
        rw [he] at ih
        exact fun h => ih (by cases h; rfl)
      · exact noPanic_ok _

theorem nextToken_noPanic (buf : Text) : NoPanic (nextToken buf) := by
  cases buf with
  | nil => exact noPanic_returned _
  | cons r buf =>
    simp only [nextToken]
    split
    · exact noPanic_ok _
    split
    · exact noPanic_ok _
    split
    · exact noPanic_ok _
    simp only [arrayParseValue]
    split
    · exact noPanic_map _ (noPanic_map _ (arrayParseQuotedValue_noPanic _))
    · exact noPanic_map _ (noPanic_map _ (arrayParseUnquotedValue_noPanic _))

theorem openingBrackets_noPanic (buf : Text) : ∀ dims, NoPanic (openingBrackets dims buf) := by
  induction buf with
  | nil => exact fun _ => noPanic_returned _
  | cons r buf ih =>
    intro dims
    simp only [openingBrackets]
    split
    · exact ih _
    · exact noPanic_ok _

end Pgx.Pgtype
