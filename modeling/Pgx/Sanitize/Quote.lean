import Pgx.Go.Time
import Pgx.Sanitize.Lexer

/-!
# Argument texts and `Query.Sanitize`

The dynamic type of an argument is a constructor; any other Go type is `other`,
with the name that `%T` prints.
-/
namespace Pgx.Sanitize

open Pgx.Go List

inductive Arg where
  | nil
  | int64 (n : BitVec 64)
  | float64 (bits : BitVec 64)
  | bool (b : Bool)
  | bytes (bs : List UInt8)
  | string (s : Text)
  | time (t : Time)
  | other (typeName : String)

variable {args : List Arg} {parts : List Part}

def doubleQuotes (s : Text) : Text :=
  s.flatMap fun c => if c = '\'' then ['\'', '\''] else [c]

def quoteString (s : Text) : Text := '\'' :: doubleQuotes s ++ ['\'']

def quoteBytes (bs : List UInt8) : Text :=
  if bs = [] then "'\\x'".toList else '\'' :: '\\' :: 'x' :: hexEncode bs ++ ['\'']

/-- The bytes `p` of the type switch in `Sanitize`. -/
def argText : Arg → Except String Text
  | .nil => .ok "null".toList
  | .int64 n => .ok (formatInt n.toInt)
  | .float64 bits => .ok (formatFloat bits)
  | .bool b => .ok (formatBool b)
  | .bytes bs => .ok (quoteBytes bs)
  | .string s => .ok (quoteString s)
  | .time t => .ok ('\'' :: t.truncateMicrosecond.format ++ ['\''])
  | .other typeName => .error ("invalid arg type: " ++ typeName)

structure Buffer where
  buf : Text
  argUse : List Bool

def writePart (args : List Arg) (b : Buffer) : Part → Except String Buffer
  | .text s => .ok { b with buf := b.buf ++ s }
  | .placeholder 0 => .error "first sql argument must be > 0"
  | .placeholder (argIdx + 1) =>
    match args[argIdx]? with
    | none => .error "insufficient arguments"
    | some arg => do
      let p ← argText arg
      .ok { buf := b.buf ++ [' '] ++ p ++ [' '], argUse := b.argUse.set argIdx true }

def sanitize (parts : List Part) (args : List Arg) : Except String Text := do
  let b ← parts.foldlM (writePart args) ⟨[], replicate args.length false⟩
  match b.argUse.findIdx? (! ·) with
  | some i => .error ("unused argument: " ++ toString i)
  | none => .ok b.buf

def sanitizeSQL (sql : Text) (args : List Arg) : Except String Text :=
  sanitize (newQuery sql) args

/-- What a placeholder with this ordinal is replaced by, between the two spaces. -/
def argTextAt (args : List Arg) (n : Nat) : Text :=
  match args[n - 1]? with
  | none => []
  | some arg => (argText arg).toOption.getD []

/-- What `Sanitize` writes for a part. -/
def writtenPart (args : List Arg) : Part → Text
  | .text s => s
  | .placeholder n => ' ' :: argTextAt args n ++ [' ']

/-- The placeholder names an argument that has a text. -/
def Supplied (args : List Arg) (n : Nat) : Prop :=
  0 < n ∧ ∃ arg, args[n - 1]? = some arg ∧ argText arg = .ok (argTextAt args n)

theorem writePart_eq_ok {b b' : Buffer} {part : Part} (h : writePart args b part = .ok b') :
    b'.buf = b.buf ++ writtenPart args part ∧ ∀ n, part = .placeholder n → Supplied args n := by
  cases part with
  | text s =>
    simp only [writePart, Except.ok.injEq] at h
    subst h
    exact ⟨rfl, by simp⟩
  | placeholder n =>
    cases n with
    | zero => simp [writePart] at h
    | succ argIdx =>
      simp only [writePart] at h
      cases ha : args[argIdx]? with
      | none => simp [ha] at h
      | some arg =>
        simp only [ha] at h
        cases ht : argText arg with
        | error e => simp [ht, bind, Except.bind] at h
        | ok p =>
          simp only [ht, bind, Except.bind, Except.ok.injEq] at h
          subst h
          have hp : argTextAt args (argIdx + 1) = p := by
            simp [argTextAt, ha, ht, Except.toOption]
          refine ⟨by simp [writtenPart, hp], ?_⟩
          intro m hm
          obtain rfl := Part.placeholder.inj hm
          exact ⟨by omega, arg, ha, by rw [hp, ht]⟩

theorem writeParts_eq_ok {b b' : Buffer} (h : parts.foldlM (writePart args) b = .ok b') :
    b'.buf = b.buf ++ parts.flatMap (writtenPart args) ∧ ∀ n, .placeholder n ∈ parts →
    Supplied args n := by
  induction parts generalizing b with
  | nil =>
    simp only [foldlM_nil, pure, Except.pure, Except.ok.injEq] at h
    subst h
    simp
  | cons part parts ih =>
    simp only [foldlM_cons, bind, Except.bind] at h
    cases hp : writePart args b part with
    | error e => simp [hp] at h
    | ok b1 =>
      simp only [hp] at h
      obtain ⟨hb1, hs1⟩ := writePart_eq_ok hp
      obtain ⟨hb, hs⟩ := ih h
      refine ⟨by rw [hb, hb1, append_assoc, flatMap_cons], ?_⟩
      intro n hn
      rcases mem_cons.mp hn with he | hm
      · exact hs1 n he.symm
      · exact hs n hm

/-- A successful `Sanitize` wrote every part, and every placeholder was supplied. -/
theorem sanitize_eq_ok {out : Text} (h : sanitize parts args = .ok out) :
    out = parts.flatMap (writtenPart args) ∧ ∀ n, .placeholder n ∈ parts → Supplied args n := by
  simp only [sanitize, bind, Except.bind] at h
  cases hb : parts.foldlM (writePart args) ⟨[], replicate args.length false⟩ with
  | error e => simp [hb] at h
  | ok b =>
    simp only [hb] at h
    obtain ⟨hbuf, hs⟩ := writeParts_eq_ok hb
    split at h
    · simp at h
    · obtain rfl := Except.ok.inj h
      exact ⟨by simpa using hbuf, hs⟩

def markUsed (argUse : List Bool) : Part → List Bool
  | .placeholder (argIdx + 1) => argUse.set argIdx true
  | _ => argUse

theorem writeParts_ok (h : ∀ n, .placeholder n ∈ parts → Supplied args n) (b : Buffer) :
    parts.foldlM (writePart args) b =
      .ok ⟨b.buf ++ parts.flatMap (writtenPart args), parts.foldl markUsed b.argUse⟩ := by
  induction parts generalizing b with
  | nil => simp [pure, Except.pure]
  | cons part parts ih =>
    have hstep : writePart args b part = .ok
        ⟨b.buf ++ writtenPart args part, markUsed b.argUse part⟩ := by
      cases part with
      | text s => rfl
      | placeholder n =>
        obtain ⟨h0, arg, ha, ht⟩ := h n (.head _)
        obtain ⟨argIdx, rfl⟩ : ∃ k, n = k + 1 := ⟨n - 1, by omega⟩
        rw [Nat.add_sub_cancel] at ha
        simp only [writePart, ha, ht, bind, Except.bind]
        simp [writtenPart, markUsed]
    rw [foldlM_cons, hstep]
    refine (ih (fun n hn => h n (.tail _ hn)) _).trans ?_
    simp

theorem length_markUsed (parts : List Part) (argUse : List Bool) :
    (parts.foldl markUsed argUse).length = argUse.length := by
  induction parts generalizing argUse with
  | nil => rfl
  | cons part parts ih =>
    rw [foldl_cons, ih]
    unfold markUsed
    split <;> simp

theorem markUsed_of_true {argUse : List Bool} {i : Nat}
    (h : argUse[i]? = some true) : (parts.foldl markUsed argUse)[i]? = some true := by
  induction parts generalizing argUse with
  | nil => exact h
  | cons part parts ih =>
    apply ih
    unfold markUsed
    split
    · rename_i argIdx
      by_cases hi : argIdx = i
      · subst hi
        have hlt := (List.getElem?_eq_some_iff.mp h).1
        rw [getElem?_set_self hlt]
      · rw [getElem?_set_ne hi, h]
    · exact h

theorem markUsed_of_mem {argUse : List Bool} {i : Nat} (hi : i < argUse.length)
    (h : .placeholder (i + 1) ∈ parts) :
    (parts.foldl markUsed argUse)[i]? = some true := by
  induction parts generalizing argUse with
  | nil => simp at h
  | cons part parts ih =>
    rw [foldl_cons]
    rcases mem_cons.mp h with rfl | hm
    · exact markUsed_of_true (by rw [markUsed, getElem?_set_self hi])
    · refine ih ?_ hm
      have := length_markUsed [part] argUse
      simpa using this ▸ hi

theorem markUsed_of_not_mem {argUse : List Bool} {i : Nat} (h : .placeholder (i + 1) ∉ parts) :
    (parts.foldl markUsed argUse)[i]? = argUse[i]? := by
  induction parts generalizing argUse with
  | nil => rfl
  | cons part parts ih =>
    rw [mem_cons, not_or] at h
    rw [foldl_cons, ih h.2, markUsed.eq_def]
    split
    · next argIdx => exact getElem?_set_ne fun hi => h.1 (by rw [hi])
    · rfl

/-- `Sanitize` succeeds when every placeholder is supplied and every argument is used. -/
theorem sanitize_ok (hs : ∀ n, .placeholder n ∈ parts → Supplied args n)
    (hu : ∀ i, i < args.length → .placeholder (i + 1) ∈ parts) :
    sanitize parts args = .ok (parts.flatMap (writtenPart args)) := by
  have hall : (parts.foldl markUsed (replicate args.length false)).findIdx? (! ·) = none := by
    rw [findIdx?_eq_none_iff]
    intro used hused
    obtain ⟨i, hi, rfl⟩ := getElem_of_mem hused
    rw [length_markUsed, length_replicate] at hi
    have ht : (parts.foldl markUsed (replicate args.length false))[i]? = some true :=
      markUsed_of_mem (by simpa using hi) (hu i hi)
    rw [getElem?_eq_some_iff] at ht
    rw [ht.2]
    rfl
  simp only [sanitize, writeParts_ok hs, bind, Except.bind, hall, nil_append]

/-- `Sanitize` succeeds exactly when every placeholder names an argument that has a text and every
argument is named, and then it writes each argument in the place of its placeholders. -/
theorem sanitize_eq_ok_iff (parts : List Part) (args : List Arg) (out : Text) :
    sanitize parts args = .ok out ↔
    (∀ n, .placeholder n ∈ parts → Supplied args n) ∧
    (∀ i, i < args.length → .placeholder (i + 1) ∈ parts) ∧
      out = parts.flatMap (writtenPart args) := by
  constructor
  · intro h
    obtain ⟨hout, hs⟩ := sanitize_eq_ok h
    refine ⟨hs, fun i hi => ?_, hout⟩
    by_contra hnot
    have hfalse : (parts.foldl markUsed (replicate args.length false))[i]? = some false := by
      rw [markUsed_of_not_mem hnot, getElem?_replicate_of_lt hi]
    simp only [sanitize, writeParts_ok hs, bind, Except.bind] at h
    split at h
    · cases h
    · next hall => cases findIdx?_eq_none_iff.mp hall false (mem_of_getElem? hfalse)
  · rintro ⟨hs, hu, rfl⟩
    exact sanitize_ok hs hu

end Pgx.Sanitize
