import Pgx.Go.Cursor
import Pgx.Go.Map
import Mathlib.Data.List.DropRight

/-!
# Connection strings of keywords and values

The parser of `host=localhost password='it\'s'`. The end of a value is found from left to right, a
backslash and what follows it at a time; the escapes are then undone by two replacements in the
whole value.
-/
namespace Pgx.Connect

open Pgx.Go List

inductive SettingsError where
  | invalidKeywordValue
  | invalidBackslash
  | unterminatedQuotedString
  deriving DecidableEq

/-- The table `asciiSpace`. -/
def asciiSpace (c : UInt8) : Bool := c = 32 || (9 ≤ c && c ≤ 13)

def trimLeft (s : Bytes) : Bytes := s.dropWhile asciiSpace

/-- `strings.ReplaceAll`, of two bytes by one. -/
def replaceAll (a b c : UInt8) : Bytes → Bytes
  | x :: y :: s => if x = a ∧ y = b then c :: replaceAll a b c s else x :: replaceAll a b c (y :: s)
  | s => s

def unescape (s : Bytes) : Bytes := replaceAll 92 39 39 (replaceAll 92 92 92 s)

/-- Where an unquoted value ends, unless the text ends in a backslash. -/
def unquotedEnd : Bytes → Option Nat
  | [] => some 0
  | [c] => if asciiSpace c then some 0 else if c = 92 then none else some 1
  | c :: d :: s =>
    if asciiSpace c then some 0
    else if c = 92 then (unquotedEnd s).map (· + 2)
    else (unquotedEnd (d :: s)).map (· + 1)

/-- Where a quoted value ends. The loop has gone past the end of the text when that is a backslash.
-/
def quotedEnd : Bytes → Nat
  | [] => 0
  | [c] => if c = 39 then 0 else if c = 92 then 2 else 1
  | c :: d :: s => if c = 39 then 0 else if c = 92 then quotedEnd s + 2 else quotedEnd (d :: s) + 1

def settingValue : Bytes → Checked SettingsError (Bytes × Bytes)
  | [] => .ok ([], [])
  | c :: s =>
    if c ≠ 39 then
      match unquotedEnd (c :: s) with
      | none => .error (.returned .invalidBackslash)
      | some e => .ok (unescape ((c :: s).take e), trimLeft ((c :: s).drop e))
    else if quotedEnd s = s.length then .error (.returned .unterminatedQuotedString)
    else if s.length < quotedEnd s then .error .panic
    else .ok (unescape (s.take (quotedEnd s)), trimLeft (s.drop (quotedEnd s + 1)))

def canonicalConnStringKey (k : Bytes) : Bytes := if k = ascii "dbname" then ascii "database" else k

def nextSetting (s : Bytes) : Checked SettingsError ((Bytes × Bytes) × Bytes) :=
  match indexByte 61 s with
  | none => .error (.returned .invalidKeywordValue)
  | some eqIdx => do
    let (val, rest) ← settingValue (trimLeft (s.drop (eqIdx + 1)))
    let key := canonicalConnStringKey ((trimLeft (s.take eqIdx)).rdropWhile asciiSpace)
    if key = [] then .error (.returned .invalidKeywordValue) else .ok ((key, val), rest)

variable {s t v r body rest : Bytes} {kv : Bytes × Bytes}

theorem length_trimLeft_le (s : Bytes) : (trimLeft s).length ≤ s.length :=
    (s.dropWhile_sublist _).length_le

theorem settingValue_length {x : Bytes × Bytes} (h : settingValue s = .ok x) :
    x.2.length ≤ s.length := by
  unfold settingValue at h
  split at h
  · cases h
    exact le_rfl
  · rename_i c s
    split at h
    · split at h <;> cases h
      exact (length_trimLeft_le _).trans (by simp)
    · split at h
      · cases h
      · split at h <;> cases h
        exact (length_trimLeft_le _).trans (by simp; omega)

theorem nextSetting_ok (h : nextSetting s = .ok (kv, rest)) :
    ∃ k, indexByte 61 s = some k ∧ settingValue (trimLeft (s.drop (k + 1))) = .ok (kv.2, rest) := by
  unfold nextSetting at h
  cases hi : indexByte 61 s with
  | none => simp [hi] at h
  | some k =>
    simp only [hi] at h
    obtain ⟨x, hx, h⟩ := bind_eq_ok.mp h
    split at h <;> cases h
    exact ⟨k, rfl, hx⟩

theorem nextSetting_length (h : nextSetting s = .ok (kv, rest)) : rest.length < s.length := by
  obtain ⟨k, hi, hv⟩ := nextSetting_ok h
  have h1 := settingValue_length hv
  have h2 := length_trimLeft_le (s.drop (k + 1))
  have h3 := congrArg length (indexByte_some hi).2
  simp only [length_append, length_cons, length_take, length_drop] at h1 h2 h3
  omega

/-- The settings in the order of the text; an empty `user` is passed over. -/
def settingsFrom (s : Bytes) : Checked SettingsError (List (Bytes × Bytes)) :=
  if s = [] then .ok []
  else
    match _h : nextSetting s with
    | .error e => .error e
    | .ok (kv, rest) =>
      (if kv.1 = ascii "user" ∧ kv.2 = [] then id else (kv :: ·)) <$> settingsFrom rest
termination_by s.length
decreasing_by exact nextSetting_length _h

def parseKeywordValueSettings (s : Bytes) : Checked SettingsError (Map Bytes Bytes) :=
  (fun settings => settings.foldl (fun m kv => m.insert kv.1 kv.2) ∅) <$> settingsFrom (trimLeft s)

/-- The text of a quoted value that is not closed and ends in a backslash that escapes nothing. -/
inductive Dangling : Bytes → Prop where
  | backslash : Dangling [92]
  | escape (c : UInt8) {l : Bytes} : Dangling l → Dangling (92 :: c :: l)
  | char {c : UInt8} {l : Bytes} : c ≠ 39 → c ≠ 92 → Dangling l → Dangling (c :: l)

/-- The parser comes to a quoted value, and this is behind the quote. -/
inductive Quotes (body : Bytes) : Bytes → Prop where
  | here {l : Bytes} {k : Nat} : indexByte 61 l = some k →
    trimLeft (l.drop (k + 1)) = 39 :: body → Quotes body l
  | later {l rest : Bytes} {kv : Bytes × Bytes} :
    nextSetting l = .ok (kv, rest) → Quotes body rest → Quotes body l

theorem dangling_iff (s : Bytes) : Dangling s ↔ s.length < quotedEnd s := by
  constructor
  · intro h
    induction h with
    | backslash => decide
    | escape c _ ih => simpa [quotedEnd] using ih
    | @char c l hq hb _ ih =>
      cases l with
      | nil => simp [quotedEnd] at ih
      | cons d l => simpa [quotedEnd, hq, hb] using ih
  · intro h
    fun_induction quotedEnd s with
    | case1 | case2 | case5 => simp at h
    | case3 => exact .backslash
    | case4 c hq hb => simp at h
    | case6 d s hq ih => exact .escape d (ih (by simpa using h))
    | case7 c d s hq hb ih => exact .char hq hb (ih (by simpa using h))

theorem settingValue_panic_iff : settingValue s = .error .panic ↔ ∃ body, s = 39 :: body ∧
    Dangling body := by
  cases s with
  | nil => simp [settingValue]
  | cons c s =>
    by_cases hc : c = 39
    · subst hc
      have hpanic : settingValue (39 :: s) = .error .panic ↔ s.length < quotedEnd s := by
        unfold settingValue
        by_cases h1 : quotedEnd s = s.length
        · simp [h1]
        · by_cases h2 : s.length < quotedEnd s <;> simp [h1, h2]
      simp [hpanic, dangling_iff]
    · unfold settingValue
      simp only [ne_eq, hc, not_false_eq_true, if_true]
      cases unquotedEnd (c :: s) <;> simp [hc]

theorem nextSetting_panic_iff : nextSetting s = .error .panic ↔
    ∃ k body, indexByte 61 s = some k ∧ trimLeft (s.drop (k + 1)) = 39 :: body ∧ Dangling body := by
  unfold nextSetting
  cases hi : indexByte 61 s with
  | none => simp
  | some k =>
    have hv := settingValue_panic_iff (s := trimLeft (s.drop (k + 1)))
    cases hs : settingValue (trimLeft (s.drop (k + 1))) with
    | error e => simpa [hs, bind, Except.bind] using hv
    | ok x =>
      rw [hs] at hv
      have hno : ¬ ∃ body, trimLeft (s.drop (k + 1)) = 39 :: body ∧ Dangling body :=
        fun h => nomatch hv.mpr h
      refine iff_of_false ?_ (by simpa using hno)
      by_cases hkey : canonicalConnStringKey ((trimLeft (s.take k)).rdropWhile asciiSpace) = [] <;>
        simp [hs, hkey, bind, Except.bind]

theorem settingsFrom_noPanic_iff (s : Bytes) :
    NoPanic (settingsFrom s) ↔ ∀ body, Quotes body s → ¬ Dangling body := by
  fun_induction settingsFrom s with
  | case1 =>
    refine iff_of_true (noPanic_ok _) fun body h => ?_
    cases h with
    | here hi _ => cases hi
    | later hn _ => cases hn
  | case2 s hs e he =>
    constructor
    · intro h body hq hd
      cases hq with
      | here hi ht =>
        have hpanic := nextSetting_panic_iff.mpr ⟨_, _, hi, ht, hd⟩
        rw [he] at hpanic
        cases hpanic
        exact h rfl
      | later hn _ => rw [he] at hn; cases hn
    · intro h hpanic
      cases hpanic
      obtain ⟨k, body, hi, ht, hd⟩ := nextSetting_panic_iff.mp he
      exact h body (.here hi ht) hd
  | case3 s hs kv rest hn ih =>
    rw [noPanic_map_iff, ih]
    constructor
    · intro h body hq hd
      cases hq with
      | here hi ht =>
        have := nextSetting_panic_iff.mpr ⟨_, _, hi, ht, hd⟩
        rw [hn] at this
        cases this
      | later hn' hq =>
        rw [hn] at hn'
        cases hn'
        exact h body hq hd
    · exact fun h body hq => h body (.later hn hq)

/-- The parser panics exactly when the text ends inside a quoted value, right behind a backslash
that opens an escape. -/
theorem parseKeywordValueSettings_noPanic_iff (s : Bytes) :
    NoPanic (parseKeywordValueSettings s) ↔ ∀ body, Quotes body (trimLeft s) → ¬ Dangling body := by
  unfold parseKeywordValueSettings
  rw [noPanic_map_iff, settingsFrom_noPanic_iff]

/-- A backslash at the end of an open quote -/
theorem parseKeywordValueSettings_panic : parseKeywordValueSettings
    (ascii "a='\\") = .error .panic := by
  have hnext : nextSetting (ascii "a='\\") = .error .panic := by decide
  have htrim : trimLeft (ascii "a='\\") = ascii "a='\\" := by decide
  unfold parseKeywordValueSettings
  rw [htrim, settingsFrom, if_neg (by decide)]
  split
  · rename_i e he
    rw [hnext] at he
    cases he
    rfl
  · rename_i he
    rw [hnext] at he
    cases he

/-! ## Round trips -/

/-- Every backslash and every quote behind a backslash. -/
def escape (v : Bytes) : Bytes := v.flatMap fun c => if c = 92 ∨ c = 39 then [92, c] else [c]

def Spaces (w : Bytes) : Prop := ∀ c ∈ w, asciiSpace c = true

/-- A text for the value, in front of `r`. -/
inductive Written (v r : Bytes) : Bytes → Prop where
  | quoted : Written v r (39 :: (escape v ++ [39]))
  | plain : v ≠ [] → (∀ c ∈ v, asciiSpace c = false) → (∀ c ∈ r.head?, asciiSpace c = true) →
    Written v r (escape v)

structure Keyword (k : Bytes) : Prop where
  nonempty : k ≠ []
  equals : 61 ∉ k
  spaces : ∀ c ∈ k, asciiSpace c = false
  canonical : canonicalConnStringKey k = k

inductive SettingsText : List (Bytes × Bytes) → Bytes → Prop where
  | nil {w : Bytes} : Spaces w → SettingsText [] w
  | cons {k v w₀ w₁ w₂ t r : Bytes} {settings : List (Bytes × Bytes)} :
    Spaces w₀ → Spaces w₁ → Spaces w₂ →
    Written v r t → SettingsText settings r →
    SettingsText ((k, v) :: settings) (w₀ ++ (k ++ (w₁ ++ 61 :: (w₂ ++ (t ++ r)))))

variable {c : UInt8}

theorem replaceAll_cons {a b x : UInt8} (h : x = a → s.head? ≠ some b) :
    replaceAll a b c (x :: s) = x :: replaceAll a b c s := by
  cases s with
  | nil => rfl
  | cons y s =>
    rw [replaceAll, if_neg]
    exact fun hxy => h hxy.1 (congrArg some hxy.2)

theorem escape_special (h : c = 92 ∨ c = 39) : escape (c :: v) = 92 :: c :: escape v := by
  simp [escape, h]

theorem escape_other (h : ¬ (c = 92 ∨ c = 39)) : escape (c :: v) = c :: escape v := by
  simp [escape, h]

/-- What the first replacement leaves: every quote behind a backslash. -/
def escapeQuotes (v : Bytes) : Bytes := v.flatMap fun c => if c = 39 then [92, c] else [c]

theorem replaceAll_escape (v : Bytes) : replaceAll 92 92 92 (escape v) = escapeQuotes v := by
  induction v with
  | nil => rfl
  | cons c v ih =>
    by_cases hc : c = 92 ∨ c = 39
    · rw [escape_special hc]
      rcases hc with rfl | rfl
      · exact congrArg (92 :: ·) ih
      · rw [replaceAll_cons (by simp), replaceAll_cons (x := 39) (fun h => absurd h (by decide)), ih]
        rfl
    · rw [escape_other hc, replaceAll_cons fun h => absurd (.inl h) hc, ih]
      simp [escapeQuotes, (not_or.mp hc).2]

/-- A backslash that is left is not before a quote, but before the backslash of one. -/
theorem replaceAll_escapeQuotes (v : Bytes) : replaceAll 92 39 39 (escapeQuotes v) = v := by
  induction v with
  | nil => rfl
  | cons c v ih =>
    by_cases hq : c = 39
    · subst hq
      exact congrArg (39 :: ·) ih
    · have hhead : (escapeQuotes v).head? ≠ some 39 := by
        cases v with
        | nil => nofun
        | cons d v => by_cases hd : d = 39 <;> simp [escapeQuotes, hd]
      have hcons : escapeQuotes (c :: v) = c :: escapeQuotes v := by simp [escapeQuotes, hq]
      rw [hcons, replaceAll_cons fun _ => hhead, ih]

theorem unescape_escape (v : Bytes) : unescape (escape v) = v := by
  unfold unescape
  rw [replaceAll_escape, replaceAll_escapeQuotes]

theorem unquotedEnd_cons (hs : asciiSpace c = false) (hb : c ≠ 92) :
    unquotedEnd (c :: s) = (unquotedEnd s).map (· + 1) := by
  cases s <;> simp [unquotedEnd, hs, hb]

theorem quotedEnd_cons (hq : c ≠ 39) (hb : c ≠ 92) : quotedEnd (c :: s) = quotedEnd s + 1 := by
  cases s <;> simp [quotedEnd, hq, hb]

theorem unquotedEnd_escape (hv : ∀ c ∈ v, asciiSpace c = false)
    (hr : ∀ c ∈ r.head?, asciiSpace c = true) :
    unquotedEnd (escape v ++ r) = some (escape v).length := by
  induction v with
  | nil =>
    cases r with
    | nil => rfl
    | cons c r =>
      have hc := hr c rfl
      cases r <;> simp [escape, unquotedEnd, hc]
  | cons c v ih =>
    have ih := ih fun d hd => hv d (.tail _ hd)
    by_cases hc : c = 92 ∨ c = 39
    · have hspace : asciiSpace 92 = false := by decide
      simp [escape_special hc, unquotedEnd, hspace, ih]
    · rw [escape_other hc, cons_append, unquotedEnd_cons (hv c (.head _)) (not_or.mp hc).1, ih]
      rfl

theorem quotedEnd_escape (v r : Bytes) : quotedEnd (escape v ++ 39 :: r) = (escape v).length := by
  induction v with
  | nil => cases r <;> rfl
  | cons c v ih =>
    by_cases hc : c = 92 ∨ c = 39
    · simp [escape_special hc, quotedEnd, ih]
    · rw [escape_other hc, cons_append, quotedEnd_cons (not_or.mp hc).2 (not_or.mp hc).1, ih]
      rfl

theorem escape_head (hne : v ≠ []) (hv : ∀ c ∈ v, asciiSpace c = false) :
    ∃ c l, escape v = c :: l ∧ c ≠ 39 ∧ asciiSpace c = false := by
  obtain ⟨c, l, rfl⟩ := exists_cons_of_ne_nil hne
  by_cases hc : c = 92 ∨ c = 39
  · exact ⟨92, _, escape_special hc, by decide, by decide⟩
  · exact ⟨c, _, escape_other hc, (not_or.mp hc).2, hv c (.head _)⟩

theorem settingValue_written (h : Written v r t) : settingValue (t ++ r) = .ok (v, trimLeft r) := by
  cases h with
  | quoted =>
    have hend := quotedEnd_escape v r
    simp [settingValue, hend, unescape_escape]
  | plain hne hv hr =>
    obtain ⟨c, l, hl, hq, -⟩ := escape_head hne hv
    have hend := unquotedEnd_escape hv hr
    have hval := unescape_escape v
    rw [hl] at hend hval ⊢
    rw [cons_append] at hend ⊢
    simp only [settingValue, ne_eq, hq, not_false_eq_true, if_true, hend]
    simp [hval]

theorem trimLeft_spaces {w : Bytes} (h : Spaces w) (s : Bytes) : trimLeft (w ++ s) = trimLeft s :=
  dropWhile_append_of_pos h

theorem trimLeft_cons (h : asciiSpace c = false) (s : Bytes) : trimLeft (c :: s) = c :: s :=
  dropWhile_cons_of_neg (by simp [h])

theorem Written.trimLeft (h : Written v r t) : trimLeft (t ++ r) = t ++ r := by
  cases h with
  | quoted => exact trimLeft_cons (by decide) _
  | plain hne hv _ =>
    obtain ⟨c, l, hl, -, hs⟩ := escape_head hne hv
    rw [hl]
    exact trimLeft_cons hs _

theorem Keyword.trimLeft {k : Bytes} (h : Keyword k) (s : Bytes) :
    Connect.trimLeft (k ++ s) = k ++ s := by
  obtain ⟨c, l, rfl⟩ := exists_cons_of_ne_nil h.nonempty
  exact trimLeft_cons (h.spaces c (.head _)) _

theorem Keyword.trim {k w : Bytes} (h : Keyword k) (hw : Spaces w) :
    (Connect.trimLeft (k ++ w)).rdropWhile asciiSpace = k := by
  have hlast : k.reverse.dropWhile asciiSpace = k.reverse := by
    cases hr : k.reverse with
    | nil => rfl
    | cons c l => exact dropWhile_cons_of_neg (by simp [h.spaces c (mem_reverse.mp (hr ▸ .head _))])
  rw [h.trimLeft, rdropWhile, reverse_append, dropWhile_append_of_pos fun c hc =>
    hw c (mem_reverse.mp hc), hlast,
    reverse_reverse]

theorem nextSetting_written {k w₁ w₂ : Bytes} (hk : Keyword k) (h₁ : Spaces w₁) (h₂ : Spaces w₂)
    (h : Written v r t) :
    nextSetting (k ++ (w₁ ++ 61 :: (w₂ ++ (t ++ r)))) = .ok ((k, v), trimLeft r) := by
  have hfree : 61 ∉ k ++ w₁ := by
    rw [mem_append]
    exact fun hm => hm.elim hk.equals fun hw => nomatch h₁ 61 hw
  have hindex := indexByte_append hfree (w₂ ++ (t ++ r))
  have hdrop : (k ++ w₁ ++ 61 :: (w₂ ++ (t ++ r))).drop ((k ++ w₁).length + 1) = w₂ ++ (t ++ r) := by
    rw [← drop_drop, drop_left]
    rfl
  have hvalue : settingValue (trimLeft (w₂ ++ (t ++ r))) = .ok (v, trimLeft r) := by
    rw [trimLeft_spaces h₂, h.trimLeft, settingValue_written h]
  rw [← append_assoc]
  unfold nextSetting
  simp only [hindex, hdrop, hvalue, take_left, hk.trim h₁, hk.canonical, bind, Except.bind,
    if_neg hk.nonempty]

theorem settingsFrom_text {settings : List (Bytes × Bytes)} (h : SettingsText settings s)
    (hkeys : ∀ kv ∈ settings, Keyword kv.1) (huser :
    ∀ kv ∈ settings, kv.1 = ascii "user" → kv.2 ≠ []) :
    settingsFrom (trimLeft s) = .ok settings := by
  induction h with
  | @nil w hw =>
    have htrim : trimLeft w = [] := dropWhile_eq_nil_iff.mpr hw
    rw [htrim, settingsFrom, if_pos rfl]
  | @cons k v w₀ w₁ w₂ t r settings h₀ h₁ h₂ ht _ ih =>
    have hk := hkeys _ (.head _)
    have hnext := nextSetting_written hk h₁ h₂ ht
    have hrest := ih (fun kv hkv => hkeys kv (.tail _ hkv)) fun kv hkv => huser kv (.tail _ hkv)
    rw [trimLeft_spaces h₀, hk.trimLeft, settingsFrom, if_neg (by simp)]
    split
    · rename_i e he
      rw [hnext] at he
      cases he
    · rename_i kv rest he
      rw [hnext] at he
      cases he
      rw [if_neg fun hu => huser _ (.head _) hu.1 hu.2, hrest]
      rfl

/-- Settings that are written as the manual says are read as they are. -/
theorem parseKeywordValueSettings_text {settings : List (Bytes × Bytes)}
    (hkeys : ∀ kv ∈ settings, Keyword kv.1) (hdistinct : (settings.map Prod.fst).Nodup)
    (huser : ∀ kv ∈ settings, kv.1 = ascii "user" → kv.2 ≠ [])
    (h : SettingsText settings s) :
    ∃ m, parseKeywordValueSettings s = .ok m ∧ ∀ k v, m.lookup k = some v ↔ (k, v) ∈ settings := by
  refine ⟨_, by rw [parseKeywordValueSettings, settingsFrom_text h hkeys huser]; rfl, fun k v => ?_⟩
  rw [lookup_foldl_insert]
  constructor
  · exact mem_of_lastWrite
  · intro hmem
    obtain ⟨u, hu⟩ := exists_lastWrite hmem
    obtain rfl : u = v :=
      congrArg Prod.snd (inj_on_of_nodup_map hdistinct (mem_of_lastWrite hu) hmem rfl)
    exact hu

theorem spaces_of_all {w : Bytes} {b : Bool} (h : w.all (asciiSpace · == b) = true) :
    ∀ c ∈ w, asciiSpace c = b := by
  simpa using h

/-- One value with an escape, one in quotes -/
theorem parseKeywordValueSettings_text_pair : ∃ m,
    parseKeywordValueSettings (ascii "host = a\\'b user='it\\'s' ") = .ok m ∧
      ∀ k v, m.lookup k = some v ↔
      (k, v) ∈ [(ascii "host", ascii "a'b"), (ascii "user", ascii "it's")] := by
  have hkey : ∀ k ∈ [ascii "host", ascii "user"], Keyword k := by
    intro k hk
    simp only [mem_cons, not_mem_nil, or_false] at hk
    rcases hk with rfl | rfl <;> exact ⟨by decide, by decide, spaces_of_all rfl, by decide⟩
  refine parseKeywordValueSettings_text (by simpa using hkey) (by decide) (by simp +decide) ?_
  have hspace : Spaces [32] := spaces_of_all rfl
  have hlast : SettingsText [(ascii "user", ascii "it's")] (ascii " user='it\\'s' ") :=
    @SettingsText.cons _ _ [32] [] [] _ _ _ hspace nofun nofun .quoted (.nil hspace)
  exact @SettingsText.cons _ _ [] [32] [32] _ _ _ nofun hspace hspace
    (.plain (by decide) (spaces_of_all rfl) fun _ h => by cases h; rfl) hlast

end Pgx.Connect
