import Mathlib.Data.Int.Order.Basic
import Pgx.Go.Format

/-!
# Instants and their formatting

`time.Time` as far as formatting reads it: seconds since the Unix epoch, the
nanosecond within the second, and the offset in seconds of its location at that
instant. Dates are in the proleptic Gregorian calendar.
-/
namespace Pgx.Go

structure Time where
  sec : Int
  nsec : Nat
  /-- Seconds east of UTC. -/
  offset : Int
  nsec_lt : nsec < 1000000000

structure Date where
  year : Int
  month : Nat
  day : Nat
  deriving DecidableEq, Repr

/-- The date of a day counted from 1970-01-01. Years are taken from March to
February in cycles of 400. -/
def Date.ofDays (days : Int) : Date :=
  let z := days + 719468
  let dayOfEra := (z % 146097).toNat
  let yearOfEra :=
    (dayOfEra - dayOfEra / 1460 + dayOfEra / 36524 - dayOfEra / 146096) / 365
  let dayOfYear := dayOfEra - (365 * yearOfEra + yearOfEra / 4 - yearOfEra / 100)
  let fromMarch := (5 * dayOfYear + 2) / 153
  let month := if fromMarch < 10 then fromMarch + 3 else fromMarch - 9
  { year := yearOfEra + z / 146097 * 400 + (if month ≤ 2 then 1 else 0)
    month := month
    day := dayOfYear - (153 * fromMarch + 2) / 5 + 1 }

/-- The `appendInt` of package time: a sign, then zeros up to the width. -/
def appendInt (x : Int) (width : Nat) : Text :=
  if x < 0 then '-' :: formatPadded width x.natAbs else formatPadded width x.natAbs

theorem mem_appendInt {x : Int} {width : Nat} {c : Char} (h : c ∈ appendInt x width) :
    isDigit c = true ∨ c = '-' := by
  unfold appendInt at h
  split at h
  · rcases List.mem_cons.mp h with rfl | h
    · exact .inr rfl
    · exact .inl (isDigit_of_mem_formatPadded h)
  · exact .inl (isDigit_of_mem_formatPadded h)

theorem appendInt_ne_quote (x : Int) (width : Nat) : '\'' ∉ appendInt x width := by
  intro h
  rcases mem_appendInt h with hd | hd
  · exact absurd hd (by decide)
  · exact absurd hd (by decide)

namespace Time

def truncateMicrosecond (t : Time) : Time :=
  { t with nsec := t.nsec - t.nsec % 1000, nsec_lt := by have := t.nsec_lt; omega }

/-- `.999999999`: the fraction without trailing zeros, or nothing. -/
def formatFraction (nsec : Nat) : Text :=
  if nsec = 0 then []
  else '.' :: ((formatPadded 9 nsec).reverse.dropWhile (· = '0')).reverse

/-- `Z07:00:00`. Divisions truncate as in Go, so the sign is lost when the offset
is less than a minute west. -/
def formatZone (offset : Int) : Text :=
  if offset = 0 then ['Z']
  else
    let zone := offset.tdiv 60
    let west := zone < 0
    let minutes := if west then -zone else zone
    let seconds := if west then -offset else offset
    (if west then '-' else '+') :: appendInt (minutes.tdiv 60) 2 ++
      ':' :: appendInt (minutes.tmod 60) 2 ++ ':' :: appendInt (seconds.tmod 60) 2

/-- `2006-01-02 15:04:05.999999999Z07:00:00` -/
def format (t : Time) : Text :=
  let wall := t.sec + t.offset
  let date := Date.ofDays (wall / 86400)
  let second := (wall % 86400).toNat
  appendInt date.year 4 ++ '-' :: appendInt date.month 2 ++ '-' :: appendInt date.day 2 ++
    ' ' :: appendInt ((second / 3600 : Nat) : Int) 2 ++
    ':' :: appendInt ((second / 60 % 60 : Nat) : Int) 2 ++
    ':' :: appendInt ((second % 60 : Nat) : Int) 2 ++
    formatFraction t.nsec ++ formatZone t.offset

theorem formatFraction_ne_quote (nsec : Nat) : '\'' ∉ formatFraction nsec := by
  intro h
  unfold formatFraction at h
  split at h
  · simp at h
  · rcases List.mem_cons.mp h with hd | h
    · exact absurd hd (by decide)
    · have hm := (List.dropWhile_sublist _).subset (List.mem_reverse.mp h)
      have hd := isDigit_of_mem_formatPadded (List.mem_reverse.mp hm)
      exact absurd hd (by decide)

theorem formatZone_ne_quote (offset : Int) : '\'' ∉ formatZone offset := by
  unfold formatZone
  split
  · decide
  · simp only [List.cons_append, List.mem_cons, List.mem_append, appendInt_ne_quote, or_false]
    split <;> decide

theorem format_ne_quote (t : Time) : '\'' ∉ t.format := by
  simp only [format, List.mem_append, List.mem_cons, appendInt_ne_quote, formatFraction_ne_quote,
    formatZone_ne_quote]
  decide

end Time
end Pgx.Go
