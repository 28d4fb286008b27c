import ElasticCache.Text.Scan
import ElasticCache.Text.Space
import ElasticCache.Time.Calendar
import ElasticCache.Time.Duration

/-!
# Points in time

Points in universal time with nanoseconds, and their texts. The written text is
`2024-01-02T03:04:05Z` with a fraction of three, six or nine digits when there is one. The reader is
more lenient: fields may be short of leading zeros, spaces may stand between them, a year may carry
a sign and then any number of digits, and an offset from universal time may be given.

A leap second is the second 59 with a fraction of at least one whole second.
-/

namespace ElasticCache

/-- A point in time. -/
structure Timestamp where
  /-- Seconds since the start of 1970. -/
  seconds : Int
  /-- Nanoseconds of that second, two seconds' worth in a leap second. -/
  nanos : Nat
  deriving DecidableEq, Repr

namespace Timestamp

/-- The start of 1970. -/
def epoch : Timestamp := ⟨0, 0⟩

/-- Seconds in a day. -/
def secondsPerDay : Int := 86400

/-- Whole milliseconds since the start of 1970. -/
def toMillis (t : Timestamp) : Int := t.seconds * 1000 + (t.nanos / 1000000 : Nat)

/-! ## Writing -/

/-- A number with at least `width` digits. -/
def padded (width n : Nat) : String :=
  let digits := Nat.toDigits 10 n
  String.ofList (List.replicate (width - digits.length) '0' ++ digits)

/-- A year: four digits, and a sign where four digits are not enough. -/
def yearText (year : Int) : String :=
  let digits := padded 4 year.natAbs
  if year < 0 then "-" ++ digits else if 9999 < year then "+" ++ digits else digits

/-- A fraction of a second, in milliseconds, microseconds or nanoseconds. -/
def fractionText (nanos : Nat) : String :=
  if nanos = 0 then ""
  else if nanos % 1000000 = 0 then "." ++ padded 3 (nanos / 1000000)
  else if nanos % 1000 = 0 then "." ++ padded 6 (nanos / 1000)
  else "." ++ padded 9 nanos

/-- The text of a point in time. -/
def render (t : Timestamp) : String :=
  let date := Date.ofDayNumber (t.seconds / secondsPerDay)
  let second := (t.seconds % secondsPerDay).toNat
  let leap := t.nanos / nanosPerSecond
  let day := s!"{yearText date.year}-{padded 2 date.month}-{padded 2 date.day}"
  let hours := padded 2 (second / 3600)
  let minutes := padded 2 (second / 60 % 60)
  let seconds := padded 2 (second % 60 + leap)
  s!"{day}T{hours}:{minutes}:{seconds}{fractionText (t.nanos % nanosPerSecond)}Z"

/-! ## Reading -/

open Scan

/-- Reads a number of at most `most` digits with spaces before it. -/
def number (most : Nat) : Scan Nat := do
  skip isSpace
  return decimalValue (← digits most)

/-- Passes a mark with spaces before it. -/
def mark (c : Char) : Scan Unit := do
  skip isSpace
  char c

/-- Reads a year: at most four digits, or a sign and any number of digits. -/
def year : Scan Int := do
  skip isSpace
  let text ← get
  let unlimited : Scan Nat := do
    set text.tail
    return decimalValue (← digits text.length)
  match text.head? with
  | some '-' => return -(← unlimited)
  | some '+' => return (← unlimited)
  | _ => return decimalValue (← digits 4)

/-- Reads a date. -/
def date : Scan Date := do
  let year ← year
  mark '-'
  let month ← number 2
  mark '-'
  return ⟨year, month, ← number 2⟩

/-- Reads a fraction of a second, which may be absent. Digits beyond nanoseconds are passed. -/
def fraction : Scan Nat := do
  match (← get).head? with
  | some '.' =>
    char '.'
    let found ← digits 9
    skip Char.isDigit
    return decimalValue found * Nat.pow 10 (9 - found.length)
  | _ => return 0

/-- Reads a time of day in seconds, and nanoseconds beyond it. -/
def timeOfDay : Scan (Nat × Nat) := do
  let hour ← number 2
  mark ':'
  let minute ← number 2
  mark ':'
  let second ← number 2
  let nanos ← fraction
  if hour ≤ 23 ∧ minute ≤ 59 ∧ second ≤ 60 then
    let leap := second / 60
    return (hour * 3600 + minute * 60 + (second - leap), nanos + leap * nanosPerSecond)
  else failure

/-- Reads two digits. -/
def pair : Scan Nat := do
  return decimalValue [← one Char.isDigit, ← one Char.isDigit]

/-- Reads an offset from universal time, in seconds. -/
def offset : Scan Int := do
  skip isSpace
  let text ← get
  match text with
  | [] => failure
  | c :: rest =>
    if c = 'Z' ∨ c = 'z' then
      set rest
      return 0
    else if (text.take 3).map Char.toUpper = ['U', 'T', 'C'] then
      set (text.drop 3)
      return 0
    else
      let sign ← one fun c => c == '+' || c == '-' || c == '−'
      let hours ← pair
      skip fun c => c == ':' || isSpace c
      let minutes ← pair
      let size : Int := hours * 3600 + minutes * 60
      if minutes ≤ 59 ∧ size < secondsPerDay then return if sign = '+' then size else -size
      else failure

/-- Reads a point in time. -/
def scan : Scan Timestamp := do
  let date ← date
  let _ ← one fun c => c == 't' || c == 'T' || c == ' '
  let (second, nanos) ← timeOfDay
  let seconds := date.dayNumber * secondsPerDay + second - (← offset)
  skip isSpace
  if date.isValid ∧ (Date.ofDayNumber (seconds / secondsPerDay)).isValid then
    return ⟨seconds, nanos⟩
  else failure

/-- The point in time that a whole text stands for. -/
def parse? (text : String) : Option Timestamp := scan.whole? text

end Timestamp

end ElasticCache
