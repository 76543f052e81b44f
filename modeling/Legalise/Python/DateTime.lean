import Legalise.Python.Text

/-!
This module contains Python's `datetime`, with or without an offset from UTC, and how `datetime.fromisoformat` reads one.
-/

/--
The fields of a `datetime` and its offset from UTC in microseconds. Without an offset it is naive.
-/
structure DateTime where
  fields : Timestamp
  offset : Option Int
  deriving DecidableEq

def daysInYear (year : Nat) : Nat :=
  if year % 4 = 0 ∧ (year % 100 ≠ 0 ∨ year % 400 = 0) then 366 else 365

namespace Timestamp

/--
The days of the earlier years, since the year 1.
-/
def daysBeforeYear (year : Nat) : Nat :=
  (year - 1) * 365 + (year - 1) / 4 - (year - 1) / 100 + (year - 1) / 400

def daysBeforeMonth (year month : Nat) : Nat :=
  ((List.range (month - 1)).map fun m => daysInMonth year (m + 1)).sum

/--
The microseconds since the beginning of the year 1.
-/
def micros (t : Timestamp) : Int :=
  ((((daysBeforeYear t.year + daysBeforeMonth t.year t.month + (t.day - 1)) * 24 + t.hour) * 60 + t.minute) * 60
    + t.second) * 1000000 + t.microsecond

end Timestamp

namespace DateTime

section Dates

/--
The month and the day of a day in the year, counted from 0.
-/
def monthDay (year : Nat) : List Nat → Nat → Option (Nat × Nat)
  | [], _ => none
  | month :: months, n =>
    if n < daysInMonth year month then some (month, n + 1)
    else monthDay year months (n - daysInMonth year month)

/--
The day of the week of the first of January, where Monday is 0.
-/
def firstWeekday (year : Nat) : Nat :=
  Timestamp.daysBeforeYear year % 7

/--
`iso_to_ymd`: the date of a day in a week. The first week of a year is the one with its first Thursday.
-/
def isoToYmd (year week day : Nat) : Option (Nat × Nat × Nat) :=
  let first := firstWeekday year
  let weeks := if first = 3 ∨ first = 2 ∧ daysInYear year = 366 then 53 else 52
  if (1 ≤ year ∧ year ≤ 9999) ∧ (1 ≤ week ∧ week ≤ weeks) ∧ 1 ≤ day ∧ day ≤ 7 then
    -- The days since the Monday before the first of January, or on it.
    let days := (week - 1) * 7 + (day - 1) + if first ≤ 3 then 0 else 7
    if days < first then some (year - 1, 12, 32 + days - first)
    else if daysInYear year ≤ days - first then some (year + 1, 1, days - first - daysInYear year + 1)
    else (monthDay year ((List.range 12).map (· + 1)) (days - first)).map fun date => (year, date)
  else none

/--
A character that may stand at the front of a text.
-/
def dropPoint (c : CodePoint) (s : PyStr) : Option PyStr :=
  if s.head? = some c then some s.tail else none

/--
`parse_isoformat_date`: `YYYY-MM-DD` or `YYYY-Www-D`, with all the dashes or with none.
-/
def parseDate (s : PyStr) : Option (Nat × Nat × Nat) := do
  let (year, s) ← readDigits 4 s
  let dash := CodePoint.ofChar '-'
  let dashed := s.head? = some dash
  let s := (dropPoint dash s).getD s
  match dropPoint (CodePoint.ofChar 'W') s with
  | some s =>
    let (week, s) ← readDigits 2 s
    if s = [] then isoToYmd year week 1
    else
      let s ← if dashed then dropPoint dash s else some s
      let (day, s) ← readDigits 1 s
      if s = [] then isoToYmd year week day else none
  | none =>
    let (month, s) ← readDigits 2 s
    let s ← if dashed then dropPoint dash s else some s
    let (day, s) ← readDigits 2 s
    if s = [] then some (year, month, day) else none

end Dates

section Times

/--
The microseconds of a fraction, of which all digits after the sixth are dropped.
-/
def parseFraction (s : PyStr) : Option Nat :=
  if s ≠ [] ∧ s.all (· ∈ py "0123456789") then
    some (ofFixedDigits 10 (((s ++ py "00000").take 6).map digitVal))
  else none

/--
`parse_hh_mm_ss_ff`: `HH`, `HH:MM` or `HH:MM:SS`, with all the colons or with none, and a fraction of a second.
-/
def parseClock (s : PyStr) : Option (Nat × Nat × Nat × Nat) := do
  let colon := CodePoint.ofChar ':'
  let (hour, s) ← readDigits 2 s
  if s = [] then return (hour, 0, 0, 0)
  else
    let separated := s.head? = some colon
    let s := (dropPoint colon s).getD s
    let (minute, s) ← readDigits 2 s
    if s = [] then return (hour, minute, 0, 0)
    else
      let s ← if separated then dropPoint colon s else some s
      let (second, s) ← readDigits 2 s
      match s with
      | [] => return (hour, minute, second, 0)
      | mark :: s =>
        if mark ∈ py ".," then
          let microsecond ← parseFraction s
          return (hour, minute, second, microsecond)
        else none

/--
The offset after its sign, which is less than a day.
-/
def parseOffset (sign : Int) (s : PyStr) : Option Int := do
  let (hour, minute, second, microsecond) ← parseClock s
  let n := ((hour * 60 + minute) * 60 + second) * 1000000 + microsecond
  if n < 86400000000 then return sign * n else none

/--
`parse_isoformat_time`: the time of day and its offset, which is `none` if there is none.
-/
def parseTime (s : PyStr) : Option ((Nat × Nat × Nat × Nat) × Option Int) := do
  let clock ← parseClock (s.takeWhile (· ∉ py "+-Z"))
  match s.dropWhile (· ∉ py "+-Z") with
  | [] => return (clock, none)
  | mark :: rest =>
    if mark = CodePoint.ofChar 'Z' then
      if rest = [] then return (clock, some 0) else none
    else
      let offset ← parseOffset (if mark = CodePoint.ofChar '-' then -1 else 1) rest
      return (clock, some offset)

end Times

section Isoformat

def isAsciiDigit (s : PyStr) (i : Nat) : Bool :=
  (s.drop i).head?.any (· ∈ py "0123456789")

/--
`_find_isoformat_datetime_separator`: where the date ends.
-/
def separatorAt (s : PyStr) : Option Nat :=
  let at? (i : Nat) (c : Char) : Bool := (s.drop i).head? = some (CodePoint.ofChar c)
  if s.length = 7 then some 7
  else if at? 4 '-' then
    if at? 5 'W' then
      if at? 8 '-' then
        if s.length = 9 then none
        -- A digit in the eleventh place may begin a time: the hyphen is taken as the separator.
        else if isAsciiDigit s 10 then some 8
        else some 10
      else some 8
    else some 10
  else if at? 4 'W' then
    let digitsEnd := 7 + ((s.drop 7).takeWhile (· ∈ py "0123456789")).length
    if digitsEnd < 9 then some digitsEnd
    else if digitsEnd % 2 = 0 then some 7
    else some 8
  else some 8

/--
`datetime.fromisoformat(text)`, where `none` stands for a `ValueError`. Any character may separate the date from the time.
-/
def fromisoformat (s : PyStr) : Option DateTime := do
  if s.length < 7 then none
  else
    let i ← separatorAt s
    let (year, month, day) ← parseDate (s.take i)
    let ((hour, minute, second, microsecond), offset) ←
      if s.length ≤ i then some ((0, 0, 0, 0), none) else parseTime (s.drop (i + 1))
    let fields ← Timestamp.ofFields? year month day hour minute second microsecond
    return ⟨fields, offset⟩

end Isoformat

end DateTime
