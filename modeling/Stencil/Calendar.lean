import Stencil.Number.Double
import Stencil.Text.Words

/-! Dates and times of day in the proleptic Gregorian calendar: their written form, the ISO
8601 forms that are read, and moments counted in seconds from 1970. -/
namespace Stencil

structure Date where
  year : Nat
  month : Nat
  day : Nat
deriving DecidableEq, Repr

structure DateTime where
  date : Date
  hour : Nat
  minute : Nat
  second : Nat
  microsecond : Nat
deriving DecidableEq, Repr

/-- The time between two moments. -/
structure Duration where
  days : Int
  seconds : Nat
  microseconds : Nat
deriving DecidableEq, Repr

namespace Calendar

def firstYear : Nat := 1
def lastYear : Nat := 9999

def isLeap (year : Nat) : Bool := year % 4 == 0 && (year % 100 != 0 || year % 400 == 0)

def monthLengths (year : Nat) : List Nat :=
  [31, if isLeap year then 29 else 28, 31, 30, 31, 30, 31, 31, 30, 31, 30, 31]

/-- Days before the first of January. -/
def daysBeforeYear (year : Nat) : Nat :=
  let past := year - 1
  past * 365 + past / 4 - past / 100 + past / 400

/-- Month and day of a day counted from zero within a year. -/
def monthAndDay (month rest : Nat) : List Nat → Nat × Nat
  | [] => (month, rest + 1)
  | length :: lengths =>
    if rest < length then (month, rest + 1) else monthAndDay (month + 1) (rest - length) lengths

/-- The date with a given number of days between it and the first day of year one. -/
def dateOfDays (days : Nat) : Date :=
  let inEra := days % 146097
  let centuries := min 3 (inEra / 36524)
  let inCentury := inEra - centuries * 36524
  let inCycle := inCentury % 1461
  let years := min 3 (inCycle / 365)
  let year := days / 146097 * 400 + centuries * 100 + inCentury / 1461 * 4 + years + 1
  let (month, day) := monthAndDay 1 (inCycle - years * 365) (monthLengths year)
  ⟨year, month, day⟩

/-- Days from the first day of year one. -/
def daysOfDate (date : Date) : Nat :=
  let before := ((monthLengths date.year).take (date.month - 1)).foldl (· + ·) 0
  daysBeforeYear date.year + before + date.day - 1

def validDate (date : Date) : Bool :=
  firstYear ≤ date.year && date.year ≤ lastYear && 1 ≤ date.month && 1 ≤ date.day &&
    ((monthLengths date.year)[date.month - 1]?).any (date.day ≤ ·)

def valid (moment : DateTime) : Bool :=
  validDate moment.date && moment.hour < 24 && moment.minute < 60 && moment.second < 60

/-! ### Written forms -/

/-- Decimal digits with zeros in front up to a width. -/
def padded (width n : Nat) : List Char :=
  let digits := Nat.toDigits 10 n
  List.replicate (width - digits.length) '0' ++ digits

def dateText (date : Date) : List Char :=
  padded 4 date.year ++ '-' :: padded 2 date.month ++ '-' :: padded 2 date.day

/-- Microseconds are written only when there are any. -/
def text (separator : Char) (moment : DateTime) : List Char :=
  dateText moment.date ++ separator :: padded 2 moment.hour ++ ':' :: padded 2 moment.minute ++
    ':' :: padded 2 moment.second ++
    (if moment.microsecond == 0 then [] else '.' :: padded 6 moment.microsecond)

/-- Days are written only when there are any, and so are microseconds. -/
def durationText (time : Duration) : List Char :=
  let days := (toString time.days).toList ++ " day".toList ++
    (if time.days.natAbs == 1 then [] else ['s']) ++ [',', ' ']
  (if time.days == 0 then [] else days) ++ Nat.toDigits 10 (time.seconds / 3600) ++
    ':' :: padded 2 (time.seconds / 60 % 60) ++ ':' :: padded 2 (time.seconds % 60) ++
    (if time.microseconds == 0 then [] else '.' :: padded 6 time.microseconds)

/-! ### Reading -/

def digit? (c : Char) : Option Nat :=
  if '0' ≤ c && c ≤ '9' then some (c.toNat - 48) else none

/-- A number of exactly `count` digits. -/
def digits? : (count : Nat) → (value : Nat) → List Char → Option (Nat × List Char)
  | 0, value, rest => some (value, rest)
  | count + 1, value, c :: rest => do digits? count (10 * value + (← digit? c)) rest
  | _ + 1, _, [] => none

/-- Weekday of a day counted from the first day of year one; Monday is zero. -/
def weekday (days : Nat) : Nat := days % 7

def hasLongWeeks (year : Nat) : Bool :=
  let first := weekday (daysBeforeYear year)
  first == 3 || (first == 2 && isLeap year)

/-- Date of a day of an ISO week. -/
def dateOfWeek (year week day : Nat) : Option Date :=
  if firstYear ≤ year && year ≤ lastYear && 1 ≤ week && (week < 53 || (week == 53 && hasLongWeeks year))
      && 1 ≤ day && day ≤ 7 then
    let start := daysBeforeYear year
    let monday : Int := if weekday start ≤ 3 then (start : Int) - weekday start
      else (start : Int) - weekday start + 7
    some (dateOfDays (monday + (week - 1) * 7 + (day - 1)).toNat)
  else none

/-- Where the date ends, judged by its fifth and sixth characters. In `YYYYWww` and
`YYYYWwwd` an even count of digits tells that the day is written. -/
def dateLength (text : List Char) : Nat :=
  let size := text.length
  let isDigitAt (i : Nat) : Bool := (text[i]?.bind digit?).isSome
  if size == 7 then 7
  else if text[4]? == some '-' then
    if text[5]? == some 'W' then
      if text[8]? == some '-' && !(size > 10 && isDigitAt 10) then 10 else 8
    else 10
  else if text[4]? == some 'W' then
    let stop := 7 + ((text.drop 7).takeWhile fun c => (digit? c).isSome).length
    if stop < 9 then stop else if stop % 2 == 0 then 7 else 8
  else 8

/-- A date that takes up a whole text. -/
def date? (text : List Char) : Option Date := do
  let (year, rest) ← digits? 4 0 text
  let separated := rest.head? == some '-'
  let rest := if separated then rest.drop 1 else rest
  let skip (rest : List Char) : Option (List Char) :=
    if separated then (if rest.head? == some '-' then some (rest.drop 1) else none) else some rest
  match rest with
  | 'W' :: rest =>
    let (week, rest) ← digits? 2 0 rest
    if rest.isEmpty then dateOfWeek year week 1
    else
      let (day, _) ← digits? 1 0 (← skip rest)
      dateOfWeek year week day
  | rest =>
    let (month, rest) ← digits? 2 0 rest
    let (day, rest) ← digits? 2 0 (← skip rest)
    if rest.isEmpty then some ⟨year, month, day⟩ else none

/-- Hours, minutes, seconds and microseconds, and whether something is left over. -/
structure Clock where
  fields : List Nat
  microsecond : Nat
  leftOver : Bool

/-- The end of a text, or a null character. -/
def atEnd (text : List Char) : Bool := text.headD '\x00' == '\x00'

/-- Up to six digits count, further ones are passed over. -/
def fraction? (fields : List Nat) (text : List Char) : Option Clock := do
  let count := min 6 text.length
  let (value, rest) ← digits? count 0 text
  let after := rest.dropWhile fun c => (digit? c).isSome
  some ⟨fields, value * Nat.pow 10 (6 - count), !atEnd after⟩

/-- Fields of two digits; `colons` tells, after the first one, whether colons separate them.
One ASCII character may be left over. -/
def clockFrom : (more : Nat) → (colons : Option Bool) → List Nat → List Char → Option Clock
  | 0, _, fields, text => fraction? fields text
  | more + 1, colons, fields, text => do
    let (value, rest) ← digits? 2 0 text
    let fields := fields ++ [value]
    match rest with
    | [] => some ⟨fields, 0, false⟩
    | [c] => if c.val < 128 then some ⟨fields, 0, !atEnd rest⟩ else none
    | c :: after =>
      let separated := colons.getD (c == ':')
      if separated && c == ':' then clockFrom more (some true) fields after
      else if c == '.' || c == ',' then fraction? fields after
      else if !separated then clockFrom more (some false) fields rest
      else none

def clock? (text : List Char) : Option Clock := clockFrom 3 none [] text

/-- An offset from universal time of less than a day. -/
def validZone (text : List Char) : Bool :=
  match clock? text with
  | none => false
  | some clock =>
    let field (i : Nat) : Nat := clock.fields.getD i 0
    let seconds := field 0 * 3600 + field 1 * 60 + field 2
    !clock.leftOver && seconds * 1000000 + clock.microsecond < 86400 * 1000000

/-- A time of day with an optional offset, which is checked and not applied. -/
def time? (date : Date) (text : List Char) : Option DateTime := do
  let isMark (c : Char) : Bool := c == '+' || c == '-' || c == 'Z'
  let clock ← clock? (text.takeWhile (!isMark ·))
  let zone := text.dropWhile (!isMark ·)
  let field (i : Nat) : Nat := clock.fields.getD i 0
  let moment : DateTime := ⟨date, field 0, field 1, field 2, clock.microsecond⟩
  match zone with
  | [] => if clock.leftOver then none else some moment
  | _ :: offset => if validZone offset then some moment else none

/-- A date, alone or with a time of day after one character of any kind. -/
def read? (text : List Char) : Option DateTime := do
  if text.length < 7 then none
  let size := dateLength text
  let date ← date? (text.take size)
  let moment ← match text.drop size with
    | [] => some ⟨date, 0, 0, 0, 0⟩
    | _ :: rest => time? date rest
  if valid moment then some moment else none

/-! ### Moments -/

/-- Days from the first day of year one to the first of January 1970. -/
def epochDays : Nat := 719162

/-- The moment a number of seconds after 1970 began, to the nearest microsecond. The first
day of year one is out of range. -/
def ofSeconds? : Double → Option DateTime
  | .finite negative units =>
    let whole := units / Double.one
    let million := Double.ofInt 1000000
    let micros := match (Double.finite false (units % Double.one)).mul million with
      | .finite _ u => nearest u Double.one
      | _ => 0
    let total : Int := Double.signed negative (whole * 1000000 + micros) + epochDays * 86400 * 1000000
    if total < 86400 * 1000000 then none
    else
      let total := total.toNat
      let seconds := total / 1000000
      let date := dateOfDays (seconds / 86400)
      if date.year ≤ lastYear then
        some ⟨date, seconds / 3600 % 24, seconds / 60 % 60, seconds % 60, total % 1000000⟩
      else none
  | _ => none

end Calendar
end Stencil
