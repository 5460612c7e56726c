import Mathlib

/-!
# IsoFormat — dates and date-times in the formats of ISO 8601

A date is written `YYYY-MM-DD` or `YYYYMMDD`, or by its week, `YYYY-Www-D` or `YYYYWwwD`, where the
day may be left out.  One character, whatever it is, may separate it from a time
`HH[:MM[:SS[.ffffff]]]`, with colons or without, and an offset may follow.
-/

namespace IsoFormat

/-! ## The calendar -/

def isLeap (year : ℕ) : Bool :=
  decide (year % 4 = 0 ∧ (year % 100 ≠ 0 ∨ year % 400 = 0))

def daysInMonth (year month : ℕ) : ℕ :=
  if month = 2 then if isLeap year then 29 else 28
  else if month = 4 ∨ month = 6 ∨ month = 9 ∨ month = 11 then 30
  else 31

/-- The days before the first of January. -/
def daysBeforeYear (year : ℕ) : ℕ :=
  (year - 1) * 365 + (year - 1) / 4 - (year - 1) / 100 + (year - 1) / 400

def toOrdinal (year month day : ℕ) : ℕ :=
  daysBeforeYear year + ((List.range' 1 (month - 1)).map (daysInMonth year)).sum + day

def maxOrdinal : ℕ := 3652059

def ofDate (year month day : ℕ) : Option ℕ :=
  if 1 ≤ year ∧ 1 ≤ month ∧ month ≤ 12 ∧ 1 ≤ day ∧ day ≤ daysInMonth year month then
    some (toOrdinal year month day)
  else none

def firstWeekday (year : ℕ) : ℕ := (daysBeforeYear year + 7) % 7

/-- The Monday of the week that holds the first Thursday. -/
def weekOneMonday (year : ℕ) : ℕ :=
  daysBeforeYear year + 1 + (if 3 < firstWeekday year then 7 else 0) - firstWeekday year

def isWeek (year week : ℕ) : Bool :=
  decide (1 ≤ week ∧ week ≤ 52) ||
    decide (week = 53 ∧ (firstWeekday year = 3 ∨ firstWeekday year = 2 ∧ isLeap year = true))

def ofWeek (year week day : ℕ) : Option ℕ :=
  if 1 ≤ year ∧ isWeek year week = true ∧ 1 ≤ day ∧ day ≤ 7 ∧
      weekOneMonday year + 7 * (week - 1) + (day - 1) ≤ maxOrdinal then
    some (weekOneMonday year + 7 * (week - 1) + (day - 1))
  else none

/-! ## Dates -/

/-- Exactly `n` digits in front, read after the value `acc`. -/
def digits : ℕ → ℕ → List Char → Option (ℕ × List Char)
  | 0, acc, s => some (acc, s)
  | _ + 1, _, [] => none
  | n + 1, acc, c :: s =>
    if c.isDigit then digits n (10 * acc + (c.toNat - '0'.toNat)) s else none

def dash (dashed : Bool) (s : List Char) : Option (List Char) :=
  if dashed then if s.head? = some '-' then some s.tail else none else some s

def weekDate (year : ℕ) (dashed : Bool) (s : List Char) : Option ℕ := do
  let (week, s) ← digits 2 0 s
  if s = [] then ofWeek year week 1
  else
    let s ← dash dashed s
    let (day, _) ← digits 1 0 s
    ofWeek year week day

def monthDate (year : ℕ) (dashed : Bool) (s : List Char) : Option ℕ := do
  let (month, s) ← digits 2 0 s
  let s ← dash dashed s
  let (day, _) ← digits 2 0 s
  ofDate year month day

def date (s : List Char) : Option ℕ := do
  let (year, s) ← digits 4 0 s
  let dashed := decide (s.head? = some '-')
  let s := if dashed then s.tail else s
  if s.head? = some 'W' then weekDate year dashed s.tail else monthDate year dashed s

/-! ## Times -/

/-- The fields that were read, the microseconds, and whether nothing is left over. -/
structure Clock where
  fields : List ℕ
  micros : ℕ
  whole : Bool

def Clock.seconds (k : Clock) : ℕ :=
  3600 * k.fields.getD 0 0 + 60 * k.fields.getD 1 0 + k.fields.getD 2 0

def Clock.isTime (k : Clock) : Bool :=
  decide (k.fields.getD 0 0 < 24 ∧ k.fields.getD 1 0 < 60 ∧ k.fields.getD 2 0 < 60)

/-- Six digits of a fraction count; the others are skipped. -/
def fraction (fields : List ℕ) (s : List Char) : Option Clock := do
  let (value, rest) ← digits (min 6 s.length) 0 s
  some ⟨fields, value * 10 ^ (6 - min 6 s.length), (rest.dropWhile Char.isDigit).headD '\x00' = '\x00'⟩

/-- `HH[:?MM[:?SS]]`, of which `left` fields are still to come. -/
def clockFrom : ℕ → Option Bool → List ℕ → List Char → Option Clock
  | 0, _, fields, s => fraction fields s
  | left + 1, colons, fields, s => do
    let (value, s) ← digits 2 0 s
    let colons := colons.getD (decide (s.head? = some ':'))
    match s with
    | [] => some ⟨fields ++ [value], 0, true⟩
    | [c] => some ⟨fields ++ [value], 0, decide (c = '\x00')⟩
    | c :: rest =>
      if colons ∧ c = ':' then clockFrom left (some colons) (fields ++ [value]) rest
      else if c = '.' ∨ c = ',' then fraction (fields ++ [value]) rest
      else if colons then none
      else clockFrom left (some colons) (fields ++ [value]) s

def clock (s : List Char) : Option Clock := clockFrom 3 none [] s

def isZone (c : Char) : Bool := decide (c = '+' ∨ c = '-' ∨ c = 'Z')

/-- The microseconds that a local clock is ahead; less than a second off is not off at all. -/
def zone (sign : Char) (s : List Char) : Option ℤ := do
  if sign = 'Z' then if s.headD '\x00' = '\x00' then some 0 else none
  else
    let k ← clock s
    if k.whole = false then none
    else if k.seconds = 0 then some 0
    else if 86400 ≤ k.seconds then none
    else some ((if sign = '-' then -1 else 1) * (k.seconds * 1000000 + k.micros))

/-! ## Date-times -/

/-- A date-time: its clock in microseconds, and its offset if it carries one. -/
structure Moment where
  clock : ℤ
  offset : Option ℤ
deriving DecidableEq

def Moment.aware (m : Moment) : Bool := m.offset.isSome

/-- The point in time; without an offset it is only comparable with others that have none. -/
def Moment.instant (m : Moment) : ℤ := m.clock - m.offset.getD 0

def moment (day : ℕ) (k : Clock) (offset : Option ℤ) : Option Moment :=
  if k.isTime then some ⟨(day * 86400 + k.seconds) * 1000000 + k.micros, offset⟩ else none

def timeOfDay (day : ℕ) (s : List Char) : Option Moment := do
  let k ← clock (s.takeWhile fun c => !isZone c)
  match s.dropWhile fun c => !isZone c with
  | [] => if k.whole then moment day k none else none
  | sign :: rest => (zone sign rest).bind fun offset => moment day k (some offset)

def separator (s : List Char) : Option ℕ :=
  let char n := s.getD n '\x00'
  if s.length = 7 then some 7
  else if char 4 = '-' then
    if char 5 ≠ 'W' then some 10
    else if char 8 ≠ '-' then some 8
    else if s.length = 9 then none
    else if (char 10).isDigit then some 8
    else some 10
  else if char 4 = 'W' then
    let stop := 7 + ((s.drop 7).takeWhile Char.isDigit).length
    if stop < 9 then some stop
    else if stop % 2 = 0 then some 7
    else some 8
  else some 8

/-- `datetime.fromisoformat` -/
def fromisoformat (s : List Char) : Option Moment := do
  if s.length < 7 then none
  let n ← separator s
  let day ← date (s.take n)
  match s.drop n with
  | [] => some ⟨day * 86400 * 1000000, none⟩
  | _ :: rest => timeOfDay day rest

end IsoFormat
