import HttpFile.Text.Basic

/-!
# `HttpFile.Value.Calendar` — dates and moments

Plain data may hold dates and moments. A moment has a time of day and possibly the offset of its
zone.

## Contents
- **Types.** `Date`, `Moment`.
- **Validity.** `daysInMonth`, `Date.isValid`, `Moment.isValid`.
- **Texts.** `Date.text`, `Moment.text`, and the constructor forms `Date.shown`, `Moment.shown`.
-/

namespace HttpFile

open Text

/-- A day of the calendar. -/
structure Date where
  year : Nat
  month : Nat
  day : Nat
deriving DecidableEq, Repr

/-- A day, a time of that day, and the zone's offset in seconds if one is known. -/
structure Moment where
  date : Date
  hour : Nat
  minute : Nat
  second : Nat
  microsecond : Nat := 0
  offset : Option Int := none
deriving DecidableEq, Repr

/-- Whether a year has a leap day. -/
def isLeapYear (year : Nat) : Bool := year % 4 == 0 && (year % 100 != 0 || year % 400 == 0)

/-- The length of a month; there is no month but the first twelve. -/
def daysInMonth (year : Nat) : Nat → Nat
  | 2 => if isLeapYear year then 29 else 28
  | 4 | 6 | 9 | 11 => 30
  | 1 | 3 | 5 | 7 | 8 | 10 | 12 => 31
  | _ => 0

/-- Whether a date is one of the years 1 to 9999. -/
def Date.isValid (d : Date) : Bool :=
  1 ≤ d.year && d.year ≤ 9999 && 1 ≤ d.day && d.day ≤ daysInMonth d.year d.month

/-- Whether the date is one and the time is one of a day. -/
def Moment.isValid (m : Moment) : Bool :=
  m.date.isValid && m.hour < 24 && m.minute < 60 && m.second < 60 && m.microsecond < 1000000

/-- A number with zeros in front up to a width. -/
def padded (width n : Nat) : Text :=
  let digits := ofNat n
  List.replicate (width - digits.length) '0' ++ digits

/-- Year, month and day with hyphens between them. -/
def Date.text (d : Date) : Text :=
  padded 4 d.year ++ "-" ++ padded 2 d.month ++ "-" ++ padded 2 d.day

/-- The parts of a list with commas between them. -/
def listed (parts : List Text) : Text := ", ".toList.intercalate parts

/-- The date as a call of its constructor. -/
def Date.shown (d : Date) : Text :=
  "datetime.date(" ++ listed [ofNat d.year, ofNat d.month, ofNat d.day] ++ ")"

/-- An offset as hours and minutes with a sign, and seconds if there are any. -/
def offsetText (offset : Int) : Text :=
  let total := offset.natAbs
  let seconds := total % 60
  [if offset < 0 then '-' else '+'] ++ padded 2 (total / 3600) ++ ":" ++
    padded 2 (total / 60 % 60) ++ (if seconds = 0 then [] else ':' :: padded 2 seconds)

/-- The date, the time of day, its fraction if it has one, and the offset. -/
def Moment.text (m : Moment) : Text :=
  m.date.text ++ " " ++ padded 2 m.hour ++ ":" ++ padded 2 m.minute ++ ":" ++ padded 2 m.second ++
    (if m.microsecond = 0 then [] else '.' :: padded 6 m.microsecond) ++
    ((m.offset.map offsetText).getD [])

/-- An offset as a call of the constructor of zones: a number of whole days, then seconds. -/
def offsetShown (offset : Int) : Text :=
  if offset = 0 then "datetime.timezone.utc"
  else
    let days := offset.fdiv 86400
    let seconds := offset.fmod 86400
    let parts := (if days = 0 then [] else ["days=" ++ ofInt days]) ++
      (if seconds = 0 then [] else ["seconds=" ++ ofInt seconds])
    "datetime.timezone(datetime.timedelta(" ++ listed parts ++ "))"

/-- The moment as a call of its constructor; noughts at the end of the time are left out. -/
def Moment.shown (m : Moment) : Text :=
  let time := if m.microsecond ≠ 0 then [m.second, m.microsecond]
    else if m.second ≠ 0 then [m.second]
    else []
  let parts := [m.date.year, m.date.month, m.date.day, m.hour, m.minute] ++ time
  let zone := (m.offset.map fun o => "tzinfo=" ++ offsetShown o).toList
  "datetime.datetime(" ++ listed (parts.map ofNat ++ zone) ++ ")"

end HttpFile
