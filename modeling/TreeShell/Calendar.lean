import TreeShell.Error
import TreeShell.Json.Basic

/-!
# Dates and times

A moment is counted in microseconds from the beginning of 1970. Its text has the date and the
time of day to the millisecond, cut off and not rounded. The clock counts seconds in 64 bits and
years in 32; the calendar covers the years 1 to 9999.
-/

namespace TreeShell

/-- Microseconds since 1970. -/
structure Moment where
  micros : Int
  deriving DecidableEq, Repr

structure Date where
  year : Int
  month : Nat
  day : Nat
  deriving DecidableEq, Repr

/-- The date a number of days after the first one of 1970. Years are counted from March, so that
a leap day is the last of its year; 146097 days make 400 years. -/
def Date.ofDays (days : Int) : Date :=
  let shifted := days + 719468
  let era := shifted.fdiv 146097
  let day := (shifted.fmod 146097).toNat
  let year := (day - day / 1460 + day / 36524 - day / 146096) / 365
  let dayOfYear := day - (365 * year + year / 4 - year / 100)
  let month := (5 * dayOfYear + 2) / 153
  let dayOfMonth := dayOfYear - (153 * month + 2) / 5 + 1
  let late := 10 ≤ month
  ⟨era * 400 + year + (if late then 1 else 0), if late then month - 9 else month + 3, dayOfMonth⟩

namespace Moment

inductive Fault where
  | notANumber
  | mismatch (m : Mismatch)
  /-- The clock does not count so many seconds. -/
  | beyondClock
  /-- The clock does not count so many years. -/
  | beyondYears
  /-- The calendar does not cover the year. -/
  | beyondCalendar (year : Int)
  deriving DecidableEq, Repr

namespace Fault

def message : Fault → String
  | notANumber => "Invalid value NaN (not a number)"
  | mismatch m => m.message
  | beyondClock => "timestamp out of range for platform time_t"
  | beyondYears => "[Errno 75] Value too large for defined data type"
  | beyondCalendar year => "year " ++ Number.intText year ++ " is out of range"

def title : Fault → String
  | notANumber | beyondCalendar _ => "ValueError"
  | mismatch m => m.title
  | beyondClock => "OverflowError"
  | beyondYears => "OSError"

end Fault

def second : Int := 1000000

def secondsPerDay : Int := 86400

def ofSeconds (n : Int) : Moment := ⟨n * second⟩

/-- The whole seconds since the beginning; before it they count negatively. -/
def seconds (m : Moment) : Int := m.micros.fdiv second

def signed (negative : Bool) (n : Nat) : Int := if negative then -(n : Int) else n

/-- The moment a finite number of seconds after the beginning: the fraction of a second is
multiplied out as a floating point number before it is rounded. -/
def ofReal : Number.Binary64 → Except Fault Moment
  | .finite negative mantissa exponent =>
      let (num, den) := Number.Binary64.ratio mantissa exponent
      let whole := signed negative (num / den)
      match Number.Binary64.ofRatio negative (num % den * 1000000) den with
      | .finite _ m e =>
          let (n, d) := Number.Binary64.ratio m e
          .ok ⟨whole * second + signed negative (Number.roundHalfEven n d)⟩
      | _ => .error .beyondClock
  | .infinity _ => .error .beyondClock
  | .notANumber => .error .notANumber

def ofJson : Json → Except Fault Moment
  | .int n => .ok (ofSeconds n)
  | .bool b => .ok (ofSeconds (if b then 1 else 0))
  | .real x => ofReal x
  | v => .error (.mismatch (.notWhole v.kindName))

/-- The number of midnights since the beginning; before it they count negatively. -/
def days (m : Moment) : Int := m.seconds.fdiv secondsPerDay

def date (m : Moment) : Date := Date.ofDays m.days

/-- What puts a moment outside the clock or the calendar. The first day of the calendar counts as
outside, since the day before it has no date. -/
def fault? (m : Moment) : Option Fault :=
  let inside (y : Int) : Bool := 1 ≤ y && y ≤ 9999
  let year := m.date.year
  let before := (Date.ofDays (m.days - 1)).year
  if m.seconds < -Nat.pow 2 63 ∨ Nat.pow 2 63 ≤ m.seconds then some .beyondClock
  else if year - 1900 < -Nat.pow 2 31 ∨ Nat.pow 2 31 ≤ year - 1900 then some .beyondYears
  else if !inside year then some (.beyondCalendar (Int.bmod year (Nat.pow 2 32)))
  else if !inside before then some (.beyondCalendar before)
  else none

/-- The date and the time of day to the millisecond. -/
def text (m : Moment) : String :=
  let date := m.date
  let millis := (m.micros.fdiv 1000 - m.days * (secondsPerDay * 1000)).toNat
  let two := Number.padded 2
  Number.intText date.year ++ "-" ++ two date.month ++ "-" ++ two date.day ++ " " ++
    two (millis / 3600000) ++ ":" ++ two (millis / 60000 % 60) ++ ":" ++
    two (millis / 1000 % 60) ++ "." ++ Number.padded 3 (millis % 1000)

end Moment

end TreeShell
