/-!
# Timestamps

A hive stores a time as the number of 100-nanosecond ticks since the start of
the year 1601. `Instant.ofFiletime` counts the same time in seconds and
nanoseconds from the start of 1970, and `Instant.rfc3339` writes it as a
calendar date and a time of day in UTC.
-/

namespace RegistryHive

/-- The number of ticks of 100 nanoseconds from the start of 1601 to the start of 1970. -/
def epochTicks : Nat := 116444736000000000

/-- The number of ticks in a second. -/
def ticksPerSecond : Nat := 10000000

/-- A point in time: whole seconds since the start of 1970, and the nanoseconds after them. -/
structure Instant where
  seconds : Int
  nanoseconds : Nat
  deriving DecidableEq, Repr

/-- A date of the Gregorian calendar. -/
structure CivilDate where
  year : Int
  month : Nat
  day : Nat
  deriving DecidableEq, Repr

namespace CivilDate

/-- The date a number of days after the first of January 1970. The calendar repeats every 400
years, and a year is counted from March on, so that a leap day ends its year. -/
def ofDays (days : Int) : CivilDate :=
  let shifted := days + 719468
  let era := shifted / 146097
  let dayOfEra := (shifted % 146097).toNat
  let yearOfEra :=
    (dayOfEra - dayOfEra / 1460 + dayOfEra / 36524 - dayOfEra / 146096) / 365
  let dayOfYear := dayOfEra - (365 * yearOfEra + yearOfEra / 4 - yearOfEra / 100)
  let monthFromMarch := (5 * dayOfYear + 2) / 153
  let month := if monthFromMarch < 10 then monthFromMarch + 3 else monthFromMarch - 9
  let year : Int := yearOfEra + era * 400
  { year := if month ≤ 2 then year + 1 else year
    month := month
    day := dayOfYear - (153 * monthFromMarch + 2) / 5 + 1 }

end CivilDate

/-- A number in decimal, filled with zeros to the given width. -/
def paddedDecimal (width value : Nat) : String :=
  String.ofList ((Nat.toDigits 10 value).leftpad width '0')

namespace Instant

/-- The time that a number of ticks since the start of 1601 stands for. -/
def ofFiletime (filetime : UInt64) : Instant :=
  let ticks : Int := (filetime.toNat : Int) - epochTicks
  { seconds := ticks / ticksPerSecond
    nanoseconds := (ticks % ticksPerSecond).toNat * 100 }

/-- A year in four digits; a year that needs more, or lies before the year zero, has a sign. -/
def yearText (year : Int) : String :=
  if 0 ≤ year && year ≤ 9999 then paddedDecimal 4 year.toNat
  else if 0 ≤ year then "+" ++ paddedDecimal 4 year.toNat
  else "-" ++ paddedDecimal 4 year.natAbs

/-- The fraction of a second in three, six or nine digits, the fewest that lose nothing; no
fraction when it is zero. -/
def fractionText (nanoseconds : Nat) : String :=
  if nanoseconds = 0 then ""
  else if nanoseconds % 1000000 = 0 then "." ++ paddedDecimal 3 (nanoseconds / 1000000)
  else if nanoseconds % 1000 = 0 then "." ++ paddedDecimal 6 (nanoseconds / 1000)
  else "." ++ paddedDecimal 9 nanoseconds

/-- The date and the time of day in UTC, without a mark for the time zone. -/
def dateTimeText (instant : Instant) : String :=
  let date := CivilDate.ofDays (instant.seconds / 86400)
  let second := (instant.seconds % 86400).toNat
  yearText date.year ++ "-" ++ paddedDecimal 2 date.month ++ "-" ++ paddedDecimal 2 date.day ++
    "T" ++ paddedDecimal 2 (second / 3600) ++ ":" ++ paddedDecimal 2 (second / 60 % 60) ++ ":" ++
    paddedDecimal 2 (second % 60) ++ fractionText instant.nanoseconds

/-- The instant in the format of RFC 3339, with the numeric mark of UTC. -/
def rfc3339 (instant : Instant) : String := instant.dateTimeText ++ "+00:00"

/-- The instant in the format of RFC 3339, with the short mark of UTC. -/
def rfc3339Zulu (instant : Instant) : String := instant.dateTimeText ++ "Z"

end Instant

end RegistryHive
