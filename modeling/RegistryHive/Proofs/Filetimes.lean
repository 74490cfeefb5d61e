import RegistryHive.Timestamp

/-!
# Filetimes as points in time

A filetime counts ticks in 64 bits without a sign, and most of them lie after
1970. The number of ticks from 1970 is cut into seconds by division towards the
past, so the nanoseconds behind them are never negative, also before 1970. No
tick is lost (`Instant.ticks_ofFiletime`), so filetimes and their instants are in
the same order (`Instant.ofFiletime_lt_iff`).

A calendar takes the seconds in 64 bits with a sign and the nanoseconds in 32
bits, and it has a first and a last year. `Calendar.ofFiletime?` goes through
these narrow numbers. No filetime is too far from 1970 for them, and all lie in
the years from 1601 to 60056 (`CivilDate.year_ofDays_bounds`), so a calendar that
covers these years has a time for each of them.
-/

namespace RegistryHive

namespace Instant

/-- An instant lies before another one. -/
instance : LT Instant where
  lt a b := a.seconds < b.seconds ∨ a.seconds = b.seconds ∧ a.nanoseconds < b.nanoseconds

theorem lt_iff {a b : Instant} :
    a < b ↔ a.seconds < b.seconds ∨ a.seconds = b.seconds ∧ a.nanoseconds < b.nanoseconds :=
  Iff.rfl

/-- The number of ticks from the start of 1970 to a filetime, negative before it. -/
def ticksOf (filetime : UInt64) : Int := (filetime.toNat : Int) - epochTicks

theorem ticksOf_bounds (filetime : UInt64) :
    -116444736000000000 ≤ ticksOf filetime ∧ ticksOf filetime < 18330299337709551616 := by
  have bound := filetime.toNat_lt
  rw [ticksOf, epochTicks]
  omega

section OfFiletime

variable (filetime : UInt64)

theorem seconds_ofFiletime : (ofFiletime filetime).seconds = ticksOf filetime / 10000000 := rfl

theorem nanoseconds_ofFiletime :
    (ofFiletime filetime).nanoseconds = (ticksOf filetime % 10000000).toNat * 100 := rfl

/-- The seconds and the nanoseconds of an instant are all the ticks of its filetime. -/
theorem ticks_ofFiletime :
    (ofFiletime filetime).seconds * 10000000 + ((ofFiletime filetime).nanoseconds / 100 : Nat) =
      (filetime.toNat : Int) - 116444736000000000 := by
  rw [seconds_ofFiletime, nanoseconds_ofFiletime]
  change _ = ticksOf filetime
  omega

theorem nanoseconds_ofFiletime_lt : (ofFiletime filetime).nanoseconds < 1000000000 := by
  rw [nanoseconds_ofFiletime]
  omega

theorem dvd_nanoseconds_ofFiletime : 100 ∣ (ofFiletime filetime).nanoseconds :=
  Nat.dvd_mul_left 100 _

theorem seconds_ofFiletime_bounds :
    -11644473600 ≤ (ofFiletime filetime).seconds ∧
      (ofFiletime filetime).seconds ≤ 1833029933770 := by
  have bounds := ticksOf_bounds filetime
  rw [seconds_ofFiletime]
  omega

end OfFiletime

/-- Filetimes are in the order of their instants. -/
theorem ofFiletime_lt_iff {filetime later : UInt64} :
    ofFiletime filetime < ofFiletime later ↔ filetime < later := by
  rw [lt_iff, UInt64.lt_iff_toNat_lt]
  simp only [seconds_ofFiletime, nanoseconds_ofFiletime, ticksOf]
  omega

theorem ofFiletime_injective {filetime other : UInt64}
    (same : ofFiletime filetime = ofFiletime other) : filetime = other := by
  have ticks := ticks_ofFiletime filetime
  rw [same, ticks_ofFiletime other] at ticks
  apply UInt64.toNat_inj.mp
  omega

end Instant

namespace CivilDate

/-- The days of the years from 1601 to 60056, as far as filetimes reach. -/
theorem year_ofDays_bounds (days : Int) (first : -134774 ≤ days) (last : days ≤ 21215624) :
    1601 ≤ (ofDays days).year ∧ (ofDays days).year ≤ 60056 := by
  simp only [ofDays]
  split <;> omega

end CivilDate

/-- A calendar with times of a kind of its own. -/
structure Calendar (Time : Type) where
  /-- The time so many seconds and nanoseconds after the start of 1970, if the calendar has it. -/
  ofTimestamp? : Int64 → UInt32 → Option Time
  /-- The instant of a time. -/
  instant : Time → Instant

namespace Calendar

variable {Time : Type}

/-- The calendar has every nanosecond of the years from one to another. -/
def Covers (calendar : Calendar Time) (first last : Int) : Prop :=
  ∀ (seconds : Int64) (nanoseconds : UInt32),
    first ≤ (CivilDate.ofDays (seconds.toInt / 86400)).year →
    (CivilDate.ofDays (seconds.toInt / 86400)).year ≤ last →
    nanoseconds.toNat < 1000000000 →
    ∃ time, calendar.ofTimestamp? seconds nanoseconds = some time ∧
      calendar.instant time = { seconds := seconds.toInt, nanoseconds := nanoseconds.toNat }

/-- The time of a filetime. The nanoseconds are cut to 32 bits, and there is no time when the
seconds do not fit in 64 bits. -/
def ofFiletime? (calendar : Calendar Time) (filetime : UInt64) : Option Time :=
  let seconds := Instant.ticksOf filetime / ticksPerSecond
  let nanoseconds := Instant.ticksOf filetime % ticksPerSecond * 100
  if Int64.minValue.toInt ≤ seconds ∧ seconds ≤ Int64.maxValue.toInt then
    calendar.ofTimestamp? (Int64.ofInt seconds) (UInt32.ofInt nanoseconds)
  else none

/-- A number that fits in 32 bits is not cut. -/
private theorem toNat_ofInt {value : Int} (nonneg : 0 ≤ value) (small : value < 4294967296) :
    (UInt32.ofInt value).toNat = value.toNat := by
  rw [UInt32.ofInt, UInt32.toNat_ofNat']
  omega

/-- A calendar that reaches from 1601 to 60056 has the time of each filetime. -/
theorem exists_ofFiletime? {calendar : Calendar Time} {first last : Int}
    (covers : calendar.Covers first last) (early : first ≤ 1601) (late : 60056 ≤ last)
    (filetime : UInt64) :
    ∃ time, calendar.ofFiletime? filetime = some time ∧
      calendar.instant time = Instant.ofFiletime filetime := by
  have bounds := Instant.seconds_ofFiletime_bounds filetime
  have short := Instant.nanoseconds_ofFiletime_lt filetime
  have seconds : (Int64.ofInt (Instant.ofFiletime filetime).seconds).toInt =
      (Instant.ofFiletime filetime).seconds :=
    Int64.toInt_ofInt_of_le (by omega) (by omega)
  have nanoseconds : (UInt32.ofInt (Instant.ticksOf filetime % ticksPerSecond * 100)).toNat =
      (Instant.ofFiletime filetime).nanoseconds := by
    have second : (ticksPerSecond : Int) = 10000000 := rfl
    rw [Instant.nanoseconds_ofFiletime, second, toNat_ofInt (by omega) (by omega)]
    omega
  have fits : Int64.minValue.toInt ≤ (Instant.ofFiletime filetime).seconds ∧
      (Instant.ofFiletime filetime).seconds ≤ Int64.maxValue.toInt := by
    rw [Int64.toInt_minValue, Int64.toInt_maxValue]
    omega
  have year := CivilDate.year_ofDays_bounds ((Instant.ofFiletime filetime).seconds / 86400)
    (by omega) (by omega)
  rw [← seconds] at year
  rw [← nanoseconds] at short
  obtain ⟨time, found, instant⟩ :=
    covers _ _ (Int.le_trans early year.1) (Int.le_trans year.2 late) short
  refine ⟨time, ?_, ?_⟩
  · exact (if_pos fits).trans found
  · rw [instant, seconds, nanoseconds]

/-- The time of every filetime.

A calendar that covers the years from -262000 to 262000 has a time for each filetime, whose instant
is the one that the filetime stands for: no tick is lost, less than a second of whole ticks is left
behind the seconds, and this is so on both sides of 1970. A later filetime stands for a later
instant, and two filetimes never have the same time. -/
theorem ofFiletime?_exact {calendar : Calendar Time} (covers : calendar.Covers (-262000) 262000) :
    (∀ filetime, ∃ time, calendar.ofFiletime? filetime = some time ∧
      calendar.instant time = Instant.ofFiletime filetime ∧
      (calendar.instant time).seconds * 10000000 +
        ((calendar.instant time).nanoseconds / 100 : Nat) =
          (filetime.toNat : Int) - 116444736000000000 ∧
      (calendar.instant time).nanoseconds < 1000000000 ∧
      100 ∣ (calendar.instant time).nanoseconds) ∧
    ∀ filetime later time time', calendar.ofFiletime? filetime = some time →
      calendar.ofFiletime? later = some time' →
        (filetime < later → calendar.instant time < calendar.instant time') ∧
        (time = time' → filetime = later) := by
  have has := exists_ofFiletime? covers (by decide) (by decide)
  have instant_eq {filetime time} (found : calendar.ofFiletime? filetime = some time) :
      calendar.instant time = Instant.ofFiletime filetime := by
    obtain ⟨time', found', instant⟩ := has filetime
    rwa [Option.some.inj (found.symm.trans found')]
  constructor
  · intro filetime
    obtain ⟨time, found, instant⟩ := has filetime
    refine ⟨time, found, instant, ?_⟩
    rw [instant]
    exact ⟨Instant.ticks_ofFiletime filetime, Instant.nanoseconds_ofFiletime_lt filetime,
      Instant.dvd_nanoseconds_ofFiletime filetime⟩
  · intro filetime later time time' found found'
    constructor
    · intro before
      rw [instant_eq found, instant_eq found']
      exact Instant.ofFiletime_lt_iff.mpr before
    · rintro rfl
      exact Instant.ofFiletime_injective ((instant_eq found).symm.trans (instant_eq found'))

/-- The Gregorian calendar from the year -262143 to the year 262142. The last second of a minute may
be a leap second, with twice as many nanoseconds. -/
def gregorian : Calendar Instant where
  ofTimestamp? seconds nanoseconds :=
    let year := (CivilDate.ofDays (seconds.toInt / 86400)).year
    let limit := if seconds.toInt % 60 = 59 then 2000000000 else 1000000000
    if -262143 ≤ year ∧ year ≤ 262142 ∧ nanoseconds.toNat < limit then
      some { seconds := seconds.toInt, nanoseconds := nanoseconds.toNat }
    else none
  instant := id

theorem covers_gregorian : gregorian.Covers (-262000) 262000 := by
  intro seconds nanoseconds first last short
  refine ⟨_, if_pos ⟨by omega, by omega, ?_⟩, rfl⟩
  split <;> omega

/-- The first and the last filetime, and the two ticks on both sides of 1970. -/
theorem ofFiletime?_exact_gregorian :
    gregorian.Covers (-262000) 262000 ∧
      (∃ first last, gregorian.ofFiletime? 0 = some first ∧
        gregorian.ofFiletime? 18446744073709551615 = some last ∧
        first = ⟨-11644473600, 0⟩ ∧ last = ⟨1833029933770, 955161500⟩ ∧ first < last) ∧
      ∃ before after, gregorian.ofFiletime? 116444735999999999 = some before ∧
        gregorian.ofFiletime? 116444736000000000 = some after ∧
        before = ⟨-1, 999999900⟩ ∧ after = ⟨0, 0⟩ ∧ before < after := by
  obtain ⟨has, compare⟩ := ofFiletime?_exact covers_gregorian
  have pair (filetime later : UInt64) (lt : filetime < later) :
      ∃ time time', gregorian.ofFiletime? filetime = some time ∧
        gregorian.ofFiletime? later = some time' ∧ time = Instant.ofFiletime filetime ∧
        time' = Instant.ofFiletime later ∧ time < time' := by
    obtain ⟨time, found, instant, -⟩ := has filetime
    obtain ⟨time', found', instant', -⟩ := has later
    exact ⟨time, time', found, found', instant, instant',
      (compare filetime later time time' found found').1 lt⟩
  exact ⟨covers_gregorian, pair 0 18446744073709551615 (by decide),
    pair 116444735999999999 116444736000000000 (by decide)⟩

end Calendar

end RegistryHive
