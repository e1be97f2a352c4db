/-!
# Times of log entries

A time is written as date and time of day in universal time, with microseconds unless they are zero.
The date is found in years that start in March, so that the leap day is the last day of its year.

## Principal results

* `yearOfDays_le` — a day has a place within its year;
* `dateOfDays_bounds` — the month is one of twelve, the day one of thirty-one.
-/

namespace FormFlow.Command

/-- A number with at least so many digits. -/
def padded (width n : Nat) : String :=
  let digits := Nat.toDigits 10 n
  String.ofList (List.replicate (width - digits.length) '0' ++ digits)

/-- The year and the day within it of a number of days since 1 March of the year zero: four centuries
have 146097 days, each of the first three 36524; four years have 1461, each of the first three 365. -/
def yearOfDays (days : Nat) : Nat × Nat :=
  let day := days % 146097
  let century := min (day / 36524) 3
  let day := day - 36524 * century
  let fours := day / 1461
  let day := day % 1461
  let year := min (day / 365) 3
  (400 * (days / 146097) + 100 * century + 4 * fours + year, day - 365 * year)

theorem yearOfDays_le (days : Nat) : (yearOfDays days).2 ≤ 365 := by
  simp only [yearOfDays]
  omega

/-- Year, month and day of a number of days since 1 March of the year zero. -/
def dateOfDays (days : Nat) : Nat × Nat × Nat :=
  let (year, day) := yearOfDays days
  let march := (5 * day + 2) / 153
  let month := if march < 10 then march + 3 else march - 9
  (if month ≤ 2 then year + 1 else year, month, day - (153 * march + 2) / 5 + 1)

/-- The month is one of twelve, the day one of thirty-one. -/
theorem dateOfDays_bounds (days : Nat) :
    1 ≤ (dateOfDays days).2.1 ∧ (dateOfDays days).2.1 ≤ 12 ∧
      1 ≤ (dateOfDays days).2.2 ∧ (dateOfDays days).2.2 ≤ 31 := by
  have h := yearOfDays_le days
  simp only [dateOfDays]
  generalize (yearOfDays days).2 = day at h
  split <;> omega

/-- The days from 1 March of the year zero to the first day of 1970. -/
def daysBefore1970 : Nat := 719468

/-- A time, given in microseconds since the start of 1970. -/
def timeText (microseconds : Nat) : String :=
  let seconds := microseconds / 1000000
  let fraction := microseconds % 1000000
  let (year, month, day) := dateOfDays (seconds / 86400 + daysBefore1970)
  let clock := seconds % 86400
  padded 4 year ++ "-" ++ padded 2 month ++ "-" ++ padded 2 day ++ "T" ++ padded 2 (clock / 3600) ++
    ":" ++ padded 2 (clock / 60 % 60) ++ ":" ++ padded 2 (clock % 60) ++
    (if fraction = 0 then "" else "." ++ padded 6 fraction) ++ "+00:00"

end FormFlow.Command
