/-!
# Moments

A `Moment` is a second of the Gregorian calendar in universal time.  `Moment.ofSeconds` computes it
from the seconds since the beginning of 1970; the years are counted from March on, so that the day
that leap years have more is the last of its year.

The examples at the end fix the days around the ends of February.
-/

namespace Depot

structure Moment where
  year : Int
  month : Nat
  day : Nat
  hour : Nat
  minute : Nat
  second : Nat
deriving DecidableEq, Repr

namespace Moment

def cycleDays : Nat := 146097

/-- The days from the first of March of the year 0 to the first of January 1970. -/
def epochDays : Int := 719468

/-- The year within a cycle of 400 years, by the day of the cycle. -/
def yearOfCycle (day : Nat) : Nat := (day - day / 1460 + day / 36524 - day / 146096) / 365

def dayOfYear (day : Nat) : Nat :=
  let year := yearOfCycle day
  day - (365 * year + year / 4 - year / 100)

def ofSeconds (seconds : Int) : Moment :=
  let time := (seconds.emod 86400).toNat
  let days := seconds.ediv 86400 + epochDays
  let cycle := days.ediv cycleDays
  let ofCycle := (days.emod cycleDays).toNat
  let ofYear := dayOfYear ofCycle
  let fromMarch := (5 * ofYear + 2) / 153
  let month := if fromMarch < 10 then fromMarch + 3 else fromMarch - 9
  { year := yearOfCycle ofCycle + cycle * 400 + (if month ≤ 2 then 1 else 0)
    month := month
    day := ofYear - (153 * fromMarch + 2) / 5 + 1
    hour := time / 3600
    minute := time / 60 % 60
    second := time % 60 }

def padded (width n : Nat) : String :=
  let digits := Nat.toDigits 10 n
  String.ofList (List.replicate (width - digits.length) '0' ++ digits)

def date (m : Moment) : String :=
  s!"{padded 4 m.year.toNat}-{padded 2 m.month}-{padded 2 m.day}"

def stamp (m : Moment) : String :=
  m.date ++ s!"T{padded 2 m.hour}:{padded 2 m.minute}:{padded 2 m.second}.000000Z"

example : ofSeconds 0 = ⟨1970, 1, 1, 0, 0, 0⟩ := rfl
example : ofSeconds (-1) = ⟨1969, 12, 31, 23, 59, 59⟩ := rfl
example : ofSeconds 951782400 = ⟨2000, 2, 29, 0, 0, 0⟩ := rfl
example : ofSeconds 951868800 = ⟨2000, 3, 1, 0, 0, 0⟩ := rfl
example : ofSeconds 4107542400 = ⟨2100, 3, 1, 0, 0, 0⟩ := rfl
example : (ofSeconds 1767268800).stamp = "2026-01-01T12:00:00.000000Z" := by decide

end Moment

end Depot
