/-!
# Instants

A moment of universal time by its calendar fields, down to nanoseconds. A second may be 60, a leap
second, in any minute. The calendar is the Gregorian one for all years.
-/

namespace FaultSweep

structure Date where
  year : Int
  month : Nat
  day : Nat
  deriving DecidableEq

structure Instant where
  date : Date
  hour : Nat
  minute : Nat
  second : Nat
  nano : Nat
  deriving DecidableEq

namespace Date

def isLeap (year : Int) : Bool :=
  year % 4 == 0 && (year % 100 != 0 || year % 400 == 0)

def daysIn (year : Int) (month : Nat) : Nat :=
  if month = 2 then (if isLeap year then 29 else 28)
  else if month = 4 ∨ month = 6 ∨ month = 9 ∨ month = 11 then 30
  else 31

/-- The years a date may have. -/
def firstYear : Int := -262143
def lastYear : Int := 262142

def Valid (d : Date) : Prop :=
  firstYear ≤ d.year ∧ d.year ≤ lastYear ∧ 1 ≤ d.month ∧ d.month ≤ 12 ∧
    1 ≤ d.day ∧ d.day ≤ daysIn d.year d.month

instance (d : Date) : Decidable d.Valid := by unfold Valid; infer_instance

def next (d : Date) : Date :=
  if d.day < daysIn d.year d.month then ⟨d.year, d.month, d.day + 1⟩
  else if d.month < 12 then ⟨d.year, d.month + 1, 1⟩
  else ⟨d.year + 1, 1, 1⟩

def previous (d : Date) : Date :=
  if 1 < d.day then ⟨d.year, d.month, d.day - 1⟩
  else if 1 < d.month then ⟨d.year, d.month - 1, daysIn d.year (d.month - 1)⟩
  else ⟨d.year - 1, 12, 31⟩

end Date

namespace Instant

def Valid (t : Instant) : Prop :=
  t.date.Valid ∧ t.hour < 24 ∧ t.minute < 60 ∧ t.second ≤ 60 ∧ t.nano < 1000000000

instance (t : Instant) : Decidable t.Valid := by unfold Valid; infer_instance

/-- The instant whose local clock, ahead of universal time by `ahead` minutes, shows `t`. The offset
is less than a day. -/
def ofLocal (t : Instant) (ahead : Int) : Instant :=
  let minutes : Int := t.hour * 60 + t.minute - ahead
  let (date, minutes) :=
    if minutes < 0 then (t.date.previous, minutes + 1440)
    else if 1440 ≤ minutes then (t.date.next, minutes - 1440)
    else (t.date, minutes)
  ⟨date, minutes.toNat / 60, minutes.toNat % 60, t.second, t.nano⟩

/-- The instant a number of nanoseconds after the beginning of 1970. -/
def afterEpoch (nanos : Nat) : Instant :=
  let secs := nanos / 1000000000
  ⟨Nat.repeat Date.next (secs / 86400) ⟨1970, 1, 1⟩, secs / 3600 % 24, secs / 60 % 60, secs % 60,
    nanos % 1000000000⟩

end Instant

end FaultSweep
