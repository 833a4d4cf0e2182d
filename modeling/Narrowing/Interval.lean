/-
This file holds intervals of integers with optional ends.
-/

namespace Narrowing

/-- An interval of integers; a missing end is unbounded. -/
structure Interval where
  lower : Option Int
  upper : Option Int
deriving DecidableEq, Repr

namespace Interval

def contains (interval : Interval) (value : Int) : Bool :=
  interval.lower.all (· ≤ value) && interval.upper.all (value ≤ ·)

/-- The interval starts no later than the other one ends, and the other way round. -/
def overlaps (first second : Interval) : Bool :=
  let meets (low high : Option Int) : Bool :=
    match low, high with
    | some low, some high => low ≤ high
    | _, _ => true
  meets first.lower second.upper && meets second.lower first.upper

theorem overlaps_of_contains {first second : Interval} {value : Int}
    (inFirst : first.contains value = true) (inSecond : second.contains value = true) :
    first.overlaps second = true := by
  obtain ⟨firstLow, firstHigh⟩ := first
  obtain ⟨secondLow, secondHigh⟩ := second
  cases firstLow <;> cases firstHigh <;> cases secondLow <;> cases secondHigh <;>
    simp_all [contains, overlaps] <;> omega

def endText : Option Int → String
  | none => "None"
  | some value => toString value

end Interval

end Narrowing
