/-
This file orders the representation tiers of numbers and promotes pairs of tiers.
-/

namespace Narrowing

/-- A tier is one representation of numbers; exact tiers come first and complex tiers last. -/
inductive Tier where
  | integer
  | rational
  | float16
  | float32
  | float64
  | complex64
  | complex128
deriving DecidableEq, Repr

namespace Tier

def all : List Tier :=
  [.integer, .rational, .float16, .float32, .float64, .complex64, .complex128]

def rank : Tier → Nat
  | integer => 0
  | rational => 1
  | float16 => 2
  | float32 => 3
  | float64 => 4
  | complex64 => 5
  | complex128 => 6

def name : Tier → String
  | integer => "integer"
  | rational => "rational"
  | float16 => "float16"
  | float32 => "float32"
  | float64 => "float64"
  | complex64 => "complex64"
  | complex128 => "complex128"

def ofName? (name : String) : Option Tier := all.find? fun tier => tier.name == name

theorem mem_all (tier : Tier) : tier ∈ all := by cases tier <;> decide

def isExact : Tier → Bool
  | integer | rational => true
  | _ => false

def isComplex : Tier → Bool
  | complex64 | complex128 => true
  | _ => false

/-- The tier of the parts of a complex number, and a real tier itself. -/
def part : Tier → Tier
  | complex64 => float32
  | complex128 => float64
  | tier => tier

/-- The complex tier whose parts hold this tier. -/
def complexFor : Tier → Tier
  | float64 => complex128
  | _ => complex64

/-- Irrational functions of exact numbers compute in double precision. -/
def floatFor (tier : Tier) : Tier := if tier.isExact then float64 else tier

/-- The tier of higher rank. -/
def wider (first second : Tier) : Tier := if first.rank < second.rank then second else first

/-- An exact number asks for no precision of complex parts. -/
def partDemand (tier : Tier) : Tier := if tier.isExact then float16 else tier.part

/-- The tier in which an operation on two numbers computes. -/
def combine (first second : Tier) : Tier :=
  if first.isComplex || second.isComplex then
    complexFor (wider first.partDemand second.partDemand)
  else if first.isExact && second.isExact then
    if first = integer ∧ second = integer then integer else rational
  else wider first second

theorem combine_comm (first second : Tier) : combine first second = combine second first := by
  cases first <;> cases second <;> rfl

theorem combine_self (tier : Tier) : combine tier tier = tier := by cases tier <;> rfl

end Tier

end Narrowing
