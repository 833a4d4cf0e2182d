/-
This file holds integers of fixed width.
-/

namespace Narrowing

/-- The widths of machine integers, each without and with a sign. -/
inductive WordKind where
  | uint8
  | int8
  | uint16
  | int16
  | uint32
  | int32
  | uint64
  | int64
deriving DecidableEq, Repr

namespace WordKind

def all : List WordKind := [.uint8, .int8, .uint16, .int16, .uint32, .int32, .uint64, .int64]

def name : WordKind → String
  | uint8 => "uint8"
  | int8 => "int8"
  | uint16 => "uint16"
  | int16 => "int16"
  | uint32 => "uint32"
  | int32 => "int32"
  | uint64 => "uint64"
  | int64 => "int64"

def signed : WordKind → Bool
  | int8 | int16 | int32 | int64 => true
  | _ => false

def width : WordKind → Nat
  | uint8 | int8 => 8
  | uint16 | int16 => 16
  | uint32 | int32 => 32
  | uint64 | int64 => 64

/-- The number of values. -/
def modulus (kind : WordKind) : Nat := Nat.pow 2 kind.width

def least (kind : WordKind) : Int := if kind.signed then -Nat.pow 2 (kind.width - 1) else 0

def greatest (kind : WordKind) : Int := kind.least + kind.modulus - 1

theorem modulus_pos (kind : WordKind) : 0 < kind.modulus := by cases kind <;> decide

/-- The kind with this sign and this width. -/
def ofShape (signed : Bool) (width : Nat) : WordKind :=
  match signed, width with
  | false, 8 => uint8
  | true, 8 => int8
  | false, 16 => uint16
  | true, 16 => int16
  | false, 32 => uint32
  | true, 32 => int32
  | false, _ => uint64
  | true, _ => int64

end WordKind

/-- A word is an integer within the bounds of its kind. -/
structure Word where
  kind : WordKind
  value : Int
  within : kind.least ≤ value ∧ value ≤ kind.greatest
deriving DecidableEq

namespace Word

/-- The integer within the bounds that differs by a multiple of the modulus. -/
def wrap (kind : WordKind) (value : Int) : Word where
  kind := kind
  value := kind.least + (value - kind.least) % kind.modulus
  within := by
    have positive : (0 : Int) < kind.modulus := by exact_mod_cast kind.modulus_pos
    have low := Int.emod_nonneg (value - kind.least) (Int.ne_of_gt positive)
    have high := Int.emod_lt_of_pos (value - kind.least) positive
    constructor
    · omega
    · simp only [WordKind.greatest]; omega

@[simp] theorem wrap_kind (kind : WordKind) (value : Int) : (wrap kind value).kind = kind := rfl

/-- Wrapping keeps an integer that fits. -/
theorem wrap_value {kind : WordKind} {value : Int}
    (fits : kind.least ≤ value ∧ value ≤ kind.greatest) : (wrap kind value).value = value := by
  have bounded : value - kind.least < kind.modulus := by
    have := fits.2
    simp only [WordKind.greatest] at this
    omega
  simp only [wrap]
  rw [Int.emod_eq_of_lt (by omega) bounded]
  omega

/-- Wrapping sees an integer up to multiples of the modulus. -/
theorem wrap_congr {kind : WordKind} {first second : Int}
    (congruent : first % kind.modulus = second % kind.modulus) :
    wrap kind first = wrap kind second := by
  have shifted : (first - kind.least) % kind.modulus = (second - kind.least) % kind.modulus :=
    Int.emod_sub_cancel_right kind.least |>.mpr congruent
  simp only [wrap, shifted]

/-- A power up to multiples of the modulus of the widest words. -/
def power (base : Int) (exponent : Nat) : Int :=
  if exponent = 0 then 1
  else
    let root := power base (exponent / 2)
    let square := root * root % WordKind.uint64.modulus
    if exponent % 2 = 0 then square else square * base % WordKind.uint64.modulus
termination_by exponent

/-- A word of this kind, when the integer fits. -/
def ofInt? (kind : WordKind) (value : Int) : Option Word :=
  if fits : kind.least ≤ value ∧ value ≤ kind.greatest then some ⟨kind, value, fits⟩ else none

end Word

end Narrowing
