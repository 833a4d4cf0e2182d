import Narrowing.Number.Double

/-
This file holds the half and single precision numbers as roundings of doubles.
-/

namespace Narrowing

/-- A half precision number keeps one bit pattern for all undefined numbers. -/
structure Half where
  bits : UInt16
  canonical : 0x7c00 < bits % 0x8000 → bits = 0x7e00
deriving DecidableEq

namespace Half

def ofBits (bits : UInt16) : Half :=
  if undefinedBits : 0x7c00 < bits % 0x8000 then ⟨0x7e00, fun _ => rfl⟩
  else ⟨bits, fun excess => absurd excess undefinedBits⟩

theorem ofBits_bits (value : Half) : ofBits value.bits = value := by
  unfold ofBits
  split
  · rename_i excess
    cases value with
    | mk bits canonical => simp [canonical excess]
  · rfl

def isNaN (value : Half) : Bool := 0x7c00 < value.bits % 0x8000

def negative (value : Half) : Bool := 0x8000 ≤ value.bits

def magnitude (value : Half) : Nat := value.bits.toNat % BinaryFormat.half.signBit

/-- Every half precision number is a double. -/
def toDouble (value : Half) : Float :=
  if value.isNaN then Double.nan
  else if value.magnitude = BinaryFormat.half.infinity then Double.infinity value.negative
  else
    let parts := BinaryFormat.half.decode value.magnitude
    let scaled := scaledQuotient parts.1 1 parts.2
    Double.ofQuotient value.negative scaled.1 scaled.2

/-- The nearest half precision number, found by one rounding. -/
def ofDouble (value : Float) : Half :=
  if value.isNaN then ofBits 0x7e00
  else
    let code := if value.isInf then BinaryFormat.half.infinity
      else
        let parts := Double.parts value
        let scaled := scaledQuotient parts.1 1 parts.2
        BinaryFormat.half.nearest scaled.1 scaled.2
    ofBits (UInt16.ofNat (code + if Double.negative value then BinaryFormat.half.signBit else 0))

end Half

namespace Single

def negative (value : Float32) : Bool := 0x80000000 ≤ value.toBits

def magnitude (value : Float32) : Nat := value.toBits.toNat % BinaryFormat.single.signBit

/-- Every single precision number is a double. -/
def toDouble (value : Float32) : Float :=
  if value.isNaN then Double.nan
  else if magnitude value = BinaryFormat.single.infinity then Double.infinity (negative value)
  else
    let parts := BinaryFormat.single.decode (magnitude value)
    let scaled := scaledQuotient parts.1 1 parts.2
    Double.ofQuotient (negative value) scaled.1 scaled.2

/-- The nearest single precision number, found by one rounding. -/
def ofDouble (value : Float) : Float32 :=
  if value.isNaN then Float32.ofBits 0x7fc00000
  else
    let code := if value.isInf then BinaryFormat.single.infinity
      else
        let parts := Double.parts value
        let scaled := scaledQuotient parts.1 1 parts.2
        BinaryFormat.single.nearest scaled.1 scaled.2
    Float32.ofBits
      (UInt32.ofNat (code + if Double.negative value then BinaryFormat.single.signBit else 0))

end Single

end Narrowing
