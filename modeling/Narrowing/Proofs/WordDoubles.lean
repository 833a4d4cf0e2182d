import Mathlib.Algebra.Ring.Nat
import Narrowing.Number.Double
import Narrowing.Number.Word

/-
This file shows that all words convert to finite doubles.
-/

namespace Narrowing

theorem roundedQuotient_le (numerator denominator : Nat) :
    roundedQuotient numerator denominator ≤ numerator / denominator + 1 := by
  simp only [roundedQuotient]
  split
  · omega
  · split <;> omega

theorem binaryLogarithm_one {number : Nat} (positive : number ≠ 0) :
    binaryLogarithm number 1 = number.log2 := by
  have one : Nat.log2 1 = 0 := by decide
  have below := Nat.log2_self_le positive
  have scaled : (scaledQuotient number 1 (-((number.log2 : Int) - (0 : Nat)))).2 ≤
      (scaledQuotient number 1 (-((number.log2 : Int) - (0 : Nat)))).1 := by
    unfold scaledQuotient
    split
    · have zero : number.log2 = 0 := by omega
      simp only [zero]
      exact Nat.one_le_iff_ne_zero.mpr (by simpa using positive)
    · simpa using below
  simp only [binaryLogarithm, one]
  rw [if_pos scaled]
  omega

/-- The significand of a rounded number with sixty-four bits has at most fifty-three bits. -/
theorem rounded_le {number : Nat} :
    roundedQuotient (scaledQuotient number 1 (-((number.log2 : Int) - 52))).1
      (scaledQuotient number 1 (-((number.log2 : Int) - 52))).2 ≤ 2 ^ 53 := by
  have above : number < 2 ^ (number.log2 + 1) := Nat.lt_log2_self
  refine Nat.le_trans (roundedQuotient_le _ _) ?_
  unfold scaledQuotient
  split
  · rename_i small
    have exponent : (-((number.log2 : Int) - 52)).toNat = 52 - number.log2 := by omega
    have whole : 2 ^ (number.log2 + 1) * 2 ^ (52 - number.log2) = 2 ^ 53 := by
      rw [← pow_add]
      congr 1
      omega
    have scaled := Nat.mul_lt_mul_of_pos_right above (Nat.two_pow_pos (52 - number.log2))
    simp only [exponent, Nat.pow_eq, Nat.div_one]
    omega
  · rename_i large
    have exponent : (-(-((number.log2 : Int) - 52))).toNat = number.log2 - 52 := by omega
    have whole : 2 ^ (number.log2 + 1) = 2 ^ 53 * 2 ^ (number.log2 - 52) := by
      rw [← pow_add]
      congr 1
      omega
    rw [whole] at above
    have quotient := (Nat.div_lt_iff_lt_mul (Nat.two_pow_pos (number.log2 - 52))).mpr above
    simp only [exponent, Nat.pow_eq, one_mul]
    omega

/-- A number with sixty-four bits is far from the greatest double. -/
theorem nearest_lt_infinity {number : Nat} (bounded : number ≤ 2 ^ 64) :
    BinaryFormat.double.nearest number 1 < BinaryFormat.double.infinity := by
  have infinite : BinaryFormat.double.infinity = 2047 * 2 ^ 52 := by decide
  have binade : BinaryFormat.double.binade = 2 ^ 52 := by decide
  have lowest : BinaryFormat.double.lowest = -1074 := by decide
  have precision : BinaryFormat.double.precision = 53 := rfl
  unfold BinaryFormat.nearest
  split
  · decide
  rename_i nonzero
  have size : number.log2 ≤ 64 := by
    rw [← Nat.lt_succ_iff, Nat.succ_eq_add_one, Nat.log2_lt nonzero]
    omega
  have place : max ((number.log2 : Int) - (53 - 1 : Nat)) (-1074) = number.log2 - 52 := by omega
  have moved : ((number.log2 : Int) - 52 - -1074).toNat ≤ 1086 := by omega
  have rounded := @rounded_le number
  rw [binaryLogarithm_one nonzero, infinite, binade, lowest, precision]
  simp only [place]
  rw [show 2 ^ 53 = 2 * 2 ^ 52 by decide] at rounded
  have positive : 0 < 2 ^ 52 := by decide
  generalize 2 ^ 52 = unit at rounded positive ⊢
  have scaled := Nat.mul_le_mul_right unit moved
  omega

namespace Double

open Float.Model (Format)
open Float.Model.UnpackedFloat

/-- The exponent bits of a double; all of them are set in what is not finite. -/
abbrev field (bits : BitVec 64) : BitVec 11 := @unpackExponent .binary64 bits

theorem field_ofNat {number : Nat} (small : number < 2047) : BitVec.ofNat 11 number ≠ -1#11 := by
  intro same
  have numbers := congrArg BitVec.toNat same
  rw [BitVec.toNat_ofNat, Nat.mod_eq_of_lt (by omega)] at numbers
  have full : (-1#11).toNat = 2047 := by decide
  omega

/-- Bits that stand for a finite number unpack to zero or to a number of the range. -/
theorem unpack_cases {bits : BitVec 64} (finite : field bits ≠ -1#11) :
    (∃ sign, unpack .binary64 bits = .zero sign) ∨
      ∃ sign mantissa exponent positive,
        unpack .binary64 bits = .finite sign mantissa exponent positive ∧ exponent < 972 := by
  have bias : Format.binary64.exponentBias = 1023 := by decide
  have fraction : Format.binary64.mantissaBitsWithoutImplicit = 52 := rfl
  have bounded : (field bits).toNat < 2047 := by
    have fits := (field bits).isLt
    have differs : (field bits).toNat ≠ 2047 := fun same => finite (BitVec.eq_of_toNat_eq same)
    omega
  by_cases subnormal : field bits = 0#11
  · by_cases zero : @unpackMantissa .binary64 bits = 0#52
    · exact .inl ⟨_, (if_neg finite).trans ((if_pos subnormal).trans (dif_pos zero))⟩
    · refine .inr ⟨_, _, _, _, (if_neg finite).trans ((if_pos subnormal).trans (dif_neg zero)), ?_⟩
      change ((field bits).toNat : Int) - _ + 1 < _
      rw [subnormal]
      change ((0 : Nat) : Int) - _ + 1 < _
      omega
  · refine .inr ⟨_, _, _, _, (if_neg finite).trans (if_neg subnormal), ?_⟩
    change ((field bits).toNat : Int) - _ < _
    omega

theorem isFinite_unpack {bits : BitVec 64} (finite : field bits ≠ -1#11) :
    (unpack .binary64 bits).isFinite = true := by
  rcases unpack_cases finite with ⟨_, same⟩ | ⟨_, _, _, _, same, _⟩ <;> rw [same] <;> rfl

theorem field_pack {sign : Sign} {mantissa : Nat} {exponent : Int} (positive : 0 < mantissa)
    (small : exponent < 972) :
    field (pack .binary64 (.finite sign mantissa exponent positive)) ≠ -1#11 := by
  have bias : exponent + (Format.binary64.exponentBias : Int) + (52 : Nat) = exponent + 1075 := by
    have bias : Format.binary64.exponentBias = 1023 := by decide
    omega
  have less : (exponent + 1075).toNat < 2047 := by omega
  delta pack
  dsimp only
  rw [bias]
  split
  · rename_i large
    have whole : (2 : Nat) ^ 11 = 2048 := by decide
    omega
  · split <;> rw [field, unpackExponent_packComponents]
    · exact field_ofNat less
    · decide

/-- Bits that stand for a finite number do so after they are unpacked and packed again. -/
theorem field_pack_unpack {bits : BitVec 64} (finite : field bits ≠ -1#11) :
    field (pack .binary64 (unpack .binary64 bits)) ≠ -1#11 := by
  rcases unpack_cases finite with ⟨sign, same⟩ | ⟨_, _, _, positive, same, small⟩
  · rw [same]
    change field (packComponents .binary64 _ _ _) ≠ -1#11
    rw [field, unpackExponent_packComponents]
    decide
  · rw [same]
    exact field_pack positive small

theorem field_ofMagnitude {negative : Bool} {code : Nat}
    (less : code < BinaryFormat.double.infinity) :
    field (UInt64.ofNat
      (code + if negative then BinaryFormat.double.signBit else 0)).toBitVec ≠ -1#11 := by
  have infinite : BinaryFormat.double.infinity = 2047 * 2 ^ 52 := by decide
  have sign : BinaryFormat.double.signBit = 2 ^ 63 := by decide
  have full : (-1#11).toNat = 2047 := by decide
  intro same
  have numbers := congrArg BitVec.toNat same
  simp only [field, unpackExponent, BitVec.toNat_cast, BitVec.extractLsb_toNat,
    UInt64.toNat_toBitVec, UInt64.toNat_ofNat', Nat.shiftRight_eq_div_pow, full] at numbers
  cases negative <;> simp only [Bool.false_eq_true, if_true, if_false, sign] at numbers <;> omega

/-- Integers with sixty-four bits convert to doubles. -/
theorem ofInt?_bounded {number : Int} (bounded : number.natAbs ≤ 2 ^ 64) :
    ofInt? number = some (ofInt number) := by
  have finite : (ofInt number).isFinite = true :=
    isFinite_unpack (field_pack_unpack (field_ofMagnitude (nearest_lt_infinity bounded)))
  simp only [ofInt?, finite, if_true]

end Double

theorem Word.natAbs_le (word : Word) : word.value.natAbs ≤ 2 ^ 64 := by
  have bounds : ∀ kind ∈ WordKind.all, -2 ^ 63 ≤ kind.least ∧ kind.greatest < 2 ^ 64 := by decide
  obtain ⟨kind, value, within⟩ := word
  have bounded := bounds kind (by cases kind <;> decide)
  change value.natAbs ≤ 2 ^ 64
  omega

end Narrowing
