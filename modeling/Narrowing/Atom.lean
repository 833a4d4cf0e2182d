import Narrowing.Interval
import Narrowing.Storage
import Narrowing.Tier

/-
This file partitions all values into atoms and represents sets of atoms by bits.
-/

namespace Narrowing

/-- The integers at which a new band of integers starts. -/
def integerCuts : List Int := [
  -Int.pow 2 63, -Int.pow 2 31, -Int.pow 2 15, -Int.pow 2 7, 0, 2, Int.pow 2 7, Int.pow 2 8,
  Int.pow 2 15, Int.pow 2 16, Int.pow 2 31, Int.pow 2 32, Int.pow 2 63, Int.pow 2 64]

/-- Every value belongs to exactly one atom. -/
inductive Atom where
  | band (index : Fin 15)
  | ratio
  | half
  | single
  | double
  | complexSingle
  | complexDouble
  | character
  | string
  | boolean
  | null
  | cons
  | function
  | array (storage : Storage)
  | other
deriving DecidableEq, Repr

namespace Atom

def all : List Atom :=
  (List.finRange 15).map .band ++
    [.ratio, .half, .single, .double, .complexSingle, .complexDouble, .character, .string,
      .boolean, .null, .cons, .function] ++
    Storage.all.map .array ++ [.other]

theorem mem_all (atom : Atom) : atom ∈ all := by
  cases atom with
  | band index => simp [all, List.mem_finRange]
  | array storage => simp [all, Storage.mem_all]
  | _ => simp [all]

/-- The integers of a band lie between two neighbouring cuts. -/
def bandInterval (index : Fin 15) : Interval where
  lower := if index.val = 0 then none else integerCuts[index.val - 1]?
  upper := integerCuts[index.val]?.map (· - 1)

/-- The band of an integer counts the cuts that do not exceed it. -/
def ofInt (value : Int) : Atom :=
  .band ⟨integerCuts.countP (· ≤ value),
    Nat.lt_succ_of_le (Nat.le_trans List.countP_le_length (by decide))⟩

def name : Atom → String
  | band index =>
      "integer[" ++ Interval.endText (bandInterval index).lower ++ "," ++
        Interval.endText (bandInterval index).upper ++ "]"
  | ratio => "ratio"
  | half => "float16"
  | single => "float32"
  | double => "float64"
  | complexSingle => "complex64"
  | complexDouble => "complex128"
  | character => "character"
  | string => "string"
  | boolean => "boolean"
  | null => "null"
  | cons => "cons"
  | function => "function"
  | array storage => "array:" ++ storage.name
  | other => "other"

def ofName? (name : String) : Option Atom := all.find? fun atom => atom.name == name

/-- The position of the atom in the list of all atoms. -/
def index : Atom → Nat
  | band index => index
  | ratio => 15
  | half => 16
  | single => 17
  | double => 18
  | complexSingle => 19
  | complexDouble => 20
  | character => 21
  | string => 22
  | boolean => 23
  | null => 24
  | cons => 25
  | function => 26
  | array storage => 27 + storage.index
  | other => 42

theorem getElem?_all_index (atom : Atom) : all[atom.index]? = some atom := by
  cases atom with
  | band index => revert index; decide
  | array storage =>
      cases storage with
      | word kind => cases kind <;> rfl
      | _ => rfl
  | _ => rfl

theorem index_injective {first second : Atom} (same : first.index = second.index) :
    first = second := by
  have left := getElem?_all_index first
  rw [same, getElem?_all_index second] at left
  exact (Option.some.inj left).symm

theorem index_lt (atom : Atom) : atom.index < 43 := by
  have present := getElem?_all_index atom
  have bound := (List.getElem?_eq_some_iff.mp present).1
  exact Nat.lt_of_lt_of_eq bound (by decide)

/-- The tier of the numbers in an atom. -/
def tier? : Atom → Option Tier
  | band _ => some .integer
  | ratio => some .rational
  | half => some .float16
  | single => some .float32
  | double => some .float64
  | complexSingle => some .complex64
  | complexDouble => some .complex128
  | _ => none

end Atom

/-- A set of atoms has one bit for each atom. -/
abbrev AtomSet := BitVec 43

namespace AtomSet

def contains (set : AtomSet) (atom : Atom) : Bool := set.getLsbD atom.index

def singleton (atom : Atom) : AtomSet := 1#43 <<< atom.index

def ofList (atoms : List Atom) : AtomSet :=
  atoms.foldr (fun atom set => singleton atom ||| set) 0#43

def toList (set : AtomSet) : List Atom := Atom.all.filter set.contains

def size (set : AtomSet) : Nat := (List.range 43).countP set.getLsbD

/-- Inclusion leaves no atom outside. -/
def within (first second : AtomSet) : Bool := first &&& ~~~second == 0#43

/-- The bands that meet an interval of integers. -/
def ofInterval (interval : Interval) : AtomSet :=
  ofList (((List.finRange 15).filter fun index =>
    (Atom.bandInterval index).overlaps interval).map .band)

def ofTier : Tier → AtomSet
  | .integer => ofInterval ⟨none, none⟩
  | .rational => ofInterval ⟨none, none⟩ ||| singleton .ratio
  | .float16 => singleton .half
  | .float32 => singleton .single
  | .float64 => singleton .double
  | .complex64 => singleton .complexSingle
  | .complex128 => singleton .complexDouble

def float : AtomSet := ofList [.half, .single, .double]

def real : AtomSet := ofTier .rational ||| float

def complex : AtomSet := ofList [.complexSingle, .complexDouble]

def number : AtomSet := real ||| complex

def arrays : AtomSet := ofList (Storage.all.map .array)

def all : AtomSet := ofList Atom.all

/-- The tiers of the numbers in a set. -/
def tiers (set : AtomSet) : List Tier :=
  Tier.all.filter fun tier =>
    Atom.all.any fun atom => set.contains atom && atom.tier? == some tier

end AtomSet

end Narrowing
