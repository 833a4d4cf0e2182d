import Narrowing.Atom

/-
This file enumerates the primitive classes and finds the least class around a set of atoms.
-/

namespace Narrowing

/-- The classes of integers, narrow before wide. -/
inductive IntegerClass where
  | bit
  | unsigned7
  | unsigned8
  | signed8
  | unsigned15
  | unsigned16
  | signed16
  | unsigned31
  | unsigned32
  | signed32
  | unsigned63
  | unsigned64
  | signed64
  | integer
deriving DecidableEq, Repr

namespace IntegerClass

def all : List IntegerClass := [
  .bit, .unsigned7, .unsigned8, .signed8, .unsigned15, .unsigned16, .signed16, .unsigned31,
  .unsigned32, .signed32, .unsigned63, .unsigned64, .signed64, .integer]

theorem mem_all (integers : IntegerClass) : integers ∈ all := by cases integers <;> decide

def unsignedInterval (width : Nat) : Interval := ⟨some 0, some (Int.pow 2 width - 1)⟩

def signedInterval (width : Nat) : Interval :=
  ⟨some (-Int.pow 2 (width - 1)), some (Int.pow 2 (width - 1) - 1)⟩

def interval : IntegerClass → Interval
  | bit => unsignedInterval 1
  | unsigned7 => unsignedInterval 7
  | unsigned8 => unsignedInterval 8
  | signed8 => signedInterval 8
  | unsigned15 => unsignedInterval 15
  | unsigned16 => unsignedInterval 16
  | signed16 => signedInterval 16
  | unsigned31 => unsignedInterval 31
  | unsigned32 => unsignedInterval 32
  | signed32 => signedInterval 32
  | unsigned63 => unsignedInterval 63
  | unsigned64 => unsignedInterval 64
  | signed64 => signedInterval 64
  | integer => ⟨none, none⟩

def ofInterval? (interval : Interval) : Option IntegerClass :=
  all.find? fun integers => integers.interval == interval

end IntegerClass

/-- A primitive class is a fixed set of atoms with a name. -/
inductive Primitive where
  | empty
  | integers (narrowed : IntegerClass)
  | ratio
  | rational
  | shortFloat
  | singleFloat
  | doubleFloat
  | float
  | real
  | complexSingle
  | complexDouble
  | complex
  | number
  | character
  | string
  | boolean
  | null
  | cons
  | list
  | function
  | arrayOf (storage : Storage)
  | array
  | universal
deriving DecidableEq, Repr

namespace Primitive

def all : List Primitive :=
  [.empty] ++ IntegerClass.all.map .integers ++
    [.ratio, .rational, .shortFloat, .singleFloat, .doubleFloat, .float, .real, .complexSingle,
      .complexDouble, .complex, .number, .character, .string, .boolean, .null, .cons, .list,
      .function] ++
    Storage.all.map .arrayOf ++ [.array, .universal]

theorem mem_all (primitive : Primitive) : primitive ∈ all := by
  cases primitive with
  | integers narrowed => simp [all, IntegerClass.mem_all]
  | arrayOf storage => simp [all, Storage.mem_all]
  | _ => simp [all]

def index (primitive : Primitive) : Nat := all.idxOf primitive

def atoms : Primitive → AtomSet
  | empty => 0#43
  | integers narrowed => AtomSet.ofInterval narrowed.interval
  | ratio => AtomSet.singleton .ratio
  | rational => AtomSet.ofTier .rational
  | shortFloat => AtomSet.singleton .half
  | singleFloat => AtomSet.singleton .single
  | doubleFloat => AtomSet.singleton .double
  | float => AtomSet.float
  | real => AtomSet.real
  | complexSingle => AtomSet.singleton .complexSingle
  | complexDouble => AtomSet.singleton .complexDouble
  | complex => AtomSet.complex
  | number => AtomSet.number
  | character => AtomSet.singleton .character
  | string => AtomSet.singleton .string
  | boolean => AtomSet.singleton .boolean
  | null => AtomSet.singleton .null
  | cons => AtomSet.singleton .cons
  | list => AtomSet.ofList [.null, .cons]
  | function => AtomSet.singleton .function
  | arrayOf storage => AtomSet.singleton (.array storage)
  | array => AtomSet.arrays
  | universal => AtomSet.all

/-- Every class with its atoms and their number. -/
def table : List (Primitive × AtomSet × Nat) :=
  all.map fun primitive => (primitive, primitive.atoms, primitive.atoms.size)

/-- A result and whether it describes the exact set. -/
structure Enclosing where
  primitive : Primitive
  exact : Bool
deriving DecidableEq, Repr

/-- The least class around a set of atoms; the first of several least ones wins. -/
def enclosing (set : AtomSet) : Enclosing :=
  match table.find? fun entry => entry.2.1 == set with
  | some entry => ⟨entry.1, true⟩
  | none =>
      let least := table.foldl
        (fun best entry =>
          if set.within entry.2.1 && entry.2.2 < best.2 then (entry.1, entry.2.2) else best)
        (universal, 43)
      ⟨least.1, false⟩

def union (first second : Primitive) : Enclosing := enclosing (first.atoms ||| second.atoms)

def intersection (first second : Primitive) : Enclosing :=
  enclosing (first.atoms &&& second.atoms)

def subtype (first second : Primitive) : Bool := first.atoms.within second.atoms

def complement (primitive : Primitive) : Enclosing :=
  enclosing (AtomSet.all &&& ~~~primitive.atoms)

/-- The class of an atom is the least class around it. -/
def ofAtom (atom : Atom) : Primitive := (enclosing (AtomSet.singleton atom)).primitive

/-- The results of arithmetic in some tier on numbers of two sets. -/
def promotedAtoms (first second : AtomSet) : AtomSet :=
  first.tiers.foldl
    (fun set left => second.tiers.foldl
      (fun set right => set ||| AtomSet.ofTier (left.combine right)) set)
    0#43

/-- The class of the results of binary arithmetic on values of two classes. -/
def contagion (first second : Primitive) : Enclosing :=
  if first = empty ∨ second = empty then ⟨empty, true⟩
  else
    let left := first.atoms &&& AtomSet.number
    let right := second.atoms &&& AtomSet.number
    if left = 0#43 ∨ right = 0#43 then ⟨number, false⟩
    else
      let result := enclosing (promotedAtoms left right)
      ⟨result.primitive,
        result.exact && left == first.atoms && right == second.atoms⟩

/-- The class of all numbers of a tier. -/
def ofTier : Tier → Primitive
  | .integer => integers .integer
  | .rational => rational
  | .float16 => shortFloat
  | .float32 => singleFloat
  | .float64 => doubleFloat
  | .complex64 => complexSingle
  | .complex128 => complexDouble

end Primitive

end Narrowing
