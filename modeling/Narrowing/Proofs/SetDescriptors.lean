import Mathlib.Algebra.Group.Int.Defs
import Narrowing.Proofs.DescriptorResults
import Narrowing.Proofs.PrimitiveMeanings
import Narrowing.Proofs.TypeMembers

/-
This file gives descriptions of sets a meaning and compares it with the types that they denote.
-/

namespace Narrowing

namespace Value

/-- A literal of the host language, without scalars of arrays. -/
def isHostLiteral : Value → Bool
  | .missing | .boolean _ | .integer _ | .ratio _ | .double _ | .complex _ | .text _ => true
  | _ => false

/-- A value that can be described and that has a type of its own. -/
def IsSingular (value : Value) : Prop :=
  Descriptor.Describable value ∧ ∃ key, value.key? = some key

/-- The real number that a value or the only element of an array stands for. -/
def extended? (value : Value) : Option Extended :=
  match value.content? <|> value.scalar?.map Key.ofScalar with
  | some (.number real _) => some real
  | _ => none

/-- One real number lies before another one. -/
def Before (first second : Value) : Prop :=
  ∃ left right, first.extended? = some left ∧ second.extended? = some right ∧
    left.less right = true

/-- Two values stand for one real number. -/
def Meets (first second : Value) : Prop :=
  ∃ left right, first.extended? = some left ∧ second.extended? = some right ∧
    left.agrees right = true

end Value

/-- An end of a range has no limit, a limit that belongs to the range or one that does not. -/
inductive Bound (Limit : Type) where
  | unbounded
  | inclusive (limit : Limit)
  | exclusive (limit : Limit)

namespace Bound

variable {Limit Item : Type}

/-- An end without a limit is written as the wildcard, and an exclusive limit in parentheses. -/
def toValue (write : Limit → Value) : Bound Limit → Value
  | .unbounded => .star
  | .inclusive limit => write limit
  | .exclusive limit => .tuple [write limit]

/-- An item stands on the side of the limit where the range is. -/
def Admits (beyond meets : Limit → Item → Prop) : Bound Limit → Item → Prop
  | .unbounded, _ => True
  | .inclusive limit, item => beyond limit item ∨ meets limit item
  | .exclusive limit, item => beyond limit item

/-- The limit, if there is one, is as required. -/
def Requires (required : Limit → Prop) : Bound Limit → Prop
  | .unbounded => True
  | .inclusive limit | .exclusive limit => required limit

theorem Requires.mono {first second : Limit → Prop} {bound : Bound Limit}
    (required : bound.Requires first) (implies : ∀ limit, first limit → second limit) :
    bound.Requires second := by
  cases bound with
  | unbounded => trivial
  | inclusive limit => exact implies limit required
  | exclusive limit => exact implies limit required

end Bound

/-- The heads of ranges of real numbers. -/
inductive RealHead where
  | float
  | shortFloat
  | singleFloat
  | doubleFloat
  | real
  | rational

namespace RealHead

def name : RealHead → String
  | float => "float"
  | shortFloat => "short-float"
  | singleFloat => "single-float"
  | doubleFloat => "double-float"
  | real => "real"
  | rational => "rational"

def primitive : RealHead → Primitive
  | float => .float
  | shortFloat => .shortFloat
  | singleFloat => .singleFloat
  | doubleFloat => .doubleFloat
  | real => .real
  | rational => .rational

end RealHead

/-- A description of a set of values. -/
inductive SetDescriptor where
  | named (primitive : Primitive)
  | unknown (name : String)
  | satisfies (predicate : Value)
  | eql (value : Value)
  | member (values : List Value)
  | integers (lower upper : Bound Int)
  | signedByte (width : Nat)
  | unsignedByte (width : Nat)
  | modulo (count : Nat)
  | reals (head : RealHead) (lower upper : Bound Value)
  | both (parts : List SetDescriptor)
  | either (parts : List SetDescriptor)
  | complement (part : SetDescriptor)

namespace SetDescriptor

mutual

/-- The value that describes a set. -/
def toValue : SetDescriptor → Value
  | .named primitive => primitive.descriptor
  | .unknown name => .text name
  | .satisfies predicate => .tuple [.text "satisfies", predicate]
  | .eql value => .tuple [.text "eql", value]
  | .member values => .tuple (.text "member" :: values)
  | .integers lower upper =>
      .tuple [.text "integer", lower.toValue .integer, upper.toValue .integer]
  | .signedByte width => .tuple [.text "signed-byte", .integer width]
  | .unsignedByte width => .tuple [.text "unsigned-byte", .integer width]
  | .modulo count => .tuple [.text "mod", .integer count]
  | .reals head lower upper =>
      .tuple [.text head.name, lower.toValue id, upper.toValue id]
  | .both parts => .tuple (.text "and" :: toValues parts)
  | .either parts => .tuple (.text "or" :: toValues parts)
  | .complement part => .tuple [.text "not", toValue part]

def toValues : List SetDescriptor → List Value
  | [] => []
  | part :: rest => toValue part :: toValues rest

end

mutual

/-- The parts of a description are what the parser expects of them. -/
def WellFormed : SetDescriptor → Prop
  | .named _ | .integers _ _ => True
  | .unknown name =>
      Descriptor.namedPrimitive? name = none ∧ Descriptor.alias? name = none ∧
        name.isEmpty = false ∧ name.startsWith "&" = false
  | .satisfies predicate => Descriptor.Describable predicate
  | .eql value => value.isHostLiteral = true
  | .member values => ∀ value ∈ values, value.isHostLiteral = true
  | .signedByte width | .unsignedByte width => 0 < width
  | .modulo count => 0 < count
  | .reals _ lower upper =>
      lower.Requires (Descriptor.isReal · = true) ∧ upper.Requires (Descriptor.isReal · = true)
  | .both parts | .either parts => AllWellFormed parts
  | .complement part => WellFormed part

def AllWellFormed : List SetDescriptor → Prop
  | [] => True
  | part :: rest => WellFormed part ∧ AllWellFormed rest

end

mutual

/-- The parts of a description are what the parser expects, and its values may be any that have
types of their own. -/
def WellKeyed : SetDescriptor → Prop
  | .named _ | .integers _ _ => True
  | .unknown name =>
      Descriptor.namedPrimitive? name = none ∧ Descriptor.alias? name = none ∧
        name.isEmpty = false ∧ name.startsWith "&" = false
  | .satisfies predicate => Descriptor.Describable predicate
  | .eql value => value.IsSingular
  | .member values => ∀ value ∈ values, value.IsSingular
  | .signedByte width | .unsignedByte width => 0 < width
  | .modulo count => 0 < count
  | .reals _ lower upper =>
      lower.Requires (Descriptor.isReal · = true) ∧ upper.Requires (Descriptor.isReal · = true)
  | .both parts | .either parts => AllWellKeyed parts
  | .complement part => WellKeyed part

def AllWellKeyed : List SetDescriptor → Prop
  | [] => True
  | part :: rest => WellKeyed part ∧ AllWellKeyed rest

end

end SetDescriptor

/-- What unknown symbols and predicates stand for. -/
structure Interpretation where
  symbols : String → Value → Prop
  predicates : Value → Value → Prop

namespace SetDescriptor

mutual

/-- The set that a description stands for. -/
def Denotes (interpretation : Interpretation) : SetDescriptor → Value → Prop
  | .named primitive, value => primitive.Describes value
  | .unknown name, value => interpretation.symbols name value
  | .satisfies predicate, value => interpretation.predicates predicate value
  | .eql own, value => value = own
  | .member values, value => value ∈ values
  | .integers lower upper, value =>
      ∃ whole, value = .integer whole ∧ lower.Admits (· < ·) (· = ·) whole ∧
        upper.Admits (· > ·) (· = ·) whole
  | .signedByte width, value =>
      ∃ whole : Int, value = .integer whole ∧ -2 ^ (width - 1) ≤ whole ∧ whole < 2 ^ (width - 1)
  | .unsignedByte width, value =>
      ∃ whole : Int, value = .integer whole ∧ 0 ≤ whole ∧ whole < 2 ^ width
  | .modulo count, value => ∃ whole : Int, value = .integer whole ∧ 0 ≤ whole ∧ whole < count
  | .reals head lower upper, value =>
      head.primitive.Describes value ∧ lower.Admits Value.Before Value.Meets value ∧
        upper.Admits (fun limit item => item.Before limit) Value.Meets value
  | .both parts, value => DenoteAll interpretation parts value
  | .either parts, value => DenoteSome interpretation parts value
  | .complement part, value => ¬ Denotes interpretation part value

def DenoteAll (interpretation : Interpretation) : List SetDescriptor → Value → Prop
  | [], _ => True
  | part :: rest, value =>
      Denotes interpretation part value ∧ DenoteAll interpretation rest value

def DenoteSome (interpretation : Interpretation) : List SetDescriptor → Value → Prop
  | [], _ => False
  | part :: rest, value =>
      Denotes interpretation part value ∨ DenoteSome interpretation rest value

end

end SetDescriptor

namespace Estimate

/-- The type of an estimate holds a set, and an exact one holds nothing else. Scalars, arrays and
fractions that are whole numbers are left aside. -/
def Approximates (estimate : Estimate) (set : Value → Prop) : Prop :=
  ∀ value : Value, value.WholeIsInteger →
    (set value → estimate.ntype.contains value = true) ∧
      (estimate.precise = true → estimate.ntype.contains value = true → set value)

namespace Approximates

variable {estimate : Estimate} {set : Value → Prop}

theorem of_agrees {other : Estimate} (approximates : estimate.Approximates set)
    (agrees : other.Agrees estimate) : other.Approximates set := by
  intro value whole
  rw [agrees.1.contains_eq, agrees.2]
  exact approximates value whole

theorem unknown (set : Value → Prop) : Approximates ⟨.universal, false⟩ set :=
  fun value _ => ⟨fun _ => Primitive.atoms_universal value.atom, nofun⟩

theorem primitive (primitive : Primitive) (precise : Bool) {set : Value → Prop}
    (held : ∀ value, set value → primitive.Describes value)
    (all : precise = true → ∀ value, primitive.Describes value → set value) :
    Approximates ⟨.primitive primitive, precise⟩ set :=
  fun value _ => ⟨fun inside => Primitive.contains_iff_describes.mpr (held value inside),
    fun exact inside => all exact value (Primitive.contains_iff_describes.mp inside)⟩

theorem interval {interval : Interval} {set : Value → Prop}
    (same : ∀ value, set value ↔ ∃ whole, value = .integer whole ∧ interval.contains whole = true) :
    Approximates (Ntype.ofInterval interval) set := by
  intro value whole
  rw [same]
  constructor
  · rintro ⟨number, rfl, inside⟩
    exact Ntype.contains_ofInterval inside
  · exact Ntype.exists_integer_of_interval whole

theorem complement (approximates : estimate.Approximates set) :
    (Descriptor.complementOf estimate).Approximates fun value => ¬ set value := by
  obtain ⟨ntype, precise⟩ := estimate
  cases precise with
  | false => exact unknown _
  | true =>
      cases ntype with
      | singleton member => exact unknown _
      | primitive primitive =>
          intro value whole
          obtain ⟨held, all⟩ := approximates value whole
          obtain ⟨outside, inside⟩ := Descriptor.complement_spec primitive value
          refine ⟨fun apart => outside (Bool.eq_false_iff.mpr (mt (all rfl) apart)),
            fun exact complement own => ?_⟩
          have contained := held own
          rw [inside exact complement] at contained
          cases contained

end Approximates

end Estimate

namespace Value

theorem isSingular_literal {value : Value} (literal : value.isHostLiteral = true) :
    value.IsSingular := by
  cases value with
  | missing | boolean | integer | ratio | double | complex | text =>
      exact ⟨⟨rfl, _, rfl⟩, _, rfl⟩
  | _ => cases literal

/-- The type of a literal holds the literal alone. -/
theorem contains_single_literal {value other : Value} (literal : value.isHostLiteral = true) :
    (Ntype.single value).contains other = true ↔ other = value := by
  obtain ⟨_, key, hasKey⟩ := isSingular_literal literal
  rw [Ntype.contains_single hasKey]
  constructor
  · intro same
    cases value with
    | missing =>
        obtain ⟨_, otherKey, missingKey⟩ := identical_iff.mp same
        cases missingKey
        exact eq_missing_of_key otherKey
    | boolean | integer | ratio | double | complex | text => exact eq_of_identical rfl same
    | _ => cases literal
  · rintro rfl
    exact identical_iff.mpr ⟨key, hasKey, hasKey⟩

end Value

namespace SetDescriptor

theorem describable_bound {Limit : Type} {write : Limit → Value} {bound : Bound Limit}
    (limits : bound.Requires fun limit => Descriptor.Describable (write limit)) :
    Descriptor.Describable (bound.toValue write) := by
  cases bound with
  | unbounded => exact ⟨rfl, _, rfl⟩
  | inclusive limit => exact limits
  | exclusive limit =>
      obtain ⟨plain, key, hasKey⟩ := limits
      refine ⟨?_, .tuple key .emptyTuple, ?_⟩
      · simp only [Bound.toValue, Value.isPlain, Value.arePlain, plain, Bool.and_self]
      · simp only [Bound.toValue, Value.descriptorKey, Value.descriptorKeys, hasKey]

theorem describable_descriptor (primitive : Primitive) :
    Descriptor.Describable primitive.descriptor := by
  cases primitive with
  | integers narrowed => cases narrowed <;> exact ⟨rfl, _, rfl⟩
  | arrayOf storage =>
      cases storage with
      | word kind => cases kind <;> exact ⟨rfl, _, rfl⟩
      | _ => exact ⟨rfl, _, rfl⟩
  | _ => exact ⟨rfl, _, rfl⟩

theorem describable_real {limit : Value} (real : Descriptor.isReal limit = true) :
    Descriptor.Describable limit := by
  cases limit with
  | integer | ratio | double => exact ⟨rfl, _, rfl⟩
  | scalar scalar =>
      cases scalar with
      | word | half | single | double => exact ⟨rfl, _, rfl⟩
      | _ => cases real
  | _ => cases real

mutual

theorem wellKeyed : ∀ part : SetDescriptor, part.WellFormed → part.WellKeyed
  | .named _, _ | .integers _ _, _ => trivial
  | .unknown _, plain => plain
  | .satisfies _, described => described
  | .eql _, literal => Value.isSingular_literal literal
  | .member _, literals => fun value member => Value.isSingular_literal (literals value member)
  | .signedByte _, positive | .unsignedByte _, positive | .modulo _, positive => positive
  | .reals _ _ _, real => real
  | .both parts, wellFormed | .either parts, wellFormed => allWellKeyed parts wellFormed
  | .complement part, wellFormed => wellKeyed part wellFormed

theorem allWellKeyed : ∀ parts : List SetDescriptor, AllWellFormed parts → AllWellKeyed parts
  | [], _ => trivial
  | part :: rest, ⟨own, later⟩ => ⟨wellKeyed part own, allWellKeyed rest later⟩

end

mutual

/-- A description can be looked up, and no earlier look-up changes its type. -/
theorem describable_toValue : ∀ part : SetDescriptor, part.WellKeyed →
    Descriptor.Describable part.toValue
  | .named primitive, _ => describable_descriptor primitive
  | .unknown name, _ => ⟨rfl, _, rfl⟩
  | .satisfies predicate, described =>
      Descriptor.describable_compound (List.forall_mem_singleton.mpr described)
  | .eql value, singular =>
      Descriptor.describable_compound (List.forall_mem_singleton.mpr singular.1)
  | .member values, singular =>
      Descriptor.describable_compound fun value member => (singular value member).1
  | .integers lower upper, _ => by
      have integer (bound : Bound Int) : Descriptor.Describable (bound.toValue .integer) := by
        refine describable_bound ?_
        cases bound with
        | unbounded => trivial
        | inclusive | exclusive => exact ⟨rfl, _, rfl⟩
      exact Descriptor.describable_compound
        (List.forall_mem_cons.mpr ⟨integer lower, List.forall_mem_singleton.mpr (integer upper)⟩)
  | .signedByte width, _ | .unsignedByte width, _ | .modulo width, _ => ⟨rfl, _, rfl⟩
  | .reals head lower upper, ⟨lowerReal, upperReal⟩ =>
      Descriptor.describable_compound (List.forall_mem_cons.mpr
        ⟨describable_bound (lowerReal.mono fun _ => describable_real),
          List.forall_mem_singleton.mpr
            (describable_bound (upperReal.mono fun _ => describable_real))⟩)
  | .both parts, keyed =>
      Descriptor.describable_compound (describable_toValues parts keyed)
  | .either parts, keyed =>
      Descriptor.describable_compound (describable_toValues parts keyed)
  | .complement part, keyed =>
      Descriptor.describable_compound
        (List.forall_mem_singleton.mpr (describable_toValue part keyed))

theorem describable_toValues : ∀ parts : List SetDescriptor, AllWellKeyed parts →
    ∀ value ∈ toValues parts, Descriptor.Describable value
  | [], _ => nofun
  | part :: rest, ⟨own, later⟩ =>
      List.forall_mem_cons.mpr ⟨describable_toValue part own, describable_toValues rest later⟩

end

end SetDescriptor

end Narrowing
