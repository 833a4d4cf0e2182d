import Narrowing.Descriptor.Fault
import Narrowing.Ntype.Text

/-
This file analyses values as descriptions of types, before any type is looked up.
-/

namespace Narrowing

/-- The analysed form of a description. A `lookup` marks a part that is looked up by its own
source; the other cases say how the type of a part follows. -/
inductive Descriptor where
  | lookup (source : Value) (body : Descriptor)
  | known (ntype : Ntype)
  | unknown
  | malformed (cause : Descriptor.Cause) (source : Value)
  | eql (source value : Value)
  | member (source : Value) (values : List Value)
  | integers (interval : Interval)
  | realRange (value : Primitive) (bounded : Bool)
  | complexOf (part : Descriptor)
  | arrayOf (element : Descriptor) (sized : Bool)
  | arrays (sized : Bool)
  | cons (parts : List Descriptor)
  | function (parameters : List Descriptor) (constrained : Bool)
  | functionTo (parameters : List Descriptor) (result : Descriptor)
  | sections (source : Value) (items : List Descriptor)
  | both (parts : List Descriptor)
  | either (parts : List Descriptor)
  | complement (part : Descriptor)

namespace Descriptor

/-- The description of a class by its own descriptor. -/
def ofPrimitive : Primitive → Descriptor
  | .integers narrowed =>
      .lookup (Primitive.integers narrowed).descriptor
        (match narrowed.symbol.2 with
         | none => .known (.primitive (.integers narrowed))
         | some _ => .integers narrowed.interval)
  | .complexSingle =>
      .lookup Primitive.complexSingle.descriptor
        (.complexOf (.lookup (.text "single-float") (.known (.primitive .singleFloat))))
  | .complexDouble =>
      .lookup Primitive.complexDouble.descriptor
        (.complexOf (.lookup (.text "double-float") (.known (.primitive .doubleFloat))))
  | primitive => .lookup primitive.descriptor (.known (.primitive primitive))

/-- The classes that a symbol names. -/
def namedPrimitive? (name : String) : Option Primitive :=
  Primitive.all.find? fun primitive =>
    match primitive.descriptor with
    | .text symbol => symbol == name
    | _ => false

/-- The descriptor of sequences of one axis. -/
def vectors : Descriptor :=
  .lookup (.tuple [.text "array", .star, .integer 1]) (.arrays true)

/-- The symbols that stand for other descriptions. -/
def alias? : String → Option Descriptor
  | "float16" | "half-float" => some (ofPrimitive .shortFloat)
  | "float32" => some (ofPrimitive .singleFloat)
  | "float64" | "long-float" => some (ofPrimitive .doubleFloat)
  | "complex64" => some (ofPrimitive .complexSingle)
  | "complex128" => some (ofPrimitive .complexDouble)
  | "fixnum" => some (ofPrimitive (.integers .signed64))
  | "signed-byte" => some (ofPrimitive (.integers .integer))
  | "unsigned-byte" =>
      some (.lookup (.tuple [.text "integer", .integer 0, .star]) (.integers ⟨some 0, none⟩))
  | "bignum" =>
      let fixnum := Primitive.descriptor (.integers .signed64)
      some (.lookup (.tuple [.text "and", .text "integer", .tuple [.text "not", fixnum]])
        (.both [ofPrimitive (.integers .integer),
          .lookup (.tuple [.text "not", fixnum])
            (.complement (ofPrimitive (.integers .signed64)))]))
  | "simple-array" => some (ofPrimitive .array)
  | "vector" => some vectors
  | "simple-vector" =>
      some (.lookup (.tuple [.text "array", .text "t", .integer 1])
        (.arrayOf (ofPrimitive .universal) true))
  | "sequence" =>
      some (.lookup
        (.tuple [.text "or", .text "list", .tuple [.text "array", .star, .integer 1]])
        (.either [ofPrimitive .list, vectors]))
  | "atom" =>
      some (.lookup (.tuple [.text "not", .text "cons"]) (.complement (ofPrimitive .cons)))
  | "base-char" | "standard-char" => some (ofPrimitive .character)
  | "simple-string" => some (ofPrimitive .string)
  | "bool" => some (ofPrimitive .boolean)
  | "*" => some (ofPrimitive .universal)
  | _ => none

/-- The description that a symbol stands for; an unknown symbol may denote anything. -/
def ofSymbol (name : String) : Descriptor :=
  match namedPrimitive? name with
  | some primitive => .known (.primitive primitive)
  | none =>
      match alias? name with
      | some target => target
      | none =>
          if name.isEmpty || name.startsWith "&" then .malformed .invalidName (.text name)
          else .unknown

/-- The description that a host class stands for. -/
def ofHostClass : HostClass → Descriptor
  | .boolean => ofPrimitive .boolean
  | .integer => ofPrimitive (.integers .integer)
  | .fraction => ofPrimitive .rational
  | .float => ofPrimitive .doubleFloat
  | .complex => ofPrimitive .complexDouble
  | .text =>
      .lookup (.tuple [.text "or", .text "character", .text "string"])
        (.either [ofPrimitive .character, ofPrimitive .string])
  | .missing => ofPrimitive .null
  | .list =>
      .lookup (.tuple [.text "array", .text "t", .star]) (.arrayOf (ofPrimitive .universal) false)
  | _ => .unknown

/-- The widths of element types of integers that have no storage class. -/
def foreignWidth? : String → Option (Bool × Nat)
  | "int4" => some (true, 4)
  | "uint4" => some (false, 4)
  | "int2" => some (true, 2)
  | "uint2" => some (false, 2)
  | _ => none

/-- The description that an element type stands for. -/
def ofElementType (name : String) : Descriptor :=
  match Storage.ofName? name with
  | some .object => .unknown
  | some storage => ofPrimitive storage.element
  | none =>
      match foreignWidth? name with
      | some (true, width) =>
          .lookup (.tuple [.text "signed-byte", .integer width])
            (.integers (IntegerClass.signedInterval width))
      | some (false, width) =>
          .lookup (.tuple [.text "unsigned-byte", .integer width])
            (.integers (IntegerClass.unsignedInterval width))
      | none => .unknown

/-- The alternative name of the element type of truth values. -/
def scalarTypeName (name : String) : String := if name == "bool_" then "bool" else name

/-- A scalar of a host number type is a literal; other scalars stand for their storage. -/
def ofScalar (value : Scalar) : Descriptor :=
  match value with
  | .double _ | .complexDouble _ => .malformed .literal (.scalar value)
  | _ => ofElementType value.storage.name

/-- The heads of ranges of real numbers. -/
def realHead? : String → Option Primitive
  | "float" => some .float
  | "short-float" => some .shortFloat
  | "single-float" => some .singleFloat
  | "double-float" => some .doubleFloat
  | "real" => some .real
  | "rational" => some .rational
  | _ => none

def isRealScalar : Scalar → Bool
  | .word _ | .half _ | .single _ | .double _ => true
  | _ => false

/-- A real number that may bound a range. -/
def isReal : Value → Bool
  | .integer _ | .ratio _ | .double _ => true
  | .scalar value => isRealScalar value
  | _ => false

/-- A bound in parentheses is exclusive. -/
def isRealBound : Value → Bool
  | .tuple [bound] => isReal bound
  | bound => bound.isStar || isReal bound

/-- An integer bound moves by one when it stands in parentheses. -/
def integerBound? (step : Int) : Value → Option (Option Int)
  | .integer bound => some (some bound)
  | .tuple [.integer bound] => some (some (bound + step))
  | bound => if bound.isStar then some none else none

def integerRange? (arguments : List Value) : Option Interval :=
  match arguments with
  | [] => some ⟨none, none⟩
  | [lower] => (integerBound? 1 lower).map fun lower => ⟨lower, none⟩
  | lower :: upper :: _ => do
      let lower ← integerBound? 1 lower
      let upper ← integerBound? (-1) upper
      some ⟨lower, upper⟩

/-- A size is a positive integer, and the wildcard leaves the size open. -/
def byteSize? : List Value → Option (Option Nat)
  | [] => some none
  | size :: _ =>
      if size.isStar then some none
      else
        match size with
        | .integer value => if 0 < value then some (some value.toNat) else none
        | _ => none

def isSize : Value → Bool
  | .integer value => 0 ≤ value
  | _ => false

/-- The dimensions of an array are a rank or a list of sizes; the wildcard leaves them open. -/
def dimensionsSized? (dimensions : Value) : Option Bool :=
  if dimensions.isStar then some false
  else if isSize dimensions then some true
  else
    match dimensions with
    | .tuple sizes => if sizes.all fun size => size.isStar || isSize size then some true else none
    | _ => none

/-- The number of parameters that a head takes. -/
def parameterLimits? : String → Option (Nat × Nat)
  | "eql" | "mod" | "not" | "satisfies" => some (1, 1)
  | "signed-byte" | "unsigned-byte" | "complex" => some (0, 1)
  | "integer" | "array" | "simple-array" | "vector" | "cons" | "function" => some (0, 2)
  | name => (realHead? name).map fun _ => (0, 2)

/-- A keyword of a list of values or parameters. -/
def isKeyword : Value → Bool
  | .text name => name.startsWith "&"
  | _ => false

/-- The source of a part. -/
def source? : Descriptor → Option Value
  | .lookup source _ => some source
  | _ => none

/-- The parts of a list of parameters without its keywords. -/
def withoutKeywords (parts : List Descriptor) : List Descriptor :=
  parts.filter fun part => !part.source?.any isKeyword

/-- The parts that are not the wildcard. -/
def withoutStars (parts : List Descriptor) : List Descriptor :=
  parts.filter fun part => !part.source?.any Value.isStar

/-- The class of arrays whose elements the part describes. -/
def arrayOfPart (part : Option Descriptor) (sized : Bool) : Descriptor :=
  match part with
  | none => .arrays sized
  | some part => if part.source?.any Value.isStar then .arrays sized else .arrayOf part sized

/-- A function description with the parts of its parameter list. -/
def ofFunction (source : Value) (arguments : List Value) (parts nested : List Descriptor) :
    Descriptor :=
  let parameters := withoutKeywords nested
  let result (constrained : Bool) : Descriptor :=
    match parts.drop 1 with
    | [] => .function parameters constrained
    | part :: _ =>
        if part.source?.any Value.isStar then .function parameters constrained
        else .functionTo parameters part
  match arguments with
  | [] => result false
  | first :: _ =>
      if first.isStar then result false
      else
        match first with
        | .tuple _ => result true
        | _ => .malformed .functionParameters source

/-- The description that a head and its parameters give, when their number fits. -/
def ofHead (source : Value) (head : String) (arguments : List Value)
    (parts nested : List Descriptor) : Descriptor :=
  match head with
  | "eql" => .eql source (arguments.headD .missing)
  | "member" => .member source arguments
  | "integer" =>
      match integerRange? arguments with
      | some interval => .integers interval
      | none => .malformed .integerBound source
  | "signed-byte" =>
      match byteSize? arguments with
      | none => .malformed .byteSize source
      | some none => .integers ⟨none, none⟩
      | some (some width) => .integers (IntegerClass.signedInterval width)
  | "unsigned-byte" =>
      match byteSize? arguments with
      | none => .malformed .byteSize source
      | some none => .integers ⟨some 0, none⟩
      | some (some width) => .integers (IntegerClass.unsignedInterval width)
  | "mod" =>
      match arguments with
      | .integer bound :: _ =>
          if 0 < bound then .integers ⟨some 0, some (bound - 1)⟩ else .malformed .modulus source
      | _ => .malformed .modulus source
  | "complex" =>
      match parts with
      | [] => .known (.primitive .complex)
      | part :: _ =>
          if part.source?.any Value.isStar then .known (.primitive .complex) else .complexOf part
  | "array" | "simple-array" =>
      match arguments with
      | _ :: dimensions :: _ =>
          match dimensionsSized? dimensions with
          | some sized => arrayOfPart parts.head? sized
          | none => .malformed .dimensions source
      | _ => arrayOfPart parts.head? false
  | "vector" =>
      match arguments with
      | _ :: size :: _ =>
          if size.isStar || isSize size then arrayOfPart parts.head? true
          else .malformed .vectorSize source
      | _ => arrayOfPart parts.head? true
  | "cons" => .cons (withoutStars parts)
  | "function" => ofFunction source arguments parts nested
  | "values" => .sections source parts
  | "and" => .both parts
  | "or" => .either parts
  | "not" =>
      match parts with
      | part :: _ => .complement part
      | [] => .unknown
  | head =>
      match realHead? head with
      | none => .unknown
      | some primitive =>
          if arguments.all isRealBound then
            .realRange primitive (!arguments.all Value.isStar)
          else .malformed .realBound source

/-- The description that a compound gives. -/
def compound (head : Value) (arguments : List Value) (parts nested : List Descriptor) :
    Descriptor :=
  let source := .tuple (head :: arguments)
  match head with
  | .text name =>
      match parameterLimits? name with
      | some (least, most) =>
          if arguments.length < least ∨ most < arguments.length then
            .malformed (.parameterCount name least most) source
          else ofHead source name arguments parts nested
      | none => ofHead source name arguments parts nested
  | _ => .malformed .headlessCompound source

mutual

/-- The body of the description that a value gives. -/
def body : Value → Descriptor
  | .text name => ofSymbol name
  | .tuple [] => .malformed .emptyCompound (.tuple [])
  | .list [] => .malformed .emptyCompound (.tuple [])
  | .tuple (head :: arguments) =>
      compound head arguments (parts arguments) (firstParts arguments)
  | .list (head :: arguments) =>
      compound head arguments (parts arguments) (firstParts arguments)
  | .primitive value => .known (.primitive value)
  | .singleton value => .known (.singleton value)
  | .hostClass value => ofHostClass value
  | .dtype name => ofElementType name
  | .scalarType name => ofElementType (scalarTypeName name)
  | .scalar value => ofScalar value
  | .function name => .malformed .notDescriptor (.function name)
  | .missing => .malformed .literal .missing
  | .boolean value => .malformed .literal (.boolean value)
  | .integer value => .malformed .literal (.integer value)
  | .ratio value => .malformed .literal (.ratio value)
  | .double value => .malformed .literal (.double value)
  | .complex value => .malformed .literal (.complex value)
  | .array value => .malformed .unhashable (.array value)
  | .dictionary keys items => .malformed .unhashable (.dictionary keys items)

/-- The descriptions that the items of a compound give. -/
def parts : List Value → List Descriptor
  | [] => []
  | item :: rest => .lookup item (body item) :: parts rest

/-- The descriptions that the items of the first item give. -/
def firstParts : List Value → List Descriptor
  | .tuple items :: _ => parts items
  | _ => []

end

/-- The description that a value gives, looked up by that value. -/
def ofValue (value : Value) : Descriptor := .lookup value (body value)

end Descriptor

end Narrowing
