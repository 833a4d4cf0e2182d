import Narrowing.Proofs.DescriptorRuns
import Narrowing.Proofs.PartSources

/-
This file shows that descriptions without lists, truth scalars and singleton types have keys of
their own.
-/

namespace Narrowing

namespace Value

mutual

/-- A plain value holds no list, no truth scalar and no singleton type at any depth. -/
def isPlain : Value → Bool
  | .tuple items => arePlain items
  | .list _ | .singleton _ | .scalar (.boolean _) => false
  | _ => true

def arePlain : List Value → Bool
  | [] => true
  | item :: rest => isPlain item && arePlain rest

end

theorem arePlain_iff {values : List Value} :
    arePlain values = true ↔ ∀ value ∈ values, value.isPlain = true := by
  induction values with
  | nil => simp [arePlain]
  | cons value rest inductionHypothesis => simp [arePlain, inductionHypothesis]

end Value

namespace Key

mutual

/-- The plain value with a key. -/
def plainValue : Key → Value
  | .boolean value => .boolean value
  | .integer value => .integer value
  | .ratio value => .ratio value
  | .double value => .double value
  | .complex value => .complex value
  | .text value => .text value
  | .scalar value => .scalar value
  | .hostClass value => .hostClass value
  | .dtype name => .dtype name
  | .scalarType name => .scalarType name
  | .function name => .function name
  | .primitive value => .primitive value
  | .emptyTuple => .tuple []
  | .tuple head tail => .tuple (plainValue head :: plainItems tail)
  | .missing | .number _ _ | .singleton _ => .missing

def plainItems : Key → List Value
  | .tuple head tail => plainValue head :: plainItems tail
  | _ => []

end

end Key

namespace Value

mutual

/-- The key of a plain value gives the value back. -/
theorem plainValue_of_key : ∀ value : Value, value.isPlain = true → ∀ key : Key,
    value.descriptorKey = .ok key → key.plainValue = value
  | .missing, _, _, rfl | .boolean _, _, _, rfl | .integer _, _, _, rfl | .ratio _, _, _, rfl
  | .double _, _, _, rfl | .complex _, _, _, rfl | .text _, _, _, rfl | .hostClass _, _, _, rfl
  | .dtype _, _, _, rfl | .scalarType _, _, _, rfl | .function _, _, _, rfl
  | .primitive _, _, _, rfl => rfl
  | .scalar value, plain, key, hasKey => by
      cases value with
      | boolean truth => cases plain
      | _ =>
          cases hasKey
          rfl
  | .tuple items, plain, key, hasKey => by
      obtain ⟨same, kept⟩ := plainItems_of_keys items plain key hasKey
      cases items with
      | nil =>
          cases hasKey
          rfl
      | cons item rest =>
          obtain ⟨head, tail, rfl⟩ := kept (List.cons_ne_nil item rest)
          exact congrArg Value.tuple same

theorem plainItems_of_keys : ∀ items : List Value, arePlain items = true → ∀ key : Key,
    descriptorKeys items = .ok key → key.plainItems = items ∧
      (items ≠ [] → ∃ head tail, key = .tuple head tail)
  | [], _, _, rfl => ⟨rfl, fun absent => absurd rfl absent⟩
  | item :: rest, plain, key, hasKey => by
      obtain ⟨itemPlain, restPlain⟩ := Bool.and_eq_true_iff.mp plain
      obtain ⟨head, tail, own, later, rfl⟩ := keys_of_cons hasKey
      refine ⟨?_, fun _ => ⟨head, tail, rfl⟩⟩
      rw [Key.plainItems, plainValue_of_key item itemPlain head own,
        (plainItems_of_keys rest restPlain tail later).1]

end

/-- Plain values with one key are equal. -/
theorem eq_of_descriptorKey {first second : Value} (firstPlain : first.isPlain = true)
    (secondPlain : second.isPlain = true) {key : Key} (firstKey : first.descriptorKey = .ok key)
    (secondKey : second.descriptorKey = .ok key) : first = second := by
  rw [← plainValue_of_key first firstPlain key firstKey,
    plainValue_of_key second secondPlain key secondKey]

end Value

namespace Descriptor

/-- Everything that is looked up for a part is plain. -/
def PlainSources (part : Descriptor) : Prop := ∀ source ∈ part.sources, source.isPlain = true

theorem PlainSources.of_nil {part : Descriptor} (nothing : part.sources = []) :
    part.PlainSources := by
  intro source own
  rw [nothing] at own
  cases own

theorem plainSources_lookup {source : Value} {part : Descriptor} (plain : source.isPlain = true)
    (inner : part.PlainSources) : (Descriptor.lookup source part).PlainSources :=
  List.forall_mem_cons.mpr ⟨plain, inner⟩

theorem plainSources_ofPrimitive (primitive : Primitive) :
    (ofPrimitive primitive).PlainSources := by
  have checked : (ofPrimitive primitive).sources.all Value.isPlain = true := by
    cases primitive with
    | integers narrowed => cases narrowed <;> rfl
    | arrayOf storage =>
        cases storage with
        | word kind => cases kind <;> rfl
        | _ => rfl
    | _ => rfl
  exact List.all_eq_true.mp checked

theorem plainSources_ofSymbol (name : String) : (ofSymbol name).PlainSources := by
  unfold ofSymbol
  split
  · exact .of_nil rfl
  · split
    · rename_i target found
      have checked : target.sources.all Value.isPlain = true := by
        unfold alias? at found
        split at found <;> cases found <;> rfl
      exact List.all_eq_true.mp checked
    · split <;> exact .of_nil rfl

theorem plainSources_ofHostClass (host : HostClass) : (ofHostClass host).PlainSources := by
  have checked : (ofHostClass host).sources.all Value.isPlain = true := by cases host <;> rfl
  exact List.all_eq_true.mp checked

theorem plainSources_ofElementType (name : String) : (ofElementType name).PlainSources := by
  unfold ofElementType
  split
  · exact .of_nil rfl
  · exact plainSources_ofPrimitive _
  · split
    · exact plainSources_lookup rfl (.of_nil rfl)
    · exact plainSources_lookup rfl (.of_nil rfl)
    · exact .of_nil rfl

theorem plainSources_ofScalar (value : Scalar) : (ofScalar value).PlainSources := by
  unfold ofScalar
  split
  · exact .of_nil rfl
  · exact .of_nil rfl
  · exact plainSources_ofElementType _

/-- A compound of plain parts looks up nothing but plain descriptions. -/
theorem plainSources_compound {parts nested : List Descriptor}
    (each : ∀ part ∈ parts, part.PlainSources) (within : ∀ part ∈ nested, part.PlainSources)
    {head : Value} {arguments : List Value}
    (plain : (Value.tuple (head :: arguments)).isPlain = true) :
    (compound head arguments parts nested).PlainSources := by
  have stored : ∀ storage ∈ storageOrder, storage.element.descriptor.isPlain = true := by
    have checked : storageOrder.all (·.element.descriptor.isPlain) = true := rfl
    exact List.all_eq_true.mp checked
  intro source own
  rcases inner_or_origin own with later | ⟨items, analysed⟩
  · cases head with
    | text name => exact property_compound each within (fun _ => stored) arguments source later
    | _ => cases later
  · obtain ⟨rfl, rfl, rfl⟩ := sections_of_compound analysed
    exact plain

mutual

/-- The analysis of a plain value looks up nothing but plain descriptions. -/
theorem plainSources_body : ∀ value : Value, value.isPlain = true → (body value).PlainSources
  | .text name, _ => plainSources_ofSymbol name
  | .tuple [], _ => nofun
  | .tuple (head :: arguments), plain => by
      have rest := (Bool.and_eq_true_iff.mp plain).2
      exact plainSources_compound (plainSources_parts arguments rest)
        (plainSources_first arguments rest) plain
  | .hostClass value, _ => plainSources_ofHostClass value
  | .dtype name, _ => plainSources_ofElementType name
  | .scalarType name, _ => plainSources_ofElementType (scalarTypeName name)
  | .scalar value, _ => plainSources_ofScalar value
  | .primitive _, _ | .missing, _ | .boolean _, _ | .integer _, _ | .ratio _, _ | .double _, _
  | .complex _, _ | .function _, _ | .array _, _ | .dictionary _ _, _ => nofun

theorem plainSources_parts : ∀ values : List Value, Value.arePlain values = true →
    ∀ part ∈ parts values, part.PlainSources
  | [], _ => nofun
  | value :: rest, plain => by
      obtain ⟨own, later⟩ := Bool.and_eq_true_iff.mp plain
      exact List.forall_mem_cons.mpr
        ⟨plainSources_lookup own (plainSources_body value own), plainSources_parts rest later⟩

theorem plainSources_first : ∀ arguments : List Value, Value.arePlain arguments = true →
    ∀ part ∈ firstParts arguments, part.PlainSources
  | [], _ => nofun
  | first :: _, plain => by
      cases first with
      | tuple items => exact plainSources_parts items (Bool.and_eq_true_iff.mp plain).1
      | _ => nofun

end

/-- Plain values are faithful: no two of them share a key. -/
theorem faithful_plain : Faithful {value | value.isPlain = true} where
  closed value plain := traced_ofValue value _
    (plainSources_lookup plain (plainSources_body value plain))
  keys first firstPlain second secondPlain same := by
    cases own : first.descriptorKey with
    | error part =>
        rw [ntype_of_keyless own, ntype_of_keyless (same.symm.trans own)]
        trivial
    | ok key =>
        obtain rfl := Value.eq_of_descriptorKey firstPlain secondPlain own (same ▸ own)
        cases ntype first with
        | error fault => trivial
        | ok estimate => exact Estimate.Agrees.refl estimate

end Descriptor

end Narrowing
