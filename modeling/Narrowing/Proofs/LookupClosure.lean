import Narrowing.Proofs.DescriptorRuns

/-
This file draws properties of all look-ups from the steps that look-ups are made of.
-/

namespace Narrowing

namespace Descriptor

/-- What a first look-up of the values of a description computes. -/
def computedValues (source : Value) : Lookup ValuesEstimate :=
  if source.isStar then pure ⟨.any, true, none⟩
  else
    match body source with
    | .sections _ items => resolveSections source items .start
    | body => do
        let estimate ← Lookup.ntype source (resolve body)
        pure ⟨.single estimate.ntype, estimate.precise, none⟩

theorem valuesOf_eq (source : Value) :
    valuesOf source = Lookup.values source (computedValues source) := by
  unfold valuesOf computedValues
  split
  · rfl
  · unfold ofValue
    cases body source with
    | sections origin items => rw [resolveValues]
    | _ =>
        rw [resolveValues]
        intro _ _ same
        cases same

/-- The values of a list of values are computed from its sections. -/
theorem computedValues_sections {source origin : Value} {items : List Descriptor}
    (named : source.isStar = false) (analysed : body source = .sections origin items) :
    computedValues source = resolveSections source items .start := by
  simp only [computedValues, named, analysed, Bool.false_eq_true, if_false]

section

variable {source : Value} {state : Sections} {more : List Descriptor}

/-- An item that is no keyword joins the section that is open. -/
theorem resolveSections_item {item : Value} (plain : isKeyword item = false) :
    resolveSections source (ofValue item :: more) state =
      resolve (ofValue item) >>= fun estimate =>
        resolveSections source more (state.add estimate) := by
  simp only [resolveSections, ofValue, source?]
  cases item with
  | text name =>
      have word : name.startsWith "&" = false := plain
      simp only [word]
      rfl
  | _ => rfl

/-- A keyword opens a later section. -/
theorem resolveSections_keyword {name : String} (keyword : name.startsWith "&" = true)
    {entered : Sections} (opens : state.enter? name = some entered) :
    resolveSections source (ofValue (.text name) :: more) state =
      resolveSections source more entered := by
  simp only [resolveSections, ofValue, source?, keyword, if_true, opens]

/-- Any other keyword is misplaced. -/
theorem resolveSections_misplaced {name : String} (keyword : name.startsWith "&" = true)
    (closed : state.enter? name = none) :
    resolveSections source (ofValue (.text name) :: more) state =
      Lookup.malformed (.misplacedKeyword name) source := by
  simp only [resolveSections, ofValue, source?, keyword, if_true, closed]

end

/-- A property that passes from parts to the look-ups of types that are made of them. -/
structure Composes (set : Set Value) (holds : {Result : Type} → Lookup Result → Prop) : Prop where
  pure : ∀ {Result : Type} (result : Result), holds (Pure.pure result)
  bind : ∀ {First Second : Type} {first : Lookup First} {next : First → Lookup Second},
    holds first → (∀ result, holds (next result)) → holds (first >>= next)
  ntype : ∀ source ∈ set, holds (resolve (body source)) → holds (resolve (ofValue source))

/-- A property that passes from the steps of the look-ups of some descriptions to the look-ups. -/
structure Closed (set : Set Value) (holds : {Result : Type} → Lookup Result → Prop) : Prop
    extends Composes set holds where
  malformed : ∀ {Result : Type} (cause : Cause) (source : Value),
    holds (Lookup.malformed cause source : Lookup Result)
  singleton? : ∀ value : Value, holds (Lookup.singleton? value)
  fresh : holds Lookup.fresh
  values : ∀ source ∈ set, holds (computedValues source) →
    holds (Lookup.values source (computedValues source))

namespace Composes

variable {set : Set Value} {holds : {Result : Type} → Lookup Result → Prop} {source : Value}

theorem known (composes : Composes set holds) {ntype : Ntype} (member : source ∈ set)
    (analysed : body source = .known ntype) : holds (resolve (ofValue source)) := by
  refine composes.ntype source member ?_
  rw [analysed, resolve]
  exact composes.pure _

section

variable (stored : ∀ storage ∈ storageOrder, storage.element.descriptor ∈ set)

include stored

/-- The element of a storage class is looked up by its descriptor, and perhaps by another one. -/
theorem element (composes : Composes set holds) {storage : Storage}
    (member : storage ∈ storageOrder) :
    holds (resolve (ofValue storage.element.descriptor)) := by
  have complexOf (part : Primitive) (inside : part.descriptor ∈ set)
      (analysed : body part.descriptor = .known (.primitive part)) :
      holds (resolve (.complexOf (ofValue part.descriptor))) := by
    rw [resolve]
    exact composes.bind (composes.known inside analysed) fun _ => composes.pure _
  refine composes.ntype _ (stored storage member) ?_
  cases storage with
  | object => exact absurd member (by decide)
  | complexSingle => exact complexOf .singleFloat (stored .single (by decide)) rfl
  | complexDouble => exact complexOf .doubleFloat (stored .double (by decide)) rfl
  | word kind =>
      cases kind <;>
      · change holds (resolve (.integers _))
        rw [resolve]
        exact composes.pure _
  | _ =>
      change holds (resolve (.known _))
      rw [resolve]
      exact composes.pure _

theorem storageFor (composes : Composes set holds) (element : Ntype) {order : List Storage}
    (known : ∀ storage ∈ order, storage ∈ storageOrder) :
    holds (Descriptor.storageFor element order) := by
  induction order with
  | nil => exact composes.pure _
  | cons storage rest inductionHypothesis =>
      obtain ⟨member, later⟩ := List.forall_mem_cons.mp known
      rw [Descriptor.storageFor, lookupPrimitive_element member]
      refine composes.bind (composes.element stored member) fun candidate => ?_
      split
      · exact composes.pure _
      · exact inductionHypothesis later

end

theorem resolveAll (composes : Composes set holds) {parts : List Descriptor}
    (each : ∀ part ∈ parts, holds (resolve part)) : holds (Descriptor.resolveAll parts) := by
  induction parts with
  | nil =>
      rw [Descriptor.resolveAll]
      exact composes.pure _
  | cons part rest inductionHypothesis =>
      obtain ⟨own, later⟩ := List.forall_mem_cons.mp each
      rw [Descriptor.resolveAll]
      exact composes.bind own fun _ =>
        composes.bind (inductionHypothesis later) fun _ => composes.pure _

end Composes

namespace Closed

variable {set : Set Value} {holds : {Result : Type} → Lookup Result → Prop} {source : Value}

theorem memberUnion (closed : Closed set holds) (source : Value) (values : List Value)
    (united : Estimate) : holds (Descriptor.memberUnion source values united) := by
  induction values generalizing united with
  | nil => exact closed.pure united
  | cons value rest inductionHypothesis =>
      refine closed.bind (closed.singleton? value) fun single => ?_
      cases single with
      | none => exact closed.malformed _ source
      | some ntype => exact inductionHypothesis _

theorem finish (closed : Closed set holds) (source : Value) (state : Sections) :
    holds (state.finish source) := by
  rw [Sections.finish]
  split
  · exact closed.malformed _ source
  · simp only
    split
    · exact closed.pure _
    · exact closed.bind closed.fresh fun _ => closed.pure _

theorem resolveSections (closed : Closed set holds) {items : List Descriptor}
    (each : ∀ item ∈ items, holds (resolve item)) (state : Sections) :
    holds (Descriptor.resolveSections source items state) := by
  induction items generalizing state with
  | nil =>
      rw [Descriptor.resolveSections]
      exact closed.finish source state
  | cons item rest inductionHypothesis =>
      obtain ⟨own, later⟩ := List.forall_mem_cons.mp each
      have plain : holds (resolve item >>= fun estimate =>
          Descriptor.resolveSections source rest (state.add estimate)) :=
        closed.bind own fun _ => inductionHypothesis later _
      simp only [Descriptor.resolveSections]
      split
      · split
        · split
          · exact inductionHypothesis later _
          · exact closed.malformed _ source
        · exact plain
      · exact plain

end Closed

/-- What a property has to hold of for a part: of the look-up of its type, of those of the items of
a list of values, and of what is computed for its values. -/
structure Inherits (holds : {Result : Type} → Lookup Result → Prop) (part : Descriptor) :
    Prop where
  types : holds (resolve part)
  items : ∀ origin items, part = .sections origin items → ∀ item ∈ items, holds (resolve item)
  values : ∀ source, part = ofValue source → holds (computedValues source)

namespace Inherits

variable {set : Set Value} {holds : {Result : Type} → Lookup Result → Prop}

/-- A part that is neither looked up nor a list of values. -/
theorem ofTypes {part : Descriptor} (types : holds (resolve part))
    (plain : ∀ origin items, part ≠ .sections origin items)
    (owned : ∀ source inner, part ≠ .lookup source inner) : Inherits holds part :=
  ⟨types, fun origin items same => absurd same (plain origin items),
    fun source same => absurd same (owned source (body source))⟩

theorem lookup (closed : Closed set holds) {source : Value} (member : source ∈ set)
    (inner : Inherits holds (body source)) : Inherits holds (ofValue source) := by
  have types := closed.ntype source member inner.types
  refine ⟨types, nofun, fun other same => ?_⟩
  cases same
  unfold computedValues
  split
  · exact closed.pure _
  · split
    · rename_i origin items analysed
      exact closed.resolveSections (inner.items origin items analysed) .start
    · rw [← resolve_ofValue]
      exact closed.bind types fun _ => closed.pure _

end Inherits

namespace Closed

variable {set : Set Value} {holds : {Result : Type} → Lookup Result → Prop}

mutual

/-- A closed property holds of every part that looks members of the set up. -/
theorem inherits (closed : Closed set holds) : ∀ part : Descriptor, part.Within set →
    Inherits holds part
  | .lookup source part, within => by
      have inner := closed.inherits part within.2.2
      obtain ⟨member, rfl, _⟩ := within
      exact .lookup closed member inner
  | .known _, _ | .unknown, _ | .integers _, _ | .realRange _ _, _ | .arrays _, _ => by
      refine .ofTypes ?_ nofun nofun
      rw [resolve]
      exact closed.pure _
  | .malformed cause source, _ => by
      refine .ofTypes ?_ nofun nofun
      rw [resolve]
      exact closed.malformed cause source
  | .eql source value, _ => by
      refine .ofTypes ?_ nofun nofun
      rw [resolve]
      refine closed.bind (closed.singleton? value) fun single => ?_
      cases single with
      | none => exact closed.malformed _ source
      | some ntype => exact closed.pure _
  | .member source values, _ => by
      refine .ofTypes ?_ nofun nofun
      rw [resolve]
      exact closed.memberUnion source values _
  | .complexOf part, within | .complement part, within => by
      refine .ofTypes ?_ nofun nofun
      rw [resolve]
      exact closed.bind (closed.inherits part within).types fun _ => closed.pure _
  | .arrayOf element sized, within => by
      refine .ofTypes ?_ nofun nofun
      rw [resolve]
      refine closed.bind (closed.inherits element within.2).types fun found => ?_
      exact closed.bind (closed.storageFor within.1 found.ntype fun _ own => own)
        fun _ => closed.pure _
  | .cons parts, within | .function parts _, within | .both parts, within
  | .either parts, within => by
      refine .ofTypes ?_ nofun nofun
      rw [resolve]
      exact closed.bind (closed.resolveAll (closed.inheritsAll parts within))
        fun _ => closed.pure _
  | .functionTo parameters result, within => by
      obtain ⟨parametersWithin, ⟨source, rfl, named⟩, resultWithin⟩ := within
      have values := closed.values source resultWithin.1
        ((closed.inherits _ resultWithin).values source rfl)
      rw [← valuesOf_eq, valuesOf, named] at values
      refine .ofTypes ?_ nofun nofun
      rw [resolve]
      refine closed.bind (closed.resolveAll (closed.inheritsAll parameters parametersWithin))
        fun _ => ?_
      exact closed.bind values fun _ => closed.pure _
  | .sections source items, within => by
      obtain ⟨member, named, analysed, itemsWithin⟩ := within
      have each := closed.inheritsAll items itemsWithin
      -- the sections are computed as they are for a call on the values of their source
      have computed := computedValues_sections named analysed
      have values := closed.values source member (computed ▸ closed.resolveSections each .start)
      refine ⟨?_, fun _ _ same => ?_, nofun⟩
      · rw [resolve, ← computed]
        exact closed.bind values fun _ => closed.pure _
      · cases same
        exact each

theorem inheritsAll (closed : Closed set holds) : ∀ parts : List Descriptor, AllWithin set parts →
    ∀ part ∈ parts, holds (resolve part)
  | [], _ => nofun
  | part :: rest, within =>
      List.forall_mem_cons.mpr
        ⟨(closed.inherits part within.1).types, closed.inheritsAll rest within.2⟩

end

/-- A closed property holds of the look-up of a description and of what its values are computed
by. -/
theorem ofValue (closed : Closed set holds) {source : Value}
    (within : (Descriptor.ofValue source).Within set) :
    holds (ntypeOf source) ∧ holds (valuesOf source) := by
  have inherits := closed.inherits _ within
  refine ⟨inherits.types, ?_⟩
  rw [valuesOf_eq]
  exact closed.values source within.1 (inherits.values source rfl)

end Closed

end Descriptor

end Narrowing
