import Narrowing.Arithmetic.Operation

/-
This file shows that arithmetic, on the host and on the device, fails only in ways that leave a call
as it stands when constants are folded.
-/

namespace Narrowing

/-- The computation fails, if it fails, in a way that folding passes over. -/
def Foldable {Result : Type} (outcome : Except Fault Result) : Prop :=
  ∀ fault, outcome = .error fault → fault.isFoldable = true

section Outcomes

variable {First Result : Type} {outcome : Except Fault First}

theorem foldable_ok (result : Result) : Foldable (.ok result) := nofun

theorem foldable_pure (result : Result) : Foldable (pure result) := nofun

theorem foldable_error {fault : Fault} (holds : fault.isFoldable = true) :
    Foldable (.error fault : Except Fault Result) := by
  rintro other same
  rwa [← Except.error.inj same]

theorem foldable_operand : Foldable (.error .operand : Except Fault Result) := foldable_error rfl

theorem foldable_domain : Foldable (.error .domain : Except Fault Result) := foldable_error rfl

theorem foldable_overflow : Foldable (.error .overflow : Except Fault Result) := foldable_error rfl

theorem foldable_zeroDivision : Foldable (.error .zeroDivision : Except Fault Result) :=
  foldable_error rfl

theorem foldable_orFault {fault : Fault} (holds : fault.isFoldable = true)
    (option : Option Result) : Foldable (orFault option fault) := by
  cases option with
  | some result => exact foldable_ok result
  | none => exact foldable_error holds

theorem foldable_ite {condition : Prop} [Decidable condition] {other : Except Fault First}
    (first : Foldable outcome) (second : Foldable other) :
    Foldable (if condition then outcome else other) := by
  split
  · exact first
  · exact second

theorem Foldable.bind {next : First → Except Fault Result} (foldable : Foldable outcome)
    (continues : ∀ first, Foldable (next first)) : Foldable (outcome >>= next) := by
  cases outcome with
  | ok first => exact continues first
  | error fault => exact foldable_error (foldable fault rfl)

theorem Foldable.map {change : First → Result} (foldable : Foldable outcome) :
    Foldable (change <$> outcome) := by
  rw [map_eq_pure_bind]
  exact foldable.bind fun first => foldable_pure (change first)

theorem foldable_mapM {items : List First} {run : First → Except Fault Result}
    (each : ∀ item, Foldable (run item)) : Foldable (items.mapM run) := by
  induction items with
  | nil => exact foldable_pure []
  | cons item rest inductionHypothesis =>
      rw [List.mapM_cons]
      exact (each item).bind fun result =>
        inductionHypothesis.bind fun results => foldable_pure (result :: results)

theorem foldable_foldlM {items : List First} {step : Result → First → Except Fault Result}
    (each : ∀ state item, Foldable (step state item)) (start : Result) :
    Foldable (items.foldlM step start) := by
  induction items generalizing start with
  | nil => exact foldable_pure start
  | cons item rest inductionHypothesis =>
      rw [List.foldlM_cons]
      exact (each start item).bind inductionHypothesis

end Outcomes

namespace PlainNumber

theorem foldable_toDouble (number : PlainNumber) : Foldable number.toDouble := by
  cases number with
  | integer | ratio => exact foldable_orFault rfl _
  | double => exact foldable_ok _
  | complex => exact foldable_operand

theorem foldable_toComplex (number : PlainNumber) : Foldable number.toComplex := by
  cases number with
  | complex => exact foldable_ok _
  | integer | ratio | double => exact (foldable_toDouble _).map

/-- A rule fails in these ways only, for each kind of number. -/
structure Rule.IsFoldable (rule : Rule) : Prop where
  integers : ∀ first second, Foldable (rule.integers first second)
  ratios : ∀ first second, Foldable (rule.ratios first second)
  doubles : ∀ first second, Foldable (rule.doubles first second)
  complexes : ∀ first second, Foldable (rule.complexes first second)

theorem Rule.IsFoldable.apply {rule : Rule} (foldable : rule.IsFoldable)
    (first second : PlainNumber) : Foldable (rule.apply first second) := by
  unfold Rule.apply
  split
  · exact foldable.integers _ _
  · exact foldable.ratios _ _
  · exact foldable.ratios _ _
  · exact foldable.ratios _ _
  · exact (foldable_toComplex _).bind fun _ =>
      (foldable_toComplex _).bind fun _ => foldable.complexes _ _
  · exact (foldable_toComplex _).bind fun _ =>
      (foldable_toComplex _).bind fun _ => foldable.complexes _ _
  · exact (foldable_toDouble _).bind fun _ =>
      (foldable_toDouble _).bind fun _ => foldable.doubles _ _

theorem isFoldable_total (integers : Int → Int → Int) (ratios : Rat → Rat → Rat)
    (doubles : Float → Float → Float)
    (complexes : ComplexDouble → ComplexDouble → ComplexDouble) :
    (Rule.total integers ratios doubles complexes).IsFoldable :=
  ⟨fun _ _ => foldable_ok _, fun _ _ => foldable_ok _, fun _ _ => foldable_ok _,
    fun _ _ => foldable_ok _⟩

theorem isFoldable_division : division.IsFoldable where
  integers _ _ := Foldable.map <| foldable_ite foldable_zeroDivision <|
    foldable_ite (foldable_ok _) (foldable_orFault rfl _)
  ratios _ _ := foldable_ite foldable_zeroDivision (foldable_ok _)
  doubles _ _ := foldable_ite foldable_zeroDivision (foldable_ok _)
  complexes _ _ := (foldable_orFault rfl _).map

theorem foldable_abs (number : PlainNumber) : Foldable number.abs := by
  cases number with
  | complex => exact (foldable_ite foldable_overflow (foldable_ok _)).map
  | integer | ratio | double => exact foldable_ok _

theorem foldable_complexPower (base exponent : ComplexDouble) :
    Foldable (complexPower base exponent) :=
  (foldable_orFault rfl _).bind fun _ => foldable_ite foldable_overflow (foldable_ok _)

theorem foldable_doublePower (base exponent : Float) : Foldable (doublePower base exponent) :=
  foldable_ite foldable_zeroDivision <| foldable_ite (foldable_complexPower _ _) <|
    foldable_ite foldable_overflow (foldable_ok _)

theorem foldable_ratioPower (base : Rat) (exponent : Int) : Foldable (ratioPower base exponent) :=
  foldable_ite foldable_zeroDivision (foldable_ite (foldable_ok _) (foldable_ok _))

/-- A power of doubles whose operands come from other numbers. -/
theorem foldable_convertedPower (base exponent : PlainNumber) :
    Foldable (do doublePower (← base.toDouble) (← exponent.toDouble)) :=
  (foldable_toDouble base).bind fun _ => (foldable_toDouble exponent).bind fun _ =>
    foldable_doublePower _ _

theorem foldable_pow (base exponent : PlainNumber) : Foldable (base.pow exponent) := by
  have complex : Foldable (do complexPower (← base.toComplex) (← exponent.toComplex)) :=
    (foldable_toComplex base).bind fun _ => (foldable_toComplex exponent).bind fun _ =>
      foldable_complexPower _ _
  unfold pow
  split
  · exact foldable_ite (foldable_ok _) (foldable_convertedPower _ _)
  · exact (foldable_ratioPower _ _).map
  · exact foldable_ite (foldable_ite (foldable_ok _) (foldable_ratioPower _ _).map)
      (foldable_convertedPower _ _)
  · exact foldable_ite (foldable_ratioPower _ _).map (foldable_convertedPower _ _)
  · exact complex
  · exact complex
  · exact foldable_convertedPower _ _

theorem foldable_less (first second : PlainNumber) : Foldable (first.less second) := by
  unfold less
  split
  · exact foldable_ok _
  · exact foldable_operand

end PlainNumber

namespace NumberArray

theorem foldable_mapTo (array : NumberArray) (type : DeviceType)
    {operation : Scalar → Except Fault Scalar} (each : ∀ item, Foldable (operation item)) :
    Foldable (array.mapTo type operation) :=
  (foldable_mapM each).bind fun _ => foldable_ok _

theorem foldable_zipTo (first second : NumberArray) (type : DeviceType)
    {operation : Scalar → Scalar → Except Fault Scalar}
    (each : ∀ head other, Foldable (operation head other)) :
    Foldable (first.zipTo second type operation) := by
  unfold zipTo
  split
  · exact (foldable_mapM fun pair : Scalar × Scalar => each pair.1 pair.2).bind fun _ =>
      foldable_ok _
  · split
    · exact foldable_mapTo second type (each _)
    · exact foldable_mapTo second type (each _)
    · exact foldable_mapTo first type fun item => each item _
    · exact foldable_mapTo first type fun item => each item _
    · exact foldable_operand

end NumberArray

theorem ElementRule.foldable_apply (rule : ElementRule) (storage : Storage)
    (first second : Scalar) : Foldable (rule.apply storage first second) := by
  unfold apply
  split
  · split
    · exact foldable_ok _
    · exact foldable_operand
  · exact foldable_ok _
  · exact foldable_ok _
  · exact foldable_ok _
  · exact foldable_ok _
  · exact foldable_ok _
  · exact foldable_ok _
  · exact foldable_operand

theorem Scalar.foldable_neg (scalar : Scalar) : Foldable scalar.neg := by
  cases scalar with
  | boolean => exact foldable_operand
  | _ => exact foldable_ok _

namespace Device

theorem foldable_toDevice (value : Value) : Foldable value.toDevice := by
  cases value with
  | integer whole => exact (foldable_orFault rfl _).bind fun _ => foldable_ok _
  | array grid =>
      change Foldable grid.toDevice
      unfold NumberArray.toDevice
      split
      · exact foldable_operand
      · exact foldable_operand
      · exact foldable_ok _
  | boolean | double | complex | scalar => exact foldable_ok _
  | _ => exact foldable_operand

/-- Two numbers meet on the device element by element. -/
theorem foldable_met {first second : Value} {type : NumberArray → NumberArray → DeviceType}
    {combine : NumberArray → NumberArray → Scalar → Scalar → Except Fault Scalar}
    (each : ∀ left right head other, Foldable (combine left right head other)) :
    Foldable (do
      let left ← first.toDevice
      let right ← second.toDevice
      Value.array <$> left.zipTo right (type left right) (combine left right)) :=
  (foldable_toDevice first).bind fun left => (foldable_toDevice second).bind fun right =>
    (left.foldable_zipTo right _ (each left right)).map

theorem foldable_binary (rule : ElementRule) (first second : Value) :
    Foldable (binary rule first second) :=
  foldable_met fun _ _ _ _ => rule.foldable_apply _ _ _

theorem foldable_div (first second : Value) : Foldable (div first second) :=
  foldable_met fun _ _ _ _ => ElementRule.division.foldable_apply _ _ _

theorem foldable_neg (value : Value) : Foldable (neg value) :=
  (foldable_toDevice value).bind fun array => (array.foldable_mapTo _ Scalar.foldable_neg).map

theorem foldable_abs (value : Value) : Foldable (abs value) :=
  (foldable_toDevice value).bind fun array => (array.foldable_mapTo _ fun _ => foldable_ok _).map

theorem foldable_float (function : ElementFunction) (value : Value) :
    Foldable (float function value) :=
  (foldable_toDevice value).bind fun array => (array.foldable_mapTo _ fun _ => foldable_ok _).map

theorem foldable_compare (test : Scalar → Scalar → Bool) (first second : Value) :
    Foldable (compare test first second) := foldable_met fun _ _ _ _ => foldable_ok _

theorem foldable_integralPower (storage : Storage) (base : Scalar) (exponent : Int) :
    Foldable (integralPower storage base exponent) := by
  unfold integralPower
  split
  · exact foldable_ite foldable_operand (foldable_ok _)
  · exact foldable_ok _
  · exact foldable_ok _
  · exact foldable_ok _

theorem foldable_elementPower (storage : Storage) (base exponent : Scalar) :
    Foldable (elementPower storage base exponent) := by
  unfold elementPower
  split
  · exact foldable_ite (foldable_ok _) (foldable_ok _)
  · exact ElementRule.power.foldable_apply storage base exponent

theorem foldable_pow (base exponent : Value) : Foldable (pow base exponent) := by
  refine (foldable_toDevice base).bind fun left => ?_
  split
  · exact (left.foldable_mapTo _ fun _ => foldable_integralPower _ _ _).map
  · exact (foldable_toDevice exponent).bind fun right =>
      (left.foldable_zipTo right _ fun _ _ => foldable_elementPower _ _ _).map

theorem foldable_floor (value : Value) : Foldable (floor value) := by
  refine (foldable_toDevice value).bind fun array => ?_
  dsimp only
  split
  · exact foldable_ok _
  · exact foldable_operand
  · exact foldable_operand
  · exact (array.foldable_mapTo _ fun _ => foldable_ok _).map

theorem foldable_floorQuotient (first second : Value) : Foldable (floorQuotient first second) := by
  refine foldable_met fun left right head other => ?_
  split
  · exact foldable_ok _
  · exact foldable_ok _
  · exact foldable_ok _
  · exact foldable_operand

theorem foldable_ofTier (tier : Tier) (value : Value) : Foldable (ofTier tier value) := by
  unfold ofTier
  dsimp only
  split
  · exact (PlainNumber.foldable_toDouble _).bind fun _ => foldable_ok _
  · exact (PlainNumber.foldable_toDouble _).bind fun _ => foldable_ok _
  · exact foldable_ok _
  · split
    · exact foldable_ok _
    · exact foldable_operand
  · exact (foldable_toDevice value).bind fun array =>
      (array.foldable_mapTo _ fun _ => foldable_ok _).map

end Device

end Narrowing
