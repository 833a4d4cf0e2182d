import Narrowing.Descriptor.Upgrade
import Narrowing.Dispatch
import Narrowing.Lowering
import Narrowing.Proofs.AcceptedLayouts
import Narrowing.Proofs.ArrayElements
import Narrowing.Proofs.CallOrder
import Narrowing.Proofs.CommonValues
import Narrowing.Proofs.ConstantForms
import Narrowing.Proofs.ConvertedData
import Narrowing.Proofs.DescriptorRoundTrips
import Narrowing.Proofs.DescriptorSoundness
import Narrowing.Proofs.Differentiability
import Narrowing.Proofs.Differentiation
import Narrowing.Proofs.DispatchGuards
import Narrowing.Proofs.ExactFloors
import Narrowing.Proofs.ExactSpecialization
import Narrowing.Proofs.IntegerCalls
import Narrowing.Proofs.IntegerRanges
import Narrowing.Proofs.InternedSingletons
import Narrowing.Proofs.LookupHistories
import Narrowing.Proofs.LookupLedgers
import Narrowing.Proofs.MonotoneInference
import Narrowing.Proofs.NestingDepth
import Narrowing.Proofs.NormalResults
import Narrowing.Proofs.NumeralGrammar
import Narrowing.Proofs.OperandSubstitution
import Narrowing.Proofs.PointwiseUnions
import Narrowing.Proofs.PowerSpecialization
import Narrowing.Proofs.PrincipalClasses
import Narrowing.Proofs.RaisedCeilings
import Narrowing.Proofs.ReadingFaults
import Narrowing.Proofs.RegistryLifecycles
import Narrowing.Proofs.Renderings
import Narrowing.Proofs.RunnableGraphs
import Narrowing.Proofs.SettledForms
import Narrowing.Proofs.SharedForms
import Narrowing.Proofs.TierContagion
import Narrowing.Proofs.TiledSources
import Narrowing.Proofs.UnionBounds
import Narrowing.Proofs.WordPolynomials
import Narrowing.Registry.Shelf
