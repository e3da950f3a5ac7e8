import CodeWeaving.Main
import CodeWeaving.Proofs.Depth.Walk
import CodeWeaving.Proofs.Weaving.Atomicity
import CodeWeaving.Proofs.Weaving.StackSafety
import CodeWeaving.Proofs.Stream.Refinement
import CodeWeaving.Proofs.Stream.SessionRuns
import CodeWeaving.Proofs.Machine.ArgumentRoundTrip
import CodeWeaving.Proofs.Machine.Injections
import CodeWeaving.Proofs.Machine.Redirects
import CodeWeaving.Proofs.Descriptor.WrittenForm
import CodeWeaving.Proofs.Weaving.Reordering
import CodeWeaving.Proofs.Kinds.KindSafety
import CodeWeaving.Proofs.Weaving.Footprint
import CodeWeaving.Proofs.Weaving.CopiedBodies
import CodeWeaving.Proofs.Weaving.EarlyReturns
import CodeWeaving.Proofs.Weaving.HandedSlots
import CodeWeaving.Proofs.Format.ClassRoundTrip
import CodeWeaving.Proofs.Weaving.Splices
import CodeWeaving.Proofs.Weaving.ClassLife
import CodeWeaving.Proofs.Machine.ArgumentFilters
import CodeWeaving.Proofs.Machine.CoercedValues
import CodeWeaving.Proofs.Machine.FilteredValues
import CodeWeaving.Proofs.Descriptor.Identities
import CodeWeaving.Proofs.Weaving.Constructions
import CodeWeaving.Proofs.Weaving.InjectedLabels
import CodeWeaving.Proofs.Weaving.SettledSides
import CodeWeaving.Proofs.Weaving.ShortLiterals
import CodeWeaving.Proofs.Weaving.WellFormedRecords
import CodeWeaving.Proofs.Class.ParameterSlots
