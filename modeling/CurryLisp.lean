import CurryLisp.Proofs.AheadOfTime
import CurryLisp.Proofs.ArgumentTypes
import CurryLisp.Proofs.Arrays
import CurryLisp.Proofs.Bisimilarity.Equality
import CurryLisp.Proofs.Calls
import CurryLisp.Proofs.Completion
import CurryLisp.Proofs.Composition
import CurryLisp.Proofs.Contents
import CurryLisp.Proofs.Conversion
import CurryLisp.Proofs.Copies.Equality
import CurryLisp.Proofs.Currying
import CurryLisp.Proofs.DynamicCurrying
import CurryLisp.Proofs.ErrorContext
import CurryLisp.Proofs.Foresight
import CurryLisp.Proofs.Inheritance
import CurryLisp.Proofs.Instances
import CurryLisp.Proofs.LexicalCalls
import CurryLisp.Proofs.Names.Session
import CurryLisp.Proofs.NativeCurrying
import CurryLisp.Proofs.ReadData
import CurryLisp.Proofs.Recursion
import CurryLisp.Proofs.Reports
import CurryLisp.Proofs.RoundTrip
import CurryLisp.Proofs.SourceData
import CurryLisp.Proofs.StackDiscipline
import CurryLisp.Proofs.StructTypes
import CurryLisp.Proofs.Subtyping
import CurryLisp.Proofs.Termination
import CurryLisp.Proofs.Tracing
import CurryLisp.Session
