import Hart.Config.Text
import Hart.Config.Rendering
import Hart.Encoding
import Hart.Reachable
import Hart.Semantics
import Hart.Action
import Hart.Session
import Hart.Checked
import Hart.Proofs.TwosComplement
import Hart.Proofs.Execution
import Hart.Proofs.Immediate
import Hart.Proofs.RoundTrip
import Hart.Proofs.Invariant
import Hart.Proofs.Evaluation
import Hart.Proofs.SetLessThan
import Hart.Proofs.Refinement
import Hart.Proofs.Effect
import Hart.Proofs.ControlTable
import Hart.Proofs.History
import Hart.Proofs.Retirement
import Hart.Proofs.Reordering
import Hart.Proofs.Noninterference
import Hart.Proofs.Narrowing
import Hart.Proofs.JsonString
import Hart.Proofs.JsonScalar
import Hart.Proofs.ConfigText
import Hart.Proofs.Ports
import Hart.Proofs.Tracing
import Hart.Proofs.Session
import Hart.Proofs.WidthBounds
import Hart.Proofs.DumpRoundTrip
import Hart.Proofs.Observation
import Hart.Proofs.Restriction
import Hart.Proofs.SignExtension
import Hart.Proofs.Construction
import Hart.Proofs.Truncation
import Hart.Proofs.Definedness
