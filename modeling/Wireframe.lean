import Wireframe.Main
import Wireframe.Proofs.Validity
import Wireframe.Proofs.RoundTrip
import Wireframe.Proofs.Frame
import Wireframe.Proofs.NodeId
import Wireframe.Proofs.FreeId
import Wireframe.Proofs.NormalForm
import Wireframe.Proofs.Places
import Wireframe.Proofs.Numbering
import Wireframe.Proofs.Regular
import Wireframe.Proofs.RegularEdit
import Wireframe.Proofs.Drawing
import Wireframe.Proofs.Extraction
import Wireframe.Proofs.Run
import Wireframe.Proofs.Clash
import Wireframe.Proofs.WellNumbered
import Wireframe.Proofs.Difference
import Wireframe.Proofs.JsonText
import Wireframe.Proofs.PlanText
import Wireframe.Proofs.EditDifference
import Wireframe.Proofs.Approval
import Wireframe.Proofs.Distinct
import Wireframe.Proofs.Grammar
import Wireframe.Proofs.Reading
import Wireframe.Proofs.Matching
import Wireframe.Proofs.Mention
import Wireframe.Proofs.Pieces
import Wireframe.Proofs.Exclusion
import Wireframe.Proofs.Fingerprint
import Wireframe.Proofs.Workspace
import Wireframe.Proofs.Effects
import Wireframe.Proofs.Parsing
import Wireframe.Proofs.Rounding
import Wireframe.Proofs.Shortest
import Wireframe.Proofs.Scaling
import Wireframe.Proofs.FloatText
import Wireframe.Proofs.Writable
import Wireframe.Proofs.Rereading
import Wireframe.Proofs.Nesting
import Wireframe.Proofs.WrittenPlan
import Wireframe.Proofs.Emptying
import Wireframe.Proofs.Erasure
import Wireframe.Proofs.Location
import Wireframe.Proofs.Elision
import Wireframe.Proofs.Confluence
import Wireframe.Proofs.Shell
import Wireframe.Proofs.Spelling
import Wireframe.Proofs.Splitting
import Wireframe.Proofs.Stretches
import Wireframe.Proofs.FieldPhrases
import Wireframe.Proofs.Counting
import Wireframe.Proofs.Demands
import Wireframe.Proofs.Seams
import Wireframe.Proofs.Sentences
import Wireframe.Proofs.Quoting
import Wireframe.Proofs.Clauses
import Wireframe.Proofs.Precedence
import Wireframe.Proofs.Description
