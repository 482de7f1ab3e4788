import Orchestration.Compile
import Orchestration.Graph.Assembly
import Orchestration.Machine.Comparison
import Orchestration.Rehearsal
import Orchestration.Proofs.Occurrences
import Orchestration.Proofs.Acceptance
import Orchestration.Proofs.StateId
import Orchestration.Proofs.Audit
import Orchestration.Proofs.AuditFindings
import Orchestration.Proofs.FanOut
import Orchestration.Proofs.Emission
import Orchestration.Proofs.Wiring
import Orchestration.Proofs.Compilation
import Orchestration.Proofs.TokenRun
import Orchestration.Proofs.TokenFlow
import Orchestration.Proofs.Crossings
import Orchestration.Proofs.Execution
import Orchestration.Proofs.Categories
import Orchestration.Proofs.Cycles
import Orchestration.Proofs.Waits
import Orchestration.Proofs.Countdown
import Orchestration.Proofs.Paths
import Orchestration.Proofs.Precedence
import Orchestration.Proofs.OrderWarnings
import Orchestration.Proofs.LatchHistory
import Orchestration.Proofs.WellFormed
import Orchestration.Proofs.Adjacencies
import Orchestration.Proofs.AssemblyHistory
import Orchestration.Proofs.LatchRounds
import Orchestration.Proofs.LatchBalance
import Orchestration.Proofs.Convergence
import Orchestration.Proofs.Offences
import Orchestration.Proofs.Recovery
import Orchestration.Proofs.Termination
import Orchestration.Proofs.Lanes
import Orchestration.Proofs.Coverage
import Orchestration.Proofs.AssemblyReplies
import Orchestration.Proofs.Sinks
import Orchestration.Proofs.Accounting
import Orchestration.Proofs.Strictness
import Orchestration.Proofs.DeclaredJoins
import Orchestration.Proofs.Misfiled
import Orchestration.Proofs.Rearranged
import Orchestration.Proofs.Correspondence
import Orchestration.Proofs.Verdicts
import Orchestration.Proofs.Renaming
import Orchestration.Proofs.Reordering
