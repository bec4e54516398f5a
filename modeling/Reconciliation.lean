import Reconciliation.Main
import Reconciliation.Scenario.Controller
import Reconciliation.Proofs.Controller.Recreation
import Reconciliation.Proofs.Dependent.Ownership
import Reconciliation.Proofs.Dispatch.Finalizer
import Reconciliation.Proofs.Dispatch.Process
import Reconciliation.Proofs.Scheduler.Coherence
import Reconciliation.Proofs.Scheduler.Pending
import Reconciliation.Proofs.Workflow.Declaration
import Reconciliation.Proofs.Workflow.Refinement
import Reconciliation.Proofs.Cluster.History
import Reconciliation.Proofs.Cluster.Replay
import Reconciliation.Proofs.Cluster.Versions
import Reconciliation.Proofs.Cluster.Lifetime
import Reconciliation.Proofs.Dispatch.FollowUp
import Reconciliation.Proofs.Dispatch.Foresight
import Reconciliation.Proofs.Controller.Filtering
import Reconciliation.Proofs.Workflow.Removal
import Reconciliation.Proofs.Workflow.Preconditions
import Reconciliation.Proofs.Scheduler.Exhaustion
import Reconciliation.Proofs.Cluster.Continuity
import Reconciliation.Proofs.Dispatch.Clearance
import Reconciliation.Proofs.WebApp.Convergence
import Reconciliation.Proofs.Scheduler.Recovery
import Reconciliation.Proofs.Scheduler.Resync
import Reconciliation.Proofs.WebApp.Isolation
import Reconciliation.Proofs.Scheduler.Finality
import Reconciliation.Proofs.Scheduler.Causes
import Reconciliation.Proofs.Scheduler.Disarming
import Reconciliation.Proofs.Scheduler.Removals
import Reconciliation.Proofs.Bulk.Difference
import Reconciliation.Proofs.Workflow.Cycle
import Reconciliation.Proofs.Dispatch.Interference
import Reconciliation.Proofs.Dispatch.Embedding
import Reconciliation.Proofs.Workflow.Listing
import Reconciliation.Proofs.Dispatch.Substance
import Reconciliation.Proofs.Bulk.Members
import Reconciliation.Proofs.Retry.Leaves
import Reconciliation.Proofs.Workflow.Failures
import Reconciliation.Proofs.Dispatch.Failures
import Reconciliation.Proofs.Retry.Backoff
import Reconciliation.Proofs.WebApp.Settings
import Reconciliation.Proofs.Resource.Codec
