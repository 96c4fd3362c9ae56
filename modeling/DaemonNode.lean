import DaemonNode.Proto.Membership
import DaemonNode.Proto.Binding
import DaemonNode.Proto.Seat
import DaemonNode.Proto.Transition
import DaemonNode.Proto.Revocation
import DaemonNode.Proto.Archive
import DaemonNode.Proto.Half
import DaemonNode.Proto.Framing
import DaemonNode.Coordinator.DataChain
import DaemonNode.Coordinator.Replay
import DaemonNode.Coordinator.Control
import DaemonNode.Coordinator.Record
import DaemonNode.Coordinator.Silence
import DaemonNode.Coordinator.Rejection
import DaemonNode.Rounds.Gaps
import DaemonNode.Profiles.Container
import DaemonNode.Profiles.Refusals
import DaemonNode.Store.ExactlyOnce
import DaemonNode.Store.Linear
import DaemonNode.Store.Tree
import DaemonNode.Store.Search
import DaemonNode.Activation.Manager
import DaemonNode.Context.DropOldest
import DaemonNode.Engine.ApiErrors
import DaemonNode.Engine.Fingerprint
import DaemonNode.Engine.Checkpoint
import DaemonNode.Engine.Scrubber
import DaemonNode.Host.Enrolment
import DaemonNode.Host.Revisions
import DaemonNode.Credentials.Revocation
import DaemonNode.Resource.Arbiter
import DaemonNode.Resource.Custody
import DaemonNode.RunJournal.Sidecar
import DaemonNode.Consensus.Elections
import DaemonNode.Consensus.Schedule
import DaemonNode.Consensus.Preference
