import RealTime.Admission.Basic
import RealTime.Admission.Error
import RealTime.Arbiter.Basic
import RealTime.Arbiter.Error
import RealTime.Arbiter.Goal
import RealTime.Arbiter.Groups
import RealTime.Arbiter.Poll
import RealTime.Arbiter.Record
import RealTime.Bank
import RealTime.Clock
import RealTime.Files
import RealTime.Monitor
import RealTime.Ordered.Map
import RealTime.Ordered.Set
import RealTime.Platform.Basic
import RealTime.Platform.Error
import RealTime.ResponseTime
import RealTime.Ring.Error
import RealTime.Ring.Host
import RealTime.Ring.Region
import RealTime.Ring.Slot
import RealTime.Schedulability
import RealTime.Settings.Basic
import RealTime.Settings.Error
import RealTime.Settings.Read
import RealTime.Settings.Workload
import RealTime.Supervisor.Basic
import RealTime.Supervisor.Loop
import RealTime.Task.Basic
import RealTime.Text.Utf8
import RealTime.UtilizationBound
import RealTime.Yaml.Content
import RealTime.Yaml.Decode
import RealTime.Yaml.Node
import RealTime.Yaml.Number
import RealTime.Yaml.Text
import RealTime.Yaml.Token.Basic
import RealTime.Yaml.Token.Property
import RealTime.Yaml.Token.Scalar
import RealTime.Yaml.Token.Stream
import RealTime.Proofs.Arbiter.Kept
import RealTime.Proofs.Arbiter.Invariant
import RealTime.Proofs.Arbiter.Groups
import RealTime.Proofs.Arbiter.Consistency
import RealTime.Proofs.Arbiter.Agree
import RealTime.Proofs.Arbiter.Examinations
import RealTime.Proofs.Arbiter.Verdicts
import RealTime.Proofs.Arbiter.JudgedOnce
import RealTime.Proofs.Arbiter.Decisions
import RealTime.Proofs.Arbiter.Permissions
import RealTime.Proofs.Arbiter.Components
import RealTime.Proofs.Arbiter.Charges
import RealTime.Proofs.Arbiter.Reordering
import RealTime.Proofs.Arbiter.Lifecycle
import RealTime.Proofs.Arbiter.Frame
import RealTime.Proofs.Arbiter.Rulings
import RealTime.Proofs.Arbiter.Fairness
import RealTime.Proofs.Arbiter.Releases
import RealTime.Proofs.Arbiter.Denials
import RealTime.Proofs.Arbiter.Thresholds
import RealTime.Proofs.Arbiter.Decay
import RealTime.Proofs.Arbiter.Causes
import RealTime.Proofs.Ring.Queue
import RealTime.Proofs.Ring.Readers
import RealTime.Proofs.Ring.Images
import RealTime.Proofs.Ring.Sharing
import RealTime.Proofs.Ring.Untrusted
import RealTime.Proofs.Ring.Extent
import RealTime.Proofs.Feasibility
import RealTime.Proofs.Schedulability
import RealTime.Proofs.FixedPoint
import RealTime.Proofs.Sustainability
import RealTime.Proofs.Admission.Entry
import RealTime.Proofs.Admission.Slots
import RealTime.Proofs.Admission.Guarantee
import RealTime.Proofs.Platform
import RealTime.Proofs.Hosting
import RealTime.Proofs.Utilizations
import RealTime.Proofs.Admission.Placing
import RealTime.Proofs.Admission.Sound
import RealTime.Proofs.Admission.Origin
import RealTime.Proofs.Admission.Ledger
import RealTime.Proofs.Admission.Kinds
import RealTime.Proofs.Admission.Selection
import RealTime.Proofs.Admission.Hosts
import RealTime.Proofs.Admission.Capacity
import RealTime.Proofs.Supervisor.Reachable
import RealTime.Proofs.Supervisor.NewTask
import RealTime.Proofs.Supervisor.Names
import RealTime.Proofs.Supervisor.Loops
import RealTime.Proofs.Settings
