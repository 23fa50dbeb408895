import Workbench.Service.Basic
import Workbench.Proofs.Lockstep.Runs
import Workbench.Proofs.World.Bytes
import Workbench.Proofs.World.Consistent
import Workbench.Proofs.World.Marks
import Workbench.Proofs.World.Rejections
import Workbench.Proofs.World.Relocated
import Workbench.Proofs.World.Resynced
import Workbench.Proofs.World.RoundTrip
import Workbench.Proofs.Workspace.Validated
import Workbench.Proofs.Git.Arrival
import Workbench.Proofs.Git.Steps
import Workbench.Proofs.Git.History
import Workbench.Proofs.Git.Rejected
import Workbench.Proofs.Time
import Workbench.Proofs.Git.Identity
import Workbench.Proofs.Json
import Workbench.Proofs.Terminal.Saved
import Workbench.Proofs.Terminal.Desk
import Workbench.Proofs.Terminal.Restored
import Workbench.Proofs.Terminal.Attended
import Workbench.Proofs.Terminal.Lines
import Workbench.Proofs.World.Plain
import Workbench.Proofs.Terminal.Directories
import Workbench.Proofs.Disk.Named
import Workbench.Proofs.Service.Kept
import Workbench.Proofs.World.Copied
import Workbench.Proofs.World.Cloned
import Workbench.Proofs.World.Removed
import Workbench.Proofs.Lockstep.Interrupted
import Workbench.Proofs.Disk.Readable
import Workbench.Proofs.Disk.Straight
import Workbench.Proofs.World.Guarded
import Workbench.Proofs.World.Listed
import Workbench.Proofs.World.Losses
import Workbench.Proofs.World.Ensured
import Workbench.Proofs.Terminal.Named
import Workbench.Proofs.Terminal.Delivered
import Workbench.Proofs.Git.Counts
import Workbench.Proofs.Git.Staging
import Workbench.Proofs.Terminal.Home
import Workbench.Proofs.World.Selected
import Workbench.Proofs.Terminal.History
import Workbench.Proofs.Terminal.Numbered
import Workbench.Proofs.Git.Snapshot
import Workbench.Proofs.World.Below
import Workbench.Proofs.World.Surveyed
