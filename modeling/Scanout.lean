import Scanout.Allocation.Apply
import Scanout.Device.Planes
import Scanout.Format.Words
import Scanout.Kernel.MockLayer
import Scanout.Kernel.Node
import Scanout.Kernel.Scripted
import Scanout.Proofs.Alike
import Scanout.Proofs.Allocation.Alike
import Scanout.Proofs.Allocation.Allocate
import Scanout.Proofs.Allocation.Apart
import Scanout.Proofs.Allocation.Apply
import Scanout.Proofs.Allocation.Asked
import Scanout.Proofs.Allocation.Budget
import Scanout.Proofs.Allocation.Changes
import Scanout.Proofs.Allocation.Clear
import Scanout.Proofs.Allocation.Complete
import Scanout.Proofs.Allocation.Composition
import Scanout.Proofs.Allocation.Counted
import Scanout.Proofs.Allocation.Course
import Scanout.Proofs.Allocation.Effect
import Scanout.Proofs.Allocation.Eligible
import Scanout.Proofs.Allocation.Expired
import Scanout.Proofs.Allocation.Failing
import Scanout.Proofs.Allocation.Formats
import Scanout.Proofs.Allocation.Halted
import Scanout.Proofs.Allocation.Handles
import Scanout.Proofs.Allocation.Interrupted
import Scanout.Proofs.Allocation.Leftovers
import Scanout.Proofs.Allocation.Optimal
import Scanout.Proofs.Allocation.Order
import Scanout.Proofs.Allocation.Others
import Scanout.Proofs.Allocation.Paired
import Scanout.Proofs.Allocation.Periods
import Scanout.Proofs.Allocation.Placed
import Scanout.Proofs.Allocation.Precedence
import Scanout.Proofs.Allocation.Prepare
import Scanout.Proofs.Allocation.Present
import Scanout.Proofs.Allocation.Presentable
import Scanout.Proofs.Allocation.Primary
import Scanout.Proofs.Allocation.Priorities
import Scanout.Proofs.Allocation.Quiet
import Scanout.Proofs.Allocation.Repeat
import Scanout.Proofs.Allocation.Reuse
import Scanout.Proofs.Allocation.Shown
import Scanout.Proofs.Allocation.Stacking
import Scanout.Proofs.Allocation.Staged
import Scanout.Proofs.Allocation.Tests
import Scanout.Proofs.Allocation.Timeouts
import Scanout.Proofs.Allocation.Told
import Scanout.Proofs.Allocation.Vouched
import Scanout.Proofs.Arena
import Scanout.Proofs.Arena.History
import Scanout.Proofs.Device.Alike
import Scanout.Proofs.Device.Bulk
import Scanout.Proofs.Device.Change
import Scanout.Proofs.Device.Layers
import Scanout.Proofs.Device.Mounted
import Scanout.Proofs.Device.Planes
import Scanout.Proofs.Device.Reach
import Scanout.Proofs.Device.Registry
import Scanout.Proofs.Device.Remains
import Scanout.Proofs.Device.Run
import Scanout.Proofs.Device.Wiring
import Scanout.Proofs.Format.Blob
import Scanout.Proofs.Format.Table
import Scanout.Proofs.Format.Words
import Scanout.Proofs.Kernel.Alike
import Scanout.Proofs.Kernel.Asks
import Scanout.Proofs.Kernel.Integrity
import Scanout.Proofs.Kernel.Interrupted
import Scanout.Proofs.Kernel.Mock
import Scanout.Proofs.Kernel.Node
import Scanout.Proofs.Kernel.Objects
import Scanout.Proofs.Kernel.Recorded
import Scanout.Proofs.Kernel.Steady
import Scanout.Proofs.Outcome
import Scanout.Proofs.Plane.Fit
import Scanout.Proofs.Plane.Staging
import Scanout.Proofs.Plane.Writes
import Scanout.Proofs.Property.Bag
import Scanout.Proofs.Property.Descriptor
import Scanout.Proofs.Property.Edits
import Scanout.Proofs.Search.Alike
import Scanout.Proofs.Search.Budget
import Scanout.Proofs.Search.Choose
import Scanout.Proofs.Search.Expiry
import Scanout.Proofs.Search.Moments
import Scanout.Proofs.Search.Rollback
import Scanout.Proofs.Search.Told
import Scanout.Proofs.Search.TopFirst
import Scanout.Proofs.Search.Tour
import Scanout.Proofs.Search.Upkeep
import Scanout.Proofs.Search.Walk
import Scanout.Proofs.Session
import Scanout.Proofs.Trace.Printer
import Scanout.Proofs.Trace.Timeline
import Scanout.Trace.Printer
import Scanout.Trace.Recorder
import Scanout.Trace.Timeline
