import Radon.Aggregate.Columns
import Radon.Executor.NestLoop
import Radon.Executor.Union
import Radon.Metadata.Reload
import Radon.Metadata.Versions
import Radon.Planner.Scoping
import Radon.Plugins.AutoIncrement
import Radon.Plugins.ShiftManager
import Radon.Proxy.Auth
import Radon.Proxy.Enforcement
import Radon.Proxy.UniqueKeys
import Radon.System.AffectedRows
import Radon.System.Cleanup
import Radon.System.Connections
import Radon.System.Detach
import Radon.System.KeySpelling
import Radon.System.Orphans
import Radon.System.ReadIsolation
import Radon.System.RenameSteps
import Radon.System.RetryPasses
import Radon.System.Rewriting
import Radon.Executor.Comparators
import Radon.Router.SegmentLists
