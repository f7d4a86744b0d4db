import Contenox.Approvals.Resumption
import Contenox.Approvals.Bounds
import Contenox.Approvals.Paging
import Contenox.Policy.Elements
import Contenox.Policy.Wait
import Contenox.LocalShell.Invocation
import Contenox.Engine.Replays
import Contenox.Engine.Resume
import Contenox.AgentDecl.ShellTiers
import Contenox.Vfs.Contain
import Contenox.Vfs.StoredRuns
import Contenox.Missions.Plans
import Contenox.AgentDecl.SyncPasses
import Contenox.Events.Cursor
import Contenox.ModelSlot.Exclusive
import Contenox.Residency.Eviction
import Contenox.Lease.Exclusive
import Contenox.NativeTurn.Lifetime
import Contenox.Gateway.Names
import Contenox.Gateway.Spelling
import Contenox.Policy.Cleared
import Contenox.Policy.Blacklist
import Contenox.Engine.Traversals
import Contenox.Engine.Retries
import Contenox.Engine.Routes
import Contenox.AgentDecl.Answers
