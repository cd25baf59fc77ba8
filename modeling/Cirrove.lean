import Cirrove.Core
import Cirrove.Library.Json
import Cirrove.Library.Runs
import Cirrove.Library.Table
import Cirrove.Library.Query
import Cirrove.Library.Commits
import Cirrove.Store.Effect
import Cirrove.Store.Announcements
import Cirrove.Store.Watching
import Cirrove.Store.Staging
import Cirrove.Store.Subtree
import Cirrove.Views.Invalidation
import Cirrove.Journal.Fencing
import Cirrove.Journal.Lineage
import Cirrove.Journal.Ordering
import Cirrove.Journal.Agreement
import Cirrove.Journal.Ownership
import Cirrove.Journal.Folders
import Cirrove.Package.Unchanged
import Cirrove.Cache.Keeping
import Cirrove.Cache.Admission
import Cirrove.Cache.Protection
import Cirrove.Google.Convergence
import Cirrove.Directory.Readback
import Cirrove.Journal.Projection
import Cirrove.Package.Layout
import Cirrove.Google.Names
import Cirrove.Service.Events
import Cirrove.Service.Connecting
import Cirrove.Service.Forgetting
import Cirrove.Graph.Driving
import Cirrove.ICloud.Feed
import Cirrove.Package.Export
import Cirrove.Journal.Ancestry
import Cirrove.Cache.Sessions
import Cirrove.ICloud.Sealing
import Cirrove.Graph.Reading
import Cirrove.Google.Running
import Cirrove.Graph.Conditional
import Cirrove.Google.Folders
