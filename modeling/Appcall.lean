import Appcall.Actions.Breaker
import Appcall.Actions.Canonical
import Appcall.Actions.Counters
import Appcall.Actions.Metering
import Appcall.Actions.Mutations
import Appcall.Actions.Quota
import Appcall.Actions.Replay
import Appcall.Api.Retirement
import Appcall.Caldav.Preserved
import Appcall.Caldav.Resources
import Appcall.Declarative.Detail
import Appcall.Declarative.Paths
import Appcall.Engine.Backoff
import Appcall.Engine.Duplicates
import Appcall.Engine.Forest
import Appcall.Engine.NoLostWakeup
import Appcall.Engine.Served
import Appcall.Engine.Signals
import Appcall.Engine.Trees
import Appcall.Events.Delivery
import Appcall.Events.History
import Appcall.Mcp.Confined
import Appcall.Mcp.Tools
import Appcall.Migrations.Handover
import Appcall.Oauth.Authorization
import Appcall.Oauth.Generation
import Appcall.Provider.Exclusive
import Appcall.Provider.Polling
import Appcall.Runner.Admitted
import Appcall.Runner.Gate
import Appcall.Sync.Attempts
import Appcall.Sync.Generations
import Appcall.Sync.Listing
import Appcall.Sync.Streams
import Appcall.Web.Once
