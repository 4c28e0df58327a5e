import ArcRelay.Memory.Delivery
import ArcRelay.Archive.NoLoss
import ArcRelay.Server.Enumerate
import ArcRelay.OAuth.StaleWriters
import ArcRelay.Access.Demotion
import ArcRelay.OAuth.Rotation
import ArcRelay.Server.Revocation
import ArcRelay.Provider.Grants
import ArcRelay.Device.OneShot
import ArcRelay.Skills.Configuration
import ArcRelay.Skills.Rollout
import ArcRelay.Memory.Retries
import ArcRelay.Archive.Breaker
import ArcRelay.Archive.Retarget
import ArcRelay.Memory.Queue
import ArcRelay.Manager.Reachable
import ArcRelay.OAuth.Audience
import ArcRelay.Skills.Readers
import ArcRelay.Invite.Redemption
import ArcRelay.Bridge.Closing
import ArcRelay.Manager.Recovery
import ArcRelay.Skills.Git
import ArcRelay.Skills.Unpacking
import ArcRelay.Skills.Drift
import ArcRelay.Transport.Answers
import ArcRelay.Provider.Redirects
import ArcRelay.Manager.Images
import ArcRelay.Web.Throttle
import ArcRelay.Cli.Foreign
import ArcRelay.Archive.Credentials
import ArcRelay.Memory.Bodies
import ArcRelay.Memory.Halving
import ArcRelay.Optimize.Staleness
import ArcRelay.Server.Globals
import ArcRelay.Skills.Baseline
import ArcRelay.Skills.Subhash
import ArcRelay.OAuth.Flows
import ArcRelay.Server.RateLimit
import ArcRelay.OAuth.Totality
import ArcRelay.Web.LocalRedirects
import ArcRelay.Memory.CallBudget
