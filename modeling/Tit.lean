import Tit.Theory.Outcome
import Tit.Theory.Table
import Tit.Theory.Run
import Tit.Theory.Chronicle
import Tit.Store.Rows.Identity
import Tit.Store.Rows.Directory
import Tit.Store.Rows.Git
import Tit.Store.Rows.PullRequest
import Tit.Store.Error
import Tit.Store.Database
import Tit.Store.Account
import Tit.Store.Login
import Tit.Sessions.Operations
import Tit.Sessions.Keyed
import Tit.Sessions.Revocation
import Tit.Store.Directory
import Tit.Directory.Authority
import Tit.Store.Access
import Tit.Store.DefaultBranch
import Tit.DefaultBranch.System
import Tit.DefaultBranch.Recovery
import Tit.Store.PullRequest
import Tit.PullRequests.Recovery
import Tit.PullRequests.System
import Tit.Store.GitIntent
import Tit.Git.Repository
import Tit.Git.Intents
import Tit.Git.Disk
import Tit.Git.Recovery
import Tit.Git.ReceivePack
import Tit.Operations.System
import Tit.Operations.Transition
import Tit.Operations.WellFormed
import Tit.Operations.Settlement
import Tit.Ssh.AuthorizedKeys
import Tit.Store.Review
import Tit.PullRequests.History
import Tit.Policy.Repository
import Tit.Policy.Agreement
import Tit.Policy.Concealment
import Tit.Policy.Pushes
import Tit.Backup.Archive
import Tit.Backup.Extract
import Tit.Backup.Create
import Tit.Backup.RoundTrip
import Tit.Git.Read
import Tit.PullRequests.Review
import Tit.PullRequests.DiffView
import Tit.Git.Diff
import Tit.PullRequests.Anchors
import Tit.Git.Patch
import Tit.Git.Apply
import Tit.Git.PatchNames
import Tit.Git.PatchRecords
import Tit.Git.Fidelity
import Tit.Merges.System
import Tit.Merges.Provenance
import Tit.Merges.Merged
import Tit.Git.Ancestry
import Tit.Directory.Ownership
import Tit.Directory.Unreachable
import Tit.Sessions.LastKey
import Tit.Git.PacketLine
import Tit.Ssh.ReceiveChannel
import Tit.Git.Transport
import Tit.Theory.Routes
import Tit.Http.Router
import Tit.PullRequests.Lifecycle
import Tit.Migration.Runs
import Tit.Ssh.LoginChallenge
import Tit.Sessions.Effects
import Tit.Sessions.Credentials
import Tit.Sessions.Server
import Tit.Store.EventLog
import Tit.Events.Log
import Tit.Events.System
import Tit.Events.IssueHistory
import Tit.Events.Timeline
import Tit.Events.PullRequestHistory
import Tit.Operations.Recovers
import Tit.Operations.Undisturbed
import Tit.Operations.Alone
import Tit.Git.DeltaSize
import Tit.Git.DeltaDepth
import Tit.Git.Archive
import Tit.Git.BinaryLiteral
import Tit.Git.Validation
import Tit.Policy.References
import Tit.Git.Histories
import Tit.Git.UploadPack
import Tit.Git.CommandSection
import Tit.Git.TreePaths
import Tit.Operations.Objects
import Tit.Directory.Collaborators
import Tit.Directory.Creation
import Tit.Http.RateLimit
import Tit.Ssh.ChallengeText
import Tit.Git.PacketWriter
import Tit.Git.Search
import Tit.Git.PatchPaths
import Tit.Store.ActivityPages
import Tit.Feeds.Page
import Tit.Feeds.Reply
import Tit.Feeds.Caching
import Tit.Feeds.Tokens
import Tit.Git.Fetch
import Tit.Git.Listing
import Tit.Ssh.UploadChannel
import Tit.Ssh.Connections
import Tit.Ssh.Commands
import Tit.Issues.Pages
import Tit.Http.Markdown
import Tit.Policy.MetadataSearch
