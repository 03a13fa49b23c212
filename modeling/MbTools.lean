import MbTools.Lib.Runs
import MbTools.Lib.Replica
import MbTools.Peering.Ownership
import MbTools.Peering.Fidelity
import MbTools.Registry.Locks
import MbTools.Registry.Daemon
import MbTools.Registry.Probe
import MbTools.Registry.Agreement
import MbTools.Registry.Arrival
import MbTools.Registry.Overlap
import MbTools.Registry.Instances
import MbTools.Peering.Listing
import MbTools.Peering.Link
import MbTools.Peering.Convergence
import MbTools.Api.Resolve
import MbTools.Api.Ops
import MbTools.Api.System
import MbTools.Api.Exclusive
import MbTools.Api.Sessions
import MbTools.Api.LocalOnly
import MbTools.Lib.Talk
import MbTools.Flash.Pyocd
import MbTools.Flash.LockLifetime
import MbTools.Api.Rescan
import MbTools.Registry.Survival
import MbTools.Registry.Reflash
import MbTools.Registry.Reprobe
import MbTools.Registry.Replay
import MbTools.Registry.LockCache
import MbTools.Peering.Effects
import MbTools.Peering.PeerRows
import MbTools.Peering.PeerLink
import MbTools.Peering.Recovery
import MbTools.Peering.Resurrection
import MbTools.Lib.Exchange
import MbTools.Peering.Names
import MbTools.Peering.NameSync
import MbTools.Lib.Journal
import MbTools.Registry.LockEvents
import MbTools.Lib.Json
import MbTools.Names.Requests
import MbTools.Names.Publish
import MbTools.Names.Derived
import MbTools.Names.Range
import MbTools.Api.Requests
import MbTools.Api.Shadow
import MbTools.Api.Closing
import MbTools.Api.Tracking
import MbTools.Store.Virtual
import MbTools.Virtual.Boards
import MbTools.Virtual.Lifecycle
import MbTools.Virtual.Outlets
import MbTools.Virtual.Confined
import MbTools.Virtual.Registration
import MbTools.Virtual.Endpoint
import MbTools.Dispatch.Ops
import MbTools.Dispatch.Lines
import MbTools.Dispatch.Answers
import MbTools.Dispatch.Terminal
import MbTools.Stream.Switch
import MbTools.Flash.Image
import MbTools.Flash.Decision
import MbTools.Flash.Operation
import MbTools.Relay.PoolHandler
import MbTools.Relay.Pick
import MbTools.Peering.Reply
import MbTools.Peering.Links
import MbTools.Deploy.Reprobe
import MbTools.Stream.Write
import MbTools.Names.Inverse
import MbTools.Api.Qualified
import MbTools.Serial.Reply
import MbTools.Registry.Identity
import MbTools.Relay.Banner
import MbTools.Relay.Session
import MbTools.Serial.Opening
import MbTools.Deploy.HexCalls
import MbTools.Serial.OwnPort
import MbTools.Lib.Grouping
import MbTools.Store.RowHistory
import MbTools.Names.Conflicts
import MbTools.Names.PutBody
import MbTools.Virtual.Grammar
import MbTools.Lib.LineBuffer
import MbTools.Lib.Utf8Lines
import MbTools.Stream.LineMode
import MbTools.Stream.RemoteSession
import MbTools.Lib.Successes
import MbTools.Render.LockCell
import MbTools.Dispatch.StagedFiles
import MbTools.Lib.Fanout
import MbTools.Registry.EventBus
import MbTools.Relay.Channel
import MbTools.Lib.Decimal
import MbTools.Peering.Netaddr
import MbTools.Peering.Discovery
import MbTools.Lib.Columns
import MbTools.Render.Table
import MbTools.Store.Schema
import MbTools.Names.Friendly
import MbTools.Lib.Base64
import MbTools.Dispatch.Upload
import MbTools.Lib.Calls
import MbTools.Client.Session
import MbTools.Service.Manager
import MbTools.Service.Artifacts
import MbTools.Lib.Workers
import MbTools.Registry.Shutdown
import MbTools.Flash.Watchdog
import MbTools.Relay.Terminal
import MbTools.Lib.Pump
import MbTools.Stream.Splice
import MbTools.Client.Rendezvous
import MbTools.Lib.Percent
import MbTools.Names.Http
