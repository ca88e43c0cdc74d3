import Hextet.Lib.Base64
import Hextet.Lib.Bytes
import Hextet.Lib.Bits
import Hextet.Lib.ArgMax
import Hextet.Lib.Disk
import Hextet.Lib.Fallible
import Hextet.Lib.Firsts
import Hextet.Lib.Json
import Hextet.Lib.KeyMap
import Hextet.Lib.KeyOrder
import Hextet.Lib.LastWriter
import Hextet.Lib.Log
import Hextet.Lib.Mailbox
import Hextet.Lib.Numeral
import Hextet.Lib.Occurrence
import Hextet.Lib.Replace
import Hextet.Lib.Replaced
import Hextet.Lib.Rounds
import Hextet.Lib.Run
import Hextet.Lib.Checked
import Hextet.Lib.TomlString
import Hextet.Lib.TomlGrammar
import Hextet.Lib.Toml
import Hextet.Lib.TomlAppend
import Hextet.Lib.Walk
import Hextet.Lib.Windows
import Hextet.Core.Identity
import Hextet.Core.Addr
import Hextet.Core.Beacon
import Hextet.Core.BeaconCodec
import Hextet.Core.Route
import Hextet.Core.Config
import Hextet.Core.AddrText
import Hextet.Core.Prefix
import Hextet.Core.RouteText
import Hextet.Core.ConfigFile
import Hextet.Core.ConfigToml
import Hextet.Core.PeerBlock
import Hextet.Core.Entry
import Hextet.Core.EntryPayload
import Hextet.Core.EntryCodec
import Hextet.Core.GossipStore
import Hextet.Core.PlainCrypto
import Hextet.Core.Invite
import Hextet.Core.InviteToken
import Hextet.Core.Bootstrap
import Hextet.Core.KeyPath
import Hextet.Core.Rollback
import Hextet.Core.PeerAppend
import Hextet.Core.NameText
import Hextet.Core.RelayFrame
import Hextet.Core.Probe
import Hextet.Core.GossipConvergence
import Hextet.Discovery.Record
import Hextet.Discovery.Ddns
import Hextet.Wg.Device
import Hextet.Engine.Candidates
import Hextet.Engine.Cache
import Hextet.Engine.CacheRun
import Hextet.Engine.Fsm
import Hextet.Engine.FsmRun
import Hextet.Engine.Steady
import Hextet.Engine.Rotation
import Hextet.Engine.Kernel
import Hextet.Engine.RouteManager
import Hextet.Engine.Members
import Hextet.Engine.Broadcast
import Hextet.Engine.Gossip
import Hextet.Engine.Flood
import Hextet.Engine.GossipTrust
import Hextet.Engine.Runtime
import Hextet.Engine.Daemon
import Hextet.Engine.CandidateList
import Hextet.Engine.Explain
import Hextet.Engine.Handlers
import Hextet.Engine.Frame
import Hextet.Engine.System
import Hextet.Engine.PeerRule
import Hextet.Engine.Aim
import Hextet.Engine.Membership
import Hextet.Engine.Revocation
import Hextet.Engine.Roster
import Hextet.Engine.Names
import Hextet.Engine.Discovery
import Hextet.Engine.AllowedIps
import Hextet.Engine.DataPlane
import Hextet.Engine.Rehandshake
import Hextet.Engine.Channels
import Hextet.Engine.OwnPeer
import Hextet.Engine.Relay
import Hextet.Engine.Rendezvous
import Hextet.Engine.FsmIndex
import Hextet.Engine.Eviction
import Hextet.Engine.Lan
import Hextet.Engine.LanTable
import Hextet.Engine.LanRun
import Hextet.Engine.LanExpiry
import Hextet.Engine.LanReplay
import Hextet.Engine.RouteTracking
import Hextet.Engine.SubnetRoutes
import Hextet.Engine.Chronicle
import Hextet.Engine.Layers
import Hextet.Engine.Link
import Hextet.Engine.Upgrade
import Hextet.Engine.Registration
import Hextet.Engine.Laps
import Hextet.Engine.Escape
import Hextet.Engine.RelayServer
import Hextet.Engine.RelaySessions
import Hextet.Engine.RelayForward
import Hextet.Engine.RelayReplay
import Hextet.Engine.RelayClient
import Hextet.Engine.RelayNet
import Hextet.Engine.RelayAnswers
import Hextet.Engine.RelayPath
import Hextet.Engine.PacketLimit
import Hextet.Engine.ProbeResponder
import Hextet.Engine.Doctor
import Hextet.Engine.Verdict
import Hextet.Engine.Publish
import Hextet.Engine.Lookup
import Hextet.Engine.Status
import Hextet.Engine.StateFile
import Hextet.Engine.Atomic
import Hextet.Engine.Spread
import Hextet.Cli.Hosts
import Hextet.Cli.PeerAdd
import Hextet.Cli.Member
