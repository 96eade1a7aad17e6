import Tmite.Lib.Transition
import Tmite.Lib.GrantHistory
import Tmite.Lib.TaskList
import Tmite.Lib.Serde
import Tmite.Lib.Tokens
import Tmite.Lib.Fifo
import Tmite.Lib.Keyed
import Tmite.Lib.Notify
import Tmite.Lib.Timed
import Tmite.Lib.Lines
import Tmite.Lib.Linearize
import Tmite.Lib.FifoLock
import Tmite.Proto.Limits
import Tmite.Proto.Frame
import Tmite.Proto.Stream
import Tmite.Proto.FrameCodec
import Tmite.Proto.FrameSize
import Tmite.Proto.PairingCode
import Tmite.Core.PublicKey
import Tmite.Core.Target
import Tmite.Core.Disk
import Tmite.Core.DataDir
import Tmite.Core.RejectDelay
import Tmite.Daemon.State
import Tmite.Daemon.StateEffect
import Tmite.Daemon.StoreInv
import Tmite.Daemon.AddRule
import Tmite.Daemon.Acl
import Tmite.Daemon.Notify
import Tmite.Daemon.Dispatch
import Tmite.Daemon.Durability
import Tmite.Daemon.Crash
import Tmite.Daemon.Lookup
import Tmite.Daemon.DataPlane
import Tmite.Daemon.RejectPacing
import Tmite.Daemon.RejectQueue
import Tmite.Daemon.DialGrant
import Tmite.Daemon.Backed
import Tmite.Daemon.Sessions
import Tmite.Daemon.Socket
import Tmite.Daemon.LiveCounts
import Tmite.Daemon.Invite
import Tmite.Daemon.InviteStep
import Tmite.Daemon.InviteSlot
import Tmite.Daemon.InviteApproval
import Tmite.Daemon.InviteResult
import Tmite.Daemon.InviteWake
import Tmite.Daemon.InviteManager
import Tmite.Daemon.InviteDelay
import Tmite.Daemon.IpcConn
import Tmite.Daemon.IpcReplies
import Tmite.Daemon.IpcMalformed
import Tmite.Daemon.IpcLine
import Tmite.Daemon.AdminCalls
import Tmite.Daemon.SessionsResult
import Tmite.Daemon.AdminErrors
import Tmite.Daemon.ConfirmSize
import Tmite.Daemon.Cooldown
import Tmite.Daemon.CooldownSpacing
import Tmite.Daemon.NtfyEnable
import Tmite.Daemon.StreamRequest
import Tmite.Client.Store
import Tmite.Client.FwdSpec
import Tmite.Client.FwdGrammar
import Tmite.Client.Pair
import Tmite.Client.Registry
import Tmite.Client.ConnectCmd
import Tmite.Client.Session
import Tmite.Client.SessionRace
import Tmite.Client.SessionStatus
import Tmite.Client.HandleLocal
import Tmite.Client.ConnModel
import Tmite.Client.ConnLedger
import Tmite.Client.ConnMirror
import Tmite.Client.Shutdown
import Tmite.Client.Hello
import Tmite.Client.Keypair
import Tmite.Client.KeypairRace
import Tmite.Pairing.Agreement
import Tmite.Pairing.Denial
import Tmite.Pairing.Screens
import Tmite.Pairing.VerdictWait
import Tmite.Pairing.InviteCmd
import Tmite.Pairing.InviteRecorded
import Tmite.Relay.Pump
import Tmite.Relay.EndOfStream
import Tmite.Relay.Duplex
import Tmite.Relay.Delivery
import Tmite.Relay.GrantedTarget
import Tmite.Client.Startup
import Tmite.System.Host
import Tmite.System.Access
import Tmite.System.Status
