import Tmite.Core.Disk
import Mathlib.Data.List.Basic

namespace Tmite.Daemon

/-!
# Push notifications (`daemon/notify.rs`)

The events the daemon tells its operator about, and the cooldown the drain task applies to them:
two events that agree in kind and in `key` within a minute are sent once.  The times are those at
which `drain` takes an event from its channel, in milliseconds.
-/

/-- `COOLDOWN`. -/
def cooldown : ℕ := 60 * 1000

/-- The contents of `ntfy.toml`. -/
structure NtfyConfig where
  topic : String
  server : Option String
deriving DecidableEq, Repr

/-- `DEFAULT_NTFY_SERVER`. -/
def defaultNtfyServer : String := "https://ntfy.sh"

/-- `NtfyConfig::server_url`. -/
def NtfyConfig.serverUrl (config : NtfyConfig) : String := config.server.getD defaultNtfyServer

/-! ### Events -/

inductive Notification
  | peerConnected (name nodeId : String)
  | peerRejected (nodeId : String)
  | pairRequested (name nodeId : String)
  | peerRegistered (name nodeId : String)
  | inviteCreated (name inviteId : String) (ttlSecs : ℕ)
  | inviteExpired (inviteId : String)
  | ruleAdded (peer target : String)
  | ruleRevoked (peer target : String)
deriving DecidableEq, Repr

inductive Kind
  | peerConnected
  | peerRejected
  | pairRequested
  | peerRegistered
  | inviteCreated
  | inviteExpired
  | ruleAdded
  | ruleRevoked
deriving DecidableEq, Repr

namespace Notification

/-- `Notification::kind`. -/
def kind : Notification → Kind
  | peerConnected _ _ => .peerConnected
  | peerRejected _ => .peerRejected
  | pairRequested _ _ => .pairRequested
  | peerRegistered _ _ => .peerRegistered
  | inviteCreated _ _ _ => .inviteCreated
  | inviteExpired _ => .inviteExpired
  | ruleAdded _ _ => .ruleAdded
  | ruleRevoked _ _ => .ruleRevoked

/-- `Notification::key`. -/
def key : Notification → String
  | peerConnected name _ => name
  | pairRequested name _ => name
  | peerRegistered name _ => name
  | peerRejected nodeId => nodeId
  | inviteCreated _ inviteId _ => inviteId
  | inviteExpired inviteId => inviteId
  | ruleAdded peer target => peer ++ "/" ++ target
  | ruleRevoked peer target => peer ++ "/" ++ target

end Notification

/-! ### The drain task -/

/-- `Cooldown`: when each kind and key was last let through. -/
structure Cooldown where
  window : ℕ
  last : Kind × String → Option ℕ

/-- `Cooldown::new`. -/
def Cooldown.new (window : ℕ) : Cooldown := ⟨window, fun _ => none⟩

/-- `Cooldown::admit` at `now`.  `duration_since` is zero where the clock has not moved on. -/
def Cooldown.admitEvent (c : Cooldown) (now : ℕ) (kind : Kind) (key : String) : Cooldown × Bool :=
  match c.last (kind, key) with
  | some t =>
    if now - t < c.window then (c, false)
    else ({ c with last := Function.update c.last (kind, key) (some now) }, true)
  | none => ({ c with last := Function.update c.last (kind, key) (some now) }, true)

/-- An event as `drain` takes it from its channel: when, and what `NtfyConfig::load` returns then. -/
structure Drained where
  notification : Notification
  now : ℕ
  config : Except String (Option NtfyConfig)

/-- What `drain` does with an event. -/
inductive DrainOutcome
  | suppressed
  /-- No `ntfy.toml`. -/
  | disabled
  | unreadable (e : String)
  /-- Posted to that topic and server. -/
  | posted (topic serverUrl : String)
deriving DecidableEq, Repr

/-- One turn of `drain`. -/
def drainOne (c : Cooldown) (d : Drained) : Cooldown × DrainOutcome :=
  match c.admitEvent d.now d.notification.kind d.notification.key with
  | (c, false) => (c, .suppressed)
  | (c, true) =>
    -- the time is recorded by now, also where nothing is sent
    match d.config with
    | .ok (some config) => (c, .posted config.topic config.serverUrl)
    | .ok none => (c, .disabled)
    | .error e => (c, .unreadable e)

/-- The cooldown after `drain` has taken these events. -/
def drain (c : Cooldown) (events : List Drained) : Cooldown :=
  events.foldl (fun c d => (drainOne c d).1) c

end Tmite.Daemon
