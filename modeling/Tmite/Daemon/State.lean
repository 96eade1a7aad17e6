import Tmite.Lib.Transition
import Tmite.Core.Disk
import Tmite.Core.PublicKey
import Tmite.Core.Target

namespace Tmite.Daemon

open Tmite.Core Tmite.Proto

/-!
# The daemon's store (`daemon/state.rs`)

`State` is the peer table and the rule list behind one mutex, with the file it is persisted
to.  Every method is one critical section, so it is one function here.  A mutating method
takes the fault its save runs into (`none`: the save goes through) and, where the source
reads the clock, the text `now_rfc3339` returned.

`Op`, `Call` and `storeMachine` put the methods together as one machine: a call is an
operation with the fault of its save, and `restart` is a daemon that stops and loads the file
again.
-/

universe v
variable {Text : Type v}

/-! ### Data -/

/-- `ErrorCode` (`tmite-proto/src/ipc.rs`). -/
inductive ErrorCode
  | badRequest
  | nameTaken
  | notFound
  | inviteCap
  | inviteExpired
  | peerHasRules
  | internal
deriving DecidableEq, Repr

/-- `StateError`; the first three carry the text of the error they wrap. -/
inductive StateError
  | io (e : String)
  | parse (e : String)
  | serialize (e : String)
  | nameTaken (name : String)
  | notFound (name : String)
  | peerHasRules (name : String)
  | peerCap
  | ruleCap
deriving DecidableEq, Repr

namespace StateError

/-- The `#[error]` texts. -/
def display : StateError → String
  | io e => "io error: " ++ e
  | parse e => "state file corrupt: " ++ e
  | serialize e => "state file serialization failed: " ++ e
  | nameTaken name => "peer \"" ++ name ++ "\" already exists"
  | notFound name => "peer \"" ++ name ++ "\" not found"
  | peerHasRules name => "peer \"" ++ name ++ "\" has rules; use --force to delete them too"
  | peerCap => "peer limit reached (" ++ toString maxPeers ++ ")"
  | ruleCap => "rule limit reached (" ++ toString maxRules ++ ")"

/-- `StateError::error_code`. -/
def errorCode : StateError → ErrorCode
  | nameTaken _ => .nameTaken
  | notFound _ => .notFound
  | peerHasRules _ => .peerHasRules
  | _ => .internal

/-- `From<toml::ser::Error>` and `From<std::io::Error>`. -/
def ofSave : SaveError → StateError
  | .serialize e => serialize e
  | .io e => io e

end StateError

structure Peer where
  name : String
  nodeId : String
  pairedAt : String
  lastSeen : String
deriving DecidableEq, Repr

structure Rule where
  peer : String
  target : String
  createdAt : String
deriving DecidableEq, Repr

structure PersistedState where
  version : ℕ
  peers : List Peer
  rules : List Rule
deriving DecidableEq, Repr

/-- `PersistedState::default`. -/
def PersistedState.default : PersistedState := ⟨1, [], []⟩

/-- `State`: what the mutex guards, and the file at `path`. -/
structure State (Text : Type v) where
  inner : PersistedState
  disk : Files Text
deriving DecidableEq

/-- The state of a daemon that has never run: `State::load` without a file. -/
def State.fresh : State Text := ⟨.default, .empty⟩

/-- The first element that `p` accepts is replaced, as `iter_mut().find` does it. -/
def modifyFirst {α : Type*} (p : α → Bool) (f : α → α) : List α → List α
  | [] => []
  | x :: xs => if p x then f x :: xs else x :: modifyFirst p f xs

namespace State

variable (T : Toml PersistedState Text) (fault : Option (WriteFault Text))

/-! ### Loading and saving -/

/-- `State::load`.  `readError` is an I/O error other than `NotFound`. -/
def load (disk : Files Text) (readError : Option String := none) :
    Except StateError (State Text) :=
  match readError, disk.file with
  | some e, _ => .error (.io e)
  | none, none => .ok ⟨.default, disk⟩
  | none, some text =>
    match T.fromStr text with
    | .ok persisted => .ok ⟨persisted, disk⟩
    | .error e => .error (.parse e)

/-- `State::persist_locked`. -/
def persistLocked (state : PersistedState) (disk : Files Text) :
    Files Text × Except StateError Unit :=
  let (disk, r) := writeAndRename T fault state disk
  (disk, r.mapError .ofSave)

/-! ### Queries -/

/-- `State::peer_by_node`. -/
def peerByNode (s : State Text) (nodeIdHex : String) : Option Peer :=
  s.inner.peers.find? (fun p => eqIgnoreAsciiCase p.nodeId nodeIdHex)

/-- `State::peer_by_name`. -/
def peerByName (s : State Text) (name : String) : Option Peer :=
  s.inner.peers.find? (fun p => p.name == name)

/-- `State::is_name_free`. -/
def isNameFree (s : State Text) (name : String) : Bool :=
  !s.inner.peers.any (fun p => p.name == name)

/-- `State::rule_allows`. -/
def ruleAllows (s : State Text) (peerName target : String) : Bool :=
  s.inner.rules.any (fun r => r.peer == peerName && r.target == target)

/-! ### Mutations -/

/-- `State::add_peer`. -/
def addPeer (s : State Text) (peer : Peer) : State Text × Except StateError Unit :=
  if s.inner.peers.any (fun p => p.name == peer.name) then (s, .error (.nameTaken peer.name))
  else if maxPeers ≤ s.inner.peers.length then (s, .error .peerCap)
  else
    -- memory first; a failed save does not take it back
    let inner := { s.inner with peers := s.inner.peers ++ [peer] }
    let (disk, r) := persistLocked T fault inner s.disk
    (⟨inner, disk⟩, r)

/-- `State::touch_last_seen`; the result of the save is dropped. -/
def touchLastSeen (s : State Text) (nodeIdHex now : String) : State Text :=
  if s.inner.peers.any (fun p => eqIgnoreAsciiCase p.nodeId nodeIdHex) then
    let peers := modifyFirst (fun p => eqIgnoreAsciiCase p.nodeId nodeIdHex)
      (fun p => { p with lastSeen := now }) s.inner.peers
    let inner := { s.inner with peers }
    ⟨inner, (persistLocked T fault inner s.disk).1⟩
  else s

/-- `State::add_rule`. -/
def addRule (s : State Text) (peer target now : String) : State Text × Except StateError ℕ :=
  if !s.inner.peers.any (fun p => p.name == peer) then (s, .error (.notFound peer))
  else if maxRules ≤ s.inner.rules.length then (s, .error .ruleCap)
  else
    match s.inner.rules.findIdx? (fun r => r.peer == peer && r.target == target) with
    -- acknowledged without a save
    | some existing => (s, .ok existing)
    | none =>
      let inner := { s.inner with rules := s.inner.rules ++ [⟨peer, target, now⟩] }
      let (disk, r) := persistLocked T fault inner s.disk
      (⟨inner, disk⟩, r.map (fun _ => inner.rules.length - 1))

/-- `State::remove_rule`. -/
def removeRule (s : State Text) (peer target : String) : State Text × Except StateError Bool :=
  if !s.inner.peers.any (fun p => p.name == peer) then (s, .error (.notFound peer))
  else
    let rules := s.inner.rules.filter (fun r => !(r.peer == peer && r.target == target))
    let inner := { s.inner with rules }
    if rules.length ≠ s.inner.rules.length then
      let (disk, r) := persistLocked T fault inner s.disk
      (⟨inner, disk⟩, r.map (fun _ => true))
    else (⟨inner, s.disk⟩, .ok false)

/-- `State::remove_peer`. -/
def removePeer (s : State Text) (name : String) (force : Bool) :
    State Text × Except StateError Bool :=
  if !s.inner.peers.any (fun p => p.name == name) then (s, .ok false)
  else if s.inner.rules.any (fun r => r.peer == name) && !force then
    (s, .error (.peerHasRules name))
  else
    let inner := { s.inner with
      peers := s.inner.peers.filter (fun p => p.name != name)
      rules := s.inner.rules.filter (fun r => r.peer != name) }
    let (disk, r) := persistLocked T fault inner s.disk
    (⟨inner, disk⟩, r.map (fun _ => true))

end State

/-! ### The store as a machine -/

/-- The operations on the store, a restart of the daemon included. -/
inductive Op
  | addPeer (peer : Peer)
  | touchLastSeen (nodeIdHex now : String)
  | addRule (peer target now : String)
  | removeRule (peer target : String)
  | removePeer (name : String) (force : Bool)
  | restart
deriving DecidableEq, Repr

/-- An operation and the fault its save runs into. -/
structure Call (Text : Type v) where
  op : Op
  fault : Option (WriteFault Text) := none
deriving DecidableEq

/-- What a call returned. -/
inductive Reply
  | unit (r : Except StateError Unit)
  | touched
  | index (r : Except StateError ℕ)
  | removed (r : Except StateError Bool)
  | loaded (r : Except StateError Unit)
deriving DecidableEq

/-- The call returned `Ok`. -/
def Reply.isOk : Reply → Bool
  | unit r => r.isOk
  | touched => true
  | index r => r.isOk
  | removed r => r.isOk
  | loaded r => r.isOk

/-- One call.  A daemon whose file does not load does not come up, so a failed load leaves
    nothing to call: the state stays for the next restart. -/
def State.call (T : Toml PersistedState Text) (s : State Text) (c : Call Text) :
    State Text × Reply :=
  match c.op with
  | .addPeer peer => (s.addPeer T c.fault peer).map id .unit
  | .touchLastSeen nodeIdHex now => (s.touchLastSeen T c.fault nodeIdHex now, .touched)
  | .addRule peer target now => (s.addRule T c.fault peer target now).map id .index
  | .removeRule peer target => (s.removeRule T c.fault peer target).map id .removed
  | .removePeer name force => (s.removePeer T c.fault name force).map id .removed
  | .restart =>
    match State.load T s.disk with
    | .ok s' => (s', .loaded (.ok ()))
    | .error e => (s, .loaded (.error e))

/-- The machine that runs the calls one after the other. -/
def storeMachine (T : Toml PersistedState Text) :
    Transition.Machine (State Text) (Call Text) Reply :=
  ⟨State.call T⟩

/-- The state after a list of calls, from the default state. -/
def State.after (T : Toml PersistedState Text) (calls : List (Call Text)) : State Text :=
  (storeMachine T).run State.fresh calls

end Tmite.Daemon
