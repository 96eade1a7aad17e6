import Tmite.Core.RejectDelay
import Tmite.Daemon.StoreInv
import Tmite.Proto.Frame

namespace Tmite.Daemon

open Tmite.Core Tmite.Proto

/-!
# The data plane (`daemon/main_ep.rs`)

Any number of connections and streams next to the store, as a `Transition.System`.  A
connection is authenticated once, by `peer_by_node` at accept time; from then on it and its
streams carry the peer's *name*, and `handle_stream` asks the ACL for that name.  Every step
between two `await`s or two locks is a step of its own, so the admin's calls fall between the
lookup and the ACL check in every possible way.

`dials` is a history variable: each dial with the table its ACL check looked at.
-/

universe v
variable {Text : Type v}

/-! ### Connections and streams -/

/-- Where `DataPlaneHandler::accept` stands. -/
inductive ConnPc
  | lookup
  /-- Unknown peer, waiting for the lock on `reject_delay`. -/
  | rejectWait
  /-- Unknown peer, sleeping with the lock held. -/
  | rejectSleep
  | resetDelay (name : String)
  | touch (name : String)
  /-- In `connection_loop`. -/
  | serving (name : String)
  | ended
deriving DecidableEq

structure Conn where
  remote : PublicKey
  pc : ConnPc
deriving DecidableEq

/-- Where `handle_stream` stands; `table` in `dial` is what `rule_allows` saw. -/
inductive StreamPc
  | readFrame
  | acl (isForward : Bool) (target : String)
  | dial (target : String) (table : PersistedState)
  | writeOk (target : String)
  | relay (target : String)
  | closed
deriving DecidableEq

/-- A stream of a connection to `remote`, with the frames written on it. -/
structure Stream where
  peerName : String
  remote : PublicKey
  pc : StreamPc
  sent : List DataFrame
deriving DecidableEq

/-- A dial: the node its connection belongs to, the target, and the table at its ACL check. -/
structure Dial where
  node : PublicKey
  target : String
  table : PersistedState
deriving DecidableEq

structure DataPlane (Text : Type v) where
  store : State Text
  rejectDelay : RejectDelay
  /-- The lock on `reject_delay` is held. -/
  delayLocked : Bool
  conns : List Conn
  streams : List Stream
  dials : List Dial
deriving DecidableEq

/-! ### `handle_stream` -/

/-- What the first frame of a stream asks for. -/
inductive FirstFrame
  | request (isForward : Bool) (target : String)
  | session (forwards : List SessionForward)
  | malformed
deriving DecidableEq

/-- The `match` on the first frame: its type byte has to agree with its contents. -/
def firstFrame : FrameResult DataFrame → FirstFrame
  | .ok (t, .forward target) => if t = typeForward then .request true target else .malformed
  | .ok (t, .validate target) => if t = typeValidate then .request false target else .malformed
  | .ok (t, .session forwards) => if t = typeSession then .session forwards else .malformed
  | _ => .malformed

/-- Up to the ACL check: the shape of the target is checked, a session hello is answered. -/
def Stream.read (st : Stream) (r : FrameResult DataFrame) : Stream :=
  match firstFrame r with
  | .request isForward target =>
    if !validTarget target then { st with pc := .closed, sent := st.sent ++ [.deny .serverError] }
    else { st with pc := .acl isForward target }
  | .session _ => { st with pc := .closed, sent := st.sent ++ [.ok] }
  | .malformed => { st with pc := .closed }

/-- The ACL check; a `VALIDATE` is answered from it, a `FORWARD` goes on to dial. -/
def Stream.checkAcl (st : Stream) (store : State Text) (isForward : Bool) (target : String) :
    Stream :=
  if !store.ruleAllows st.peerName target then
    { st with pc := .closed, sent := st.sent ++ [.deny .unauthorized] }
  else if !isForward then { st with pc := .closed, sent := st.sent ++ [.ok] }
  else { st with pc := .dial target store.inner }

/-- How `TcpStream::connect` under its timeout ends. -/
inductive DialOutcome
  | connected
  | failed (osError : String)
  | timedOut
deriving DecidableEq

/-- After the dial. -/
def Stream.dialled (st : Stream) (target : String) : DialOutcome → Stream
  | .connected => { st with pc := .writeOk target }
  | .failed e => { st with pc := .closed, sent := st.sent ++ [.deny (.targetUnreachable e)] }
  | .timedOut =>
    { st with
      pc := .closed
      sent := st.sent ++ [.deny (.targetUnreachable "connect timed out")] }

/-! ### Steps -/

/-- The steps, with what the environment contributes to them. -/
inductive DataAct (Text : Type v)
  /-- A pairing records `remote` under `name`. -/
  | pair (name : String) (remote : PublicKey) (now : String) (fault : Option (WriteFault Text))
  /-- `peer.allow`, `peer.revoke` or `peer.rm`. -/
  | admin (c : Call Text)
  /-- The daemon stops and comes up again: no connection survives. -/
  | restart
  | incoming (remote : PublicKey)
  /-- `accept`, up to the next lock. -/
  | accept (i : ℕ)
  | touchLastSeen (i : ℕ) (now : String) (fault : Option (WriteFault Text))
  /-- `accept_bi` returns a stream, or the connection is closed. -/
  | acceptBi (i : ℕ) (ok : Bool)
  | readFrame (j : ℕ) (r : FrameResult DataFrame)
  | checkAcl (j : ℕ)
  | dial (j : ℕ) (outcome : DialOutcome)
  | writeOk (j : ℕ) (ok : Bool)
  | relayed (j : ℕ)

/-- The calls an admin makes on the store. -/
def Op.isAdmin : Op → Bool
  | .addRule _ _ _ => true
  | .removeRule _ _ => true
  | .removePeer _ _ => true
  | _ => false

namespace DataPlane

variable (T : Toml PersistedState Text)

/-- Connection `i` moves to `pc`. -/
def setConn (p : DataPlane Text) (i : ℕ) (c : Conn) (pc : ConnPc) : DataPlane Text :=
  { p with conns := p.conns.set i { c with pc } }

/-- Stream `j` moves on. -/
def setStream (p : DataPlane Text) (j : ℕ) (st : Stream) : DataPlane Text :=
  { p with streams := p.streams.set j st }

/-- `accept` up to the next lock: the lookup, the unknown peer's delay, the reset.  The lock goes to
    whoever finds it free, which allows more runs than tokio's, that is handed on in the order it was
    asked for (`RejectQueue` has the queue). -/
def accept (p : DataPlane Text) (i : ℕ) (c : Conn) : Option (DataPlane Text) :=
  match c.pc with
  | .lookup =>
    match p.store.peerByNode c.remote.display with
    | none => some (p.setConn i c .rejectWait)
    | some peer => some (p.setConn i c (.resetDelay peer.name))
  | .rejectWait =>
    if p.delayLocked then none
    else some { p.setConn i c .rejectSleep with delayLocked := true }
  | .rejectSleep =>
    some { p.setConn i c .ended with
      delayLocked := false
      rejectDelay := p.rejectDelay.escalate }
  | .resetDelay name =>
    if p.delayLocked then none
    else some { p.setConn i c (.touch name) with rejectDelay := p.rejectDelay.reset }
  | _ => none

/-- A step, where it is enabled. -/
def next (p : DataPlane Text) : DataAct Text → Option (DataPlane Text)
  | .pair name remote now fault =>
    some { p with store := (p.store.call T ⟨.addPeer ⟨name, remote.display, now, now⟩, fault⟩).1 }
  | .admin c => if c.op.isAdmin then some { p with store := (p.store.call T c).1 } else none
  | .restart =>
    some { p with
      store := (p.store.call T ⟨.restart, none⟩).1
      rejectDelay := .new
      delayLocked := false
      conns := []
      streams := [] }
  | .incoming remote => some { p with conns := p.conns ++ [⟨remote, .lookup⟩] }
  | .accept i => p.conns[i]?.bind (p.accept i)
  | .touchLastSeen i now fault =>
    p.conns[i]?.bind fun c => match c.pc with
    | .touch name =>
      some { p.setConn i c (.serving name) with
        store := (p.store.call T ⟨.touchLastSeen c.remote.display now, fault⟩).1 }
    | _ => none
  | .acceptBi i ok =>
    p.conns[i]?.bind fun c => match c.pc with
    | .serving name =>
      if ok then some { p with streams := p.streams ++ [⟨name, c.remote, .readFrame, []⟩] }
      else some (p.setConn i c .ended)
    | _ => none
  | .readFrame j r =>
    p.streams[j]?.bind fun st => match st.pc with
    | .readFrame => some (p.setStream j (st.read r))
    | _ => none
  | .checkAcl j =>
    p.streams[j]?.bind fun st => match st.pc with
    | .acl isForward target => some (p.setStream j (st.checkAcl p.store isForward target))
    | _ => none
  | .dial j outcome =>
    p.streams[j]?.bind fun st => match st.pc with
    | .dial target table =>
      some { p.setStream j (st.dialled target outcome) with
        dials := p.dials ++ [⟨st.remote, target, table⟩] }
    | _ => none
  | .writeOk j ok =>
    p.streams[j]?.bind fun st => match st.pc with
    | .writeOk target =>
      some (p.setStream j (if ok then { st with pc := .relay target, sent := st.sent ++ [.ok] }
        else { st with pc := .closed }))
    | _ => none
  | .relayed j =>
    p.streams[j]?.bind fun st => match st.pc with
    | .relay _ => some (p.setStream j { st with pc := .closed })
    | _ => none

/-- A daemon that has never run. -/
def initial : DataPlane Text := ⟨.fresh, .new, false, [], [], []⟩

/-- The daemon's data plane as a transition system. -/
def system : Transition.System (DataPlane Text) (DataAct Text) :=
  ⟨fun p => p = initial, next T⟩

end DataPlane

end Tmite.Daemon
