import Mathlib.Data.List.Sort
import Tmite.Client.Session
import Tmite.Daemon.State

namespace Tmite.Client

open Tmite.Daemon Transition TaskList

/-!
# The view model of `connect` (`client/model.rs`)

`ConnRegistry` tells the terminal task about proxied connections by events on a channel, and
`ConnectModel::apply` folds the events into what is drawn.  The tasks of the connections, the byte
tick of `connect::run` and the terminal task interleave: `TuiPlane` has a step for each lock,
each load of an atomic and each send.  Times are in milliseconds; ids and counters, `u64` in the
source, are natural numbers, and the same ones below 2^64 (`fitsU64_of_reach`).
-/

/-! ### Rows and events -/

/-- `PathRow`. -/
structure PathRow where
  remoteAddr : String
  relay : Bool
  selected : Bool
  rtt : Option ℕ
  txBytes : ℕ
  rxBytes : ℕ
deriving DecidableEq, Repr

/-- `ForwardRow`. -/
structure ForwardRow where
  localAddr : String
  target : String
deriving DecidableEq, Repr

/-- `ConnRow`. -/
structure ConnRow where
  id : ℕ
  peer : String
  spec : ℕ
  openedAt : ℕ
  txBytes : ℕ
  rxBytes : ℕ
deriving DecidableEq, Repr

/-- `UiEvent`. -/
inductive UiEvent
  | server (name node : String)
  | sessionState (status : SessionStatus)
  | forwards (forwards : List ForwardRow)
  | started
  | paths (paths : List PathRow)
  | connectionOpened (id : ℕ) (peer : String) (spec : ℕ)
  | connectionClosed (id : ℕ)
  | connectionBytes (id tx rx : ℕ)
  | notice (msg : String)

/-! ### The model -/

/-- `ConnectModel`. -/
structure ConnectModel where
  serverName : String := ""
  serverNode : String := ""
  session : Option SessionStatus := none
  startedAt : Option ℕ := none
  paths : List PathRow := []
  forwards : List ForwardRow := []
  connections : List ConnRow := []
  closedTotal : ℕ := 0
  totalTx : ℕ := 0
  totalRx : ℕ := 0
  status : Option (ℕ × String) := none

/-- The order of the path list: the selected one first, then direct ones, then by address. -/
def PathRow.cmp (a b : PathRow) : Ordering :=
  ((compare b.selected a.selected).then (compare a.relay b.relay)).then
    (compare a.remoteAddr b.remoteAddr)

namespace ConnectModel

/-- `ConnectModel::apply` at `now`. -/
def apply (m : ConnectModel) (now : ℕ) : UiEvent → ConnectModel
  | .server name node => { m with serverName := name, serverNode := node }
  | .sessionState status => { m with session := some status }
  | .forwards forwards => { m with forwards := forwards }
  | .started => { m with startedAt := some now }
  | .paths paths => { m with paths := paths.mergeSort (fun a b => PathRow.cmp a b != .gt) }
  | .connectionOpened id peer spec =>
    -- a spec that the `Forwards` event did not have is dropped
    if spec < m.forwards.length then
      { m with connections := m.connections ++ [⟨id, peer, spec, now, 0, 0⟩] }
    else m
  | .connectionBytes id tx rx =>
    { m with
      -- counts that come before the row, or after it is gone, find nothing
      connections := modifyFirst (fun c => c.id == id)
        (fun c => { c with txBytes := tx, rxBytes := rx }) m.connections }
  | .connectionClosed id =>
    -- a connection that was never admitted has no row, and is counted all the same
    let row := m.connections.find? (fun c => c.id == id)
    { m with
      totalTx := m.totalTx + (row.map ConnRow.txBytes).getD 0
      totalRx := m.totalRx + (row.map ConnRow.rxBytes).getD 0
      connections := m.connections.filter (fun c => c.id != id)
      closedTotal := m.closedTotal + 1 }
  | .notice msg => { m with status := some (now, msg) }

/-- `ConnectModel::active_per_forward`. -/
def activePerForward (m : ConnectModel) : List ℕ :=
  m.connections.foldl (fun counts c => counts.modify c.spec (· + 1))
    (List.replicate m.forwards.length 0)

end ConnectModel

/-! ### The registry -/

/-- `ConnHandle`. -/
structure ConnHandle where
  id : ℕ
  spec : ℕ
  peer : String
  tx : ℕ
  rx : ℕ
  started : Bool
deriving DecidableEq, Repr

/-- `RegistryInner`: the next id, and the map from ids to handles, by their place in memory. -/
structure RegistryInner where
  nextId : ℕ
  conns : List (ℕ × ℕ)
deriving DecidableEq, Repr

/-- `HashMap::insert`. -/
def RegistryInner.insert (r : RegistryInner) (id handle : ℕ) : RegistryInner :=
  { r with conns := (id, handle) :: r.conns.filter (fun e => e.1 != id) }

/-- `HashMap::remove`, with `is_some()` of what it returns. -/
def RegistryInner.remove (r : RegistryInner) (id : ℕ) : RegistryInner × Bool :=
  ({ r with conns := r.conns.filter (fun e => e.1 != id) }, r.conns.any (fun e => e.1 == id))

/-- Where the task of a connection stands in its calls of the registry. -/
inductive ConnPc
  /-- `create` has returned. -/
  | created
  /-- In `admit`, about to send. -/
  | admitting
  /-- `admit` has returned, and the connection is relayed. -/
  | admitted
  /-- In `close`, about to send. -/
  | closing
  /-- `close` has returned. -/
  | closed
deriving DecidableEq, Repr

structure Conn where
  handle : ConnHandle
  pc : ConnPc
deriving DecidableEq, Repr

/-- Where the byte tick stands. -/
inductive TickPc
  | idle
  /-- In `snapshot`, with the lock: the handles to come, and what is collected. -/
  | scan (todo : List ℕ) (acc : List (ℕ × ℕ × ℕ))
  /-- That handle has started. -/
  | readTx (handle : ℕ) (todo : List ℕ) (acc : List (ℕ × ℕ × ℕ))
  | readRx (handle tx : ℕ) (todo : List ℕ) (acc : List (ℕ × ℕ × ℕ))
  /-- With what is left to send. -/
  | send (rows : List (ℕ × ℕ × ℕ))
  | stopped
deriving DecidableEq, Repr

/-- The tick holds the registry's lock. -/
def TickPc.locked : TickPc → Bool
  | scan _ _ => true
  | readTx _ _ _ => true
  | readRx _ _ _ _ => true
  | _ => false

/-! ### The tasks together -/

structure TuiPlane where
  /-- The forwards `run` was called with. -/
  specs : List ForwardRow
  registry : RegistryInner
  conns : List Conn
  tick : TickPc
  /-- What has been sent on the channel, and how much of it the terminal task has taken. -/
  sent : List UiEvent
  applied : ℕ
  model : ConnectModel

inductive TuiAct
  /-- `handle_local` begins. -/
  | create (spec : ℕ) (peer : String)
  | admitConn (i : ℕ)
  | sendOpened (i : ℕ)
  /-- The pumps of a connection count bytes. -/
  | count (i tx rx : ℕ)
  | close (i : ℕ)
  | sendClosed (i : ℕ)
  /-- The tick begins a `snapshot`; a `HashMap` has its values in any order. -/
  | tick (order : List (ℕ × ℕ))
  /-- And takes its next step. -/
  | tickNext
  | tickStop
  /-- Another task, or `run`, sends an event. -/
  | other (e : UiEvent)
  /-- The terminal task takes the next event. -/
  | recv (now : ℕ)

/-- Events that are not about connections, and not the one `Forwards`. -/
def UiEvent.isOther : UiEvent → Bool
  | server _ _ => true
  | sessionState _ => true
  | started => true
  | paths _ => true
  | notice _ => true
  | _ => false

namespace TuiPlane

/-- `run` has sent its first two events. -/
def start (name node : String) (specs : List ForwardRow) : TuiPlane :=
  ⟨specs, ⟨0, []⟩, [], .idle, [.server name node, .forwards specs], 0, {}⟩

def send (s : TuiPlane) (e : UiEvent) : TuiPlane := { s with sent := s.sent ++ [e] }

/-- `ConnRegistry::create`. -/
def create (s : TuiPlane) (spec : ℕ) (peer : String) : TuiPlane :=
  let id := s.registry.nextId
  { s with
    registry := RegistryInner.insert { s.registry with nextId := id + 1 } id s.conns.length
    conns := s.conns ++ [⟨⟨id, spec, peer, 0, 0, false⟩, .created⟩] }

/-- `ConnRegistry::admit`, up to its send. -/
def admitConn (s : TuiPlane) (i : ℕ) (c : Conn) : TuiPlane :=
  { s with
    -- `swap(true)`: only the first `admit` goes on to send
    conns := s.conns.set i ⟨{ c.handle with started := true },
      if c.handle.started then .admitted else .admitting⟩ }

/-- `ConnRegistry::close`, up to its send. -/
def close (s : TuiPlane) (i : ℕ) (c : Conn) : TuiPlane :=
  let (registry, removed) := s.registry.remove c.handle.id
  { s with
    registry := registry
    -- only the `close` that finds the entry goes on to send
    conns := s.conns.set i { c with pc := if removed then .closing else .closed } }

/-- A step of the tick after its first. -/
def tickNext (s : TuiPlane) : Option TuiPlane :=
  match s.tick with
  | .scan [] acc => some { s with tick := .send acc }
  | .scan (i :: todo) acc =>
    -- the `filter` of `snapshot`: before `admit` a connection has no counts to report
    s.conns[i]?.map fun c =>
      { s with tick := if c.handle.started then .readTx i todo acc else .scan todo acc }
  | .readTx i todo acc =>
    s.conns[i]?.map fun c => { s with tick := .readRx i c.handle.tx todo acc }
  | .readRx i tx todo acc =>
    s.conns[i]?.map fun c => { s with tick := .scan todo (acc ++ [(c.handle.id, tx, c.handle.rx)]) }
  | .send [] => some { s with tick := .idle }
  | .send ((id, tx, rx) :: rows) =>
    some { s.send (.connectionBytes id tx rx) with tick := .send rows }
  | _ => none

/-- A step, where it is enabled. -/
def next (s : TuiPlane) : TuiAct → Option TuiPlane
  | .create spec peer =>
    -- `create` and the removal of `close` wait for a `snapshot` to end, `admit` does not
    if !s.tick.locked ∧ spec < s.specs.length then some (s.create spec peer) else none
  | .admitConn i =>
    s.conns[i]?.bind fun c => if c.pc = .created then some (s.admitConn i c) else none
  | .sendOpened i =>
    s.conns[i]?.bind fun c =>
      if c.pc = .admitting then
        some { s.send (.connectionOpened c.handle.id c.handle.peer c.handle.spec) with
          conns := s.conns.set i { c with pc := .admitted } }
      else none
  | .count i tx rx =>
    s.conns[i]?.bind fun c =>
      if c.pc = .admitted then
        some { s with
          conns := s.conns.set i { c with
            handle := { c.handle with tx := c.handle.tx + tx, rx := c.handle.rx + rx } } }
      else none
  | .close i =>
    s.conns[i]?.bind fun c =>
      if !s.tick.locked ∧ (c.pc = .created ∨ c.pc = .admitted) then some (s.close i c) else none
  | .sendClosed i =>
    s.conns[i]?.bind fun c =>
      if c.pc = .closing then
        some { s.send (.connectionClosed c.handle.id) with
          conns := s.conns.set i { c with pc := .closed } }
      else none
  | .tick order =>
    if s.tick = .idle ∧ order.isPerm s.registry.conns then
      some { s with tick := .scan (order.map Prod.snd) [] }
    else none
  | .tickNext => s.tickNext
  | .tickStop => if s.tick = .idle then some { s with tick := .stopped } else none
  | .other e => if e.isOther then some (s.send e) else none
  | .recv now =>
    s.sent[s.applied]?.map fun e => { s with applied := s.applied + 1, model := s.model.apply now e }

end TuiPlane

def tuiSystem : System TuiPlane TuiAct where
  init s := ∃ name node specs, s = .start name node specs
  next := TuiPlane.next

end Tmite.Client
