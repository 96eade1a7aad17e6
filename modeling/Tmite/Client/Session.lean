import Tmite.Lib.TaskList
import Tmite.Lib.Transition
import Tmite.Proto.Frame

namespace Tmite.Client

open Tmite.Core Tmite.Proto Transition TaskList

/-!
# The client session and its users (`client/session.rs`, `client/connect.rs`)

One cached connection behind a lock, and the tasks of `connect` that use it: `run` itself
before it serves, the path watch in its two forms, and a `handle_local` for every TCP
connection.  `get` holds the lock across its dial and its hello; `invalidate` empties the cache
under the lock, whichever connection it holds, and sets the status after it has let go.

Connections are numbered in the order they are established.  A step of a task goes from one
lock or `await` to the next; it gives the task's new position, an `Effect` on the session and
what the user is told (`taskNext`).  The environment decides how an `await` ends, so what iroh
promises (`open_bi` and the path events of an open connection do not fail) is a guard on runs.
`get` also asserts the remote id that iroh guarantees.

History variables: `dials` and `failed` count the dials and those that gave no connection,
`lost` holds the connections that died, `removals` the calls of `invalidate`.
-/

/-! ### The session -/

inductive SessionState
  | dialing
  | established
  | reconnecting (since : ℕ)
deriving DecidableEq, Repr

/-- The state, with the number of dials after the first successful one. -/
structure SessionStatus where
  state : SessionState
  redials : ℕ
deriving DecidableEq, Repr

/-- `SessionError`; wrapped errors are their texts. -/
inductive SessionError
  | unreachable (e : String)
  | timeout
  | net (e : String)
deriving DecidableEq, Repr

/-- The `#[error]` texts. -/
def SessionError.display : SessionError → String
  | unreachable e => "server unreachable: " ++ e
  | timeout => "dial timed out"
  | net e => "net error: " ++ e

structure Session where
  conn : Option ℕ
  /-- The lock of `conn` is held across an `await`. -/
  locked : Bool
  status : SessionStatus
  /-- An `AtomicU64`, which wraps around at 2^64 (`Calls.redials_lt`). -/
  redials : ℕ
  wasEstablished : Bool
deriving DecidableEq

namespace Session

/-- `Session::new`. -/
def new : Session := ⟨none, false, ⟨.dialing, 0⟩, 0, false⟩

/-- `set_state`. -/
def setState (s : Session) (state : SessionState) : Session :=
  { s with status := ⟨state, s.redials⟩ }

/-- `get`, with the lock and an empty cache, up to the dial. -/
def startDial (s : Session) : Session :=
  { s with
    locked := true
    redials := if s.wasEstablished then s.redials + 1 else s.redials }.setState .dialing

/-- `get` returns an error, and with that lets go of the lock. -/
def dialFailed (s : Session) : Session := { s with locked := false }

/-- `get` returns the new connection `c`. -/
def establish (s : Session) (c : ℕ) : Session :=
  { ({ s with wasEstablished := true }.setState .established) with
    conn := some c
    locked := false }

/-- `invalidate` under the lock. -/
def dropConn (s : Session) : Session := { s with conn := none }

end Session

/-- What the transport contributes to `send_hello`. -/
structure HelloIo where
  opened : Except String Unit
  wrote : Except String Unit
  reply : FrameResult DataFrame

/-- `send_hello`. -/
def sendHello (io : HelloIo) : Except FrameIoError Unit :=
  match io.opened with
  | .error e => .error (.io e)
  | .ok () =>
    match io.wrote with
    | .error e => .error (.io e)
    | .ok () => (expectFrame typeOk io.reply).map fun _ => ()

/-! ### Tasks -/

/-- The tasks that use the session. -/
inductive TaskKind
  /-- `run`, which connects and validates its specs before it serves. -/
  | eager
  | pathWatch
  /-- The path watch of the TUI. -/
  | pathTicks
  | handleLocal (target : String)
deriving DecidableEq

/-- Where a task stands. -/
inductive TaskPc
  /-- `pathTicks` waits for its interval. -/
  | tick
  /-- In `get`, before it has the lock. -/
  | get
  /-- In `get`, with the lock: dialing, and announcing the listeners. -/
  | dial
  | hello
  | validate (c : ℕ)
  | paths (c : ℕ)
  | snapshot (c : ℕ)
  | openBi (c : ℕ)
  | forward (c : ℕ)
  | awaitReply (c : ℕ)
  | relay (c : ℕ)
  /-- In `invalidate` after a failure on `c`, before it has the lock; `msg` is what
      `handle_local` says if it does not try again. -/
  | invalidate (c : ℕ) (msg : String)
  | setReconnecting (msg : String)
  | done
deriving DecidableEq

structure Task where
  kind : TaskKind
  attempt : ℕ
  pc : TaskPc
deriving DecidableEq

/-- What the user is told: `ConnectUi::warn`, `denied` and `path`. -/
inductive UiLine
  | warn (msg : String)
  | denied (target : String) (reason : DataDenyReason)
  | path (msg : String)
deriving DecidableEq

/-- `PathEvent`, with the texts of its addresses. -/
inductive PathEvent
  | opened (addr : String)
  | selected (addr : String)
  | closed (addr : String)
  | lagged (missed : ℕ)
  | other
deriving DecidableEq

/-- What the path watch says of an event. -/
def PathEvent.lines : PathEvent → List UiLine
  | opened addr => [.path ("path opened: " ++ addr)]
  | selected addr => [.path ("path selected: " ++ addr)]
  | closed addr => [.path ("path closed: " ++ addr)]
  | lagged missed => [.warn ("path events lagged (" ++ toString missed ++ " dropped)")]
  | other => []

/-- How the `await` a task is in ends. -/
inductive TaskEvent
  | go
  | dialed (r : Except SessionError Unit)
  | hello (io : HelloIo)
  | validated
  | opened (r : Except String Unit)
  | wrote (ok : Bool)
  /-- `none` when the timeout around the read of the reply fires. -/
  | replied (r : Option (FrameResult DataFrame))
  | relayed
  /-- `none` when the stream of path events ends. -/
  | path (ev : Option PathEvent)
  | sent (ok : Bool)
  /-- Shutdown: the path watch is notified or aborted. -/
  | stop

/-- What a task's step does to the session. -/
inductive Effect
  | none
  | startDial
  | dialFailed
  | establish
  | dropConn (c : ℕ)
  | reconnecting
deriving DecidableEq

namespace TaskKind

/-- Where a task goes with the connection it got. -/
def use (c : ℕ) : TaskKind → TaskPc
  | eager => .validate c
  | pathWatch => .paths c
  | pathTicks => .snapshot c
  | handleLocal _ => .openBi c

/-- Where a task goes when `get` failed. -/
def unreachable : TaskKind → TaskPc
  | pathTicks => .tick
  | _ => .done

/-- What it says then. -/
def complain (e : SessionError) : TaskKind → List UiLine
  | pathWatch => [.warn ("cannot reach server for path watch: " ++ e.display)]
  | handleLocal _ => [.warn ("cannot reach server: " ++ e.display)]
  | _ => []

end TaskKind

/-- What a path watch does to the session when it is stopped, at an `await`: in its dial, it lets
    go of the lock. -/
def TaskPc.stopped : TaskPc → Option Effect
  | dial => some .dialFailed
  | hello => some .dialFailed
  | tick => some .none
  | get => some .none
  | paths _ => some .none
  | invalidate _ _ => some .none
  | _ => none

/-- `write_frame` of the `FORWARD` succeeds: the frame encodes, and the stream takes it. -/
def canForward (toVec : DataFrame → List UInt8) (target : String) (ok : Bool) : Bool :=
  ok && (encodeFrame toVec typeForward (.forward target)).isOk

/-- One step of a task; `next` is the number of the next connection. -/
def taskNext (toVec : DataFrame → List UInt8) (session : Session) (next : ℕ) (t : Task) :
    TaskEvent → Option (Task × Effect × List UiLine) :=
  fun ev => match t.kind, t.pc, ev with
  | .pathTicks, .tick, .go => some ({ t with pc := .get }, .none, [])
  -- `get`
  | kind, .get, .go =>
    if session.locked then none
    else match session.conn with
      | some c => some ({ t with pc := kind.use c }, .none, [])
      | none => some ({ t with pc := .dial }, .startDial, [])
  | _, .dial, .dialed (.ok ()) => some ({ t with pc := .hello }, .none, [])
  | kind, .dial, .dialed (.error e) =>
    some ({ t with pc := kind.unreachable }, .dialFailed, kind.complain e)
  | kind, .hello, .hello io =>
    match sendHello io with
    | .ok () => some ({ t with pc := kind.use next }, .establish, [])
    | .error e => some ({ t with pc := kind.unreachable }, .dialFailed,
        kind.complain (.unreachable ("session hello: " ++ e.display)))
  -- `run` goes on to serve, or ends
  | .eager, .validate _, .validated => some ({ t with pc := .done }, .none, [])
  -- the path watch
  | .pathWatch, .paths _, .path (some ev) => some (t, .none, ev.lines)
  | .pathWatch, .paths c, .path none => some ({ t with pc := .invalidate c "" }, .none, [])
  | .pathTicks, .snapshot _, .sent ok =>
    some ({ t with pc := if ok then .tick else .done }, .none, [])
  -- `handle_local`
  | .handleLocal _, .openBi c, .opened (.ok ()) => some ({ t with pc := .forward c }, .none, [])
  | .handleLocal _, .openBi c, .opened (.error e) =>
    some ({ t with pc := .invalidate c ("stream open failed: " ++ e) }, .none, [])
  | .handleLocal target, .forward c, .wrote ok =>
    some ({ t with pc := if canForward toVec target ok then .awaitReply c
      else .invalidate c "failed to send FORWARD" }, .none, [])
  | .handleLocal _, .awaitReply _, .replied none =>
    some ({ t with pc := .done }, .none, [.warn "timed out awaiting FORWARD reply"])
  | .handleLocal _, .awaitReply c, .replied (some (.error e)) =>
    some ({ t with pc := .invalidate c ("lost connection while awaiting reply: " ++ e.display) },
      .none, [])
  -- the type byte of the reply is not looked at
  | .handleLocal _, .awaitReply c, .replied (some (.ok (_, .ok))) =>
    some ({ t with pc := .relay c }, .none, [])
  | .handleLocal target, .awaitReply _, .replied (some (.ok (_, .deny reason))) =>
    some ({ t with pc := .done }, .none, [.denied target reason])
  | .handleLocal _, .awaitReply _, .replied (some (.ok _)) =>
    some ({ t with pc := .done }, .none, [.warn "unexpected reply to FORWARD"])
  | .handleLocal _, .relay _, .relayed => some ({ t with pc := .done }, .none, [])
  -- `invalidate`, and what follows it
  | _, .invalidate c msg, .go =>
    if session.locked then none else some ({ t with pc := .setReconnecting msg }, .dropConn c, [])
  | .pathWatch, .setReconnecting _, .go => some ({ t with pc := .get }, .reconnecting, [])
  | .handleLocal _, .setReconnecting msg, .go =>
    if t.attempt = 0 then some ({ t with attempt := 1, pc := .get }, .reconnecting, [])
    else some ({ t with pc := .done }, .reconnecting, [.warn msg])
  | .pathWatch, pc, .stop | .pathTicks, pc, .stop =>
    pc.stopped.map fun eff => ({ t with pc := .done }, eff, [])
  | _, _, _ => none

/-! ### The system -/

/-- A call of `invalidate` by a task that saw `failed` fail, and what it found cached. -/
structure Removal where
  failed : ℕ
  found : Option ℕ
deriving DecidableEq

/-- The state of `tmite connect`. -/
structure Connect where
  clock : ℕ
  session : Session
  tasks : List Task
  /-- How many connections have been established. -/
  established : ℕ
  said : List UiLine
  lost : List ℕ
  dials : ℕ
  failed : ℕ
  removals : List Removal
deriving DecidableEq

/-- The effect of a task's step. -/
def Connect.perform (s : Connect) : Effect → Connect
  | .none => s
  | .startDial => { s with session := s.session.startDial, dials := s.dials + 1 }
  | .dialFailed => { s with session := s.session.dialFailed, failed := s.failed + 1 }
  | .establish =>
    { s with session := s.session.establish s.established, established := s.established + 1 }
  | .dropConn c =>
    { s with
      session := s.session.dropConn
      removals := s.removals ++ [⟨c, s.session.conn⟩] }
  | .reconnecting => { s with session := s.session.setState (.reconnecting s.clock) }

/-- The steps of `tmite connect` and of what surrounds it. -/
inductive ConnectAct
  | tick (ms : ℕ)
  | spawn (kind : TaskKind)
  /-- Connection `c` dies. -/
  | lose (c : ℕ)
  | task (i : ℕ) (ev : TaskEvent)

/-- Where a task begins. -/
def TaskKind.first : TaskKind → TaskPc
  | pathTicks => .tick
  | _ => .get

/-- A step, where it is enabled. -/
def Connect.next (toVec : DataFrame → List UInt8) (s : Connect) : ConnectAct → Option Connect
  | .tick ms => some { s with clock := s.clock + ms }
  | .spawn kind => some { s with tasks := s.tasks ++ [⟨kind, 0, kind.first⟩] }
  | .lose c =>
    if c < s.established ∧ c ∉ s.lost then some { s with lost := c :: s.lost } else none
  | .task i ev =>
    s.tasks[i]?.bind fun t =>
      (taskNext toVec s.session s.established t ev).map fun (t', eff, lines) =>
        { s with tasks := s.tasks.set i t', said := s.said ++ lines }.perform eff

/-- `tmite connect`, with nothing dialed yet. -/
def Connect.start (clock : ℕ) : Connect := ⟨clock, .new, [], 0, [], [], 0, 0, []⟩

/-- `tmite connect` as a transition system. -/
def Connect.system (toVec : DataFrame → List UInt8) : System Connect ConnectAct :=
  ⟨fun s => ∃ clock, s = Connect.start clock, Connect.next toVec⟩

/-! ### What one step can do -/

namespace TaskPc

/-- In `get`, with the lock. -/
def dialing : TaskPc → Bool
  | dial => true
  | hello => true
  | _ => false

/-- The connection a task works with and may yet call `invalidate` for. -/
def worksWith : TaskPc → Option ℕ
  | paths c => some c
  | openBi c => some c
  | forward c => some c
  | awaitReply c => some c
  | invalidate c _ => some c
  | _ => none

theorem dialing_of_worksWith {pc : TaskPc} {c : ℕ} (h : pc.worksWith = some c) :
    pc.dialing = false := by
  cases pc with
  | dial => exact absurd h (by simp [worksWith])
  | hello => exact absurd h (by simp [worksWith])
  | _ => rfl

end TaskPc

@[simp] theorem TaskKind.dialing_use (kind : TaskKind) (c : ℕ) :
    (kind.use c).dialing = false := by
  cases kind <;> rfl

theorem TaskKind.worksWith_use (kind : TaskKind) (c : ℕ) :
    (kind.use c).worksWith = some c ∨ (kind.use c).worksWith = none := by
  cases kind with
  | eager => exact .inr rfl
  | pathWatch => exact .inl rfl
  | pathTicks => exact .inr rfl
  | handleLocal target => exact .inl rfl

section Moves

variable (session : Session) (next : ℕ) (kind : TaskKind)

/-- A move of a task: position before and after, and the effect. -/
inductive TaskMove : TaskPc → TaskPc → Effect → Prop
  | cached (c : ℕ) : session.locked = false → session.conn = some c →
      TaskMove .get (kind.use c) .none
  | startDial : session.locked = false → session.conn = none → TaskMove .get .dial .startDial
  | dialed : TaskMove .dial .hello .none
  | dialFailed {pc pc' : TaskPc} : pc.dialing = true → pc'.dialing = false →
      pc'.worksWith = none → TaskMove pc pc' .dialFailed
  | established : TaskMove .hello (kind.use next) .establish
  /-- The task goes on with its connection, up to giving it up. -/
  | works {pc pc' : TaskPc} (c : ℕ) : pc.worksWith = some c → pc'.worksWith = some c →
      TaskMove pc pc' .none
  /-- The task is through with its connection, or has none. -/
  | leaves {pc pc' : TaskPc} : pc.dialing = false → pc'.dialing = false →
      pc'.worksWith = none → TaskMove pc pc' .none
  | dropConn (c : ℕ) (msg : String) : session.locked = false →
      TaskMove (.invalidate c msg) (.setReconnecting msg) (.dropConn c)
  | reconnecting {pc' : TaskPc} (msg : String) : pc'.dialing = false → pc'.worksWith = none →
      TaskMove (.setReconnecting msg) pc' .reconnecting

variable {session next kind}

/-- A path watch that is stopped is through with its connection. -/
theorem stopped_move {pc : TaskPc} {eff : Effect} (h : pc.stopped = some eff) :
    TaskMove session next kind pc .done eff := by
  cases pc with
  | dial => cases h; exact .dialFailed rfl rfl rfl
  | hello => cases h; exact .dialFailed rfl rfl rfl
  | tick => cases h; exact .leaves rfl rfl rfl
  | get => cases h; exact .leaves rfl rfl rfl
  | paths c => cases h; exact .leaves rfl rfl rfl
  | invalidate c msg => cases h; exact .leaves rfl rfl rfl
  | _ => exact absurd h (by simp [TaskPc.stopped])

/-- Every step of a task is one of the moves. -/
theorem taskNext_move {toVec : DataFrame → List UInt8} {t t' : Task} {ev : TaskEvent}
    {eff : Effect} {lines : List UiLine}
    (h : taskNext toVec session next t ev = some (t', eff, lines)) :
    TaskMove session next t.kind t.pc t'.pc eff := by
  unfold taskNext at h
  split at h
  · -- the next tick
    rename_i hpc
    rw [hpc]; cases h; exact .leaves rfl rfl rfl
  · -- `get`, up to the dial
    rename_i hpc
    rw [hpc]
    split at h
    · exact absurd h (by simp)
    · rename_i hlocked
      have hlocked : session.locked = false := by simpa using hlocked
      split at h
      · rename_i c hconn
        cases h; exact .cached c hlocked hconn
      · rename_i hconn
        cases h; exact .startDial hlocked hconn
  · -- the dial, and how it fails
    rename_i hpc
    rw [hpc]; cases h; exact .dialed
  · rename_i hpc
    rw [hpc]; cases h
    exact .dialFailed rfl (by cases t.kind <;> rfl) (by cases t.kind <;> rfl)
  · -- the hello
    rename_i hpc
    rw [hpc]
    split at h
    · cases h; exact .established
    · cases h
      exact .dialFailed rfl (by cases t.kind <;> rfl) (by cases t.kind <;> rfl)
  · -- the eager validation
    rename_i hpc
    rw [hpc]; cases h; exact .leaves rfl rfl rfl
  · -- the path watch: an event, and the end of the events
    rename_i c ev _ hpc
    cases h
    exact .works c (by rw [hpc]; rfl) (by rw [hpc]; rfl)
  · rename_i c _ hpc
    rw [hpc]; cases h; exact .works c rfl rfl
  · -- the snapshot
    rename_i c ok _ hpc
    rw [hpc]; cases h
    exact .leaves rfl (by cases ok <;> rfl) (by cases ok <;> rfl)
  · -- `handle_local`: the stream is opened, or not
    rename_i c _ hpc
    rw [hpc]; cases h; exact .works c rfl rfl
  · rename_i c e _ hpc
    rw [hpc]; cases h; exact .works c rfl rfl
  · -- `FORWARD` is sent, or not
    rename_i target c ok _ hpc
    rw [hpc]; cases h
    exact .works c rfl (by split <;> rfl)
  · -- the reply: timeout, error, `OK`, `DENY`, anything else
    rename_i hpc
    rw [hpc]; cases h; exact .leaves rfl rfl rfl
  · rename_i c e _ hpc
    rw [hpc]; cases h; exact .works c rfl rfl
  · rename_i hpc
    rw [hpc]; cases h; exact .leaves rfl rfl rfl
  · rename_i hpc
    rw [hpc]; cases h; exact .leaves rfl rfl rfl
  · rename_i hpc
    rw [hpc]; cases h; exact .leaves rfl rfl rfl
  · -- the relay ends
    rename_i hpc
    rw [hpc]; cases h; exact .leaves rfl rfl rfl
  · -- `invalidate`
    rename_i c msg hpc
    rw [hpc]
    split at h
    · exact absurd h (by simp)
    · rename_i hlocked
      cases h; exact .dropConn c msg (by simpa using hlocked)
  · -- after it, the path watch starts over
    rename_i msg _ hpc
    rw [hpc]; cases h; exact .reconnecting msg rfl rfl
  · -- and `handle_local` tries once more
    rename_i msg _ hpc
    rw [hpc]
    split at h
    · cases h; exact .reconnecting msg rfl rfl
    · cases h; exact .reconnecting msg rfl rfl
  · -- a path watch is stopped
    obtain ⟨eff', hstop, heq⟩ := Option.map_eq_some_iff.mp h
    cases heq; exact stopped_move hstop
  · obtain ⟨eff', hstop, heq⟩ := Option.map_eq_some_iff.mp h
    cases heq; exact stopped_move hstop
  · exact absurd h (by simp)

/-- A step of task `i`. -/
theorem next_task {toVec : DataFrame → List UInt8} {s s' : Connect} {i : ℕ} {ev : TaskEvent}
    (h : s.next toVec (.task i ev) = some s') :
    ∃ t t' eff lines, s.tasks[i]? = some t ∧
      taskNext toVec s.session s.established t ev = some (t', eff, lines) ∧
      TaskMove s.session s.established t.kind t.pc t'.pc eff ∧
      s' = { s with tasks := s.tasks.set i t', said := s.said ++ lines }.perform eff := by
  obtain ⟨t, ht, h⟩ := Option.bind_eq_some_iff.mp h
  obtain ⟨⟨t', eff, lines⟩, hstep, rfl⟩ := Option.map_eq_some_iff.mp h
  exact ⟨t, t', eff, lines, ht, hstep, taskNext_move hstep, rfl⟩

end Moves

/-! ### The lock -/

/-- The lock is held across an `await` by the one task that dials, while nothing is cached; and
    every dial is still going on, has failed or has given a connection. -/
structure LockInv (s : Connect) : Prop where
  dialing : s.tasks.countP (fun t => t.pc.dialing) = if s.session.locked then 1 else 0
  empty : s.session.locked = true → s.session.conn = none
  dials : s.dials = s.established + s.failed + if s.session.locked then 1 else 0

section Lock

variable {s : Connect} {i : ℕ} {t t' : Task} {lines : List UiLine}

/-- The lock has one holder. -/
theorem LockInv.holder (h : LockInv s) :
    OneHolder (fun t : Task => t.pc.dialing) s.tasks s.session.locked := h.dialing

/-- A cached connection is there for the asking. -/
theorem LockInv.free (h : LockInv s) {c : ℕ} (hconn : s.session.conn = some c) :
    s.session.locked = false := by
  by_contra hlocked
  have hnone := h.empty (by simpa using hlocked)
  rw [hconn] at hnone
  exact absurd hnone (by simp)

/-- A move that does nothing to the session, and neither begins nor ends a dial. -/
theorem LockInv.quiet (h : LockInv s) (ht : s.tasks[i]? = some t)
    (hdial : t'.pc.dialing = t.pc.dialing) :
    LockInv { s with tasks := s.tasks.set i t', said := s.said ++ lines } :=
  ⟨h.holder.keep ht hdial, h.empty, h.dials⟩

theorem LockInv.startDial (h : LockInv s) (ht : s.tasks[i]? = some t)
    (hpc : t.pc.dialing = false) (hpc' : t'.pc.dialing = true)
    (hlocked : s.session.locked = false) (hconn : s.session.conn = none) :
    LockInv (Connect.perform { s with tasks := s.tasks.set i t', said := s.said ++ lines }
      .startDial) := by
  have hholder := h.holder
  have hdials := h.dials
  rw [hlocked] at hholder
  rw [if_neg (by simp [hlocked])] at hdials
  refine ⟨hholder.take ht hpc hpc', fun _ => hconn, ?_⟩
  show s.dials + 1 = s.established + s.failed + 1
  omega

theorem LockInv.dialFailed (h : LockInv s) (ht : s.tasks[i]? = some t)
    (hpc : t.pc.dialing = true) (hpc' : t'.pc.dialing = false) :
    LockInv (Connect.perform { s with tasks := s.tasks.set i t', said := s.said ++ lines }
      .dialFailed) := by
  have hlocked := h.holder.held_of_holds ht hpc
  have hdials := h.dials
  rw [if_pos hlocked] at hdials
  refine ⟨h.holder.drop ht hpc hpc', fun _ => h.empty hlocked, ?_⟩
  show s.dials = s.established + (s.failed + 1) + 0
  omega

theorem LockInv.establish (h : LockInv s) (ht : s.tasks[i]? = some t)
    (hpc : t.pc.dialing = true) (hpc' : t'.pc.dialing = false) :
    LockInv (Connect.perform { s with tasks := s.tasks.set i t', said := s.said ++ lines }
      .establish) := by
  have hlocked := h.holder.held_of_holds ht hpc
  have hdials := h.dials
  rw [if_pos hlocked] at hdials
  refine ⟨h.holder.drop ht hpc hpc', fun habs => absurd habs (by
    simp [Connect.perform, Session.establish]), ?_⟩
  show s.dials = s.established + 1 + s.failed + 0
  omega

theorem LockInv.task {toVec : DataFrame → List UInt8} {s' : Connect} {ev : TaskEvent}
    (h : LockInv s) (hn : s.next toVec (.task i ev) = some s') : LockInv s' := by
  obtain ⟨t, t', eff, lines, ht, -, hmove, rfl⟩ := next_task hn
  -- name the two positions, so that the cases are those of the moves
  generalize hpc : t.pc = pc at hmove
  generalize hpc' : t'.pc = pc' at hmove
  cases hmove with
  | cached c hlocked hconn =>
    exact h.quiet ht (by rw [hpc, hpc', TaskKind.dialing_use]; rfl)
  | startDial hlocked hconn =>
    exact h.startDial ht (by rw [hpc]; rfl) (by rw [hpc']; rfl) hlocked hconn
  | dialed => exact h.quiet ht (by rw [hpc, hpc']; rfl)
  | dialFailed hdial hdial' hworks =>
    exact h.dialFailed ht (by rw [hpc]; exact hdial) (by rw [hpc']; exact hdial')
  | established => exact h.establish ht (by rw [hpc]; rfl) (by rw [hpc', TaskKind.dialing_use])
  | works c hworks hworks' =>
    refine h.quiet ht ?_
    rw [hpc, hpc', TaskPc.dialing_of_worksWith hworks, TaskPc.dialing_of_worksWith hworks']
  | leaves hdial hdial' hworks => exact h.quiet ht (by rw [hpc, hpc', hdial, hdial'])
  | dropConn c msg hlocked =>
    -- the lock is free again within the step, and the cache is empty in any case
    have hquiet : LockInv { s with tasks := s.tasks.set i t', said := s.said ++ lines } :=
      h.quiet ht (by rw [hpc, hpc']; rfl)
    exact ⟨hquiet.dialing, fun _ => rfl, hquiet.dials⟩
  | reconnecting msg hdial hworks =>
    have hquiet : LockInv { s with tasks := s.tasks.set i t', said := s.said ++ lines } :=
      h.quiet ht (by rw [hpc, hpc', hdial]; rfl)
    exact ⟨hquiet.dialing, hquiet.empty, hquiet.dials⟩

end Lock

/-- In every run. -/
theorem lockInv {toVec : DataFrame → List UInt8} {C : Connect → ConnectAct → Prop} {s : Connect}
    (h : Reach (Connect.system toVec) C s) : LockInv s := by
  refine h.invariant ?_ (fun s a s' _ hi _ hn => ?_)
  · rintro s ⟨clock, rfl⟩
    exact ⟨rfl, by simp [Connect.start, Session.new], rfl⟩
  · have hn : s.next toVec a = some s' := hn
    cases a with
    | tick ms => cases hn; exact ⟨hi.dialing, hi.empty, hi.dials⟩
    | spawn kind =>
      cases hn
      have hfirst : kind.first.dialing = false := by cases kind <;> rfl
      exact ⟨hi.holder.concat hfirst, hi.empty, hi.dials⟩
    | lose c =>
      simp only [Connect.next] at hn
      split at hn
      · cases hn; exact ⟨hi.dialing, hi.empty, hi.dials⟩
      · exact absurd hn (by simp)
    | task i ev => exact hi.task hn

end Tmite.Client
