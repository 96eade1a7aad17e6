import Tmite.Core.RejectDelay
import Tmite.Daemon.StateEffect
import Tmite.Proto.Frame

namespace Tmite.Daemon

open Tmite.Core Tmite.Proto

/-!
# An invite (`daemon/invite.rs`)

One invite: the loop `invite_serve` with the tasks it spawns (`handle_pair_conn`,
`refuse_pair_busy`), the admin's `peer.invite.decide` requests, the clock, and the store that
other tasks use meanwhile.  A step goes from one lock, channel operation or `await` to the
next, so everything that can run in between does.

A handler step is a new position and one `Effect` on what the tasks share (`handlerNext`,
`InviteShared.perform`); a loop step is a new position and one `LoopEffect` (`loopNext`,
`Invite.perform`).  Of the scheduler and of tokio's `Notify` nothing is assumed beyond their
documentation: `select!` may take any ready branch (the loop's is `biased`), and
`notify_waiters` wakes exactly the handlers whose `notified()` future exists.

History variables: `adds` and `wrote` record the calls of `add_peer` and the frames written;
a decision carries the number of the `pair_request` event it answers (`answers`).
-/

universe v
variable {Text : Type v}

/-! ### Data -/

/-- What an invite is created with; `deadline` is on the model's clock, in milliseconds. -/
structure InviteCfg where
  inviteId : String
  name : String
  code : String
  serverNodeId : PublicKey
  deadline : ℕ
  /-- `serde_json::to_vec`. -/
  toVec : PairingFrame → List UInt8

inductive Outcome
  | paired (nodeId : String)
  | rejected
  | expired
  | cancelled
deriving DecidableEq, Repr

/-- `InviteResult` (`tmite-proto/src/ipc.rs`). -/
inductive InviteResult
  | paired (nodeId : String)
  | rejected
  | expired
deriving DecidableEq, Repr

/-- The last `match` of `invite_serve`: a cancelled invite is reported as expired. -/
def Outcome.result : Outcome → InviteResult
  | paired nodeId => .paired nodeId
  | rejected => .rejected
  | expired => .expired
  | cancelled => .expired

/-- The events of `peer.invite`, with the data they carry. -/
inductive InviteEvent
  | code (inviteId code name : String) (ttlSecs : ℕ)
  | pairRequest (inviteId nodeId : String)
  | expired
deriving DecidableEq, Repr

/-- `InviteCmd::Decide`, with the number of the `pair_request` event it answers. -/
structure Decide where
  accept : Bool
  answers : ℕ
deriving DecidableEq, Repr

/-- The terminal frame of a handler. -/
inductive Verdict
  | confirm
  | deny (reason : PairDenyReason)
deriving DecidableEq, Repr

/-- The frame a verdict is sent as. -/
def InviteCfg.frame (cfg : InviteCfg) : Verdict → PairingFrame
  | .confirm => .pairConfirm cfg.serverNodeId.asBytes cfg.name
  | .deny reason => .pairDeny reason

/-- A call of `add_peer` by connection `conn`, authorised by the answer to event `answers`.
    `left` says that the peer is in memory when the call returns. -/
structure AddPeer where
  conn : ℕ
  peer : Peer
  answers : ℕ
  ok : Bool
  left : Bool
deriving DecidableEq, Repr

/-- A frame written on connection `conn`. -/
structure Wrote where
  conn : ℕ
  frame : PairingFrame
deriving DecidableEq

/-- `InviteShared`, less what the loop alone uses. -/
structure InviteShared (Text : Type v) where
  state : State Text
  decision : Option Bool
  /-- The event the decision answers; meaningless while there is none. -/
  decidedBy : ℕ
  /-- Sent on `outcome_tx`, not yet received. -/
  outcomes : List Outcome
  events : List InviteEvent
  delay : RejectDelay
  peerRecorded : Bool
  pairBusy : Bool
  endpointClosed : Bool
  adds : List AddPeer
  wrote : List Wrote
deriving DecidableEq

/-! ### Handlers -/

/-- Where the task of a connection stands: `handle_pair_conn` up to `release`, or
    `refuse_pair_busy`. -/
inductive HandlerPc
  | acceptBi
  | readVersion
  | readHello
  | checkName
  | sendWait
  | emit
  /-- At the top of the wait loop, before the `notified()` future exists. -/
  | select
  /-- In `select!`, since when, and whether its `notified()` future has been woken. -/
  | waiting (woken : Bool) (since : ℕ)
  | readDecision
  /-- Approved by the answer to event `answers`, before `add_peer`. -/
  | record (answers : ℕ)
  | resetDelay
  | verdict (v : Verdict)
  | ackWait (v : Verdict) (since : ℕ)
  | finish (v : Verdict)
  | reject
  | release
  | busyAcceptBi
  | busySend
  | busyAck (since : ℕ)
  | done
deriving DecidableEq

structure PairConn where
  remote : PublicKey
  pc : HandlerPc
deriving DecidableEq

/-- What the environment contributes to a handler step. -/
inductive HandlerEvent (Text : Type v)
  | go
  | acceptBi (ok : Bool)
  | frame (r : FrameResult PairingFrame)
  | write (ok : Bool)
  /-- The read in `select!` ends: the client is gone. -/
  | clientGone
  /-- The read in `select!` returns data: the client misbehaves. -/
  | clientData
  | promptTimeout
  | deadline
  | record (pairedAt lastSeen : String) (fault : Option (WriteFault Text))
  | acked
  | ackTimeout

/-- What a handler step does to the shared state. -/
inductive Effect (Text : Type v)
  | none
  | escalate
  | resetDelay
  | write (frame : PairingFrame)
  | emit
  | addPeer (peer : Peer) (fault : Option (WriteFault Text)) (answers : ℕ)
  | outcome (o : Outcome)
  | releaseSlot

/-- `VERDICT_ACK_TIMEOUT`. -/
def verdictAckTimeout : ℕ := 5 * 1000

/-- `write_frame` succeeds: the frame encodes, and the transport takes it. -/
def InviteShared.canWrite (sh : InviteShared Text) (cfg : InviteCfg) (f : PairingFrame)
    (ok : Bool) : Bool :=
  ok && !sh.endpointClosed && (encodeFrame cfg.toVec f.msgType f).isOk

/-- What follows the wait for the verdict's ack. -/
def afterAck (remote : PublicKey) : Verdict → Effect Text
  | .confirm => .outcome (.paired remote.display)
  | .deny .serverError => .outcome .rejected
  | .deny .adminDenied => .escalate
  | .deny .nameTaken => .escalate
  | .deny .expired => .none
  | .deny .busy => .none

/-- One step of a connection's task. -/
def handlerNext (T : Toml PersistedState Text) (cfg : InviteCfg) (clock : ℕ)
    (sh : InviteShared Text) (remote : PublicKey) :
    HandlerPc → HandlerEvent Text → Option (HandlerPc × Effect Text)
  | .acceptBi, .acceptBi ok => some (if ok then .readVersion else .release, .none)
  -- both reads: an error, another type byte or another frame is rejected
  | .readVersion, .frame r =>
    match expectFrame typeVersion r with
    | .ok (.version v) => some (if v = codeVersion then .readHello else .reject, .none)
    | _ => some (.reject, .none)
  | .readHello, .frame r =>
    match expectFrame typePairHello r with
    | .ok (.pairHello _) => some (.checkName, .none)
    | _ => some (.reject, .none)
  | .checkName, .go =>
    some (if sh.state.isNameFree cfg.name then .sendWait else .verdict (.deny .nameTaken), .none)
  -- a client that cannot be told to wait is dropped before the admin is asked
  | .sendWait, .write ok =>
    if sh.canWrite cfg .pairWait ok then some (.emit, .write .pairWait)
    else some (.release, .none)
  | .emit, .go => some (.select, .emit)
  | .select, .go => some (.waiting false clock, .none)
  -- the branches of `select!`; with several ready, any of them may be taken
  | .waiting woken _, .go => if woken then some (.readDecision, .none) else none
  | .waiting _ _, .clientGone => some (.release, .none)
  | .waiting _ _, .clientData => some (.release, .none)
  | .waiting _ since, .promptTimeout =>
    if since + promptTimeout ≤ clock then some (.verdict (.deny .expired), .none) else none
  | .waiting _ _, .deadline =>
    if cfg.deadline ≤ clock then some (.verdict (.deny .expired), .none) else none
  -- whatever decision is stored, whichever prompt it answers
  | .readDecision, .go =>
    match sh.decision with
    | some true => some (.record sh.decidedBy, .none)
    | some false => some (.verdict (.deny .adminDenied), .none)
    | none => some (.select, .none)
  -- `peer_recorded` stays locked across `add_peer`: one step
  | .record answers, .record pairedAt lastSeen fault =>
    if sh.peerRecorded then some (.verdict (.deny .busy), .none)
    else
      let peer : Peer := ⟨cfg.name, remote.display, pairedAt, lastSeen⟩
      match (sh.state.addPeer T fault peer).2 with
      | .ok () => some (.resetDelay, .addPeer peer fault answers)
      | .error _ => some (.verdict (.deny .serverError), .addPeer peer fault answers)
  | .resetDelay, .go => some (.verdict .confirm, .resetDelay)
  -- the result of writing the verdict is ignored
  | .verdict v, .write ok =>
    some (.ackWait v clock,
      if sh.canWrite cfg (cfg.frame v) ok then .write (cfg.frame v) else .none)
  | .ackWait v _, .acked => some (.finish v, .none)
  | .ackWait v since, .ackTimeout =>
    if since + verdictAckTimeout ≤ clock then some (.finish v, .none) else none
  | .finish v, .go => some (.release, afterAck remote v)
  | .reject, .go => some (.release, .escalate)
  | .release, .go => some (.done, .releaseSlot)
  | .busyAcceptBi, .acceptBi ok => some (if ok then .busySend else .done, .none)
  | .busySend, .write ok =>
    some (.busyAck clock,
      if sh.canWrite cfg (.pairDeny .busy) ok then .write (.pairDeny .busy) else .none)
  | .busyAck _, .acked => some (.done, .none)
  | .busyAck since, .ackTimeout =>
    if since + verdictAckTimeout ≤ clock then some (.done, .none) else none
  | _, _ => none

/-- The effect of a step of connection `i`. -/
def InviteShared.perform (T : Toml PersistedState Text) (cfg : InviteCfg)
    (sh : InviteShared Text) (i : ℕ) (remote : PublicKey) : Effect Text → InviteShared Text
  | .none => sh
  | .escalate => { sh with delay := sh.delay.escalate }
  | .resetDelay => { sh with delay := sh.delay.reset }
  | .write frame => { sh with wrote := sh.wrote ++ [⟨i, frame⟩] }
  | .emit => { sh with events := sh.events ++ [.pairRequest cfg.inviteId remote.display] }
  | .addPeer peer fault answers =>
    let r := sh.state.addPeer T fault peer
    { sh with
      state := r.1
      peerRecorded := sh.peerRecorded || r.2.isOk
      adds := sh.adds ++
        [⟨i, peer, answers, r.2.isOk, writes sh.state.inner (.addPeer peer)⟩] }
  | .outcome o => { sh with outcomes := sh.outcomes ++ [o] }
  | .releaseSlot => { sh with pairBusy := false }

/-! ### The loop -/

/-- Where `run_invite_endpoint` and `invite_serve` stand. -/
inductive LoopPc
  | build
  /-- The four branches of the `biased` `select!`, in the order they are polled. -/
  | pollOutcome
  | pollCmd
  | pollDeadline
  | pollAccept
  | setDecision (d : Decide)
  | notifyDecision (accept : Bool)
  | acceptDelay (wake : ℕ)
  | connecting
  | connFailed
  | connected (remote : PublicKey)
  | claim (remote : PublicKey)
  /-- Out of the loop. -/
  | ending (o : Outcome)
  | flush (o : Outcome) (wake : ℕ)
  | closing (o : Outcome)
  | finishing (o : Outcome)
  | removing
  | done
deriving DecidableEq

/-- The decision it is about to store. -/
def LoopPc.storing : LoopPc → Option Decide
  | .setDecision d => some d
  | _ => none

theorem LoopPc.storing_eq_some (pc : LoopPc) (d : Decide) :
    pc.storing = some d ↔ pc = .setDecision d := by
  cases pc <;> simp [LoopPc.storing]

/-- The client it is about to take in. -/
def LoopPc.claimant : LoopPc → Option PublicKey
  | .claim remote => some remote
  | _ => none

theorem LoopPc.claimant_eq_some (pc : LoopPc) (remote : PublicKey) :
    pc.claimant = some remote ↔ pc = .claim remote := by
  cases pc <;> simp [LoopPc.claimant]

/-- What the environment contributes to a loop step. -/
inductive LoopEvent
  | go
  | build (ok : Bool)
  /-- `accept` returns a connection attempt. -/
  | incoming
  /-- `accept` returns `None`. -/
  | acceptNone
  /-- The handshake of the attempt ends. -/
  | handshake (remote : Option PublicKey)
deriving DecidableEq

/-- What a loop step does. -/
inductive LoopEffect
  | none
  | emitCode
  | popOutcome
  | popCmd
  | setDecision (d : Decide)
  | notifyWaiters
  | escalate
  | resetDelay
  | claimAndSpawn (remote : PublicKey)
  | close (expired : Bool)
  | sendResult (r : InviteResult)
  | removeEntry
deriving DecidableEq

/-- The state of an invite. -/
structure Invite (Text : Type v) where
  clock : ℕ
  shared : InviteShared Text
  conns : List PairConn
  loop : LoopPc
  /-- `decide` requests sent by admin clients so far, and those not yet dispatched. -/
  requested : ℕ
  requests : List Decide
  cmds : List Decide
  /-- `result_tx` has not been taken. -/
  resultTx : Bool
  results : List InviteResult
  /-- The invite is in the manager's `entries`. -/
  entry : Bool
deriving DecidableEq

/-- How long the loop gives in-flight handlers to flush their `PAIR_DENY`. -/
def flushDelay : ℕ := 300

/-- The outcomes after which in-flight handlers are woken and given time. -/
def Outcome.flushes : Outcome → Bool
  | .rejected => true
  | .expired => true
  | _ => false

/-- One step of the loop. -/
def loopNext (cfg : InviteCfg) (s : Invite Text) : LoopEvent → Option (LoopPc × LoopEffect) :=
  fun ev => match s.loop, ev with
  | .build, .build ok =>
    some (if ok then (.pollOutcome, .emitCode) else (.finishing .cancelled, .none))
  | .pollOutcome, .go =>
    match s.shared.outcomes with
    | o :: _ => some (.ending o, .popOutcome)
    | [] => some (.pollCmd, .none)
  | .pollCmd, .go =>
    match s.cmds with
    | d :: _ => some (.setDecision d, .popCmd)
    -- `recv` returns `None` once the sender in `entries` is gone
    | [] => some (if s.entry then .pollDeadline else .ending .cancelled, .none)
  | .setDecision d, .go => some (.notifyDecision d.accept, .setDecision d)
  | .notifyDecision accept, .go =>
    some (if accept then .pollOutcome else .ending .rejected, .notifyWaiters)
  | .pollDeadline, .go =>
    some (if cfg.deadline ≤ s.clock then .ending .expired else .pollAccept, .none)
  -- no branch was ready: something wakes the task, and it polls from the top
  | .pollAccept, .go => some (.pollOutcome, .none)
  | .pollAccept, .incoming => some (.acceptDelay (s.clock + s.shared.delay.delay), .none)
  | .pollAccept, .acceptNone => some (.ending .cancelled, .none)
  -- from here to `claim` the loop is inside the accept branch and polls nothing else
  | .acceptDelay wake, .go =>
    if wake ≤ s.clock then
      some (if cfg.deadline ≤ s.clock then .ending .expired else .connecting, .none)
    else none
  | .connecting, .handshake (some remote) => some (.connected remote, .none)
  | .connecting, .handshake none => some (.connFailed, .none)
  | .connFailed, .go => some (.pollOutcome, .escalate)
  | .connected remote, .go => some (.claim remote, .resetDelay)
  | .claim remote, .go => some (.pollOutcome, .claimAndSpawn remote)
  | .ending o, .go =>
    some (if o.flushes then (.flush o (s.clock + flushDelay), .notifyWaiters)
      else (.closing o, .none))
  | .flush o wake, .go => if wake ≤ s.clock then some (.closing o, .none) else none
  | .closing o, .go => some (.finishing o, .close (o = .expired))
  | .finishing o, .go => some (.removing, .sendResult o.result)
  | .removing, .go => some (.done, .removeEntry)
  | _, _ => none

/-- `notify_waiters`, seen by one handler. -/
def PairConn.wake (c : PairConn) : PairConn :=
  match c.pc with
  | .waiting _ since => { c with pc := .waiting true since }
  | _ => c

/-- The effect of a loop step. -/
def Invite.perform (cfg : InviteCfg) (s : Invite Text) : LoopEffect → Invite Text
  | .none => s
  | .emitCode =>
    { s with shared := { s.shared with events := s.shared.events ++
      [.code cfg.inviteId cfg.code cfg.name ((cfg.deadline - s.clock) / 1000)] } }
  | .popOutcome => { s with shared := { s.shared with outcomes := s.shared.outcomes.tail } }
  | .popCmd => { s with cmds := s.cmds.tail }
  | .setDecision d =>
    { s with shared := { s.shared with decision := some d.accept, decidedBy := d.answers } }
  | .notifyWaiters => { s with conns := s.conns.map PairConn.wake }
  | .escalate => { s with shared := { s.shared with delay := s.shared.delay.escalate } }
  | .resetDelay => { s with shared := { s.shared with delay := s.shared.delay.reset } }
  | .claimAndSpawn remote =>
    if s.shared.pairBusy then { s with conns := s.conns ++ [⟨remote, .busyAcceptBi⟩] }
    else { s with
      shared := { s.shared with pairBusy := true }
      conns := s.conns ++ [⟨remote, .acceptBi⟩] }
  | .close expired =>
    { s with shared := { s.shared with
      endpointClosed := true
      events := s.shared.events ++ if expired then [.expired] else [] } }
  | .sendResult r =>
    if s.resultTx then { s with resultTx := false, results := s.results ++ [r] } else s
  | .removeEntry => { s with entry := false }

/-! ### The system -/

/-- The steps of an invite and of what surrounds it. -/
inductive InviteAct (Text : Type v)
  | tick (ms : ℕ)
  /-- Another task uses the store: an admin command, another invite, the data plane. -/
  | store (c : Call Text)
  /-- An admin client sends `peer.invite.decide`. -/
  | request (d : Decide)
  /-- The `dispatch` task of a request runs `InviteManager::decide`. -/
  | dispatch (k : ℕ)
  | loop (ev : LoopEvent)
  | conn (i : ℕ) (ev : HandlerEvent Text)

/-- A step, where it is enabled. -/
def Invite.next (T : Toml PersistedState Text) (cfg : InviteCfg) (s : Invite Text) :
    InviteAct Text → Option (Invite Text)
  | .tick ms => some { s with clock := s.clock + ms }
  -- a restart ends the invite with the daemon
  | .store c =>
    if c.op = .restart then none
    else some { s with shared := { s.shared with state := (s.shared.state.call T c).1 } }
  | .request d => some { s with requested := s.requested + 1, requests := s.requests ++ [d] }
  -- each request has a task of its own, so they arrive in any order
  | .dispatch k =>
    s.requests[k]?.map fun d =>
      { s with
        requests := s.requests.eraseIdx k
        cmds := if s.entry then s.cmds ++ [d] else s.cmds }
  | .loop ev =>
    (loopNext cfg s ev).map fun (pc, eff) => Invite.perform cfg { s with loop := pc } eff
  | .conn i ev =>
    s.conns[i]?.bind fun c =>
      (handlerNext T cfg s.clock s.shared c.remote c.pc ev).map fun (pc, eff) =>
        { s with
          shared := s.shared.perform T cfg i c.remote eff
          conns := s.conns.set i { c with pc } }

/-- An invite just created by `InviteManager::create`, at any time and on any store. -/
def Invite.start (state : State Text) (clock : ℕ) : Invite Text where
  clock := clock
  shared := ⟨state, none, 0, [], [], .new, false, false, false, [], []⟩
  conns := []
  loop := .build
  requested := 0
  requests := []
  cmds := []
  resultTx := true
  results := []
  entry := true

/-- The invite as a transition system. -/
def Invite.system (T : Toml PersistedState Text) (cfg : InviteCfg) :
    Transition.System (Invite Text) (InviteAct Text) :=
  ⟨fun s => ∃ state clock, s = Invite.start state clock, Invite.next T cfg⟩

/-- The node ids of the `pair_request` events, in the order they were sent. -/
def InviteShared.prompts (sh : InviteShared Text) : List String :=
  sh.events.filterMap (fun | .pairRequest _ nodeId => some nodeId | _ => none)

end Tmite.Daemon
