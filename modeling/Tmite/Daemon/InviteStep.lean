import Tmite.Daemon.Invite
import Tmite.Lib.TaskList

namespace Tmite.Daemon

open Tmite.Core Tmite.Proto TaskList

/-!
# What one step of an invite can do

`HandlerMove` and `LoopMove` list the moves of `handlerNext` and `loopNext` with the guards
they are taken under; `handlerNext_move` and `loopNext_move` are the only proofs that unfold
the two functions.  Runs of an invite are then studied through `next_conn` and `next_loop`.
-/

universe v
variable {Text : Type v}

/-! ### Kinds of positions -/

namespace HandlerPc

/-- Between claiming and releasing the pair slot. -/
def holdsSlot : HandlerPc → Bool
  | busyAcceptBi => false
  | busySend => false
  | busyAck _ => false
  | done => false
  | _ => true

/-- The stored decision has yet to be read for the last time. -/
def undecided : HandlerPc → Bool
  | acceptBi => true
  | readVersion => true
  | readHello => true
  | checkName => true
  | sendWait => true
  | emit => true
  | select => true
  | waiting _ _ => true
  | readDecision => true
  | _ => false

/-- The prompt is out and the decision not read: whoever is decided on now is this client. -/
def listening : HandlerPc → Bool
  | select => true
  | waiting _ _ => true
  | readDecision => true
  | _ => false

/-- A successful `add_peer` is behind, the `PAIR_CONFIRM` ahead. -/
def confirming : HandlerPc → Bool
  | resetDelay => true
  | verdict .confirm => true
  | _ => false

/-- A successful `add_peer` is behind, the outcome `Paired` ahead. -/
def recorded : HandlerPc → Bool
  | resetDelay => true
  | verdict .confirm => true
  | ackWait .confirm _ => true
  | finish .confirm => true
  | _ => false

/-- About to call `add_peer`. -/
def atRecord : HandlerPc → Bool
  | record _ => true
  | _ => false

/-- What `f` says of a position does not depend on whether a waiting handler has been woken. -/
def FlagBlind {α : Type*} (f : HandlerPc → α) : Prop :=
  ∀ w since, f (waiting w since) = f (waiting true since)

end HandlerPc

/-- The positions of the handshake before `PAIR_WAIT`, and where its steps lead. -/
inductive Handshake : HandlerPc → HandlerPc → Prop
  | acceptBi : Handshake .acceptBi .readVersion
  | acceptBiFailed : Handshake .acceptBi .release
  | version : Handshake .readVersion .readHello
  | versionRejected : Handshake .readVersion .reject
  | hello : Handshake .readHello .checkName
  | helloRejected : Handshake .readHello .reject
  | nameFree : Handshake .checkName .sendWait
  | nameTaken : Handshake .checkName (.verdict (.deny .nameTaken))

/-- The moves of `refuse_pair_busy` that write nothing. -/
inductive Refusal : HandlerPc → HandlerPc → Prop
  | acceptBi : Refusal .busyAcceptBi .busySend
  | acceptBiFailed : Refusal .busyAcceptBi .done
  | writeFailed (clock : ℕ) : Refusal .busySend (.busyAck clock)
  | acked (since : ℕ) : Refusal (.busyAck since) .done

/-! ### Handler moves -/

section Handler

variable (T : Toml PersistedState Text) (cfg : InviteCfg) (sh : InviteShared Text)
  (remote : PublicKey) (ev : HandlerEvent Text)

/-- A move of a connection's task: position before and after, and the effect.  The event is
    mentioned where the environment decides how a write or a save ends. -/
inductive HandlerMove : HandlerPc → HandlerPc → Effect Text → Prop
  | handshake {pc pc' : HandlerPc} : Handshake pc pc' → HandlerMove pc pc' .none
  | sentWait : sh.canWrite cfg .pairWait true = true →
      HandlerMove .sendWait .emit (.write .pairWait)
  | sendWaitFailed : HandlerMove .sendWait .release .none
  | emit : HandlerMove .emit .select .emit
  | listen (clock : ℕ) : HandlerMove .select (.waiting false clock) .none
  | woken (since : ℕ) : HandlerMove (.waiting true since) .readDecision .none
  | gone (w : Bool) (since : ℕ) : HandlerMove (.waiting w since) .release .none
  | timedOut (w : Bool) (since : ℕ) :
      HandlerMove (.waiting w since) (.verdict (.deny .expired)) .none
  | approved : sh.decision = some true →
      HandlerMove .readDecision (.record sh.decidedBy) .none
  | denied : sh.decision = some false →
      HandlerMove .readDecision (.verdict (.deny .adminDenied)) .none
  | noDecision : sh.decision = none → HandlerMove .readDecision .select .none
  | alreadyRecorded (answers : ℕ) : sh.peerRecorded = true →
      HandlerMove (.record answers) (.verdict (.deny .busy)) .none
  | recorded (answers : ℕ) (pairedAt lastSeen : String) (fault : Option (WriteFault Text)) :
      ev = .record pairedAt lastSeen fault → sh.peerRecorded = false →
      (sh.state.addPeer T fault ⟨cfg.name, remote.display, pairedAt, lastSeen⟩).2 = .ok () →
      HandlerMove (.record answers) .resetDelay
        (.addPeer ⟨cfg.name, remote.display, pairedAt, lastSeen⟩ fault answers)
  | recordFailed (answers : ℕ) (pairedAt lastSeen : String) (fault : Option (WriteFault Text))
      (e : StateError) : ev = .record pairedAt lastSeen fault → sh.peerRecorded = false →
      (sh.state.addPeer T fault ⟨cfg.name, remote.display, pairedAt, lastSeen⟩).2 = .error e →
      HandlerMove (.record answers) (.verdict (.deny .serverError))
        (.addPeer ⟨cfg.name, remote.display, pairedAt, lastSeen⟩ fault answers)
  | resetDelay : HandlerMove .resetDelay (.verdict .confirm) .resetDelay
  | wrote (v : Verdict) (clock : ℕ) : sh.canWrite cfg (cfg.frame v) true = true →
      HandlerMove (.verdict v) (.ackWait v clock) (.write (cfg.frame v))
  | writeFailed (v : Verdict) (clock : ℕ) (ok : Bool) : ev = .write ok →
      sh.canWrite cfg (cfg.frame v) ok = false →
      HandlerMove (.verdict v) (.ackWait v clock) .none
  | acked (v : Verdict) (since : ℕ) : HandlerMove (.ackWait v since) (.finish v) .none
  | finish (v : Verdict) : HandlerMove (.finish v) .release (afterAck remote v)
  | reject : HandlerMove .reject .release .escalate
  | release : HandlerMove .release .done .releaseSlot
  | refuse {pc pc' : HandlerPc} : Refusal pc pc' → HandlerMove pc pc' .none
  | refused (clock : ℕ) : HandlerMove .busySend (.busyAck clock) (.write (.pairDeny .busy))

variable {T cfg sh remote ev}

/-- What follows the ack bears on the delay and the queued outcomes only. -/
theorem perform_afterAck (T : Toml PersistedState Text) (cfg : InviteCfg)
    (sh : InviteShared Text) (i : ℕ) (remote : PublicKey) (v : Verdict) :
    ∃ delay outcomes, sh.perform T cfg i remote (afterAck remote v) =
      { sh with delay := delay, outcomes := outcomes } := by
  cases v with
  | confirm => exact ⟨_, _, rfl⟩
  | deny reason => cases reason <;> exact ⟨_, _, rfl⟩

/-- A frame that was written was written by a write that went through. -/
private theorem canWrite_true {f : PairingFrame} {ok : Bool} (h : sh.canWrite cfg f ok = true) :
    sh.canWrite cfg f true = true := by
  simp only [InviteShared.canWrite, Bool.and_eq_true] at h ⊢
  exact ⟨⟨trivial, h.1.2⟩, h.2⟩

/-- Every step of a connection's task is one of the moves. -/
theorem handlerNext_move {clock : ℕ} {pc pc' : HandlerPc} {eff : Effect Text}
    (h : handlerNext T cfg clock sh remote pc ev = some (pc', eff)) :
    HandlerMove T cfg sh remote ev pc pc' eff := by
  unfold handlerNext at h
  split at h
  · -- acceptBi
    rename_i ok
    cases ok with
    | true => cases h; exact .handshake .acceptBi
    | false => cases h; exact .handshake .acceptBiFailed
  · -- readVersion
    split at h
    · split at h
      · cases h; exact .handshake .version
      · cases h; exact .handshake .versionRejected
    · cases h; exact .handshake .versionRejected
  · -- readHello
    split at h
    · cases h; exact .handshake .hello
    · cases h; exact .handshake .helloRejected
  · -- checkName
    split at h
    · cases h; exact .handshake .nameFree
    · cases h; exact .handshake .nameTaken
  · -- sendWait
    split at h
    · rename_i hok
      cases h; exact .sentWait (canWrite_true hok)
    · cases h; exact .sendWaitFailed
  · -- emit, select
    cases h; exact .emit
  · cases h; exact .listen clock
  · -- woken
    rename_i woken since
    cases woken with
    | true => cases h; exact .woken since
    | false => exact absurd h (by simp)
  · -- the client is gone, or misbehaves
    cases h; exact .gone _ _
  · cases h; exact .gone _ _
  · -- the prompt's timeout
    split at h
    · cases h; exact .timedOut _ _
    · exact absurd h (by simp)
  · -- the deadline
    split at h
    · cases h; exact .timedOut _ _
    · exact absurd h (by simp)
  · -- readDecision
    split at h
    · rename_i hd; cases h; exact .approved hd
    · rename_i hd; cases h; exact .denied hd
    · rename_i hd; cases h; exact .noDecision hd
  · -- record
    split at h
    · rename_i hrec; cases h; exact .alreadyRecorded _ hrec
    · rename_i hrec
      have hrec : sh.peerRecorded = false := by simpa using hrec
      simp only at h
      split at h
      · rename_i hadd; cases h; exact .recorded _ _ _ _ rfl hrec hadd
      · rename_i e hadd; cases h; exact .recordFailed _ _ _ _ e rfl hrec hadd
  · -- resetDelay
    cases h; exact .resetDelay
  · -- verdict
    rename_i v ok
    by_cases hok : sh.canWrite cfg (cfg.frame v) ok = true
    · rw [if_pos hok] at h
      cases h; exact .wrote v clock (canWrite_true hok)
    · rw [if_neg hok] at h
      cases h; exact .writeFailed v clock ok rfl (by simpa using hok)
  · -- ackWait, ended by the client or by the timeout
    cases h; exact .acked _ _
  · split at h
    · cases h; exact .acked _ _
    · exact absurd h (by simp)
  · -- finish, reject, release
    cases h; exact .finish _
  · cases h; exact .reject
  · cases h; exact .release
  · -- busyAcceptBi
    rename_i ok
    cases ok with
    | true => cases h; exact .refuse .acceptBi
    | false => cases h; exact .refuse .acceptBiFailed
  · -- busySend
    rename_i ok
    by_cases hok : sh.canWrite cfg (.pairDeny .busy) ok = true
    · rw [if_pos hok] at h
      cases h; exact .refused clock
    · rw [if_neg hok] at h
      cases h; exact .refuse (.writeFailed clock)
  · -- busyAck, ended by the client or by the timeout
    cases h; exact .refuse (.acked _)
  · split at h
    · cases h; exact .refuse (.acked _)
    · exact absurd h (by simp)
  · -- no other event moves a handler
    exact absurd h (by simp)

end Handler

/-! ### Loop moves -/

/-- A move of the loop: position before and after, and the effect. -/
inductive LoopMove (cfg : InviteCfg) (s : Invite Text) : LoopPc → LoopPc → LoopEffect → Prop
  | built : LoopMove cfg s .build .pollOutcome .emitCode
  | buildFailed : LoopMove cfg s .build (.finishing .cancelled) .none
  | outcome (o : Outcome) (rest : List Outcome) : s.shared.outcomes = o :: rest →
      LoopMove cfg s .pollOutcome (.ending o) .popOutcome
  | noOutcome : s.shared.outcomes = [] → LoopMove cfg s .pollOutcome .pollCmd .none
  | cmd (d : Decide) (rest : List Decide) : s.cmds = d :: rest →
      LoopMove cfg s .pollCmd (.setDecision d) .popCmd
  | noCmd : LoopMove cfg s .pollCmd .pollDeadline .none
  | cmdClosed : LoopMove cfg s .pollCmd (.ending .cancelled) .none
  | setDecision (d : Decide) :
      LoopMove cfg s (.setDecision d) (.notifyDecision d.accept) (.setDecision d)
  | accepted : LoopMove cfg s (.notifyDecision true) .pollOutcome .notifyWaiters
  | denied : LoopMove cfg s (.notifyDecision false) (.ending .rejected) .notifyWaiters
  | expired : LoopMove cfg s .pollDeadline (.ending .expired) .none
  | notExpired : LoopMove cfg s .pollDeadline .pollAccept .none
  | noIncoming : LoopMove cfg s .pollAccept .pollOutcome .none
  | incoming (wake : ℕ) : LoopMove cfg s .pollAccept (.acceptDelay wake) .none
  | acceptNone : LoopMove cfg s .pollAccept (.ending .cancelled) .none
  | expiredInDelay (wake : ℕ) : LoopMove cfg s (.acceptDelay wake) (.ending .expired) .none
  | delayed (wake : ℕ) : LoopMove cfg s (.acceptDelay wake) .connecting .none
  | connected (remote : PublicKey) : LoopMove cfg s .connecting (.connected remote) .none
  | connFailed : LoopMove cfg s .connecting .connFailed .none
  | escalate : LoopMove cfg s .connFailed .pollOutcome .escalate
  | resetDelay (remote : PublicKey) :
      LoopMove cfg s (.connected remote) (.claim remote) .resetDelay
  | claim (remote : PublicKey) :
      LoopMove cfg s (.claim remote) .pollOutcome (.claimAndSpawn remote)
  | wakeLast (o : Outcome) (wake : ℕ) : o.flushes = true →
      LoopMove cfg s (.ending o) (.flush o wake) .notifyWaiters
  | skipFlush (o : Outcome) : o.flushes = false → LoopMove cfg s (.ending o) (.closing o) .none
  | flushed (o : Outcome) (wake : ℕ) : LoopMove cfg s (.flush o wake) (.closing o) .none
  | close (o : Outcome) : LoopMove cfg s (.closing o) (.finishing o) (.close (o = .expired))
  | finish (o : Outcome) : LoopMove cfg s (.finishing o) .removing (.sendResult o.result)
  | remove : LoopMove cfg s .removing .done .removeEntry

/-- Every step of the loop is one of the moves. -/
theorem loopNext_move {cfg : InviteCfg} {s : Invite Text} {ev : LoopEvent} {pc : LoopPc}
    {eff : LoopEffect} (h : loopNext cfg s ev = some (pc, eff)) : LoopMove cfg s s.loop pc eff := by
  unfold loopNext at h
  split at h
  · -- the endpoint is built, or not
    rename_i ok hpc
    rw [hpc]
    cases ok with
    | true => cases h; exact .built
    | false => cases h; exact .buildFailed
  · -- `pollOutcome`
    rename_i hpc
    rw [hpc]
    split at h
    · rename_i o rest ho; cases h; exact .outcome o rest ho
    · rename_i ho; cases h; exact .noOutcome ho
  · -- `pollCmd`
    rename_i hpc
    rw [hpc]
    split at h
    · rename_i d rest hd; cases h; exact .cmd d rest hd
    · split at h
      · cases h; exact .noCmd
      · cases h; exact .cmdClosed
  · -- `setDecision`
    rename_i d hpc
    rw [hpc]; cases h; exact .setDecision d
  · -- `notifyDecision`
    rename_i accept hpc
    rw [hpc]
    cases accept with
    | true => cases h; exact .accepted
    | false => cases h; exact .denied
  · -- `pollDeadline`
    rename_i hpc
    rw [hpc]
    split at h
    · cases h; exact .expired
    · cases h; exact .notExpired
  · -- `pollAccept`: nothing there
    rename_i hpc
    rw [hpc]; cases h; exact .noIncoming
  · -- `pollAccept`: a connection attempt
    rename_i hpc
    rw [hpc]; cases h; exact .incoming _
  · -- `pollAccept`: the endpoint is gone
    rename_i hpc
    rw [hpc]; cases h; exact .acceptNone
  · -- `acceptDelay`: the deadline is checked again after the sleep
    rename_i wake hpc
    rw [hpc]
    split at h
    · split at h
      · cases h; exact .expiredInDelay wake
      · cases h; exact .delayed wake
    · exact absurd h (by simp)
  · -- the handshake went through
    rename_i remote hpc
    rw [hpc]; cases h; exact .connected remote
  · -- the handshake failed
    rename_i hpc
    rw [hpc]; cases h; exact .connFailed
  · -- `connFailed`
    rename_i hpc
    rw [hpc]; cases h; exact .escalate
  · -- `connected`
    rename_i remote hpc
    rw [hpc]; cases h; exact .resetDelay remote
  · -- `claim`
    rename_i remote hpc
    rw [hpc]; cases h; exact .claim remote
  · -- `ending`: only a rejected or expired invite wakes its handlers
    rename_i o hpc
    rw [hpc]
    by_cases hf : o.flushes = true
    · rw [if_pos hf] at h
      cases h; exact .wakeLast o _ hf
    · rw [if_neg hf] at h
      cases h; exact .skipFlush o (by simpa using hf)
  · -- `flush`
    rename_i o wake hpc
    rw [hpc]
    split at h
    · cases h; exact .flushed o wake
    · exact absurd h (by simp)
  · -- `closing`
    rename_i o hpc
    rw [hpc]; cases h; exact .close o
  · -- `finishing`
    rename_i o hpc
    rw [hpc]; cases h; exact .finish o
  · -- `removing`
    rename_i hpc
    rw [hpc]; cases h; exact .remove
  · exact absurd h (by simp)

section LoopMove

variable {cfg : InviteCfg} {s : Invite Text} {pc₀ pc : LoopPc} {eff : LoopEffect}

/-- Connections are taken in at `claim` only. -/
theorem LoopMove.at_claim {remote : PublicKey}
    (h : LoopMove cfg s pc₀ pc (.claimAndSpawn remote)) : pc₀ = .claim remote := by
  cases h
  rfl

/-- A decision is stored at `setDecision` only. -/
theorem LoopMove.at_setDecision {d : Decide} (h : LoopMove cfg s pc₀ pc (.setDecision d)) :
    pc₀ = .setDecision d := by
  cases h
  rfl

/-- And the loop gets there by taking the decision from the channel. -/
theorem LoopMove.takes {d : Decide} (h : LoopMove cfg s pc₀ (.setDecision d) eff) :
    pc₀ = .pollCmd ∧ ∃ rest, s.cmds = d :: rest := by
  cases h with
  | cmd d rest hcmds => exact ⟨rfl, rest, hcmds⟩

end LoopMove

/-! ### Steps of the system -/

section Next

variable {T : Toml PersistedState Text} {cfg : InviteCfg} {s s' : Invite Text}

/-- A step of connection `i`. -/
theorem next_conn {i : ℕ} {ev : HandlerEvent Text} (h : s.next T cfg (.conn i ev) = some s') :
    ∃ c pc eff, s.conns[i]? = some c ∧
      HandlerMove T cfg s.shared c.remote ev c.pc pc eff ∧
      s' = { s with
        shared := s.shared.perform T cfg i c.remote eff
        conns := s.conns.set i { c with pc } } := by
  obtain ⟨c, hc, h⟩ := Option.bind_eq_some_iff.mp h
  obtain ⟨⟨pc, eff⟩, hstep, rfl⟩ := Option.map_eq_some_iff.mp h
  exact ⟨c, pc, eff, hc, handlerNext_move hstep, rfl⟩

/-- A step of the loop. -/
theorem next_loop {ev : LoopEvent} (h : s.next T cfg (.loop ev) = some s') :
    ∃ pc eff, loopNext cfg s ev = some (pc, eff) ∧ LoopMove cfg s s.loop pc eff ∧
      s' = Invite.perform cfg { s with loop := pc } eff := by
  obtain ⟨⟨pc, eff⟩, hstep, rfl⟩ := Option.map_eq_some_iff.mp h
  exact ⟨pc, eff, hstep, loopNext_move hstep, rfl⟩

/-- `s'` is `s` but for the clock, the store and the requests on their way. -/
def Invite.SameTasks (s s' : Invite Text) : Prop :=
  ∃ clock state requested requests cmds, s' = { s with
    clock := clock
    shared := { s.shared with state := state }
    requested := requested
    requests := requests
    cmds := cmds }

/-- A step of neither the loop nor a handler leaves the tasks of the invite alone. -/
theorem next_other {a : InviteAct Text} (h : s.next T cfg a = some s')
    (hloop : ∀ ev, a ≠ .loop ev) (hconn : ∀ i ev, a ≠ .conn i ev) : s.SameTasks s' := by
  cases a with
  | tick ms => cases h; exact ⟨_, _, _, _, _, rfl⟩
  | store c =>
    simp only [Invite.next] at h
    split at h
    · exact absurd h (by simp)
    · cases h; exact ⟨_, _, _, _, _, rfl⟩
  | request d => cases h; exact ⟨_, _, _, _, _, rfl⟩
  | dispatch k =>
    obtain ⟨d, -, rfl⟩ := Option.map_eq_some_iff.mp h
    exact ⟨_, _, _, _, _, rfl⟩
  | loop ev => exact absurd rfl (hloop ev)
  | conn i ev => exact absurd rfl (hconn i ev)

/-- **Invite rule.** What holds of a new invite, depends on its tasks alone, and is kept by
    every step the loop and the handlers take, holds in every state reached. -/
theorem Invite.reach_invariant {I : Invite Text → Prop} {C : Invite Text → InviteAct Text → Prop}
    (hstart : ∀ state clock, I (Invite.start state clock))
    (hother : ∀ s s', Invite.SameTasks s s' → I s → I s')
    (hloop : ∀ s ev s', Transition.Reach (Invite.system T cfg) C s → I s → C s (.loop ev) →
      s.next T cfg (.loop ev) = some s' → I s')
    (hconn : ∀ s i ev s', Transition.Reach (Invite.system T cfg) C s → I s → C s (.conn i ev) →
      s.next T cfg (.conn i ev) = some s' → I s')
    (h : Transition.Reach (Invite.system T cfg) C s) : I s := by
  refine h.invariant (fun s h0 => ?_) (fun s a s' hr hi hC hn => ?_)
  · obtain ⟨state, clock, rfl⟩ := h0
    exact hstart state clock
  · have hn : s.next T cfg a = some s' := hn
    cases a with
    | loop ev => exact hloop s ev s' hr hi hC hn
    | conn i ev => exact hconn s i ev s' hr hi hC hn
    | _ => exact hother s s' (next_other hn (by simp) (by simp)) hi

end Next

/-! ### `notify_waiters` -/

@[simp] theorem PairConn.wake_remote (c : PairConn) : c.wake.remote = c.remote := by
  unfold PairConn.wake
  split <;> rfl

/-- Waking a handler shows only in the flag of a waiting one. -/
theorem PairConn.wake_pc (c : PairConn) :
    c.wake.pc = c.pc ∨ ∃ w since, c.pc = .waiting w since ∧ c.wake.pc = .waiting true since := by
  unfold PairConn.wake
  split
  · rename_i w since hpc
    exact .inr ⟨w, since, hpc, rfl⟩
  · exact .inl rfl

/-- So a property of positions that does not look at the flag does not change. -/
theorem PairConn.wake_congr {α : Type*} {f : HandlerPc → α} (hf : HandlerPc.FlagBlind f)
    (c : PairConn) : f c.wake.pc = f c.pc := by
  rcases c.wake_pc with h | ⟨w, since, hpc, hw⟩
  · rw [h]
  · rw [hw, hpc]
    exact (hf w since).symm

theorem countP_wake {p : HandlerPc → Bool} (hp : HandlerPc.FlagBlind p) (l : List PairConn) :
    (l.map PairConn.wake).countP (fun c => p c.pc) = l.countP (fun c => p c.pc) := by
  rw [List.countP_map]
  refine List.countP_congr (fun c _ => ?_)
  simp only [Function.comp, PairConn.wake_congr hp c]

/-! ### The connections, across a loop step -/

/-- Every connection after a loop step was there before, woken or not, or has just been
    spawned. -/
theorem perform_conns_get {cfg : InviteCfg} {s : Invite Text} {eff : LoopEffect} {i : ℕ}
    {d : PairConn} (h : (s.perform cfg eff).conns[i]? = some d) :
    (∃ c, s.conns[i]? = some c ∧ (d = c ∨ d = c.wake)) ∨
      i = s.conns.length ∧ eff = .claimAndSpawn d.remote ∧
        (d.pc = .acceptBi ∨ d.pc = .busyAcceptBi) := by
  cases eff with
  | notifyWaiters =>
    simp only [Invite.perform, List.getElem?_map, Option.map_eq_some_iff] at h
    obtain ⟨c, hc, rfl⟩ := h
    exact .inl ⟨c, hc, .inr rfl⟩
  | claimAndSpawn remote =>
    simp only [Invite.perform] at h
    split at h
    · rcases getElem?_concat_cases h with hold | ⟨hi, rfl⟩
      · exact .inl ⟨d, hold, .inl rfl⟩
      · exact .inr ⟨hi, rfl, .inr rfl⟩
    · rcases getElem?_concat_cases h with hold | ⟨hi, rfl⟩
      · exact .inl ⟨d, hold, .inl rfl⟩
      · exact .inr ⟨hi, rfl, .inl rfl⟩
  | sendResult r =>
    simp only [Invite.perform] at h
    split at h <;> exact .inl ⟨d, h, .inl rfl⟩
  | _ => exact .inl ⟨d, h, .inl rfl⟩

/-- Backwards: a connection in some position after a loop step was in that position before,
    unless it has just been spawned. -/
theorem perform_conns_back {cfg : InviteCfg} {s : Invite Text} {eff : LoopEffect} {d : PairConn}
    (hd : d ∈ (s.perform cfg eff).conns) {p : HandlerPc → Bool} (hp : HandlerPc.FlagBlind p)
    (hpd : p d.pc = true) :
    (∃ c ∈ s.conns, c.remote = d.remote ∧ p c.pc = true) ∨
      eff = .claimAndSpawn d.remote ∧ (d.pc = .acceptBi ∨ d.pc = .busyAcceptBi) := by
  obtain ⟨j, hj⟩ := List.mem_iff_getElem?.mp hd
  rcases perform_conns_get hj with ⟨c, hc, rfl | rfl⟩ | ⟨-, heff, hnew⟩
  · exact .inl ⟨d, List.mem_of_getElem? hc, rfl, hpd⟩
  · rw [PairConn.wake_congr hp] at hpd
    exact .inl ⟨c, List.mem_of_getElem? hc, (PairConn.wake_remote c).symm, hpd⟩
  · exact .inr ⟨heff, hnew⟩

/-- The same for a position no connection is spawned in. -/
theorem perform_conns_old {cfg : InviteCfg} {s : Invite Text} {eff : LoopEffect} {d : PairConn}
    (hd : d ∈ (s.perform cfg eff).conns) {p : HandlerPc → Bool} (hp : HandlerPc.FlagBlind p)
    (hbi : p .acceptBi = false) (hbusy : p .busyAcceptBi = false) (hpd : p d.pc = true) :
    ∃ c ∈ s.conns, c.remote = d.remote ∧ p c.pc = true := by
  refine (perform_conns_back hd hp hpd).resolve_right ?_
  rintro ⟨-, hpc | hpc⟩
  · rw [hpc, hbi] at hpd
    exact absurd hpd (by simp)
  · rw [hpc, hbusy] at hpd
    exact absurd hpd (by simp)

/-- Forwards: a connection keeps its place across a loop step; at most it is woken. -/
theorem perform_conns_keep (cfg : InviteCfg) (s : Invite Text) (eff : LoopEffect) {i : ℕ}
    {c : PairConn} (h : s.conns[i]? = some c) :
    ∃ c', (s.perform cfg eff).conns[i]? = some c' ∧ c'.remote = c.remote ∧
      ∀ p : HandlerPc → Prop, HandlerPc.FlagBlind p → p c.pc → p c'.pc := by
  -- where the connection is not woken there is nothing to show
  have hsame : (s.perform cfg eff).conns[i]? = some c → ∃ c',
      (s.perform cfg eff).conns[i]? = some c' ∧ c'.remote = c.remote ∧
        ∀ p : HandlerPc → Prop, HandlerPc.FlagBlind p → p c.pc → p c'.pc :=
    fun hkeep => ⟨c, hkeep, rfl, fun _ _ hpos => hpos⟩
  cases eff with
  | notifyWaiters =>
    refine ⟨c.wake, ?_, c.wake_remote, fun p hp hpos => ?_⟩
    · simp only [Invite.perform, List.getElem?_map, h, Option.map_some]
    · rw [PairConn.wake_congr hp]
      exact hpos
  | claimAndSpawn remote =>
    refine hsame ?_
    simp only [Invite.perform]
    split <;> exact getElem?_concat_of_some h
  | sendResult r =>
    refine hsame ?_
    simp only [Invite.perform]
    split <;> exact h
  | _ => exact hsame h

/-- A loop step does not change how many handlers are in a position that is neither a first
    one nor told from another by the flag. -/
theorem countP_perform (cfg : InviteCfg) {p : HandlerPc → Bool} (hp : HandlerPc.FlagBlind p)
    (hbi : p .acceptBi = false) (hbusy : p .busyAcceptBi = false) (s : Invite Text)
    (eff : LoopEffect) :
    (s.perform cfg eff).conns.countP (fun c => p c.pc) = s.conns.countP (fun c => p c.pc) := by
  cases eff with
  | notifyWaiters => exact countP_wake hp s.conns
  | claimAndSpawn remote =>
    simp only [Invite.perform]
    split <;> simp [List.countP_append, hbi, hbusy]
  | sendResult r =>
    simp only [Invite.perform]
    split <;> rfl
  | _ => rfl

/-! ### The connections, across a handler step -/

/-- A connection keeps its place and its remote whoever moves. -/
theorem getElem?_set_remote {l : List PairConn} {i j : ℕ} {c d : PairConn} (pc : HandlerPc)
    (hc : l[i]? = some c) (hd : l[j]? = some d) :
    ∃ d', (l.set i { c with pc })[j]? = some d' ∧ d'.remote = d.remote ∧
      (i = j ∧ d = c ∧ d'.pc = pc ∨ i ≠ j ∧ d' = d) := by
  by_cases hij : i = j
  · subst hij
    obtain ⟨hlt, -⟩ := List.getElem?_eq_some_iff.mp hc
    have hcd : d = c := Option.some.inj (hd.symm.trans hc)
    exact ⟨{ c with pc }, List.getElem?_set_self hlt, by rw [hcd], .inl ⟨rfl, hcd, rfl⟩⟩
  · exact ⟨d, by rw [List.getElem?_set_ne hij]; exact hd, rfl, .inr ⟨hij, rfl⟩⟩

end Tmite.Daemon
