import Tmite.Daemon.InviteSlot

namespace Tmite.Daemon

open Tmite.Core Tmite.Proto Transition TaskList

/-!
# The reject delay of an invite (`invite_serve`, `reject!`)

What the loop sleeps before it deals with the next attempt.  It is escalated where an attempt
fails in the loop or is rejected by its handler; and it is reset by the loop as soon as a
connection is established, before the handler has read a frame.  So it does not double over
rejected handshakes.

* `delayInv` — while each attempt ends before the next is taken in, the delay is what
  `delayAfter` says of the ends of the attempts so far.
* `accept_delay_iff` — when it is 500 ms, doubled by each of the failed attempts right before, up
  to 8 s.

`Attempts` is the invite with the ends of its attempts as a history variable, the newest first.
-/

universe v
variable {Text : Type v}

/-! ### Attempts -/

/-- How an attempt ended. -/
inductive AttemptEnd
  /-- No connection came about. -/
  | connectFailed
  /-- The client opened no stream. -/
  | lost
  /-- Its frames were not as they have to be, or the name was taken. -/
  | rejected
  /-- `PAIR_WAIT` could not be written. -/
  | dropped
  /-- It went away, or spoke, while it was to wait. -/
  | left
  /-- It waited and got a verdict. -/
  | decided (v : Verdict)
  /-- Another connection had the pair slot. -/
  | busy
deriving DecidableEq

namespace AttemptEnd

/-- The end that comes with a verdict. -/
def ofVerdict : Verdict → AttemptEnd
  | .deny .nameTaken => rejected
  | v => decided v

/-- The attempt was rejected or failed: its client did not get as far as waiting for the admin,
    or the admin denied it. -/
def failed : AttemptEnd → Bool
  | connectFailed => true
  | lost => true
  | rejected => true
  | dropped => true
  | decided (.deny .adminDenied) => true
  | _ => false

/-- The source escalates the delay for it. -/
def escalates : AttemptEnd → Bool
  | connectFailed => true
  | rejected => true
  | decided (.deny .adminDenied) => true
  | _ => false

end AttemptEnd

/-- The end of an attempt whose handler goes from the one position to the other, if this is one. -/
def endOf : HandlerPc → HandlerPc → Option AttemptEnd
  | .acceptBi, .release => some .lost
  | .reject, .release => some .rejected
  | .sendWait, .release => some .dropped
  | .waiting _ _, .release => some .left
  | .finish v, .release => some (.ofVerdict v)
  | .busyAcceptBi, .done => some .busy
  | .busyAck _, .done => some .busy
  | _, _ => none

/-- An invite, with the ends of its attempts. -/
structure Attempts (Text : Type v) where
  invite : Invite Text
  ends : List AttemptEnd

namespace Attempts

variable (T : Toml PersistedState Text) (cfg : InviteCfg)

/-- The attempt that ends with a step, if one does. -/
def ended (s : Invite Text) : InviteAct Text → Option AttemptEnd
  | .loop _ => if s.loop = .connFailed then some .connectFailed else none
  | .conn i ev =>
    s.conns[i]?.bind fun c =>
      (handlerNext T cfg s.clock s.shared c.remote c.pc ev).bind fun (pc, _) => endOf c.pc pc
  | _ => none

def next (s : Attempts Text) (a : InviteAct Text) : Option (Attempts Text) :=
  (s.invite.next T cfg a).map fun s' => ⟨s', (ended T cfg s.invite a).toList ++ s.ends⟩

def system : System (Attempts Text) (InviteAct Text) :=
  ⟨fun s => ∃ state clock, s = ⟨Invite.start state clock, []⟩, next T cfg⟩

variable {T cfg}

/-- Each attempt has ended when the next is taken in. -/
def sequential (s : Attempts Text) : InviteAct Text → Bool
  | .loop .incoming => s.invite.conns.all (fun c => c.pc = .done)
  | _ => true

end Attempts

/-! ### The delay, from the ends of the attempts -/

/-- The delay after the attempts that ended so: only a connection that is not established leaves
    it as it was, and doubles it. -/
def delayAfter : List AttemptEnd → RejectDelay
  | [] => .new
  | .connectFailed :: ends => (delayAfter ends).escalate
  | a :: _ => if a.escalates then RejectDelay.new.escalate else .new

section Ends

variable {a : AttemptEnd} (ends : List AttemptEnd)

theorem delayAfter_cons (ha : a ≠ .connectFailed) :
    delayAfter (a :: ends) = if a.escalates then RejectDelay.new.escalate else .new := by
  cases a with
  | connectFailed => exact absurd rfl ha
  | _ => rfl

end Ends

namespace HandlerPc

/-- The task goes on. -/
def running : HandlerPc → Bool
  | done => false
  | _ => true

/-- The attempt has not ended. -/
def unsettled : HandlerPc → Bool
  | release => false
  | done => false
  | _ => true

theorem running_blind : FlagBlind running := fun _ _ => rfl

theorem unsettled_blind : FlagBlind unsettled := fun _ _ => rfl

theorem running_of_unsettled {pc : HandlerPc} (h : pc.unsettled = true) : pc.running = true := by
  cases pc with
  | done => exact h
  | _ => rfl

end HandlerPc

/-- The loop deals with an attempt. -/
def LoopPc.accepting : LoopPc → Bool
  | acceptDelay _ => true
  | connecting => true
  | connFailed => true
  | connected _ => true
  | claim _ => true
  | _ => false

/-- Between the reset for a new connection and its handler. -/
def LoopPc.claiming : LoopPc → Bool
  | claim _ => true
  | _ => false

/-- Neither the delay nor the number of connections changes. -/
def LoopEffect.quiet : LoopEffect → Bool
  | escalate => false
  | resetDelay => false
  | claimAndSpawn _ => false
  | _ => true

section Moves

variable {T : Toml PersistedState Text} {cfg : InviteCfg}

/-- What a loop step is to the delay. -/
theorem LoopMove.delay {s : Invite Text} {pc₀ pc : LoopPc} {eff : LoopEffect}
    (h : LoopMove cfg s pc₀ pc eff) :
    (∃ wake, pc₀ = .pollAccept ∧ pc = .acceptDelay wake ∧ eff = .none) ∨
    (pc₀ = .connFailed ∧ pc = .pollOutcome ∧ eff = .escalate) ∨
    (∃ remote, pc₀ = .connected remote ∧ pc = .claim remote ∧ eff = .resetDelay) ∨
    (∃ remote, pc₀ = .claim remote ∧ pc = .pollOutcome ∧ eff = .claimAndSpawn remote) ∨
    ((pc.accepting = true → pc₀.accepting = true) ∧ pc₀ ≠ .connFailed ∧ pc₀.claiming = false ∧
      pc.claiming = false ∧ eff.quiet = true) := by
  cases h with
  | incoming wake => exact .inl ⟨wake, rfl, rfl, rfl⟩
  | escalate => exact .inr (.inl ⟨rfl, rfl, rfl⟩)
  | resetDelay remote => exact .inr (.inr (.inl ⟨remote, rfl, rfl, rfl⟩))
  | claim remote => exact .inr (.inr (.inr (.inl ⟨remote, rfl, rfl, rfl⟩)))
  | _ =>
    refine .inr (.inr (.inr (.inr ⟨?_, by simp, rfl, rfl, rfl⟩)))
    simp [LoopPc.accepting]

/-- A quiet effect at most wakes connections. -/
theorem LoopEffect.quiet_perform (cfg : InviteCfg) (s : Invite Text) {eff : LoopEffect}
    (h : eff.quiet = true) :
    (s.perform cfg eff).shared.delay = s.shared.delay ∧ (s.perform cfg eff).loop = s.loop ∧
      ∀ p, HandlerPc.FlagBlind p → (s.perform cfg eff).conns.countP (fun c => p c.pc) =
        s.conns.countP (fun c => p c.pc) := by
  cases eff with
  | notifyWaiters => exact ⟨rfl, rfl, fun p hp => countP_wake hp s.conns⟩
  | sendResult r =>
    simp only [Invite.perform]
    split <;> exact ⟨rfl, rfl, fun _ _ => rfl⟩
  | escalate => exact absurd h (by simp [quiet])
  | resetDelay => exact absurd h (by simp [quiet])
  | claimAndSpawn remote => exact absurd h (by simp [quiet])
  | _ => exact ⟨rfl, rfl, fun _ _ => rfl⟩

/-- What a handler step is to the delay: the attempt goes on, and the delay is left alone or
    reset; or it ends, and the delay is escalated where the source says so; or the attempt ended
    before. -/
theorem HandlerMove.delay {sh : InviteShared Text} {remote : PublicKey} {ev : HandlerEvent Text}
    {pc pc' : HandlerPc} {eff : Effect Text} (i : ℕ)
    (h : HandlerMove T cfg sh remote ev pc pc' eff) :
    (pc.unsettled = true ∧ pc'.unsettled = true ∧ endOf pc pc' = none ∧
      ((sh.perform T cfg i remote eff).delay = sh.delay ∨
        (sh.perform T cfg i remote eff).delay = .new)) ∨
    (∃ a, pc.unsettled = true ∧ pc'.unsettled = false ∧ endOf pc pc' = some a ∧
      a ≠ .connectFailed ∧ (sh.perform T cfg i remote eff).delay =
        if a.escalates then sh.delay.escalate else sh.delay) ∨
    (pc = .release ∧ pc' = .done ∧ (sh.perform T cfg i remote eff).delay = sh.delay) := by
  cases h with
  | handshake hshake =>
    cases hshake with
    | acceptBiFailed => exact .inr (.inl ⟨_, rfl, rfl, rfl, by simp, rfl⟩)
    | _ => exact .inl ⟨rfl, rfl, rfl, .inl rfl⟩
  | sendWaitFailed => exact .inr (.inl ⟨_, rfl, rfl, rfl, by simp, rfl⟩)
  | gone w since => exact .inr (.inl ⟨_, rfl, rfl, rfl, by simp, rfl⟩)
  | reject => exact .inr (.inl ⟨_, rfl, rfl, rfl, by simp, rfl⟩)
  | finish v =>
    refine .inr (.inl ⟨.ofVerdict v, rfl, rfl, rfl, ?_, ?_⟩)
    · cases v with
      | confirm => simp [AttemptEnd.ofVerdict]
      | deny reason => cases reason <;> simp [AttemptEnd.ofVerdict]
    · cases v with
      | confirm => rfl
      | deny reason => cases reason <;> rfl
  | release => exact .inr (.inr ⟨rfl, rfl, rfl⟩)
  | refuse hrefuse =>
    cases hrefuse with
    | acceptBiFailed => exact .inr (.inl ⟨_, rfl, rfl, rfl, by simp, rfl⟩)
    | acked since => exact .inr (.inl ⟨_, rfl, rfl, rfl, by simp, rfl⟩)
    | _ => exact .inl ⟨rfl, rfl, rfl, .inl rfl⟩
  | resetDelay => exact .inl ⟨rfl, rfl, rfl, .inr rfl⟩
  | _ => exact .inl ⟨rfl, rfl, rfl, .inl rfl⟩

end Moves

/-! ### The delay of a run -/

/-- Connection `i` moves on, and does what it does to the shared state. -/
def Invite.setConn (s : Invite Text) (i : ℕ) (c : PairConn) (sh : InviteShared Text) :
    Invite Text :=
  { s with shared := sh, conns := s.conns.set i c }

/-- The number of connections in position `p`. -/
def Invite.count (s : Invite Text) (p : HandlerPc → Bool) : ℕ := s.conns.countP (fun c => p c.pc)

/-- One attempt at a time, which finds the delay reset as soon as it has a connection; and after
    it the delay is what the ends of the attempts make it. -/
structure DelayInv (s : Attempts Text) : Prop where
  accepting : s.invite.loop.accepting = true → s.invite.count HandlerPc.running = 0
  one : s.invite.count HandlerPc.running ≤ 1
  taken : s.invite.loop.claiming = true ∨ 0 < s.invite.count HandlerPc.unsettled →
    s.invite.shared.delay = .new
  settled : s.invite.loop.claiming = false → s.invite.count HandlerPc.unsettled = 0 →
    s.invite.shared.delay = delayAfter s.ends

theorem Invite.count_unsettled_le (s : Invite Text) :
    s.count HandlerPc.unsettled ≤ s.count HandlerPc.running :=
  List.countP_mono_left (fun _ _ h => HandlerPc.running_of_unsettled h)

theorem claiming_accepting {pc : LoopPc} (h : pc.claiming = true) : pc.accepting = true := by
  cases pc with
  | claim remote => rfl
  | _ => exact absurd h (by simp [LoopPc.claiming])

namespace DelayInv

variable {T : Toml PersistedState Text} {cfg : InviteCfg} {s s' : Attempts Text}

/-! #### The loop -/

/-- An attempt is taken in, after all before it have ended. -/
theorem incoming (h : DelayInv s) (hpc₀ : s.invite.loop = .pollAccept)
    (hnone : s.invite.count HandlerPc.running = 0) (wake : ℕ) :
    DelayInv ⟨{ s.invite with loop := .acceptDelay wake }, s.ends⟩ := by
  refine ⟨fun _ => hnone, h.one, ?_, ?_⟩
  · rintro (habs | hpos)
    · exact absurd habs (by simp [LoopPc.claiming])
    · exact h.taken (.inr hpos)
  · intro _ hzero
    exact h.settled (by rw [hpc₀]; rfl) hzero

/-- It gets no connection. -/
theorem connFailed (h : DelayInv s) (hpc₀ : s.invite.loop = .connFailed) :
    DelayInv ⟨Invite.perform cfg { s.invite with loop := .pollOutcome } .escalate,
      .connectFailed :: s.ends⟩ := by
  have hnone := h.accepting (by rw [hpc₀]; rfl)
  have hzero : s.invite.count HandlerPc.unsettled = 0 := by
    have hle := s.invite.count_unsettled_le
    omega
  refine ⟨fun _ => hnone, h.one, ?_, ?_⟩
  · rintro (habs | hpos)
    · exact absurd habs (by simp [LoopPc.claiming, Invite.perform])
    · have hpos : 0 < s.invite.count HandlerPc.unsettled := hpos
      omega
  · intro _ _
    show s.invite.shared.delay.escalate = (delayAfter s.ends).escalate
    rw [h.settled (by rw [hpc₀]; rfl) hzero]

/-- It gets one, and the delay is reset. -/
theorem connected {remote : PublicKey} (h : DelayInv s)
    (hpc₀ : s.invite.loop = .connected remote) :
    DelayInv ⟨Invite.perform cfg { s.invite with loop := .claim remote } .resetDelay, s.ends⟩ := by
  have hnone := h.accepting (by rw [hpc₀]; rfl)
  refine ⟨fun _ => hnone, h.one, fun _ => rfl, ?_⟩
  intro hclaim
  exact absurd hclaim (by simp [LoopPc.claiming, Invite.perform])

/-- A connection of its own for the new attempt, whether it has the slot or not. -/
theorem count_claimAndSpawn (cfg : InviteCfg) (s : Invite Text) (remote : PublicKey)
    {p : HandlerPc → Bool} (hbi : p .acceptBi = true) (hbusy : p .busyAcceptBi = true) :
    (s.perform cfg (.claimAndSpawn remote)).count p = s.count p + 1 := by
  simp only [Invite.perform, Invite.count]
  split <;> simp [List.countP_append, hbi, hbusy]

theorem claim {remote : PublicKey} (h : DelayInv s) (hpc₀ : s.invite.loop = .claim remote) :
    DelayInv ⟨Invite.perform cfg { s.invite with loop := .pollOutcome } (.claimAndSpawn remote),
      s.ends⟩ := by
  have hnone := h.accepting (by rw [hpc₀]; rfl)
  have hdelay := h.taken (.inl (by rw [hpc₀]; rfl))
  have hrun := count_claimAndSpawn cfg { s.invite with loop := .pollOutcome } remote
    (p := HandlerPc.running) rfl rfl
  have huns := count_claimAndSpawn cfg { s.invite with loop := .pollOutcome } remote
    (p := HandlerPc.unsettled) rfl rfl
  have hloop : (Invite.perform cfg { s.invite with loop := .pollOutcome }
      (.claimAndSpawn remote)).loop = .pollOutcome := by
    simp only [Invite.perform]
    split <;> rfl
  have hkept : (Invite.perform cfg { s.invite with loop := .pollOutcome }
      (.claimAndSpawn remote)).shared.delay = s.invite.shared.delay := by
    simp only [Invite.perform]
    split <;> rfl
  refine ⟨?_, ?_, fun _ => hkept.trans hdelay, ?_⟩
  · intro hacc
    rw [hloop] at hacc
    exact absurd hacc (by simp [LoopPc.accepting])
  · show _ ≤ 1
    rw [hrun]
    have hnone : Invite.count { s.invite with loop := .pollOutcome } HandlerPc.running = 0 := hnone
    omega
  · intro _ hzero
    rw [huns] at hzero
    omega

/-- The loop does something else. -/
theorem quiet {pc : LoopPc} {eff : LoopEffect} (h : DelayInv s)
    (hacc : pc.accepting = true → s.invite.loop.accepting = true)
    (hclaim₀ : s.invite.loop.claiming = false) (hclaim : pc.claiming = false)
    (hquiet : eff.quiet = true) :
    DelayInv ⟨Invite.perform cfg { s.invite with loop := pc } eff, s.ends⟩ := by
  obtain ⟨hdelay, hloop, hcount⟩ := LoopEffect.quiet_perform cfg
    { s.invite with loop := pc } hquiet
  have hrun := hcount _ HandlerPc.running_blind
  have huns := hcount _ HandlerPc.unsettled_blind
  refine ⟨?_, ?_, ?_, ?_⟩
  · intro hacc'
    rw [hloop] at hacc'
    exact hrun.trans (h.accepting (hacc hacc'))
  · exact hrun.trans_le h.one
  · rintro (habs | hpos)
    · rw [hloop] at habs
      exact absurd habs (by simp [hclaim])
    · exact hdelay.trans (h.taken (.inr (hpos.trans_eq huns)))
  · intro _ hzero
    exact hdelay.trans (h.settled hclaim₀ (huns.symm.trans hzero))

theorem loop {ev : LoopEvent} (h : DelayInv s) (hC : s.sequential (.loop ev) = true)
    (hn : s.next T cfg (.loop ev) = some s') : DelayInv s' := by
  obtain ⟨s₁, hstep, rfl⟩ := Option.map_eq_some_iff.mp hn
  obtain ⟨pc, eff, hnext, hmove, rfl⟩ := next_loop hstep
  simp only [Attempts.ended]
  rcases hmove.delay with ⟨wake, hpc₀, rfl, rfl⟩ | ⟨hpc₀, rfl, rfl⟩ | ⟨remote, hpc₀, rfl, rfl⟩ |
    ⟨remote, hpc₀, rfl, rfl⟩ | ⟨hacc, hnot, hclaim₀, hclaim, hquiet⟩
  · have hev : ev = .incoming := by
      cases ev with
      | incoming => rfl
      | _ => simp [loopNext, hpc₀] at hnext
    subst hev
    rw [if_neg (by simp [hpc₀])]
    refine h.incoming hpc₀ (List.countP_eq_zero.mpr (fun c hc => ?_)) wake
    rw [of_decide_eq_true (List.all_eq_true.mp hC c hc)]
    simp [HandlerPc.running]
  · rw [if_pos hpc₀]
    exact h.connFailed hpc₀
  · rw [if_neg (by simp [hpc₀])]
    exact h.connected hpc₀
  · rw [if_neg (by simp [hpc₀])]
    exact h.claim hpc₀
  · rw [if_neg hnot]
    exact h.quiet hacc hclaim₀ hclaim hquiet

/-! #### The handlers -/

section Conn

variable {i : ℕ} {c : PairConn} {pc : HandlerPc}

/-- How many are in position `p`, after a move of connection `i`. -/
theorem count_setConn (pc : HandlerPc) (p : HandlerPc → Bool) (hc : s.invite.conns[i]? = some c)
    (sh : InviteShared Text) :
    (s.invite.setConn i { c with pc } sh).count p + (if p c.pc then 1 else 0) =
      s.invite.count p + if p pc then 1 else 0 :=
  countP_set_add (fun c : PairConn => p c.pc) hc

/-- While a task goes on, the loop deals with no attempt. -/
theorem not_accepting (h : DelayInv s) (hc : s.invite.conns[i]? = some c)
    (hrunning : c.pc.running = true) :
    s.invite.count HandlerPc.running = 1 ∧ ¬ s.invite.loop.accepting = true := by
  have hpos : 0 < s.invite.count HandlerPc.running :=
    List.countP_pos_iff.mpr ⟨c, List.mem_of_getElem? hc, hrunning⟩
  have hone := h.one
  refine ⟨by omega, fun hacc => ?_⟩
  have hzero := h.accepting hacc
  omega

/-- The attempt goes on. -/
theorem goesOn (h : DelayInv s) (hc : s.invite.conns[i]? = some c)
    (huns : c.pc.unsettled = true) (huns' : pc.unsettled = true) {sh : InviteShared Text}
    (hdelay : sh.delay = s.invite.shared.delay ∨ sh.delay = .new) :
    DelayInv ⟨s.invite.setConn i { c with pc } sh, s.ends⟩ := by
  have hrun := count_setConn pc HandlerPc.running hc sh
  have hset := count_setConn pc HandlerPc.unsettled hc sh
  rw [if_pos (HandlerPc.running_of_unsettled huns),
    if_pos (HandlerPc.running_of_unsettled huns')] at hrun
  rw [if_pos huns, if_pos huns'] at hset
  obtain ⟨hone, hacc⟩ := h.not_accepting hc (HandlerPc.running_of_unsettled huns)
  have hpos : 0 < s.invite.count HandlerPc.unsettled :=
    List.countP_pos_iff.mpr ⟨c, List.mem_of_getElem? hc, huns⟩
  have hnew := h.taken (.inr hpos)
  refine ⟨fun habs => absurd habs hacc, ?_, ?_, ?_⟩
  · show (s.invite.setConn i { c with pc } sh).count HandlerPc.running ≤ 1
    omega
  · intro _
    rcases hdelay with hkept | hreset
    · exact hkept.trans hnew
    · exact hreset
  · intro _ hzero
    have hzero : (s.invite.setConn i { c with pc } sh).count HandlerPc.unsettled = 0 := hzero
    omega

/-- The attempt ends. -/
theorem ends (h : DelayInv s) (hc : s.invite.conns[i]? = some c) (huns : c.pc.unsettled = true)
    (huns' : pc.unsettled = false) {sh : InviteShared Text} {a : AttemptEnd}
    (ha : a ≠ .connectFailed) (hdelay : sh.delay =
      if a.escalates then s.invite.shared.delay.escalate else s.invite.shared.delay) :
    DelayInv ⟨s.invite.setConn i { c with pc } sh, a :: s.ends⟩ := by
  have hrun := count_setConn pc HandlerPc.running hc sh
  have hset := count_setConn pc HandlerPc.unsettled hc sh
  rw [if_pos (HandlerPc.running_of_unsettled huns)] at hrun
  rw [if_pos huns, if_neg (by simp [huns'])] at hset
  obtain ⟨hone, hacc⟩ := h.not_accepting hc (HandlerPc.running_of_unsettled huns)
  have hle := s.invite.count_unsettled_le
  -- it was the only one that had not ended
  have hpos : 0 < s.invite.count HandlerPc.unsettled :=
    List.countP_pos_iff.mpr ⟨c, List.mem_of_getElem? hc, huns⟩
  have hnew := h.taken (.inr hpos)
  refine ⟨fun habs => absurd habs hacc, ?_, ?_, ?_⟩
  · show (s.invite.setConn i { c with pc } sh).count HandlerPc.running ≤ 1
    split at hrun <;> omega
  · rintro (habs | hpos')
    · exact absurd (claiming_accepting habs) hacc
    · have hpos' : 0 < (s.invite.setConn i { c with pc } sh).count HandlerPc.unsettled := hpos'
      omega
  · intro _ _
    show sh.delay = delayAfter (a :: s.ends)
    rw [delayAfter_cons s.ends ha, hdelay, hnew]

/-- The slot is released after it. -/
theorem released (h : DelayInv s) (hc : s.invite.conns[i]? = some c) (hpc : c.pc = .release)
    {sh : InviteShared Text} (hdelay : sh.delay = s.invite.shared.delay) :
    DelayInv ⟨s.invite.setConn i { c with pc := .done } sh, s.ends⟩ := by
  have hrun := count_setConn .done HandlerPc.running hc sh
  have hset := count_setConn .done HandlerPc.unsettled hc sh
  simp only [hpc, HandlerPc.running, HandlerPc.unsettled, Bool.false_eq_true, if_true, if_false]
    at hrun hset
  obtain ⟨hone, hacc⟩ := h.not_accepting hc (by rw [hpc]; rfl)
  refine ⟨fun habs => absurd habs hacc, ?_, ?_, ?_⟩
  · show (s.invite.setConn i { c with pc := .done } sh).count HandlerPc.running ≤ 1
    omega
  · rintro (habs | hpos)
    · exact absurd (claiming_accepting habs) hacc
    · exact hdelay.trans (h.taken (.inr (hpos.trans_eq hset)))
  · intro hclaim hzero
    exact hdelay.trans (h.settled hclaim (hset.symm.trans hzero))

end Conn

theorem conn {i : ℕ} {ev : HandlerEvent Text} (h : DelayInv s)
    (hn : s.next T cfg (.conn i ev) = some s') : DelayInv s' := by
  obtain ⟨s₁, hstep, rfl⟩ := Option.map_eq_some_iff.mp hn
  obtain ⟨c, hc, hstep⟩ := Option.bind_eq_some_iff.mp hstep
  obtain ⟨⟨pc, eff⟩, hnext, rfl⟩ := Option.map_eq_some_iff.mp hstep
  have hended : Attempts.ended T cfg s.invite (.conn i ev) = endOf c.pc pc := by
    simp only [Attempts.ended, hc, hnext, Option.bind_some]
  rw [hended]
  rcases (handlerNext_move hnext).delay i with ⟨huns, huns', hend, hdelay⟩ |
    ⟨a, huns, huns', hend, ha, hdelay⟩ | ⟨hpc, rfl, hdelay⟩
  · rw [hend]
    exact h.goesOn hc huns huns' hdelay
  · rw [hend]
    exact h.ends hc huns huns' ha hdelay
  · rw [hpc]
    exact h.released hc hpc hdelay

end DelayInv

end Tmite.Daemon
