import Tmite.Daemon.InviteResult

namespace Tmite.Daemon

open Tmite.Core Tmite.Proto Transition TaskList

/-!
# Whether an accept is heard

`set_decision` stores the decision and calls `notify_waiters`, which wakes the `notified()`
futures that exist and stores no permit.  A handler sends its `pair_request` event before it
creates that future, and looks at the stored decision only when it has been woken: an accept
processed in between is stored and not read, and the handler waits for a timeout.  A woken
handler may also find a timeout ready beside its wake-up, and `select!` takes either.

`accept_heard` says that these two are the only ways to lose an accept.
-/

universe v
variable {Text : Type v} {T : Toml PersistedState Text} {cfg : InviteCfg}

/-! ### Positions -/

namespace HandlerPc

/-- Ending with `PAIR_DENY { Expired }`. -/
def expiring : HandlerPc → Bool
  | verdict v => v == .deny .expired
  | ackWait v _ => v == .deny .expired
  | finish v => v == .deny .expired
  | _ => false

/-- Bound to read the stored decision, or past it. -/
def heard : HandlerPc → Bool
  | waiting woken _ => woken
  | readDecision => true
  | record _ => true
  | resetDelay => true
  | verdict v => v != .deny .expired
  | ackWait v _ => v != .deny .expired
  | finish v => v != .deny .expired
  | release => true
  | done => true
  | _ => false

/-- In `select!`, with its `notified()` future woken. -/
def woken : HandlerPc → Bool
  | waiting w _ => w
  | _ => false

theorem expiring_of_heard {pc : HandlerPc} (h : pc.heard = true) : pc.expiring = false := by
  cases pc with
  | verdict v => simpa [heard, expiring] using h
  | ackWait v since => simpa [heard, expiring] using h
  | finish v => simpa [heard, expiring] using h
  | _ => rfl

end HandlerPc

/-! ### What a run is about -/

/-- In `s` the loop is about to end the processing of an accept with `notify_waiters`; handler
    `i` has sent its event and waits for the decision, and no timeout has elapsed. -/
structure AcceptProcessed (cfg : InviteCfg) (s : Invite Text) (i : ℕ) (c : PairConn) : Prop where
  loop : s.loop = .notifyDecision true
  conn : s.conns[i]? = some c
  listening : c.pc.listening = true
  prompt : ∀ w since, c.pc = .waiting w since → s.clock < since + promptTimeout
  ttl : s.clock < cfg.deadline

/-- How the invite goes on after the `notify_waiters` in `s`. -/
def Invite.afterNotify (T : Toml PersistedState Text) (cfg : InviteCfg) (s : Invite Text) :
    System (Invite Text) (InviteAct Text) :=
  ⟨fun s' => s.next T cfg (.loop .go) = some s', Invite.next T cfg⟩

/-- No other decision is processed, and the client of connection `i` stays connected and
    silent. -/
def Undisturbed (i : ℕ) (s : Invite Text) : InviteAct Text → Prop
  | .loop _ => s.loop = .pollCmd → s.cmds = []
  | .conn j .clientGone => j ≠ i
  | .conn j .clientData => j ≠ i
  | _ => True

instance (i : ℕ) (s : Invite Text) (a : InviteAct Text) : Decidable (Undisturbed i s a) :=
  match a with
  | .loop _ => inferInstanceAs (Decidable (s.loop = .pollCmd → s.cmds = []))
  | .conn j .clientGone => inferInstanceAs (Decidable (j ≠ i))
  | .conn j .clientData => inferInstanceAs (Decidable (j ≠ i))
  | .conn _ .go | .conn _ (.acceptBi _) | .conn _ (.frame _) | .conn _ (.write _)
  | .conn _ .promptTimeout | .conn _ .deadline | .conn _ (.record _ _ _) | .conn _ .acked
  | .conn _ .ackTimeout | .tick _ | .store _ | .request _ | .dispatch _ =>
    inferInstanceAs (Decidable True)

/-- Handler `i`, once woken, takes its wake-up and not a timeout that is ready as well. -/
def TakesWakeUp (i : ℕ) (s : Invite Text) : InviteAct Text → Prop
  | .conn j .promptTimeout => j = i → ∀ c, s.conns[i]? = some c → c.pc.woken = false
  | .conn j .deadline => j = i → ∀ c, s.conns[i]? = some c → c.pc.woken = false
  | _ => True

instance (i : ℕ) (s : Invite Text) (a : InviteAct Text) : Decidable (TakesWakeUp i s a) :=
  match a with
  | .conn j .promptTimeout =>
    inferInstanceAs (Decidable (j = i → ∀ c ∈ s.conns[i]?, c.pc.woken = false))
  | .conn j .deadline =>
    inferInstanceAs (Decidable (j = i → ∀ c ∈ s.conns[i]?, c.pc.woken = false))
  | .conn _ .go | .conn _ (.acceptBi _) | .conn _ (.frame _) | .conn _ (.write _)
  | .conn _ .clientGone | .conn _ .clientData | .conn _ (.record _ _ _) | .conn _ .acked
  | .conn _ .ackTimeout | .tick _ | .store _ | .request _ | .dispatch _ | .loop _ =>
    inferInstanceAs (Decidable True)

/-! ### The decision at the notification -/

/-- What `notify_waiters` announces is stored. -/
def StoredInv (s : Invite Text) : Prop :=
  ∀ accept, s.loop = .notifyDecision accept → s.shared.decision = some accept

theorem StoredInv.loop {s s' : Invite Text} {ev : LoopEvent}
    (hn : s.next T cfg (.loop ev) = some s') : StoredInv s' := by
  obtain ⟨pc, eff, -, hmove, rfl⟩ := next_loop hn
  intro accept hpc
  rw [perform_loop_pc] at hpc
  generalize s.loop = pc₀ at hmove
  cases hmove with
  | setDecision d =>
    have haccept : d.accept = accept := by simpa using hpc
    simp only [Invite.perform, haccept]
  | _ => exact absurd hpc (by simp)

theorem storedInv {C : Invite Text → InviteAct Text → Prop} {s : Invite Text}
    (h : Reach (Invite.system T cfg) C s) : StoredInv s := by
  refine Invite.reach_invariant (fun state clock => ?_) (fun s s' hsame hi => ?_)
    (fun _ _ _ _ _ _ hn => StoredInv.loop hn) (fun s i ev s' _ hi _ hn => ?_) h
  · intro accept hpc
    exact absurd hpc (by simp [Invite.start])
  · obtain ⟨_, _, _, _, _, rfl⟩ := hsame
    exact hi
  · obtain ⟨c, pc, eff, -, -, rfl⟩ := next_conn hn
    intro accept hpc
    rw [(perform_decision T cfg s.shared i c.remote eff).1]
    exact hi accept hpc

/-! ### Moves of a handler that has heard -/

section Moves

variable {sh : InviteShared Text} {remote : PublicKey} {ev : HandlerEvent Text}
  {pc pc' : HandlerPc} {eff : Effect Text}

/-- With an accept stored, a handler that has heard leaves that state only from `select!`. -/
theorem HandlerMove.heard (h : HandlerMove T cfg sh remote ev pc pc' eff)
    (hd : sh.decision = some true) (hpc : pc.heard = true) :
    pc'.heard = true ∨ pc.woken = true ∧ pc' = .verdict (.deny .expired) := by
  cases h with
  | woken since => exact .inl rfl
  | gone w since => exact .inl rfl
  | timedOut w since => exact .inr ⟨hpc, rfl⟩
  | approved hdec => exact .inl rfl
  | denied hdec => rw [hd] at hdec; exact absurd hdec (by simp)
  | noDecision hdec => rw [hd] at hdec; exact absurd hdec (by simp)
  | alreadyRecorded answers hrec => exact .inl rfl
  | recorded answers pairedAt lastSeen fault hev hrec hadd => exact .inl rfl
  | recordFailed answers pairedAt lastSeen fault e hev hrec hadd => exact .inl rfl
  | resetDelay => exact .inl rfl
  | wrote v clock hok => exact .inl hpc
  | writeFailed v clock ok hev hok => exact .inl hpc
  | acked v since => exact .inl hpc
  | finish v => exact .inl rfl
  | release => exact .inl rfl
  | handshake hs => cases hs <;> exact absurd hpc (by simp [HandlerPc.heard])
  | refuse hr => cases hr <;> exact absurd hpc (by simp [HandlerPc.heard])
  | _ => exact absurd hpc (by simp [HandlerPc.heard])

/-- Only the two timers make a waiting handler give up on the decision. -/
theorem handlerNext_timedOut {clock : ℕ}
    (h : handlerNext T cfg clock sh remote pc ev = some (.verdict (.deny .expired), eff))
    (hpc : pc.woken = true) : ev = .promptTimeout ∨ ev = .deadline := by
  cases pc with
  | waiting w since =>
    cases ev with
    | promptTimeout => exact .inl rfl
    | deadline => exact .inr rfl
    | go =>
      simp only [handlerNext] at h
      split at h
      · exact absurd h (by simp)
      · exact absurd h (by simp)
    | _ => exact absurd h (by simp [handlerNext])
  | _ => exact absurd hpc (by simp [HandlerPc.woken])

/-- `PAIR_DENY { Expired }` is written by a handler that ends with it. -/
theorem HandlerMove.wrote_expired (h : HandlerMove T cfg sh remote ev pc pc' eff) {i j : ℕ}
    (hw : ⟨i, .pairDeny .expired⟩ ∈ (sh.perform T cfg j remote eff).wrote) :
    ⟨i, .pairDeny .expired⟩ ∈ sh.wrote ∨ i = j ∧ pc.expiring = true := by
  have hnew : ∀ f : PairingFrame, eff = .write f →
      ⟨i, .pairDeny .expired⟩ ∈ sh.wrote ∨ i = j ∧ .pairDeny .expired = f := by
    rintro f rfl
    simpa [InviteShared.perform] using hw
  cases h with
  | sentWait hok => exact (hnew _ rfl).imp id (fun hf => absurd hf.2 (by simp))
  | wrote v clock hok =>
    refine (hnew _ rfl).imp id (fun hf => ⟨hf.1, ?_⟩)
    cases v with
    | confirm => exact absurd hf.2 (by simp [InviteCfg.frame])
    | deny reason =>
      have hreason : .expired = reason := by simpa [InviteCfg.frame] using hf.2
      rw [← hreason]
      rfl
  | refused clock => exact (hnew _ rfl).imp id (fun hf => absurd hf.2 (by simp))
  | finish v =>
    obtain ⟨delay, outcomes, heq⟩ := perform_afterAck T cfg sh j remote v
    rw [heq] at hw
    exact .inl hw
  | _ => exact .inl hw

end Moves

/-! ### The invariant -/

/-- The accept is stored and stays so, handler `i` has heard of it, and no
    `PAIR_DENY { Expired }` has been written on its connection since `s₀`. -/
structure HeardInv (s₀ : Invite Text) (i : ℕ) (s : Invite Text) : Prop where
  decision : s.shared.decision = some true
  loop : ∀ d, s.loop ≠ .setDecision d
  heard : ∃ c, s.conns[i]? = some c ∧ c.pc.heard = true
  wrote : ⟨i, .pairDeny .expired⟩ ∈ s.shared.wrote → ⟨i, .pairDeny .expired⟩ ∈ s₀.shared.wrote

/-- A connection is woken by a loop step, or left as it is. -/
theorem perform_conns_wake (cfg : InviteCfg) (s : Invite Text) (eff : LoopEffect) {i : ℕ}
    {c : PairConn} (h : s.conns[i]? = some c) :
    ∃ c', (s.perform cfg eff).conns[i]? = some c' ∧ (c' = c ∨ c' = c.wake) := by
  obtain ⟨c', hc', -⟩ := perform_conns_keep cfg s eff h
  refine ⟨c', hc', ?_⟩
  rcases perform_conns_get hc' with ⟨c₀, hc₀, hwake⟩ | ⟨hi, -⟩
  · have hsame : c₀ = c := Option.some.inj (hc₀.symm.trans h)
    rw [← hsame]
    exact hwake
  · obtain ⟨hlt, -⟩ := List.getElem?_eq_some_iff.mp h
    omega

/-- Being woken, a handler that has heard stays so. -/
theorem PairConn.wake_heard {c : PairConn} (h : c.pc.heard = true) : c.wake.pc.heard = true := by
  rcases c.wake_pc with hpc | ⟨w, since, -, hpc⟩
  · rw [hpc]
    exact h
  · rw [hpc]
    rfl

/-- A listening handler whose `notified()` future exists, or that is past it, has heard once it
    is woken. -/
theorem PairConn.wake_listening {c : PairConn} (hl : c.pc.listening = true)
    (hf : c.pc ≠ .select) : c.wake.pc.heard = true := by
  unfold PairConn.wake
  split
  · rfl
  · rename_i hpc
    cases hp : c.pc with
    | waiting w since => exact absurd hp (hpc w since)
    | readDecision => rfl
    | select => exact absurd hp hf
    | _ => rw [hp] at hl; exact absurd hl (by simp [HandlerPc.listening])

theorem heardInv_start {s₀ s : Invite Text} {i : ℕ} {c : PairConn}
    (hs₀ : StoredInv s₀) (hacc : AcceptProcessed cfg s₀ i c) (hf : c.pc ≠ .select)
    (hn : s₀.next T cfg (.loop .go) = some s) : HeardInv s₀ i s := by
  obtain ⟨pc, eff, hstep, -, rfl⟩ := next_loop hn
  -- the step is the `notify_waiters` of the accept
  simp only [loopNext, hacc.loop, if_true, Option.some.injEq, Prod.mk.injEq] at hstep
  obtain ⟨rfl, rfl⟩ := hstep
  refine ⟨hs₀ true hacc.loop, fun d => by simp [Invite.perform], ?_, fun hw => hw⟩
  refine ⟨c.wake, ?_, PairConn.wake_listening hacc.listening hf⟩
  simp only [Invite.perform, List.getElem?_map, hacc.conn, Option.map_some]

theorem HeardInv.loopStep {s₀ s s' : Invite Text} {i : ℕ} {ev : LoopEvent} (h : HeardInv s₀ i s)
    (hC : Undisturbed i s (.loop ev)) (hn : s.next T cfg (.loop ev) = some s') :
    HeardInv s₀ i s' := by
  obtain ⟨pc, eff, -, hmove, rfl⟩ := next_loop hn
  obtain ⟨-, -, hwrote⟩ := perform_loop_shared cfg { s with loop := pc } eff
  obtain ⟨c, hc, hheard⟩ := h.heard
  -- the loop has no decision in hand, and takes none
  have heff : ∀ d, eff ≠ .setDecision d := by
    rintro d rfl
    exact h.loop d hmove.at_setDecision
  have hpc : ∀ d, pc ≠ .setDecision d := by
    rintro d rfl
    obtain ⟨hpoll, rest, hcmds⟩ := hmove.takes
    rw [hC hpoll] at hcmds
    exact absurd hcmds (by simp)
  refine ⟨?_, fun d => ?_, ?_, ?_⟩
  · rw [(perform_loop_decision cfg { s with loop := pc } eff heff).1]
    exact h.decision
  · rw [perform_loop_pc]
    exact hpc d
  · obtain ⟨c', hc', rfl | rfl⟩ := perform_conns_wake cfg { s with loop := pc } eff hc
    · exact ⟨c', hc', hheard⟩
    · exact ⟨c.wake, hc', PairConn.wake_heard hheard⟩
  · rw [hwrote]
    exact h.wrote

theorem HeardInv.connStep {s₀ s s' : Invite Text} {i j : ℕ} {ev : HandlerEvent Text}
    (h : HeardInv s₀ i s) (hC : TakesWakeUp i s (.conn j ev))
    (hn : s.next T cfg (.conn j ev) = some s') : HeardInv s₀ i s' := by
  obtain ⟨d, hd, hn⟩ := Option.bind_eq_some_iff.mp hn
  obtain ⟨⟨pc, eff⟩, hstep, rfl⟩ := Option.map_eq_some_iff.mp hn
  have hmove := handlerNext_move hstep
  obtain ⟨c, hc, hheard⟩ := h.heard
  refine ⟨?_, h.loop, ?_, fun hw => ?_⟩
  · rw [(perform_decision T cfg s.shared j d.remote eff).1]
    exact h.decision
  · obtain ⟨c', hc', -, ⟨rfl, rfl, hpc'⟩ | ⟨-, rfl⟩⟩ := getElem?_set_remote pc hd hc
    · -- handler `i` moves: not by a timer, so it goes on to the decision
      refine ⟨c', hc', ?_⟩
      rw [hpc']
      rcases hmove.heard h.decision hheard with hkeep | ⟨hwoken, rfl⟩
      · exact hkeep
      · rcases handlerNext_timedOut hstep hwoken with rfl | rfl
        · exact absurd hwoken (by simp [hC rfl c hc])
        · exact absurd hwoken (by simp [hC rfl c hc])
    · exact ⟨c', hc', hheard⟩
  · rcases hmove.wrote_expired hw with hold | ⟨rfl, hexp⟩
    · exact h.wrote hold
    · have hcd : d = c := Option.some.inj (hd.symm.trans hc)
      rw [hcd, HandlerPc.expiring_of_heard hheard] at hexp
      exact absurd hexp (by simp)

/-! ### Every run -/

/-- **An accept is heard.** Let the loop process an accept, in any state that any run reaches,
    while handler `i` has sent its event and waits and no timeout has elapsed.  If the handler's
    `notified()` future exists by then, then in every continuation, whatever the other tasks do,
    in which no other decision is processed, the client stays connected and silent, and the
    woken handler takes its wake-up whenever a timeout is ready too: the handler never ends with
    `PAIR_DENY { Expired }`, and none is written on its connection. -/
theorem accept_heard (T : Toml PersistedState Text) (cfg : InviteCfg) {s₀ s : Invite Text}
    {i : ℕ} {c : PairConn} (h₀ : Reach (Invite.system T cfg) anyStep s₀)
    (hacc : AcceptProcessed cfg s₀ i c) (hfuture : c.pc ≠ .select)
    (h : Reach (s₀.afterNotify T cfg) (fun s a => Undisturbed i s a ∧ TakesWakeUp i s a) s) :
    (∀ d, s.conns[i]? = some d → d.pc.expiring = false) ∧
      (⟨i, .pairDeny .expired⟩ ∈ s.shared.wrote →
        ⟨i, .pairDeny .expired⟩ ∈ s₀.shared.wrote) := by
  have hinv : HeardInv s₀ i s := by
    refine h.invariant (fun s hn => ?_) (fun s a s' _ hi hC hn => ?_)
    · have hn : s₀.next T cfg (.loop .go) = some s := hn
      exact heardInv_start (storedInv h₀) hacc hfuture hn
    · have hn : s.next T cfg a = some s' := hn
      cases a with
      | loop ev => exact hi.loopStep hC.1 hn
      | conn j ev => exact hi.connStep hC.2 hn
      | _ =>
        obtain ⟨_, _, _, _, _, rfl⟩ := next_other hn (by simp) (by simp)
        exact ⟨hi.decision, hi.loop, hi.heard, hi.wrote⟩
  refine ⟨fun d hd => ?_, hinv.wrote⟩
  obtain ⟨c', hc', hheard⟩ := hinv.heard
  have hdc : d = c' := Option.some.inj (hd.symm.trans hc')
  rw [hdc]
  exact HandlerPc.expiring_of_heard hheard

/-- The admin accepts the first client, whose handler has taken the steps `prompt`; up to the
    `notify_waiters` of the accept. -/
def acceptedRun (prompt : List (InviteAct PersistedState)) : List (InviteAct PersistedState) :=
  .loop (.build true) :: takeConn vectorKey0 ++ prompt ++ (answerPrompt 0 true).dropLast

/-- With its future in place the handler hears the accept, and the client is confirmed. -/
theorem accept_heard_paired : ∃ s₀ s c,
    Reach (Invite.system (.self PersistedState) laptopInvite) anyStep s₀ ∧
      AcceptProcessed laptopInvite s₀ 0 c ∧ c.pc ≠ .select ∧
      Reach (s₀.afterNotify (.self PersistedState) laptopInvite)
        (fun s a => Undisturbed 0 s a ∧ TakesWakeUp 0 s a) s ∧
      s.shared.wrote = [⟨0, .pairWait⟩, ⟨0, laptopInvite.frame .confirm⟩] ∧
      ∀ d, s.conns[0]? = some d → d.pc.expiring = false := by
  have hrun : ((exec (Invite.system (.self PersistedState) laptopInvite) (fun _ _ => true)
      (.start .fresh 0) (acceptedRun (reachPrompt 0))).bind fun s₀ =>
        (s₀.next (.self PersistedState) laptopInvite (.loop .go)).bind fun s₁ =>
          (exec (s₀.afterNotify (.self PersistedState) laptopInvite)
            (fun s a => decide (Undisturbed 0 s a ∧ TakesWakeUp 0 s a)) s₁ (recordAndConfirm 0)).map
              fun s => (s₀.loop, s₀.conns, s₀.clock, s.shared.wrote)) =
      some (.notifyDecision true, [⟨vectorKey0, .waiting false 500⟩], 500,
        [⟨0, .pairWait⟩, ⟨0, laptopInvite.frame .confirm⟩]) := by
    decide +kernel
  obtain ⟨s₀, hexec₀, hrun⟩ := Option.bind_eq_some_iff.mp hrun
  obtain ⟨s₁, hnotify, hrun⟩ := Option.bind_eq_some_iff.mp hrun
  obtain ⟨s, hr, hs⟩ := reach_of_exec_map
    (fun _ _ => of_decide_eq_true) hrun
    (.init hnotify)
  simp only [Prod.mk.injEq] at hs
  obtain ⟨hloop, hconns, hclock, hwrote⟩ := hs
  have hr₀ : Reach (Invite.system (.self PersistedState) laptopInvite) anyStep s₀ :=
    reach_of_exec (fun _ _ _ => trivial) (.init ⟨.fresh, 0, rfl⟩) hexec₀
  -- neither timeout has elapsed: the wait has only just begun
  have hacc : AcceptProcessed laptopInvite s₀ 0 ⟨vectorKey0, .waiting false 500⟩ := by
    refine ⟨hloop, by rw [hconns]; rfl, rfl, fun w since hpc => ?_, by rw [hclock]; decide⟩
    rw [hclock, ← (HandlerPc.waiting.inj hpc).2]
    decide
  exact ⟨s₀, s, _, hr₀, hacc, by simp, hr, hwrote,
    (accept_heard (.self PersistedState) laptopInvite hr₀ hacc (by simp) hr).1⟩

/-- What follows when the accept found the handler before `select!`: it begins to wait, and
    gives up when the prompt's timeout has elapsed. -/
def unheardRun : List (InviteAct PersistedState) :=
  [.conn 0 .go, .tick promptTimeout, .conn 0 .promptTimeout, .conn 0 (.write true)]

/-- The only decision of the invite is an accept, processed before any timeout; the client, who
    stays connected and silent, is told that its request expired. -/
theorem accept_unheard : ∃ s₀ s c,
    Reach (Invite.system (.self PersistedState) laptopInvite) anyStep s₀ ∧
      AcceptProcessed laptopInvite s₀ 0 c ∧
      Reach (s₀.afterNotify (.self PersistedState) laptopInvite) (Undisturbed 0) s ∧
      s.requested = 1 ∧ s.shared.wrote = [⟨0, .pairWait⟩, ⟨0, .pairDeny .expired⟩] ∧
      ∃ d, s.conns[0]? = some d ∧ d.pc.expiring = true := by
  have hrun : ((exec (Invite.system (.self PersistedState) laptopInvite) (fun _ _ => true)
      (.start .fresh 0) (acceptedRun (reachPrompt 0).dropLast)).bind fun s₀ =>
        (s₀.next (.self PersistedState) laptopInvite (.loop .go)).bind fun s₁ =>
          (exec (s₀.afterNotify (.self PersistedState) laptopInvite)
            (fun s a => decide (Undisturbed 0 s a)) s₁ unheardRun).map fun s =>
              ((s₀.loop, s₀.conns, s₀.clock), (s.requested, s.shared.wrote, s.conns))) =
      some ((.notifyDecision true, [⟨vectorKey0, .select⟩], 500),
        (1, [⟨0, .pairWait⟩, ⟨0, .pairDeny .expired⟩],
          [⟨vectorKey0, .ackWait (.deny .expired) (500 + promptTimeout)⟩])) := by
    decide +kernel
  obtain ⟨s₀, hexec₀, hrun⟩ := Option.bind_eq_some_iff.mp hrun
  obtain ⟨s₁, hnotify, hrun⟩ := Option.bind_eq_some_iff.mp hrun
  obtain ⟨s, hr, hs⟩ :=
    reach_of_exec_map (fun _ _ => of_decide_eq_true) hrun (.init hnotify)
  simp only [Prod.mk.injEq] at hs
  obtain ⟨⟨hloop, hconns, hclock⟩, hreq, hwrote, hend⟩ := hs
  refine ⟨s₀, s, ⟨vectorKey0, .select⟩,
    reach_of_exec (fun _ _ _ => trivial) (.init ⟨.fresh, 0, rfl⟩) hexec₀, ?_, hr, hreq, hwrote, ?_⟩
  · exact ⟨hloop, by rw [hconns]; rfl, rfl, fun w since hpc => absurd hpc (by simp),
      by rw [hclock]; decide⟩
  · rw [hend]
    exact ⟨_, rfl, rfl⟩

end Tmite.Daemon
