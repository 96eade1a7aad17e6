import Tmite.Daemon.InviteSlot

namespace Tmite.Daemon

open Tmite.Core Tmite.Proto Transition TaskList

/-!
# Whom an approval is for

The admin approves the node id of a `pair_request` event; what reaches the handlers is one
shared `Option<bool>` per invite, which is never cleared and names no node.  It authorises
whichever connection reads it.  `AnswersCurrent` says when that connection is the approved
one, and `approval_binds` that nothing else is needed.
-/

universe v
variable {Text : Type v} {T : Toml PersistedState Text} {cfg : InviteCfg}

/-! ### The admin, and the condition -/

/-- An admin client like `invite_cmd`: the n-th request it sends answers the n-th
    `pair_request` event, once that event is there. -/
def InOrderAdmin (s : Invite Text) : InviteAct Text → Prop
  | .request d => d.answers = s.requested ∧ s.requested < s.shared.prompts.length
  | _ => True

instance (s : Invite Text) (a : InviteAct Text) : Decidable (InOrderAdmin s a) :=
  match a with
  | .request d =>
    inferInstanceAs (Decidable (d.answers = s.requested ∧ s.requested < s.shared.prompts.length))
  | .tick _ | .store _ | .dispatch _ | .loop _ | .conn _ _ => inferInstanceAs (Decidable True)

/-- When an accept is stored, whoever has its prompt out is the node it was given for; and
    whoever sends its prompt while an accept is stored is the node that accept was given for. -/
def AnswersCurrent (s : Invite Text) : InviteAct Text → Prop
  | .loop _ => ∀ d, s.loop = .setDecision d → d.accept = true →
      ∀ c ∈ s.conns, c.pc.listening = true →
        s.shared.prompts[d.answers]? = some c.remote.display
  | .conn i _ => ∀ c, s.conns[i]? = some c → c.pc = .emit → s.shared.decision = some true →
      s.shared.prompts[s.shared.decidedBy]? = some c.remote.display
  | _ => True

instance (s : Invite Text) (a : InviteAct Text) : Decidable (AnswersCurrent s a) :=
  match a with
  | .loop _ => decidableOfGet LoopPc.storing_eq_some s.loop fun d => d.accept = true →
      ∀ c ∈ s.conns, c.pc.listening = true → s.shared.prompts[d.answers]? = some c.remote.display
  | .conn i _ =>
    inferInstanceAs (Decidable (∀ c ∈ s.conns[i]?, c.pc = .emit → s.shared.decision = some true →
      s.shared.prompts[s.shared.decidedBy]? = some c.remote.display))
  | .tick _ | .store _ | .request _ | .dispatch _ => inferInstanceAs (Decidable True)

/-! ### The prompts of an invite only grow -/

theorem getElem?_of_prefix {α : Type*} {l l' : List α} {k : ℕ} {x : α} (hpre : l <+: l')
    (h : l[k]? = some x) : l'[k]? = some x := by
  obtain ⟨t, rfl⟩ := hpre
  obtain ⟨hk, -⟩ := List.getElem?_eq_some_iff.mp h
  rw [List.getElem?_append_left hk]
  exact h

theorem prompts_perform (T : Toml PersistedState Text) (cfg : InviteCfg)
    (sh : InviteShared Text) (i : ℕ) (remote : PublicKey) (eff : Effect Text) :
    sh.prompts <+: (sh.perform T cfg i remote eff).prompts := by
  cases eff with
  | emit =>
    simp only [InviteShared.perform, InviteShared.prompts, List.filterMap_append]
    exact List.prefix_append _ _
  | _ => exact List.prefix_refl _

theorem prompts_perform_loop (cfg : InviteCfg) (s : Invite Text) (eff : LoopEffect) :
    (s.perform cfg eff).shared.prompts = s.shared.prompts := by
  cases eff with
  | emitCode =>
    simp only [Invite.perform, InviteShared.prompts, List.filterMap_append]
    exact List.append_nil _
  | close expired =>
    cases expired with
    | true =>
      simp only [Invite.perform, InviteShared.prompts, List.filterMap_append, if_true]
      exact List.append_nil _
    | false => simp [Invite.perform, InviteShared.prompts]
  | claimAndSpawn remote => simp only [Invite.perform]; split <;> rfl
  | sendResult r => simp only [Invite.perform]; split <;> rfl
  | _ => rfl

/-! ### Moves that matter here -/

section Moves

variable {sh : InviteShared Text} {remote : PublicKey} {ev : HandlerEvent Text}
  {pc pc' : HandlerPc} {eff : Effect Text}

/-- A handler begins to listen by sending its prompt. -/
theorem HandlerMove.listening (h : HandlerMove T cfg sh remote ev pc pc' eff)
    (hpc' : pc'.listening = true) : pc.listening = true ∨ pc = .emit := by
  cases h with
  | emit => exact .inr rfl
  | listen clock => exact .inl rfl
  | woken since => exact .inl rfl
  | noDecision hd => exact .inl rfl
  | handshake hs => cases hs <;> exact absurd hpc' (by simp [HandlerPc.listening])
  | refuse hr => cases hr <;> exact absurd hpc' (by simp [HandlerPc.listening])
  | _ => exact absurd hpc' (by simp [HandlerPc.listening])

/-- A handler is approved by reading an accept. -/
theorem HandlerMove.atRecord (h : HandlerMove T cfg sh remote ev pc pc' eff) {k : ℕ}
    (hpc' : pc' = .record k) :
    pc = .readDecision ∧ sh.decision = some true ∧ k = sh.decidedBy := by
  cases h with
  | approved hd => exact ⟨rfl, hd, (HandlerPc.record.inj hpc').symm⟩
  | handshake hs => cases hs <;> exact absurd hpc' (by simp)
  | refuse hr => cases hr <;> exact absurd hpc' (by simp)
  | _ => exact absurd hpc' (by simp)

/-- A handler calls `add_peer` for its own client, under the invite's name and the approval it
    read. -/
theorem HandlerMove.adds_new (h : HandlerMove T cfg sh remote ev pc pc' eff) {i : ℕ} {a : AddPeer}
    (ha : a ∈ (sh.perform T cfg i remote eff).adds) :
    a ∈ sh.adds ∨ pc = .record a.answers ∧ a.conn = i ∧ a.peer.name = cfg.name ∧
      a.peer.nodeId = remote.display := by
  cases h with
  | recorded answers pairedAt lastSeen fault hev hrec hadd =>
    rw [perform_addPeer_ok hadd] at ha
    refine (List.mem_append.mp ha).imp id (fun hnew => ?_)
    rw [List.mem_singleton.mp hnew]
    exact ⟨rfl, rfl, rfl, rfl⟩
  | recordFailed answers pairedAt lastSeen fault e hev hrec hadd =>
    rw [perform_addPeer_error hadd] at ha
    refine (List.mem_append.mp ha).imp id (fun hnew => ?_)
    rw [List.mem_singleton.mp hnew]
    exact ⟨rfl, rfl, rfl, rfl⟩
  | finish v =>
    obtain ⟨delay, outcomes, heq⟩ := perform_afterAck T cfg sh i remote v
    rw [heq] at ha
    exact .inl ha
  | _ => exact .inl ha

/-- No handler touches the decision. -/
theorem perform_decision (T : Toml PersistedState Text) (cfg : InviteCfg)
    (sh : InviteShared Text) (i : ℕ) (remote : PublicKey) (eff : Effect Text) :
    (sh.perform T cfg i remote eff).decision = sh.decision ∧
      (sh.perform T cfg i remote eff).decidedBy = sh.decidedBy := by
  cases eff <;> exact ⟨rfl, rfl⟩

/-- The loop touches it only to store what an admin sent. -/
theorem perform_loop_decision (cfg : InviteCfg) (s : Invite Text) (eff : LoopEffect)
    (heff : ∀ d, eff ≠ .setDecision d) :
    (s.perform cfg eff).shared.decision = s.shared.decision ∧
      (s.perform cfg eff).shared.decidedBy = s.shared.decidedBy := by
  cases eff with
  | setDecision d => exact absurd rfl (heff d)
  | claimAndSpawn remote => simp only [Invite.perform]; split <;> exact ⟨rfl, rfl⟩
  | sendResult r => simp only [Invite.perform]; split <;> exact ⟨rfl, rfl⟩
  | _ => exact ⟨rfl, rfl⟩

end Moves

/-! ### The invariant -/

/-- Whoever is listening, is approved or was recorded is the node the accept was given for. -/
structure ApprovalInv (s : Invite Text) : Prop where
  listening : s.shared.decision = some true → ∀ c ∈ s.conns, c.pc.listening = true →
    s.shared.prompts[s.shared.decidedBy]? = some c.remote.display
  approved : ∀ c ∈ s.conns, ∀ k, c.pc = .record k → s.shared.prompts[k]? = some c.remote.display
  adds : ∀ a ∈ s.shared.adds, s.shared.prompts[a.answers]? = some a.peer.nodeId
  conns : ∀ a ∈ s.shared.adds, ∃ c, s.conns[a.conn]? = some c ∧ a.peer.nodeId = c.remote.display

theorem approvalInv_start (state : State Text) (clock : ℕ) :
    ApprovalInv (Invite.start state clock) :=
  ⟨by simp [Invite.start], by simp [Invite.start], by simp [Invite.start],
    by simp [Invite.start]⟩

theorem ApprovalInv.conn {s s' : Invite Text} {i : ℕ} {ev : HandlerEvent Text}
    (h : ApprovalInv s) (hC : AnswersCurrent s (.conn i ev))
    (hn : s.next T cfg (.conn i ev) = some s') : ApprovalInv s' := by
  obtain ⟨c, pc, eff, hc, hmove, rfl⟩ := next_conn hn
  have hmem := List.mem_of_getElem? hc
  have hpre := prompts_perform T cfg s.shared i c.remote eff
  obtain ⟨hdec, hby⟩ := perform_decision T cfg s.shared i c.remote eff
  -- prompts are only appended, so an index into them stays good
  refine ⟨?_, ?_, ?_, ?_⟩
  · simp only [hdec, hby]
    intro hacc d hd hlis
    refine getElem?_of_prefix hpre ?_
    rcases List.mem_or_eq_of_mem_set hd with hold | rfl
    · exact h.listening hacc d hold hlis
    · rcases hmove.listening hlis with hwas | hemit
      · exact h.listening hacc c hmem hwas
      · -- the prompt goes out under a stored accept: the condition says for whom that was
        exact hC c hc hemit hacc
  · intro d hd k hk
    refine getElem?_of_prefix hpre ?_
    rcases List.mem_or_eq_of_mem_set hd with hold | rfl
    · exact h.approved d hold k hk
    · -- approved just now: it was listening when it read the accept
      obtain ⟨hpc, hacc, rfl⟩ := hmove.atRecord hk
      exact h.listening hacc c hmem (by rw [hpc]; rfl)
  · intro a ha
    refine getElem?_of_prefix hpre ?_
    rcases hmove.adds_new ha with hold | ⟨hpc, -, -, hid⟩
    · exact h.adds a hold
    · rw [hid]
      exact h.approved c hmem _ hpc
  · intro a ha
    rcases hmove.adds_new ha with hold | ⟨-, hconn, -, hid⟩
    · obtain ⟨d, hd, hid⟩ := h.conns a hold
      obtain ⟨d', hd', hremote, -⟩ := getElem?_set_remote pc hc hd
      exact ⟨d', hd', by rw [hremote]; exact hid⟩
    · obtain ⟨d', hd', hremote, -⟩ := getElem?_set_remote pc hc hc
      exact ⟨d', by rw [hconn]; exact hd', by rw [hremote]; exact hid⟩

theorem ApprovalInv.loop {s s' : Invite Text} {ev : LoopEvent} (h : ApprovalInv s)
    (hC : AnswersCurrent s (.loop ev)) (hn : s.next T cfg (.loop ev) = some s') :
    ApprovalInv s' := by
  obtain ⟨pc, eff, -, hmove, rfl⟩ := next_loop hn
  have hprompts := prompts_perform_loop cfg { s with loop := pc } eff
  obtain ⟨hadds, -, -⟩ := perform_loop_shared cfg { s with loop := pc } eff
  -- whoever listens or is approved after the step did so before it
  refine ⟨?_, ?_, ?_, ?_⟩
  · rw [hprompts]
    intro hacc d hd hlis
    obtain ⟨c, hc, hremote, hlis⟩ :=
      perform_conns_old hd (p := HandlerPc.listening) (fun _ _ => rfl) rfl rfl hlis
    rw [← hremote]
    by_cases hset : ∃ dec, eff = .setDecision dec
    · -- the accept just stored: the condition says whom it was given for
      obtain ⟨dec, rfl⟩ := hset
      simp only [Invite.perform, Option.some.injEq] at hacc ⊢
      exact hC dec hmove.at_setDecision hacc c hc hlis
    · obtain ⟨hdec, hby⟩ := perform_loop_decision cfg { s with loop := pc } eff
        (fun dec heq => hset ⟨dec, heq⟩)
      rw [hby]
      exact h.listening (by rw [← hdec]; exact hacc) c hc hlis
  · rw [hprompts]
    intro d hd k hk
    obtain ⟨c, hc, hremote, hrec⟩ := perform_conns_old hd
      (p := fun pc => decide (pc = .record k)) (fun _ _ => by simp) (by simp) (by simp) (by simp [hk])
    rw [← hremote]
    exact h.approved c hc k (of_decide_eq_true hrec)
  · rw [hprompts, hadds]
    exact h.adds
  · rw [hadds]
    intro a ha
    obtain ⟨c, hc, hid⟩ := h.conns a ha
    obtain ⟨c', hc', hremote, -⟩ := perform_conns_keep cfg { s with loop := pc } eff hc
    exact ⟨c', hc', by rw [hremote]; exact hid⟩

theorem approvalInv {s : Invite Text} (h : Reach (Invite.system T cfg) AnswersCurrent s) :
    ApprovalInv s := by
  refine Invite.reach_invariant approvalInv_start (fun s s' hsame hi => ?_)
    (fun _ _ _ _ hi hC hn => hi.loop hC hn) (fun _ _ _ _ _ hi hC hn => hi.conn hC hn) h
  obtain ⟨_, _, _, _, _, rfl⟩ := hsame
  exact ⟨hi.listening, hi.approved, hi.adds, hi.conns⟩

/-! ### Every run -/

/-- **Approval binds.** In every run, with any connections, timeouts, expiry and any admin, in
    which an accept is stored only while the connection that has its prompt out is the node it
    was given for, and no prompt is sent while an accept for another node is stored: every
    `add_peer` of the invite is for the remote node of its connection, and was authorised by an
    accept given in answer to a `pair_request` event with that same node id. -/
theorem approval_binds (T : Toml PersistedState Text) (cfg : InviteCfg) {s : Invite Text}
    (h : Reach (Invite.system T cfg) AnswersCurrent s) :
    ∀ a ∈ s.shared.adds, s.shared.prompts[a.answers]? = some a.peer.nodeId ∧
      ∃ c, s.conns[a.conn]? = some c ∧ a.peer.nodeId = c.remote.display := by
  have hinv := approvalInv h
  exact fun a ha => ⟨hinv.adds a ha, hinv.conns a ha⟩

/-- The accepted client of `pairedRun` is the one the admin saw. -/
theorem approval_binds_paired : ∃ s, Reach (Invite.system (.self PersistedState) laptopInvite)
    AnswersCurrent s ∧ s.shared.adds.length = 1 ∧
      ∀ a ∈ s.shared.adds, s.shared.prompts[a.answers]? = some a.peer.nodeId := by
  have hrun : (exec (Invite.system (.self PersistedState) laptopInvite)
      (fun s a => decide (AnswersCurrent s a))
      (.start .fresh 0) pairedRun).map (fun s => s.shared.adds.length) = some 1 := by
    decide +kernel
  obtain ⟨s, hr, hlen⟩ :=
    reach_of_exec_map (fun _ _ => of_decide_eq_true) hrun (.init ⟨.fresh, 0, rfl⟩)
  exact ⟨s, hr, hlen, fun a ha => (approval_binds (.self PersistedState) laptopInvite hr a ha).1⟩

/-- The client the admin was asked about vanishes, and another takes its place before the
    answer arrives. -/
def replacedRun : List (InviteAct PersistedState) :=
  .loop (.build true) :: takeConn vectorKey0 ++ reachPrompt 0 ++
    [.conn 0 .clientGone, .conn 0 .go] ++ takeConn vectorKey1 ++ reachPrompt 1 ++
    answerPrompt 0 true ++ recordAndConfirm 1

/-- The admin's accept of the first node records the second. -/
theorem replaced_client_recorded : ∃ s,
    Reach (Invite.system (.self PersistedState) laptopInvite) InOrderAdmin s ∧
      ∃ a ∈ s.shared.adds, a.peer.nodeId = vectorKey1.display ∧
        s.shared.prompts[a.answers]? = some vectorKey0.display ∧
        s.shared.prompts[a.answers]? ≠ some a.peer.nodeId := by
  have hrun : (exec (Invite.system (.self PersistedState) laptopInvite)
      (fun s a => decide (InOrderAdmin s a)) (.start .fresh 0) replacedRun).map
        (fun s => decide (∃ a ∈ s.shared.adds, a.peer.nodeId = vectorKey1.display ∧
          s.shared.prompts[a.answers]? = some vectorKey0.display ∧
          s.shared.prompts[a.answers]? ≠ some a.peer.nodeId)) = some true := by
    decide +kernel
  obtain ⟨s, hr, hbad⟩ :=
    reach_of_exec_map (fun _ _ h => of_decide_eq_true h) hrun (.init ⟨.fresh, 0, rfl⟩)
  exact ⟨s, hr, of_decide_eq_true hbad⟩

end Tmite.Daemon
