import Tmite.Daemon.InviteStep

namespace Tmite.Daemon

open Tmite.Core Tmite.Proto Transition TaskList

/-!
# Invites are single-use

Two flags make an invite single-use: `pair_busy`, claimed by the loop and released by the
handler, and `peer_recorded`, set by the first successful `add_peer` and never cleared.  Both
are read off the tasks: `SlotInv` counts the handlers that hold the slot, `RecordInv` the
calls that succeeded, and `ConfirmInv` bounds the confirmations, written or still to come, by
the latter.  None of it depends on the store, so a concurrent `peer.rm` plays no part.
-/

universe v
variable {Text : Type v} {T : Toml PersistedState Text} {cfg : InviteCfg}

/-! ### Statements -/

namespace Invite

/-- Connection `i` is between claiming and releasing the pair slot. -/
def HoldsSlot (s : Invite Text) (i : ℕ) : Prop :=
  ∃ c, s.conns[i]? = some c ∧ c.pc.holdsSlot = true

/-- The client of connection `i` was sent `PAIR_WAIT` and its handler has not ended. -/
def AwaitsVerdict (s : Invite Text) (i : ℕ) : Prop :=
  ⟨i, .pairWait⟩ ∈ s.shared.wrote ∧ ∃ c, s.conns[i]? = some c ∧ c.pc ≠ .done

end Invite

/-- Connection `i`'s own `add_peer` recorded `remote` under the invite's name. -/
def InviteShared.Recorded (sh : InviteShared Text) (cfg : InviteCfg) (i : ℕ)
    (remote : PublicKey) : Prop :=
  ∃ a ∈ sh.adds, a.conn = i ∧ a.ok = true ∧ a.peer.name = cfg.name ∧
    a.peer.nodeId = remote.display

/-- The frame is a `PAIR_CONFIRM`. -/
def Wrote.isConfirm (w : Wrote) : Bool :=
  match w.frame with
  | .pairConfirm _ _ => true
  | _ => false

/-! ### The slot -/

/-- As many handlers hold the slot as the flag says: one or none. -/
def SlotInv (s : Invite Text) : Prop :=
  s.conns.countP (fun c => c.pc.holdsSlot) = if s.shared.pairBusy then 1 else 0

theorem SlotInv.holder {s : Invite Text} (h : SlotInv s) :
    OneHolder (fun c : PairConn => c.pc.holdsSlot) s.conns s.shared.pairBusy := h

/-- Only the release of the slot takes a handler out of it. -/
theorem HandlerMove.slot {sh : InviteShared Text} {remote : PublicKey} {pc pc' : HandlerPc}
    {ev : HandlerEvent Text} {eff : Effect Text}
    (h : HandlerMove T cfg sh remote ev pc pc' eff) (i : ℕ) :
    pc = .release ∧ pc' = .done ∧ eff = .releaseSlot ∨
      pc'.holdsSlot = pc.holdsSlot ∧ (sh.perform T cfg i remote eff).pairBusy = sh.pairBusy := by
  cases h with
  | release => exact .inl ⟨rfl, rfl, rfl⟩
  | handshake hs => cases hs <;> exact .inr ⟨rfl, rfl⟩
  | refuse hr => cases hr <;> exact .inr ⟨rfl, rfl⟩
  | finish v =>
    obtain ⟨delay, outcomes, heq⟩ := perform_afterAck T cfg sh i remote v
    exact .inr ⟨rfl, by rw [heq]⟩
  | _ => exact .inr ⟨rfl, rfl⟩

theorem SlotInv.conn {s s' : Invite Text} {i : ℕ} {ev : HandlerEvent Text} (h : SlotInv s)
    (hn : s.next T cfg (.conn i ev) = some s') : SlotInv s' := by
  obtain ⟨c, pc, eff, hc, hmove, rfl⟩ := next_conn hn
  have hholder := h.holder
  rcases hmove.slot i with ⟨hpc, rfl, rfl⟩ | ⟨hpc, hbusy⟩
  · -- the release: the one holder leaves, and the flag is cleared
    exact hholder.drop hc (by rw [hpc]; rfl) rfl
  · show OneHolder _ _ (s.shared.perform T cfg i c.remote eff).pairBusy
    rw [hbusy]
    exact hholder.keep hc hpc

theorem SlotInv.loop {s s' : Invite Text} {ev : LoopEvent} (h : SlotInv s)
    (hn : s.next T cfg (.loop ev) = some s') : SlotInv s' := by
  obtain ⟨pc, eff, -, -, rfl⟩ := next_loop hn
  cases eff with
  | notifyWaiters =>
    simp only [SlotInv, Invite.perform] at h ⊢
    rw [countP_wake (p := HandlerPc.holdsSlot) (fun _ _ => rfl)]
    exact h
  | claimAndSpawn remote =>
    simp only [SlotInv, Invite.perform] at h ⊢
    split
    · -- the slot is taken: the newcomer is refused
      rename_i hbusy
      rw [if_pos hbusy] at h
      rw [List.countP_append, h]
      rfl
    · -- the slot is free: the newcomer holds it from here on
      rename_i hbusy
      rw [if_neg hbusy] at h
      rw [List.countP_append, h]
      rfl
  | sendResult r =>
    simp only [Invite.perform]
    split <;> exact h
  | _ => exact h

theorem slotInv {C : Invite Text → InviteAct Text → Prop} {s : Invite Text}
    (h : Reach (Invite.system T cfg) C s) : SlotInv s := by
  refine Invite.reach_invariant (fun _ _ => rfl) (fun s s' hsame hi => ?_)
    (fun _ _ _ _ hi _ hn => hi.loop hn) (fun _ _ _ _ _ hi _ hn => hi.conn hn) h
  obtain ⟨_, _, _, _, _, rfl⟩ := hsame
  exact hi

/-- At most one connection holds the slot. -/
theorem SlotInv.unique {s : Invite Text} (h : SlotInv s) {i j : ℕ} (hi : s.HoldsSlot i)
    (hj : s.HoldsSlot j) : i = j := by
  obtain ⟨c, hc, hcs⟩ := hi
  obtain ⟨d, hd, hds⟩ := hj
  exact h.holder.unique hc hd hcs hds

/-! ### Recording -/

/-- `add_peer` succeeded once if the flag is set, and never if it is not. -/
def RecordInv (s : Invite Text) : Prop :=
  s.shared.adds.countP AddPeer.ok = if s.shared.peerRecorded then 1 else 0

/-- What `add_peer` did to the shared state, when it succeeded. -/
theorem perform_addPeer_ok {sh : InviteShared Text} {i answers : ℕ} {remote : PublicKey}
    {peer : Peer} {fault : Option (WriteFault Text)}
    (hadd : (sh.state.addPeer T fault peer).2 = .ok ()) :
    sh.perform T cfg i remote (.addPeer peer fault answers) = { sh with
      state := (sh.state.addPeer T fault peer).1
      peerRecorded := true
      adds := sh.adds ++ [⟨i, peer, answers, true, writes sh.state.inner (.addPeer peer)⟩] } := by
  simp only [InviteShared.perform, hadd, Except.isOk, Except.toBool, Bool.or_true]

/-- What `add_peer` did to the shared state, when it failed. -/
theorem perform_addPeer_error {sh : InviteShared Text} {i answers : ℕ} {remote : PublicKey}
    {peer : Peer} {fault : Option (WriteFault Text)} {e : StateError}
    (hadd : (sh.state.addPeer T fault peer).2 = .error e) :
    sh.perform T cfg i remote (.addPeer peer fault answers) = { sh with
      state := (sh.state.addPeer T fault peer).1
      adds := sh.adds ++ [⟨i, peer, answers, false, writes sh.state.inner (.addPeer peer)⟩] } := by
  simp only [InviteShared.perform, hadd, Except.isOk, Except.toBool, Bool.or_false]

/-- A handler calls `add_peer` only while the flag is not set, and sets it on success. -/
theorem HandlerMove.record {sh : InviteShared Text} {remote : PublicKey} {pc pc' : HandlerPc}
    {ev : HandlerEvent Text} {eff : Effect Text}
    (h : HandlerMove T cfg sh remote ev pc pc' eff) (i : ℕ) :
    ((sh.perform T cfg i remote eff).adds = sh.adds ∧
        (sh.perform T cfg i remote eff).peerRecorded = sh.peerRecorded) ∨
      sh.peerRecorded = false ∧ ∃ a : AddPeer,
        (sh.perform T cfg i remote eff).adds = sh.adds ++ [a] ∧
        (sh.perform T cfg i remote eff).peerRecorded = a.ok := by
  cases h with
  | recorded answers pairedAt lastSeen fault hev hrec hadd =>
    rw [perform_addPeer_ok hadd]
    exact .inr ⟨hrec, _, rfl, rfl⟩
  | recordFailed answers pairedAt lastSeen fault e hev hrec hadd =>
    rw [perform_addPeer_error hadd]
    exact .inr ⟨hrec, _, rfl, hrec⟩
  | finish v =>
    obtain ⟨delay, outcomes, heq⟩ := perform_afterAck T cfg sh i remote v
    rw [heq]
    exact .inl ⟨rfl, rfl⟩
  | _ => exact .inl ⟨rfl, rfl⟩

/-- Nothing the loop does touches the peers recorded, the frames written or the flag. -/
theorem perform_loop_shared (cfg : InviteCfg) (s : Invite Text) (eff : LoopEffect) :
    (s.perform cfg eff).shared.adds = s.shared.adds ∧
      (s.perform cfg eff).shared.peerRecorded = s.shared.peerRecorded ∧
      (s.perform cfg eff).shared.wrote = s.shared.wrote := by
  cases eff with
  | claimAndSpawn remote => simp only [Invite.perform]; split <;> exact ⟨rfl, rfl, rfl⟩
  | sendResult r => simp only [Invite.perform]; split <;> exact ⟨rfl, rfl, rfl⟩
  | _ => exact ⟨rfl, rfl, rfl⟩

theorem RecordInv.conn {s s' : Invite Text} {i : ℕ} {ev : HandlerEvent Text} (h : RecordInv s)
    (hn : s.next T cfg (.conn i ev) = some s') : RecordInv s' := by
  obtain ⟨c, pc, eff, hc, hmove, rfl⟩ := next_conn hn
  simp only [RecordInv] at h ⊢
  rcases hmove.record i with ⟨hadds, hrec⟩ | ⟨hfree, a, hadds, hrec⟩
  · rw [hadds, hrec]; exact h
  · -- the flag was not set, so this is the first call that can have succeeded
    rw [hfree, if_neg (by simp)] at h
    rw [hadds, hrec, List.countP_append, h]
    simp [List.countP_cons]

theorem RecordInv.loop {s s' : Invite Text} {ev : LoopEvent} (h : RecordInv s)
    (hn : s.next T cfg (.loop ev) = some s') : RecordInv s' := by
  obtain ⟨pc, eff, -, -, rfl⟩ := next_loop hn
  obtain ⟨hadds, hrec, -⟩ := perform_loop_shared cfg { s with loop := pc } eff
  simp only [RecordInv, hadds, hrec]
  exact h

theorem recordInv {C : Invite Text → InviteAct Text → Prop} {s : Invite Text}
    (h : Reach (Invite.system T cfg) C s) : RecordInv s := by
  refine Invite.reach_invariant (fun _ _ => rfl) (fun s s' hsame hi => ?_)
    (fun _ _ _ _ hi _ hn => hi.loop hn) (fun _ _ _ _ _ hi _ hn => hi.conn hn) h
  obtain ⟨_, _, _, _, _, rfl⟩ := hsame
  exact hi

/-! ### Confirming -/

/-- Confirmations, written or still to be written, are covered by successful calls; each is on
    the connection of its call. -/
structure ConfirmInv (cfg : InviteCfg) (s : Invite Text) : Prop where
  count : s.shared.wrote.countP Wrote.isConfirm + s.conns.countP (fun c => c.pc.confirming) ≤
    s.shared.adds.countP AddPeer.ok
  pending : ∀ i c, s.conns[i]? = some c → c.pc.confirming = true →
    s.shared.Recorded cfg i c.remote
  written : ∀ w ∈ s.shared.wrote, w.isConfirm = true →
    ∃ c, s.conns[w.conn]? = some c ∧ s.shared.Recorded cfg w.conn c.remote
  waits : ∀ w ∈ s.shared.wrote, w.frame = .pairWait →
    ∃ c, s.conns[w.conn]? = some c ∧ (c.pc.holdsSlot = true ∨ c.pc = .done)

/-- One move: what is confirmed or about to be grows no faster than what is recorded. -/
theorem HandlerMove.confirm_le {sh : InviteShared Text} {remote : PublicKey}
    {pc pc' : HandlerPc} {ev : HandlerEvent Text} {eff : Effect Text}
    (h : HandlerMove T cfg sh remote ev pc pc' eff) (i : ℕ) :
    (sh.perform T cfg i remote eff).wrote.countP Wrote.isConfirm +
        (if pc'.confirming then 1 else 0) + sh.adds.countP AddPeer.ok ≤
      sh.wrote.countP Wrote.isConfirm + (if pc.confirming then 1 else 0) +
        (sh.perform T cfg i remote eff).adds.countP AddPeer.ok := by
  cases h with
  | handshake hs => cases hs <;> exact Nat.le_refl _
  | refuse hr => cases hr <;> exact Nat.le_refl _
  | recorded answers pairedAt lastSeen fault hev hrec hadd =>
    rw [perform_addPeer_ok hadd]
    simp only [HandlerPc.confirming, if_true, Bool.false_eq_true, if_false, List.countP_append,
      List.countP_singleton]
    omega
  | recordFailed answers pairedAt lastSeen fault e hev hrec hadd =>
    rw [perform_addPeer_error hadd]
    simp only [HandlerPc.confirming, Bool.false_eq_true, if_false, List.countP_append,
      List.countP_singleton]
    omega
  | sentWait hok =>
    simp only [InviteShared.perform, List.countP_append]
    exact Nat.le_refl _
  | refused clock =>
    simp only [InviteShared.perform, List.countP_append]
    exact Nat.le_refl _
  | wrote v clock hok =>
    -- the one write that can be a confirmation comes from a handler that owed it
    cases v with
    | confirm =>
      simp only [InviteShared.perform, InviteCfg.frame, HandlerPc.confirming, List.countP_append,
        List.countP_singleton, Wrote.isConfirm, if_true, Bool.false_eq_true, if_false]
      omega
    | deny reason =>
      simp only [InviteShared.perform, List.countP_append]
      exact Nat.le_refl _
  | writeFailed v clock ok hev hno =>
    simp only [InviteShared.perform, HandlerPc.confirming, Bool.false_eq_true, if_false]
    omega
  | finish v =>
    obtain ⟨delay, outcomes, heq⟩ := perform_afterAck T cfg sh i remote v
    rw [heq]
    exact Nat.le_refl _
  | _ => exact Nat.le_refl _

/-- Calls are only ever added. -/
theorem HandlerMove.adds_subset {sh : InviteShared Text} {remote : PublicKey}
    {pc pc' : HandlerPc} {ev : HandlerEvent Text} {eff : Effect Text}
    (h : HandlerMove T cfg sh remote ev pc pc' eff) (i : ℕ) :
    sh.adds ⊆ (sh.perform T cfg i remote eff).adds := by
  rcases h.record i with ⟨hadds, -⟩ | ⟨-, a, hadds, -⟩
  · rw [hadds]; exact List.Subset.refl _
  · rw [hadds]; exact List.subset_append_left _ _

theorem InviteShared.Recorded.mono {sh sh' : InviteShared Text} {i : ℕ} {remote : PublicKey}
    (hsub : sh.adds ⊆ sh'.adds) (h : sh.Recorded cfg i remote) : sh'.Recorded cfg i remote := by
  obtain ⟨a, ha, hprop⟩ := h
  exact ⟨a, hsub ha, hprop⟩

/-- A handler owes a confirmation only after its own successful call. -/
theorem HandlerMove.confirming {sh : InviteShared Text} {remote : PublicKey}
    {pc pc' : HandlerPc} {ev : HandlerEvent Text} {eff : Effect Text}
    (h : HandlerMove T cfg sh remote ev pc pc' eff)
    {i : ℕ} (hpc' : pc'.confirming = true)
    (hbefore : pc.confirming = true → sh.Recorded cfg i remote) :
    (sh.perform T cfg i remote eff).Recorded cfg i remote := by
  cases h with
  | recorded answers pairedAt lastSeen fault hev hrec hadd =>
    rw [perform_addPeer_ok hadd]
    exact ⟨_, List.mem_append_right _ (List.mem_singleton.mpr rfl), rfl, rfl, rfl, rfl⟩
  | resetDelay => exact hbefore rfl
  | handshake hs => cases hs <;> exact absurd hpc' (by simp [HandlerPc.confirming])
  | refuse hr => cases hr <;> exact absurd hpc' (by simp [HandlerPc.confirming])
  | _ => exact absurd hpc' (by simp [HandlerPc.confirming])

/-- What a move can write: `PAIR_WAIT` while holding the slot, a confirmation that was owed, or
    a denial. -/
theorem HandlerMove.wrote_new {sh : InviteShared Text} {remote : PublicKey} {pc pc' : HandlerPc}
    {ev : HandlerEvent Text} {eff : Effect Text}
    (h : HandlerMove T cfg sh remote ev pc pc' eff) {i : ℕ} {w : Wrote}
    (hw : w ∈ (sh.perform T cfg i remote eff).wrote) :
    w ∈ sh.wrote ∨ w.conn = i ∧ (w.isConfirm = true → pc.confirming = true) ∧
      (w.frame = .pairWait → pc'.holdsSlot = true) := by
  have hnew : ∀ f : PairingFrame, eff = .write f → w ∈ sh.wrote ∨ w = ⟨i, f⟩ := by
    rintro f rfl
    simpa [InviteShared.perform] using hw
  cases h with
  | sentWait hok =>
    refine (hnew _ rfl).imp id ?_
    rintro rfl
    exact ⟨rfl, by simp [Wrote.isConfirm], fun _ => rfl⟩
  | wrote v clock hok =>
    refine (hnew _ rfl).imp id ?_
    rintro rfl
    cases v with
    | confirm => exact ⟨rfl, fun _ => rfl, fun _ => rfl⟩
    | deny reason => exact ⟨rfl, by simp [Wrote.isConfirm, InviteCfg.frame], fun _ => rfl⟩
  | refused clock =>
    refine (hnew _ rfl).imp id ?_
    rintro rfl
    exact ⟨rfl, by simp [Wrote.isConfirm], by simp⟩
  | finish v =>
    obtain ⟨delay, outcomes, heq⟩ := perform_afterAck T cfg sh i remote v
    rw [heq] at hw
    exact .inl hw
  | _ => exact .inl hw

/-- A handler that holds the slot keeps it or is done. -/
theorem HandlerMove.holdsSlot_or_done {sh : InviteShared Text} {remote : PublicKey}
    {pc pc' : HandlerPc} {ev : HandlerEvent Text} {eff : Effect Text}
    (h : HandlerMove T cfg sh remote ev pc pc' eff)
    (hpc : pc.holdsSlot = true ∨ pc = .done) : pc'.holdsSlot = true ∨ pc' = .done := by
  rcases hpc with hpc | rfl
  · rcases h.slot 0 with ⟨-, hdone, -⟩ | ⟨hkeep, -⟩
    · exact .inr hdone
    · exact .inl (hkeep.trans hpc)
  · -- a task that is done does not move
    generalize hd : HandlerPc.done = pc at h
    cases h with
    | handshake hs => cases hs <;> exact absurd hd (by simp)
    | refuse hr => cases hr <;> exact absurd hd (by simp)
    | _ => exact absurd hd (by simp)

theorem ConfirmInv.conn {s s' : Invite Text} {i : ℕ} {ev : HandlerEvent Text}
    (h : ConfirmInv cfg s) (hn : s.next T cfg (.conn i ev) = some s') : ConfirmInv cfg s' := by
  obtain ⟨c, pc, eff, hc, hmove, rfl⟩ := next_conn hn
  have hsub := hmove.adds_subset i
  refine ⟨?_, ?_, ?_, ?_⟩
  · -- `confirm_le` compares the sums of the two states; the other handlers cancel out
    have hle := hmove.confirm_le i
    have hset := countP_set_add (fun c : PairConn => c.pc.confirming) (b := { c with pc }) hc
    have hcount := h.count
    simp only at hset ⊢
    omega
  · intro j d hd hconf
    rcases getElem?_set_cases hd with ⟨rfl, rfl⟩ | ⟨-, hd⟩
    · exact hmove.confirming hconf (h.pending i c hc)
    · exact (h.pending j d hd hconf).mono hsub
  · intro w hw hconf
    rcases hmove.wrote_new hw with hold | ⟨hconn, howed, -⟩
    · obtain ⟨d, hd, hrec⟩ := h.written w hold hconf
      obtain ⟨d', hd', hremote, -⟩ := getElem?_set_remote pc hc hd
      exact ⟨d', hd', by rw [hremote]; exact hrec.mono hsub⟩
    · -- written just now, by a handler that owed it
      obtain ⟨d', hd', hremote, -⟩ := getElem?_set_remote pc hc hc
      rw [hconn]
      exact ⟨d', hd', by rw [hremote]; exact (h.pending i c hc (howed hconf)).mono hsub⟩
  · intro w hw hwait
    rcases hmove.wrote_new hw with hold | ⟨hconn, -, hslot⟩
    · obtain ⟨d, hd, hpos⟩ := h.waits w hold hwait
      obtain ⟨d', hd', -, ⟨-, rfl, hpc⟩ | ⟨-, rfl⟩⟩ := getElem?_set_remote pc hc hd
      · exact ⟨d', hd', by rw [hpc]; exact hmove.holdsSlot_or_done hpos⟩
      · exact ⟨d', hd', hpos⟩
    · obtain ⟨d', hd', -, ⟨-, -, hpc⟩ | ⟨hne, -⟩⟩ := getElem?_set_remote pc hc hc
      · rw [hconn]
        exact ⟨d', hd', .inl (by rw [hpc]; exact hslot hwait)⟩
      · exact absurd rfl hne

theorem ConfirmInv.loop {s s' : Invite Text} {ev : LoopEvent} (h : ConfirmInv cfg s)
    (hn : s.next T cfg (.loop ev) = some s') : ConfirmInv cfg s' := by
  obtain ⟨pc, eff, -, -, rfl⟩ := next_loop hn
  obtain ⟨hadds, -, hwrote⟩ := perform_loop_shared cfg { s with loop := pc } eff
  have hsub : s.shared.adds ⊆ (Invite.perform cfg { s with loop := pc } eff).shared.adds := by
    rw [hadds]; exact List.Subset.refl _
  refine ⟨?_, ?_, ?_, ?_⟩
  · rw [hadds, hwrote, countP_perform cfg (p := HandlerPc.confirming) (fun _ _ => rfl) rfl rfl]
    exact h.count
  · intro i d hd hconf
    rcases perform_conns_get hd with ⟨c, hc, rfl | rfl⟩ | ⟨-, -, hnew⟩
    · exact (h.pending i d hc hconf).mono hsub
    · rw [PairConn.wake_congr (f := HandlerPc.confirming) (fun _ _ => rfl)] at hconf
      rw [PairConn.wake_remote]
      exact (h.pending i c hc hconf).mono hsub
    · -- a new handler owes nothing
      rcases hnew with hpc | hpc <;> exact absurd hconf (by rw [hpc]; simp [HandlerPc.confirming])
  · intro w hw hconf
    rw [hwrote] at hw
    obtain ⟨c, hc, hrec⟩ := h.written w hw hconf
    obtain ⟨c', hc', hremote, -⟩ := perform_conns_keep cfg { s with loop := pc } eff hc
    exact ⟨c', hc', by rw [hremote]; exact hrec.mono hsub⟩
  · intro w hw hwait
    rw [hwrote] at hw
    obtain ⟨c, hc, hpos⟩ := h.waits w hw hwait
    obtain ⟨c', hc', -, hkeep⟩ := perform_conns_keep cfg { s with loop := pc } eff hc
    exact ⟨c', hc', hkeep (fun pc => pc.holdsSlot = true ∨ pc = .done)
      (by simp [HandlerPc.FlagBlind, HandlerPc.holdsSlot]) hpos⟩

theorem confirmInv {C : Invite Text → InviteAct Text → Prop} {s : Invite Text}
    (h : Reach (Invite.system T cfg) C s) : ConfirmInv cfg s := by
  refine Invite.reach_invariant (fun state clock => ?_) (fun s s' hsame hi => ?_)
    (fun _ _ _ _ hi _ hn => hi.loop hn) (fun _ _ _ _ _ hi _ hn => hi.conn hn) h
  · exact ⟨Nat.le_refl _, by simp [Invite.start], by simp [Invite.start], by simp [Invite.start]⟩
  · obtain ⟨_, _, _, _, _, rfl⟩ := hsame
    exact ⟨hi.count, hi.pending, hi.written, hi.waits⟩

/-! ### Every run -/

/-- **Single use.** In every state of every run of an invite, with any connections, decisions,
    disconnects, timeouts, expiry and any other use of the store: at most one connection holds
    the pair slot, so at most one client has been sent `PAIR_WAIT` and is not resolved;
    `add_peer` has succeeded at most once; and at most one `PAIR_CONFIRM` has been written, on a
    connection whose own `add_peer` recorded its node id under the invite's name. -/
theorem invite_single_use (T : Toml PersistedState Text) (cfg : InviteCfg) {s : Invite Text}
    (h : Reach (Invite.system T cfg) anyStep s) :
    (∀ i j, s.HoldsSlot i → s.HoldsSlot j → i = j) ∧
      (∀ i j, s.AwaitsVerdict i → s.AwaitsVerdict j → i = j) ∧
      s.shared.adds.countP AddPeer.ok ≤ 1 ∧
      s.shared.wrote.countP Wrote.isConfirm ≤ 1 ∧
      ∀ w ∈ s.shared.wrote, w.isConfirm = true →
        ∃ c, s.conns[w.conn]? = some c ∧ s.shared.Recorded cfg w.conn c.remote := by
  have hslot := slotInv h
  have hconf := confirmInv h
  have hadds : s.shared.adds.countP AddPeer.ok ≤ 1 := by
    rw [recordInv h]
    split <;> omega
  -- a client that was sent `PAIR_WAIT` belongs to a handler in the slot, or one that is done
  have hawait : ∀ i, s.AwaitsVerdict i → s.HoldsSlot i := by
    rintro i ⟨hw, c, hc, hnd⟩
    obtain ⟨d, hd, hpos⟩ := hconf.waits _ hw rfl
    have hcd : d = c := Option.some.inj (hd.symm.trans hc)
    exact ⟨c, hc, (hcd ▸ hpos).resolve_right hnd⟩
  refine ⟨fun i j hi hj => hslot.unique hi hj,
    fun i j hi hj => hslot.unique (hawait i hi) (hawait j hj), hadds, ?_, hconf.written⟩
  have hle := hconf.count
  omega

/-! ### A pairing, step by step -/

/-- An invite for `laptop` with 900 s to live, on the golden vectors' third node. -/
def laptopInvite : InviteCfg where
  inviteId := "00112233445566778899aabbccddeeff"
  name := "laptop"
  code := "academy academy academy siren alibi"
  serverNodeId := vectorKey2
  deadline := 900 * 1000
  toVec := PairingFrame.json

/-- The loop, at the top of `select!`, takes in a connection of `remote`. -/
def takeConn (remote : PublicKey) : List (InviteAct PersistedState) :=
  [.loop .go, .loop .go, .loop .go, .loop .incoming, .tick 500, .loop .go,
   .loop (.handshake (some remote)), .loop .go, .loop .go]

/-- Connection `i` goes through its handshake up to waiting for the admin. -/
def reachPrompt (i : ℕ) : List (InviteAct PersistedState) :=
  [.conn i (.acceptBi true), .conn i (.frame (.ok (typeVersion, .version 1))),
   .conn i (.frame (.ok (typePairHello, .pairHello "0.1.0"))), .conn i .go,
   .conn i (.write true), .conn i .go, .conn i .go]

/-- The admin answers event `k`, and the loop, at the top of `select!`, applies it. -/
def answerPrompt (k : ℕ) (accept : Bool) : List (InviteAct PersistedState) :=
  [.request ⟨accept, k⟩, .dispatch 0, .loop .go, .loop .go, .loop .go, .loop .go]

/-- Connection `i`, woken, reads an accept, records its client and confirms. -/
def recordAndConfirm (i : ℕ) : List (InviteAct PersistedState) :=
  [.conn i .go, .conn i .go, .conn i (.record "t" "t" none), .conn i .go, .conn i (.write true),
   .conn i .acked, .conn i .go, .conn i .go]

/-- A client connects, the admin accepts, the client is recorded and confirmed. -/
def pairedRun : List (InviteAct PersistedState) :=
  .loop (.build true) :: takeConn vectorKey0 ++ reachPrompt 0 ++ answerPrompt 0 true ++
    recordAndConfirm 0

/-- In the run of `pairedRun` everything the theorem bounds by one does happen once. -/
theorem invite_single_use_paired : ∃ s, Reach (Invite.system (.self PersistedState) laptopInvite)
    anyStep s ∧ s.shared.adds.countP AddPeer.ok = 1 ∧
      s.shared.wrote.countP Wrote.isConfirm = 1 ∧
      ∃ c, s.conns[0]? = some c ∧ s.shared.Recorded laptopInvite 0 c.remote := by
  have hrun : (exec (Invite.system (.self PersistedState) laptopInvite) (fun _ _ => true)
      (.start .fresh 0) pairedRun).map (fun s => (s.shared.adds.countP AddPeer.ok,
        s.shared.wrote.filter Wrote.isConfirm)) = some (1, [⟨0, laptopInvite.frame .confirm⟩]) := by
    decide +kernel
  obtain ⟨s, hr, hs⟩ := reach_of_exec_map (fun _ _ _ => trivial) hrun (.init ⟨.fresh, 0, rfl⟩)
  obtain ⟨hadds, hwrote⟩ := Prod.mk.inj hs
  have hmem : (⟨0, laptopInvite.frame .confirm⟩ : Wrote) ∈
      s.shared.wrote.filter Wrote.isConfirm := by
    rw [hwrote]; exact List.mem_singleton.mpr rfl
  obtain ⟨hmem, hconf⟩ := List.mem_filter.mp hmem
  refine ⟨s, hr, hadds, by rw [List.countP_eq_length_filter, hwrote]; rfl, ?_⟩
  exact (invite_single_use (.self PersistedState) laptopInvite hr).2.2.2.2 _ hmem hconf

end Tmite.Daemon
