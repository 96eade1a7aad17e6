import Tmite.Pairing.Agreement

namespace Tmite.Pairing

open Tmite.Core Tmite.Proto Tmite.Client Tmite.Daemon Transition TaskList

/-!
# Denials, seen from the client

The server denies a client at several points: a busy slot and a taken name before `PAIR_WAIT`,
everything else after it.  The client reads the first frame with `expect_frame` and only the
second as a verdict, so it recognises a denial exactly if `PAIR_WAIT` came before it.  The
frames of a connection (`WrittenAt`) are followed with and without early denials, by one
invariant with a flag.
-/

universe v w
variable {Text : Type v} {ClientText : Type w} {T : Toml PersistedState Text} {cfg : InviteCfg}

/-! ### When a client is denied before it is told to wait -/

/-- A connection is taken in while the slot is free, and its name check finds the name free. -/
def SlotAndNameFree (cfg : InviteCfg) (s : Invite Text) : InviteAct Text → Prop
  | .loop _ => ∀ remote, s.loop = .claim remote → s.shared.pairBusy = false
  | .conn i _ => ∀ c, s.conns[i]? = some c → c.pc = .checkName →
      s.shared.state.isNameFree cfg.name = true
  | _ => True

instance (cfg : InviteCfg) (s : Invite Text) (a : InviteAct Text) :
    Decidable (SlotAndNameFree cfg s a) :=
  match a with
  | .loop _ => decidableOfGet LoopPc.claimant_eq_some s.loop fun _ => s.shared.pairBusy = false
  | .conn i _ =>
    inferInstanceAs (Decidable (∀ c ∈ s.conns[i]?, c.pc = .checkName →
      s.shared.state.isNameFree cfg.name = true))
  | .tick _ | .store _ | .request _ | .dispatch _ => inferInstanceAs (Decidable True)

/-! ### The frames of a connection -/

/-- What a connection past its verdict has been sent; `early` allows a denial before
    `PAIR_WAIT`. -/
def Told (cfg : InviteCfg) (early : Bool) (frames : List PairingFrame) : Prop :=
  frames = [] ∨ frames = [.pairWait] ∨ (∃ v, frames = [.pairWait, cfg.frame v]) ∨
    early = true ∧ ∃ r, frames = [.pairDeny r]

/-- The frames that have been written when a handler is at `pc`. -/
def WrittenAt (cfg : InviteCfg) (early : Bool) (frames : List PairingFrame) : HandlerPc → Prop
  | .acceptBi => frames = []
  | .readVersion => frames = []
  | .readHello => frames = []
  | .checkName => frames = []
  | .sendWait => frames = []
  | .emit => frames = [.pairWait]
  | .select => frames = [.pairWait]
  | .waiting _ _ => frames = [.pairWait]
  | .readDecision => frames = [.pairWait]
  | .record _ => frames = [.pairWait]
  | .resetDelay => frames = [.pairWait]
  | .verdict v => frames = [.pairWait] ∨ early = true ∧ frames = [] ∧ ∃ r, v = .deny r
  | .busyAcceptBi => early = true ∧ frames = []
  | .busySend => early = true ∧ frames = []
  | _ => Told cfg early frames

/-- The frames of a connection follow its handler, if its name check may fail only where early
    denials are allowed. -/
theorem writtenAt_move {early : Bool} {sh : InviteShared Text} {remote : PublicKey}
    {ev : HandlerEvent Text} {pc pc' : HandlerPc} {eff : Effect Text}
    (h : HandlerMove T cfg sh remote ev pc pc' eff)
    (hname : pc = .checkName → pc' = .sendWait ∨ early = true) {frames : List PairingFrame}
    (hf : WrittenAt cfg early frames pc) :
    WrittenAt cfg early (frames ++ effectFrames eff) pc' := by
  cases h with
  | handshake hs =>
    cases hs with
    | nameTaken =>
      rcases hname rfl with habs | hearly
      · exact absurd habs (by simp)
      · rw [show frames = [] from hf]
        exact .inr ⟨hearly, rfl, _, rfl⟩
    | acceptBi | version | hello | nameFree => rw [show frames = [] from hf]; rfl
    | acceptBiFailed | versionRejected | helloRejected =>
      rw [show frames = [] from hf]
      exact .inl rfl
  | sentWait hok => rw [show frames = [] from hf]; rfl
  | sendWaitFailed => rw [show frames = [] from hf]; exact .inl rfl
  -- from `PAIR_WAIT` up to the verdict nothing else is written
  | emit | listen | woken | approved | noDecision | recorded =>
    rw [show frames = [.pairWait] from hf]
    rfl
  | timedOut | denied | alreadyRecorded | recordFailed | resetDelay =>
    rw [show frames = [.pairWait] from hf]
    exact .inl rfl
  | gone w since => rw [show frames = [.pairWait] from hf]; exact .inr (.inl rfl)
  | wrote v clock hok =>
    rcases hf with hwait | ⟨hearly, hnone, r, rfl⟩
    · rw [hwait]
      exact .inr (.inr (.inl ⟨v, rfl⟩))
    · rw [hnone]
      exact .inr (.inr (.inr ⟨hearly, r, rfl⟩))
  | writeFailed v clock ok hev hno =>
    rw [show effectFrames (Effect.none : Effect Text) = [] from rfl, List.append_nil]
    rcases hf with hwait | ⟨-, hnone, -⟩
    · exact .inr (.inl hwait)
    · exact .inl hnone
  | acked v since =>
    rw [show effectFrames (Effect.none : Effect Text) = [] from rfl, List.append_nil]
    exact hf
  | finish v =>
    have hnone : effectFrames (afterAck remote v : Effect Text) = [] := by
      cases v with
      | confirm => rfl
      | deny reason => cases reason <;> rfl
    rw [hnone, List.append_nil]
    exact hf
  | reject =>
    rw [show effectFrames (Effect.escalate : Effect Text) = [] from rfl, List.append_nil]
    exact hf
  | release =>
    rw [show effectFrames (Effect.releaseSlot : Effect Text) = [] from rfl, List.append_nil]
    exact hf
  | refuse hr =>
    rw [show effectFrames (Effect.none : Effect Text) = [] from rfl, List.append_nil]
    cases hr with
    | acceptBi => exact hf
    | acceptBiFailed => exact .inl hf.2
    | writeFailed clock => exact .inl hf.2
    | acked since => exact hf
  | refused clock =>
    obtain ⟨hearly, hnone⟩ := hf
    rw [hnone]
    exact .inr (.inr (.inr ⟨hearly, _, rfl⟩))

/-- The name check, step by step. -/
theorem handlerNext_checkName {clock : ℕ} {sh : InviteShared Text} {remote : PublicKey}
    {ev : HandlerEvent Text} {pc' : HandlerPc} {eff : Effect Text}
    (h : handlerNext T cfg clock sh remote .checkName ev = some (pc', eff))
    (hfree : sh.state.isNameFree cfg.name = true) : pc' = .sendWait := by
  cases ev with
  | go =>
    simp only [handlerNext, hfree, if_true, Option.some.injEq, Prod.mk.injEq] at h
    exact h.1.symm
  | _ => exact absurd h (by simp [handlerNext])

/-- A connection that was not there before a loop step has been taken in by it, into the slot if
    that was free. -/
theorem perform_conns_new {s : Invite Text} {eff : LoopEffect} {i : ℕ} {d : PairConn}
    (h : (s.perform cfg eff).conns[i]? = some d) (hi : s.conns[i]? = none) :
    eff = .claimAndSpawn d.remote ∧
      d.pc = if s.shared.pairBusy then .busyAcceptBi else .acceptBi := by
  cases eff with
  | notifyWaiters =>
    simp only [Invite.perform, List.getElem?_map, hi, Option.map_none] at h
    exact absurd h (by simp)
  | claimAndSpawn remote =>
    -- the new connection is the last one, refused or handled
    simp only [Invite.perform] at h
    split at h
    · rename_i hbusy
      rcases getElem?_concat_cases h with hold | ⟨-, rfl⟩
      · rw [hi] at hold
        exact absurd hold (by simp)
      · exact ⟨rfl, by rw [if_pos hbusy]⟩
    · rename_i hbusy
      rcases getElem?_concat_cases h with hold | ⟨-, rfl⟩
      · rw [hi] at hold
        exact absurd hold (by simp)
      · exact ⟨rfl, by rw [if_neg hbusy]⟩
  | sendResult r =>
    simp only [Invite.perform] at h
    split at h <;> rw [hi] at h <;> exact absurd h (by simp)
  | _ =>
    simp only [Invite.perform, hi] at h
    exact absurd h (by simp)

/-! ### The invariant -/

/-- The frames of every connection follow its handler. -/
structure DenialInv (cfg : InviteCfg) (early : Bool) (s : Invite Text) : Prop where
  frames : ∀ i c, s.conns[i]? = some c → WrittenAt cfg early (framesOn s.shared i) c.pc
  unspawned : ∀ i, s.conns[i]? = none → framesOn s.shared i = []

theorem DenialInv.conn {early : Bool} {s s' : Invite Text} {i : ℕ} {ev : HandlerEvent Text}
    (h : DenialInv cfg early s) (hC : SlotAndNameFree cfg s (.conn i ev) ∨ early = true)
    (hn : s.next T cfg (.conn i ev) = some s') : DenialInv cfg early s' := by
  obtain ⟨c, hc, hn⟩ := Option.bind_eq_some_iff.mp hn
  obtain ⟨⟨pc, eff⟩, hstep, rfl⟩ := Option.map_eq_some_iff.mp hn
  have hname : c.pc = .checkName → pc = .sendWait ∨ early = true := by
    intro hpc
    rcases hC with hfree | hearly
    · rw [hpc] at hstep
      exact .inl (handlerNext_checkName hstep (hfree c hc hpc))
    · exact .inr hearly
  refine ⟨?_, ?_⟩
  · -- what the handler writes, it writes on its own connection
    intro j d hd
    simp only [framesOn_perform]
    rcases getElem?_set_cases hd with ⟨rfl, rfl⟩ | ⟨hne, hd⟩
    · rw [if_pos rfl]
      exact writtenAt_move (handlerNext_move hstep) hname (h.frames i c hc)
    · rw [if_neg hne, List.append_nil]
      exact h.frames j d hd
  · intro j hj
    have hne : i ≠ j := by
      rintro rfl
      obtain ⟨hlt, -⟩ := List.getElem?_eq_some_iff.mp hc
      simp [hlt] at hj
    simp only [framesOn_perform]
    rw [if_neg hne, List.append_nil]
    rw [List.getElem?_set_ne hne] at hj
    exact h.unspawned j hj

theorem DenialInv.loop {early : Bool} {s s' : Invite Text} {ev : LoopEvent}
    (h : DenialInv cfg early s) (hC : SlotAndNameFree cfg s (.loop ev) ∨ early = true)
    (hn : s.next T cfg (.loop ev) = some s') : DenialInv cfg early s' := by
  obtain ⟨pc, eff, -, hmove, rfl⟩ := next_loop hn
  obtain ⟨-, -, hwrote⟩ := perform_loop_shared cfg { s with loop := pc } eff
  have hframes : ∀ j, framesOn (Invite.perform cfg { s with loop := pc } eff).shared j
      = framesOn s.shared j := by
    intro j
    simp only [framesOn, hwrote]
  refine ⟨?_, ?_⟩
  · intro j d hd
    rw [hframes]
    cases hold : s.conns[j]? with
    | some c =>
      rcases perform_conns_get hd with ⟨c', hc', rfl | rfl⟩ | ⟨hj, -, -⟩
      · exact h.frames j d hc'
      · rw [PairConn.wake_congr (f := WrittenAt cfg early (framesOn s.shared j))
          (fun _ _ => rfl)]
        exact h.frames j c' hc'
      · rw [hj] at hold
        simp at hold
    | none =>
      obtain ⟨heff, hpc⟩ := perform_conns_new hd hold
      rw [h.unspawned j hold, hpc]
      -- a connection refused at once is one of the early denials
      split
      · rename_i hbusy
        rcases hC with hfree | hearly
        · rw [heff] at hmove
          rw [hfree _ hmove.at_claim] at hbusy
          exact absurd hbusy (by simp)
        · exact ⟨hearly, rfl⟩
      · rfl
  · intro j hj
    rw [hframes]
    refine h.unspawned j ?_
    by_contra hsome
    obtain ⟨c, hc⟩ := Option.ne_none_iff_exists'.mp hsome
    obtain ⟨c', hc', -⟩ := perform_conns_keep cfg { s with loop := pc } eff hc
    rw [hj] at hc'
    exact absurd hc' (by simp)

theorem denialInv {early : Bool} {C : Invite Text → InviteAct Text → Prop}
    (hC : ∀ s a, C s a → SlotAndNameFree cfg s a ∨ early = true) {s : Invite Text}
    (h : Reach (Invite.system T cfg) C s) : DenialInv cfg early s := by
  refine Invite.reach_invariant (fun state clock => ?_) (fun s s' hsame hi => ?_)
    (fun _ _ _ _ hi hc hn => hi.loop (hC _ _ hc) hn)
    (fun _ _ _ _ _ hi hc hn => hi.conn (hC _ _ hc) hn) h
  · exact ⟨by simp [Invite.start], fun _ _ => rfl⟩
  · obtain ⟨_, _, _, _, _, rfl⟩ := hsame
    exact ⟨hi.frames, hi.unspawned⟩

/-- Whatever a handler is doing, its connection has been sent one of these. -/
theorem WrittenAt.told {early : Bool} {frames : List PairingFrame} {pc : HandlerPc}
    (h : WrittenAt cfg early frames pc) : Told cfg early frames := by
  cases pc with
  | acceptBi | readVersion | readHello | checkName | sendWait => exact .inl h
  | emit | select | waiting | readDecision | record | resetDelay => exact .inr (.inl h)
  | verdict v => exact h.elim (fun h => .inr (.inl h)) (fun h => .inl h.2.1)
  | busyAcceptBi | busySend => exact .inl h.2
  | ackWait | finish | reject | release | busyAck | done => exact h

/-- A connection on which a denial was written was sent that and nothing else, or `PAIR_WAIT`
    before it. -/
theorem DenialInv.deny {early : Bool} {s : Invite Text} (h : DenialInv cfg early s) {i : ℕ}
    {r : PairDenyReason} (hw : ⟨i, .pairDeny r⟩ ∈ s.shared.wrote) :
    framesOn s.shared i = [.pairWait, .pairDeny r] ∨
      early = true ∧ framesOn s.shared i = [.pairDeny r] := by
  have hmem : .pairDeny r ∈ framesOn s.shared i := mem_framesOn.mpr hw
  have htold : Told cfg early (framesOn s.shared i) := by
    cases hc : s.conns[i]? with
    | none => exact .inl (h.unspawned i hc)
    | some c => exact (h.frames i c hc).told
  -- nothing, `PAIR_WAIT`, `PAIR_WAIT` and a verdict, or an early denial
  rcases htold with hf | hf | ⟨v, hf⟩ | ⟨hearly, r', hf⟩
  · rw [hf] at hmem
    exact absurd hmem (by simp)
  · rw [hf] at hmem
    exact absurd hmem (by simp)
  · cases v with
    | confirm =>
      rw [hf] at hmem
      exact absurd hmem (by simp [InviteCfg.frame])
    | deny r' =>
      rw [hf] at hmem
      have hr : r = r' := by simpa [InviteCfg.frame] using hmem
      exact .inl (by rw [hf, hr]; rfl)
  · rw [hf] at hmem
    have hr : r = r' := by simpa using hmem
    exact .inr ⟨hearly, by rw [hf, hr]⟩

/-! ### What the client makes of it -/

section Client

variable (TC : Toml ClientStore ClientText) (fromBytes : Bytes32 → Option PublicKey)
  (params : PairParams) (pairedAt : String) (disk : Files ClientText) (r : PairDenyReason)

/-- A denial after `PAIR_WAIT` is the verdict. -/
theorem run_denied :
    run TC fromBytes params (delivered [.pairWait, .pairDeny r] pairedAt) disk =
      (disk, .error (.denied r)) := rfl

/-- A denial in its place is an unexpected type byte. -/
theorem run_denied_early :
    run TC fromBytes params (delivered [.pairDeny r] pairedAt) disk =
      (disk, .error (.protocol "unexpected message type 0x05")) := by
  have hexpect : expectFrame typePairWait (received [.pairDeny r] 0) =
      .error (.frame (.unexpectedType typePairDeny)) := rfl
  have htext : PairError.ofFrame (.frame (.unexpectedType typePairDeny)) =
      .protocol "unexpected message type 0x05" := by decide
  simp only [run, delivered, hexpect, htext]

end Client

/-- **Denials reach the client.** In every run in which connections are taken in while the slot
    is free and name checks find the name free, a client that was sent `PAIR_DENY` ends with
    that denial; and in any run it does so exactly if it was sent `PAIR_WAIT` first. -/
theorem denial_reaches_client (T : Toml PersistedState Text) (cfg : InviteCfg)
    (TC : Toml ClientStore ClientText) (fromBytes : Bytes32 → Option PublicKey)
    (params : PairParams) (pairedAt : String) (disk : Files ClientText) :
    (∀ s, Reach (Invite.system T cfg) (SlotAndNameFree cfg) s →
      ∀ i r, ⟨i, .pairDeny r⟩ ∈ s.shared.wrote →
        (run TC fromBytes params (delivered (framesOn s.shared i) pairedAt) disk).2 =
          .error (.denied r)) ∧
    ∀ s, Reach (Invite.system T cfg) anyStep s → ∀ i r, ⟨i, .pairDeny r⟩ ∈ s.shared.wrote →
      ((run TC fromBytes params (delivered (framesOn s.shared i) pairedAt) disk).2 =
          .error (.denied r) ↔ ⟨i, .pairWait⟩ ∈ s.shared.wrote) := by
  refine ⟨?_, ?_⟩
  · -- under the condition there are no early denials
    intro s h i r hw
    have hinv : DenialInv cfg false s := denialInv (fun _ _ hc => .inl hc) h
    rcases hinv.deny hw with hf | ⟨habs, -⟩
    · rw [hf, run_denied]
    · exact absurd habs (by simp)
  · intro s h i r hw
    have hinv : DenialInv cfg true s := denialInv (fun _ _ _ => .inr rfl) h
    rw [← mem_framesOn]
    rcases hinv.deny hw with hf | ⟨-, hf⟩
    · rw [hf, run_denied]
      simp
    · rw [hf, run_denied_early]
      simp

/-- A client waits, the admin rejects it, and it is told. -/
def rejectedRun : List (InviteAct PersistedState) :=
  .loop (.build true) :: takeConn vectorKey0 ++ reachPrompt 0 ++ answerPrompt 0 false ++
    [.conn 0 .go, .conn 0 .go, .conn 0 (.write true)]

/-- The rejected client ends with that denial. -/
theorem denial_reaches_rejected : ∃ s,
    Reach (Invite.system (.self PersistedState) laptopInvite) (SlotAndNameFree laptopInvite) s ∧
      ⟨0, .pairDeny .adminDenied⟩ ∈ s.shared.wrote ∧
      (run (.self ClientStore) (fun bytes => some ⟨bytes⟩) ⟨none⟩
        (delivered (framesOn s.shared 0) "t") .empty).2 = .error (.denied .adminDenied) := by
  have hrun : (exec (Invite.system (.self PersistedState) laptopInvite)
      (fun s a => decide (SlotAndNameFree laptopInvite s a)) (.start .fresh 0) rejectedRun).map
        (fun s => s.shared.wrote) = some [⟨0, .pairWait⟩, ⟨0, .pairDeny .adminDenied⟩] := by
    decide +kernel
  obtain ⟨s, hr, hwrote⟩ :=
    reach_of_exec_map (fun _ _ => of_decide_eq_true) hrun (.init ⟨.fresh, 0, rfl⟩)
  have hw : ⟨0, .pairDeny .adminDenied⟩ ∈ s.shared.wrote := by
    rw [hwrote]
    simp
  exact ⟨s, hr, hw, (denial_reaches_client (.self PersistedState) laptopInvite (.self ClientStore)
    (fun bytes => some ⟨bytes⟩) ⟨none⟩ "t" .empty).1 s hr 0 _ hw⟩

/-- A second client connects while the first is still in its handshake, and is refused. -/
def busyRun : List (InviteAct PersistedState) :=
  .loop (.build true) :: takeConn vectorKey0 ++ takeConn vectorKey1 ++
    [.conn 1 (.acceptBi true), .conn 1 (.write true)]

/-- The second client is sent `PAIR_DENY` and reports a protocol error. -/
theorem busy_denial_misread : ∃ s,
    Reach (Invite.system (.self PersistedState) laptopInvite) anyStep s ∧
      ⟨1, .pairDeny .busy⟩ ∈ s.shared.wrote ∧
      (run (.self ClientStore) (fun bytes => some ⟨bytes⟩) ⟨none⟩
          (delivered (framesOn s.shared 1) "t") .empty).2 =
        .error (.protocol "unexpected message type 0x05") ∧
      (run (.self ClientStore) (fun bytes => some ⟨bytes⟩) ⟨none⟩
          (delivered (framesOn s.shared 1) "t") .empty).2 ≠ .error (.denied .busy) := by
  have hrun : (exec (Invite.system (.self PersistedState) laptopInvite) (fun _ _ => true)
      (.start .fresh 0) busyRun).map (fun s => s.shared.wrote) =
        some [⟨1, .pairDeny .busy⟩] := by
    decide +kernel
  obtain ⟨s, hr, hwrote⟩ := reach_of_exec_map (fun _ _ _ => trivial) hrun (.init ⟨.fresh, 0, rfl⟩)
  have hframes : framesOn s.shared 1 = [.pairDeny .busy] := by
    rw [framesOn, hwrote]
    rfl
  refine ⟨s, hr, ?_, ?_, ?_⟩
  · rw [hwrote]
    simp
  · rw [hframes, run_denied_early]
  · rw [hframes, run_denied_early]
    simp

end Tmite.Pairing
