import Tmite.Daemon.InviteApproval

namespace Tmite.Daemon

open Tmite.Core Tmite.Proto Transition TaskList

/-!
# The result of an invite and the peer table

The loop decides the result of an invite on its own: from a queued outcome, a denial, the
deadline, or an endpoint that is gone.  The peer table is changed by a handler, which reports
its outcome only after it has waited up to five seconds for the client's ack.  The two agree as
long as the loop does not give up while a handler is approved or can still read an accept
(`InFlight`), and as long as `add_peer` does not fail after it has changed memory:
`NoLateApproval` and `result_agrees`.

`loop_can_finish` says that the loop is never stuck: whatever the handlers do, its own steps
and the clock take it to its end, where exactly one result has been sent.
-/

universe v
variable {Text : Type v} {T : Toml PersistedState Text} {cfg : InviteCfg}

/-! ### The condition -/

/-- The outcome of a recorded peer. -/
def Outcome.isPaired : Outcome → Bool
  | .paired _ => true
  | _ => false

/-- An approval is under way: a handler is approved or has recorded its peer, a `Paired` is
    queued, or an accept is stored and a handler has yet to read the decision. -/
def InFlight (s : Invite Text) : Prop :=
  (∃ c ∈ s.conns, c.pc.atRecord = true ∨ c.pc.recorded = true) ∨
    (∃ o ∈ s.shared.outcomes, o.isPaired = true) ∨
    s.shared.decision = some true ∧ ∃ c ∈ s.conns, c.pc.undecided = true

instance (s : Invite Text) : Decidable (InFlight s) :=
  inferInstanceAs (Decidable
    ((∃ c ∈ s.conns, c.pc.atRecord = true ∨ c.pc.recorded = true) ∨
      (∃ o ∈ s.shared.outcomes, o.isPaired = true) ∨
      s.shared.decision = some true ∧ ∃ c ∈ s.conns, c.pc.undecided = true))

/-- The loop leaves without a pairing only while no approval is under way, and an `add_peer`
    of a handler that passes its checks is saved. -/
def NoLateApproval (cfg : InviteCfg) (s : Invite Text) : InviteAct Text → Prop
  | .loop ev => ∀ o eff, loopNext cfg s ev = some (.ending o, eff) → o.isPaired = false →
      ¬ InFlight s
  | .conn i (.record pairedAt lastSeen fault) => ∀ c, s.conns[i]? = some c →
      writes s.shared.state.inner
        (.addPeer ⟨cfg.name, c.remote.display, pairedAt, lastSeen⟩) = true → fault = none
  | _ => True

/-- The outcome it has left the loop with. -/
def LoopPc.leaving : LoopPc → Option Outcome
  | .ending o => some o
  | _ => none

theorem LoopPc.leaving_eq_some (pc : LoopPc) (o : Outcome) :
    pc.leaving = some o ↔ pc = .ending o := by
  cases pc <;> simp [LoopPc.leaving]

instance (cfg : InviteCfg) (s : Invite Text) (a : InviteAct Text) :
    Decidable (NoLateApproval cfg s a) :=
  match a with
  | .loop ev =>
    decidable_of_iff
      (∀ m ∈ loopNext cfg s ev, ∀ o ∈ m.1.leaving, o.isPaired = false → ¬ InFlight s)
      ⟨fun h o eff hnext => h (.ending o, eff) hnext o rfl, fun h m hm o ho =>
        h o m.2 (hm.trans (by rw [← (LoopPc.leaving_eq_some m.1 o).mp ho]))⟩
  | .conn i (.record pairedAt lastSeen fault) =>
    inferInstanceAs (Decidable (∀ c ∈ s.conns[i]?, writes s.shared.state.inner
      (.addPeer ⟨cfg.name, c.remote.display, pairedAt, lastSeen⟩) = true → fault = none))
  | .conn _ .go | .conn _ (.acceptBi _) | .conn _ (.frame _) | .conn _ .clientGone
  | .conn _ .clientData | .conn _ .promptTimeout | .conn _ .deadline | .conn _ .acked
  | .conn _ .ackTimeout | .conn _ (.write _) | .tick _ | .store _ | .request _ | .dispatch _ =>
    inferInstanceAs (Decidable True)

/-! ### What the loop has decided -/

/-- The result the loop is going to send, or has sent. -/
def Invite.fate (s : Invite Text) : Option InviteResult :=
  match s.loop with
  | .ending o => some o.result
  | .flush o _ => some o.result
  | .closing o => some o.result
  | .finishing o => some o.result
  | .removing => s.results.head?
  | .done => s.results.head?
  | _ => none

/-- The loop has sent its result. -/
def LoopPc.sent : LoopPc → Bool
  | .removing => true
  | .done => true
  | _ => false

/-- One result once the loop has sent it, none before. -/
structure ResultInv (s : Invite Text) : Prop where
  length : s.results.length = if s.loop.sent then 1 else 0
  resultTx : s.resultTx = !s.loop.sent

/-- An effect does not move the loop. -/
theorem perform_loop_pc (cfg : InviteCfg) (s : Invite Text) (eff : LoopEffect) :
    (s.perform cfg eff).loop = s.loop := by
  cases eff with
  | claimAndSpawn remote => simp only [Invite.perform]; split <;> rfl
  | sendResult r => simp only [Invite.perform]; split <;> rfl
  | _ => rfl

/-- The loop leaves the results alone but for `sendResult`. -/
theorem perform_results (cfg : InviteCfg) (s : Invite Text) (eff : LoopEffect)
    (heff : ∀ r, eff ≠ .sendResult r) :
    (s.perform cfg eff).results = s.results ∧ (s.perform cfg eff).resultTx = s.resultTx := by
  cases eff with
  | sendResult r => exact absurd rfl (heff r)
  | claimAndSpawn remote => simp only [Invite.perform]; split <;> exact ⟨rfl, rfl⟩
  | _ => exact ⟨rfl, rfl⟩

/-- The endpoint is built once. -/
theorem LoopMove.ne_build {s : Invite Text} {pc₀ pc : LoopPc} {eff : LoopEffect}
    (h : LoopMove cfg s pc₀ pc eff) : pc ≠ .build := by
  cases h <;> simp

theorem ResultInv.loop {s s' : Invite Text} {ev : LoopEvent} (h : ResultInv s)
    (hn : s.next T cfg (.loop ev) = some s') : ResultInv s' := by
  obtain ⟨pc, eff, -, hmove, rfl⟩ := next_loop hn
  by_cases hsend : ∃ r, eff = .sendResult r
  · obtain ⟨r, rfl⟩ := hsend
    obtain ⟨hlen, htx⟩ := h
    generalize s.loop = pc₀ at hmove hlen htx
    cases hmove with
    | finish o =>
      have hnil : s.results = [] := List.length_eq_zero_iff.mp hlen
      have htx : s.resultTx = true := htx
      simp only [Invite.perform, htx, if_true, hnil]
      exact ⟨rfl, rfl⟩
  · obtain ⟨hres, htx⟩ := perform_results cfg { s with loop := pc }
      eff (fun r heq => hsend ⟨r, heq⟩)
    have hloop := perform_loop_pc cfg { s with loop := pc } eff
    have hsent : pc.sent = s.loop.sent := by
      generalize s.loop = pc₀ at hmove
      cases hmove with
      | finish o => exact absurd ⟨o.result, rfl⟩ hsend
      | _ => rfl
    exact ⟨by rw [hres, hloop]; simp only [hsent]; exact h.length,
      by rw [htx, hloop]; simp only [hsent]; exact h.resultTx⟩

theorem resultInv {C : Invite Text → InviteAct Text → Prop} {s : Invite Text}
    (h : Reach (Invite.system T cfg) C s) : ResultInv s := by
  refine Invite.reach_invariant (fun _ _ => ⟨rfl, rfl⟩) (fun s s' hsame hi => ?_)
    (fun _ _ _ _ hi _ hn => hi.loop hn) (fun s i ev s' _ hi _ hn => ?_) h
  · obtain ⟨_, _, _, _, _, rfl⟩ := hsame
    exact ⟨hi.length, hi.resultTx⟩
  · obtain ⟨c, pc, eff, -, -, rfl⟩ := next_conn hn
    exact ⟨hi.length, hi.resultTx⟩

/-- How a loop step bears on the result: it leaves it open, decides it, or carries it on. -/
theorem LoopMove.fate {s : Invite Text} {pc : LoopPc} {eff : LoopEffect}
    (h : LoopMove cfg s s.loop pc eff) (hres : ResultInv s) :
    (s.fate = none ∧ (Invite.perform cfg { s with loop := pc } eff).fate = none ∧
        eff ≠ .popOutcome) ∨
      ((∀ d, eff ≠ .setDecision d) ∧ (∀ remote, eff ≠ .claimAndSpawn remote) ∧
        ((s.fate = none ∧ ∃ o, (pc = .ending o ∨ s.loop = .build ∧ o.isPaired = false) ∧
            (o ∈ s.shared.outcomes ∨ o.isPaired = false) ∧
            (Invite.perform cfg { s with loop := pc } eff).fate = some o.result) ∨
          ∃ r, s.fate = some r ∧
            (Invite.perform cfg { s with loop := pc } eff).fate = some r)) := by
  obtain ⟨hlen, htx⟩ := hres
  generalize hpc : s.loop = pc₀ at h hlen htx
  cases h with
  -- steps that leave the result open
  | built | noOutcome | cmd | noCmd | setDecision | accepted | notExpired | noIncoming | incoming
  | delayed | connected | connFailed | escalate | resetDelay =>
    exact .inl ⟨by simp only [Invite.fate, hpc], rfl, by simp⟩
  | claim remote =>
    refine .inl ⟨by simp only [Invite.fate, hpc], ?_, by simp⟩
    simp only [Invite.fate, perform_loop_pc]
  -- steps that decide it
  | buildFailed =>
    refine .inr ⟨by simp, by simp, .inl ⟨by simp only [Invite.fate, hpc], .cancelled, ?_⟩⟩
    exact ⟨.inr ⟨rfl, rfl⟩, .inr rfl, rfl⟩
  | outcome o rest ho =>
    refine .inr ⟨by simp, by simp, .inl ⟨by simp only [Invite.fate, hpc], o, .inl rfl, ?_, rfl⟩⟩
    exact .inl (by rw [ho]; exact List.mem_cons_self)
  | cmdClosed | expired | acceptNone | denied | expiredInDelay =>
    refine .inr ⟨by simp, by simp, .inl ⟨by simp only [Invite.fate, hpc], _, .inl rfl, ?_, rfl⟩⟩
    exact .inr rfl
  -- steps that carry it on
  | wakeLast | skipFlush | flushed | close =>
    exact .inr ⟨by simp, by simp, .inr ⟨_, by simp only [Invite.fate, hpc], rfl⟩⟩
  | finish o =>
    have hnil : s.results = [] := List.length_eq_zero_iff.mp hlen
    have htx : s.resultTx = true := htx
    refine .inr ⟨by simp, by simp, .inr ⟨o.result, by simp only [Invite.fate, hpc], ?_⟩⟩
    simp only [Invite.perform, Invite.fate, htx, if_true, hnil]
    rfl
  | remove =>
    obtain ⟨r, hr⟩ := List.length_eq_one_iff.mp hlen
    refine .inr ⟨by simp, by simp, .inr ⟨r, by simp only [Invite.fate, hpc, hr]; rfl, ?_⟩⟩
    simp only [Invite.perform, Invite.fate, hr]
    rfl

/-! ### Moves that matter here -/

section Moves

variable {sh : InviteShared Text} {remote : PublicKey} {ev : HandlerEvent Text}
  {pc pc' : HandlerPc} {eff : Effect Text}

/-- What a call records as `left` is what it did to the table: its peer is now the last one
    there, or nothing has changed. -/
theorem perform_addPeer_left (T : Toml PersistedState Text) (cfg : InviteCfg)
    (sh : InviteShared Text) (i : ℕ) (remote : PublicKey) (peer : Peer)
    (fault : Option (WriteFault Text)) (answers : ℕ) :
    ∃ a, (sh.perform T cfg i remote (.addPeer peer fault answers)).adds = sh.adds ++ [a] ∧
      (sh.perform T cfg i remote (.addPeer peer fault answers)).state.inner.peers =
        sh.state.inner.peers ++ if a.left then [peer] else [] := by
  refine ⟨_, rfl, ?_⟩
  show (sh.state.addPeer T fault peer).1.inner.peers = _
  by_cases hw : writes sh.state.inner (.addPeer peer) = true
  · rw [addPeer_of_writes hw, if_pos hw]
    rfl
  · obtain ⟨e, he⟩ := addPeer_of_not_writes T fault (Bool.eq_false_iff.mpr hw)
    rw [he, if_neg hw, List.append_nil]

/-- A call of `add_peer` left a peer with this node id in the table. -/
def InviteShared.LeftFor (sh : InviteShared Text) (nodeId : String) : Prop :=
  ∃ a ∈ sh.adds, a.left = true ∧ a.peer.nodeId = nodeId

theorem InviteShared.LeftFor.mono {sh sh' : InviteShared Text} {nodeId : String}
    (hsub : sh.adds ⊆ sh'.adds) (h : sh.LeftFor nodeId) : sh'.LeftFor nodeId := by
  obtain ⟨a, ha, hprop⟩ := h
  exact ⟨a, hsub ha, hprop⟩

/-- An `add_peer` that succeeds has passed its checks. -/
theorem writes_of_addPeer_ok {s : State Text} {fault : Option (WriteFault Text)} {peer : Peer}
    (h : (s.addPeer T fault peer).2 = .ok ()) : writes s.inner (.addPeer peer) = true := by
  by_contra hw
  obtain ⟨e, he⟩ := addPeer_of_not_writes T fault (Bool.eq_false_iff.mpr hw)
  rw [he] at h
  exact absurd h (by simp)

/-- A handler is past its `add_peer` only after a call that left its client in the table. -/
theorem HandlerMove.recorded_left (h : HandlerMove T cfg sh remote ev pc pc' eff) (i : ℕ)
    (hpc' : pc'.recorded = true) :
    pc.recorded = true ∨
      pc.atRecord = true ∧ (sh.perform T cfg i remote eff).LeftFor remote.display := by
  cases h with
  | recorded answers pairedAt lastSeen fault hev hrec hadd =>
    refine .inr ⟨rfl, ?_⟩
    rw [perform_addPeer_ok hadd]
    exact ⟨_, List.mem_append_right _ (List.mem_singleton.mpr rfl), writes_of_addPeer_ok hadd, rfl⟩
  | resetDelay => exact .inl rfl
  | wrote v | writeFailed v | acked v =>
    cases v with
    | confirm => exact .inl rfl
    | deny reason => exact absurd hpc' (by simp [HandlerPc.recorded])
  | handshake hs => cases hs <;> exact absurd hpc' (by simp [HandlerPc.recorded])
  | refuse hr => cases hr <;> exact absurd hpc' (by simp [HandlerPc.recorded])
  | _ => exact absurd hpc' (by simp [HandlerPc.recorded])

/-- It stays there until it reports the pairing. -/
theorem HandlerMove.recorded_keep (h : HandlerMove T cfg sh remote ev pc pc' eff) (i : ℕ)
    (hpc : pc.recorded = true) :
    pc'.recorded = true ∨ .paired remote.display ∈ (sh.perform T cfg i remote eff).outcomes := by
  cases h with
  | resetDelay => exact .inl rfl
  | wrote v | writeFailed v | acked v =>
    cases v with
    | confirm => exact .inl rfl
    | deny reason => exact absurd hpc (by simp [HandlerPc.recorded])
  | finish v =>
    cases v with
    | confirm => exact .inr (List.mem_append_right _ (List.mem_singleton.mpr rfl))
    | deny reason => exact absurd hpc (by simp [HandlerPc.recorded])
  | handshake hs => cases hs <;> exact absurd hpc (by simp [HandlerPc.recorded])
  | refuse hr => cases hr <;> exact absurd hpc (by simp [HandlerPc.recorded])
  | _ => exact absurd hpc (by simp [HandlerPc.recorded])

/-- A handler reports a pairing only of its own recorded client. -/
theorem HandlerMove.outcomes (h : HandlerMove T cfg sh remote ev pc pc' eff) (i : ℕ) :
    sh.outcomes ⊆ (sh.perform T cfg i remote eff).outcomes ∧
      ∀ o ∈ (sh.perform T cfg i remote eff).outcomes, o.isPaired = true →
        o ∈ sh.outcomes ∨ pc.recorded = true ∧ o = .paired remote.display := by
  have hsame : (sh.perform T cfg i remote eff).outcomes = sh.outcomes →
      sh.outcomes ⊆ (sh.perform T cfg i remote eff).outcomes ∧
      ∀ o ∈ (sh.perform T cfg i remote eff).outcomes, o.isPaired = true →
        o ∈ sh.outcomes ∨ pc.recorded = true ∧ o = .paired remote.display :=
    fun heq => ⟨by rw [heq]; exact List.Subset.refl _, fun o ho _ => .inl (heq ▸ ho)⟩
  cases h with
  | finish v =>
    cases v with
    | confirm =>
      refine ⟨List.subset_append_left _ _, fun o ho _ => ?_⟩
      exact (List.mem_append.mp ho).imp id (fun hnew => ⟨rfl, List.mem_singleton.mp hnew⟩)
    | deny reason =>
      cases reason with
      | serverError =>
        refine ⟨List.subset_append_left _ _, fun o ho hp => ?_⟩
        rcases List.mem_append.mp ho with hold | hnew
        · exact .inl hold
        · rw [List.mem_singleton.mp hnew] at hp
          exact absurd hp (by simp [Outcome.isPaired])
      | _ => exact hsame rfl
  | _ => exact hsame rfl

/-- A handler reaches `add_peer` only from where the decision is still to be read, and only
    through an accept. -/
theorem HandlerMove.undecided (h : HandlerMove T cfg sh remote ev pc pc' eff) :
    (pc'.undecided = true → pc.undecided = true) ∧
      (pc'.atRecord = true → pc.undecided = true ∧ sh.decision = some true) := by
  cases h with
  | approved hd => exact ⟨fun _ => rfl, fun _ => ⟨rfl, hd⟩⟩
  | handshake hs =>
    cases hs <;> exact ⟨fun _ => rfl, fun hc => absurd hc (by simp [HandlerPc.atRecord])⟩
  | refuse hr =>
    cases hr <;> exact ⟨fun hc => absurd hc (by simp [HandlerPc.undecided]),
      fun hc => absurd hc (by simp [HandlerPc.atRecord])⟩
  | sentWait | emit | listen | woken | noDecision =>
    exact ⟨fun _ => rfl, fun hc => absurd hc (by simp [HandlerPc.atRecord])⟩
  | _ => exact ⟨fun hc => absurd hc (by simp [HandlerPc.undecided]),
      fun hc => absurd hc (by simp [HandlerPc.atRecord])⟩

/-- With its save going through, an `add_peer` that leaves its peer in the table succeeds, and
    its handler goes on to confirm. -/
theorem HandlerMove.left_new (h : HandlerMove T cfg sh remote ev pc pc' eff) {i : ℕ} {a : AddPeer}
    (hsave : ∀ pairedAt lastSeen fault, ev = .record pairedAt lastSeen fault →
      writes sh.state.inner (.addPeer ⟨cfg.name, remote.display, pairedAt, lastSeen⟩) = true →
        fault = none)
    (ha : a ∈ (sh.perform T cfg i remote eff).adds) (hleft : a.left = true) :
    a ∈ sh.adds ∨ pc' = .resetDelay := by
  cases h with
  | recorded answers pairedAt lastSeen fault hev hrec hadd => exact .inr rfl
  | recordFailed answers pairedAt lastSeen fault e hev hrec hadd =>
    rw [perform_addPeer_error hadd] at ha
    rcases List.mem_append.mp ha with hold | hnew
    · exact .inl hold
    · -- the checks let the call through, so only a failed save can have stopped it
      rw [List.mem_singleton.mp hnew] at hleft
      have hw : writes sh.state.inner
          (.addPeer ⟨cfg.name, remote.display, pairedAt, lastSeen⟩) = true := hleft
      rw [hsave _ _ _ hev hw, addPeer_of_writes hw] at hadd
      exact absurd hadd (by simp [State.persistLocked, Except.mapError])
  | finish v =>
    obtain ⟨delay, outcomes, heq⟩ := perform_afterAck T cfg sh i remote v
    rw [heq] at ha
    exact .inl ha
  | _ => exact .inl ha

end Moves

/-! ### The invariant -/

/-- No peer has been left in the table, and none is on its way there. -/
structure Quiet (s : Invite Text) : Prop where
  adds : ∀ a ∈ s.shared.adds, a.left = false
  calm : ¬ InFlight s

/-- The result, once decided, agrees with the table; until then a peer in the table is one that
    a handler is about to report, or that waits in the queue. -/
structure AgreeInv (s : Invite Text) : Prop where
  recorded : ∀ c ∈ s.conns, c.pc.recorded = true → s.shared.LeftFor c.remote.display
  queued : ∀ nodeId, .paired nodeId ∈ s.shared.outcomes → s.shared.LeftFor nodeId
  won : ∀ nodeId, s.fate = some (.paired nodeId) → s.shared.LeftFor nodeId
  lost : ∀ r, s.fate = some r → (∀ nodeId, r ≠ .paired nodeId) → Quiet s
  pending : s.fate = none → (∃ a ∈ s.shared.adds, a.left = true) →
    (∃ c ∈ s.conns, c.pc.recorded = true) ∨ ∃ o ∈ s.shared.outcomes, o.isPaired = true
  unbuilt : s.loop = .build → s.conns = [] ∧ s.shared.outcomes = []

theorem agreeInv_start (state : State Text) (clock : ℕ) : AgreeInv (Invite.start state clock) where
  recorded := by simp [Invite.start]
  queued := by simp [Invite.start]
  won := by simp [Invite.start, Invite.fate]
  lost := by simp [Invite.start, Invite.fate]
  pending := by simp [Invite.start]
  unbuilt := by simp [Invite.start]

/-- A quiet invite stays quiet, whatever its handlers do. -/
theorem Quiet.conn {s : Invite Text} (h : Quiet s) {i : ℕ} {c : PairConn} {pc : HandlerPc}
    {ev : HandlerEvent Text} {eff : Effect Text} (hc : s.conns[i]? = some c)
    (hmove : HandlerMove T cfg s.shared c.remote ev c.pc pc eff) :
    Quiet { s with
      shared := s.shared.perform T cfg i c.remote eff
      conns := s.conns.set i { c with pc } } := by
  have hmem := List.mem_of_getElem? hc
  refine ⟨fun a ha => ?_, fun hfl => h.calm ?_⟩
  · -- a new call needs an approved handler, and there is none
    rcases hmove.adds_new ha with hold | ⟨hpc, -⟩
    · exact h.adds a hold
    · exact absurd (.inl ⟨c, hmem, .inl (by rw [hpc]; rfl)⟩) h.calm
  · -- whatever is under way after the step was under way before it
    rcases hfl with ⟨d, hd, hpos⟩ | ⟨o, ho, hpaired⟩ | ⟨hdec, d, hd, hund⟩
    · rcases List.mem_or_eq_of_mem_set hd with hold | rfl
      · exact .inl ⟨d, hold, hpos⟩
      · rcases hpos with hrec | hrec
        · obtain ⟨hund, hdec⟩ := hmove.undecided.2 hrec
          exact .inr (.inr ⟨hdec, c, hmem, hund⟩)
        · rcases hmove.recorded_left i hrec with hwas | ⟨hwas, -⟩
          · exact .inl ⟨c, hmem, .inr hwas⟩
          · exact .inl ⟨c, hmem, .inl hwas⟩
    · rcases (hmove.outcomes i).2 o ho hpaired with hold | ⟨hrec, -⟩
      · exact .inr (.inl ⟨o, hold, hpaired⟩)
      · exact .inl ⟨c, hmem, .inr hrec⟩
    · have hdec : s.shared.decision = some true :=
        (perform_decision T cfg s.shared i c.remote eff).1.symm.trans hdec
      rcases List.mem_or_eq_of_mem_set hd with hold | rfl
      · exact .inr (.inr ⟨hdec, d, hold, hund⟩)
      · exact .inr (.inr ⟨hdec, c, hmem, hmove.undecided.1 hund⟩)

/-- What the loop's step leaves in the queue was there before. -/
theorem perform_outcomes (cfg : InviteCfg) (s : Invite Text) (eff : LoopEffect) :
    (s.perform cfg eff).shared.outcomes ⊆ s.shared.outcomes ∧
      (eff ≠ .popOutcome → (s.perform cfg eff).shared.outcomes = s.shared.outcomes) := by
  cases eff with
  | popOutcome => exact ⟨fun _ ho => List.mem_of_mem_tail ho, fun h => absurd rfl h⟩
  | claimAndSpawn remote =>
    simp only [Invite.perform]
    split <;> exact ⟨List.Subset.refl _, fun _ => rfl⟩
  | sendResult r =>
    simp only [Invite.perform]
    split <;> exact ⟨List.Subset.refl _, fun _ => rfl⟩
  | _ => exact ⟨List.Subset.refl _, fun _ => rfl⟩

/-- A quiet invite stays quiet once the loop neither stores a decision nor takes in a
    connection. -/
theorem Quiet.loop {s : Invite Text} (h : Quiet s) {pc : LoopPc} {eff : LoopEffect}
    (hset : ∀ d, eff ≠ .setDecision d) (hspawn : ∀ remote, eff ≠ .claimAndSpawn remote) :
    Quiet (Invite.perform cfg { s with loop := pc } eff) := by
  obtain ⟨hadds, -, -⟩ := perform_loop_shared cfg { s with loop := pc } eff
  obtain ⟨hdec, -⟩ := perform_loop_decision cfg { s with loop := pc } eff hset
  refine ⟨by rw [hadds]; exact h.adds, fun hfl => h.calm ?_⟩
  rcases hfl with ⟨d, hd, hpos⟩ | ⟨o, ho, hpaired⟩ | ⟨hacc, d, hd, hund⟩
  · have hpos' : (d.pc.atRecord || d.pc.recorded) = true := by simpa using hpos
    obtain ⟨c, hc, -, hcpos⟩ := perform_conns_old hd
      (p := fun pc => pc.atRecord || pc.recorded) (fun _ _ => rfl) rfl rfl hpos'
    exact .inl ⟨c, hc, by simpa using hcpos⟩
  · exact .inr (.inl ⟨o, (perform_outcomes cfg { s with loop := pc } eff).1 ho, hpaired⟩)
  · rw [hdec] at hacc
    rcases perform_conns_back hd (p := HandlerPc.undecided) (fun _ _ => rfl) hund with
      ⟨c, hc, -, hcund⟩ | ⟨heff, -⟩
    · exact .inr (.inr ⟨hacc, c, hc, hcund⟩)
    · exact absurd heff (hspawn _)

theorem AgreeInv.conn {s s' : Invite Text} {i : ℕ} {ev : HandlerEvent Text} (h : AgreeInv s)
    (hC : NoLateApproval cfg s (.conn i ev)) (hn : s.next T cfg (.conn i ev) = some s') :
    AgreeInv s' := by
  obtain ⟨c, pc, eff, hc, hmove, rfl⟩ := next_conn hn
  have hmem := List.mem_of_getElem? hc
  have hsub := hmove.adds_subset i
  have hrecorded : ∀ d ∈ s.conns.set i { c with pc }, d.pc.recorded = true →
      (s.shared.perform T cfg i c.remote eff).LeftFor d.remote.display := by
    intro d hd hrec
    rcases List.mem_or_eq_of_mem_set hd with hold | rfl
    · exact (h.recorded d hold hrec).mono hsub
    · rcases hmove.recorded_left i hrec with hwas | ⟨-, hleft⟩
      · exact (h.recorded c hmem hwas).mono hsub
      · exact hleft
  refine ⟨hrecorded, ?_, fun n hfate => (h.won n hfate).mono hsub,
    fun r hfate hr => (h.lost r hfate hr).conn hc hmove, ?_, ?_⟩
  · intro n hn
    rcases (hmove.outcomes i).2 _ hn rfl with hold | ⟨hrec, heq⟩
    · exact (h.queued n hold).mono hsub
    · rw [(Outcome.paired.inj heq)]
      exact (h.recorded c hmem hrec).mono hsub
  · -- still open: the peer of a new call is pending in its handler, that of an older one in
    -- its handler or in the queue
    rintro hfate ⟨a, ha, hleft⟩
    have hself : { c with pc } ∈ s.conns.set i { c with pc } := by
      obtain ⟨hlt, -⟩ := List.getElem?_eq_some_iff.mp hc
      exact List.mem_of_getElem? (List.getElem?_set_self hlt)
    have hsave : ∀ pairedAt lastSeen fault, ev = .record pairedAt lastSeen fault →
        writes s.shared.state.inner
          (.addPeer ⟨cfg.name, c.remote.display, pairedAt, lastSeen⟩) = true → fault = none := by
      rintro pairedAt lastSeen fault rfl hw
      exact hC c hc hw
    rcases hmove.left_new hsave ha hleft with hold | hpc'
    · rcases h.pending hfate ⟨a, hold, hleft⟩ with ⟨d, hd, hrec⟩ | ⟨o, ho, hpaired⟩
      · obtain ⟨j, hj⟩ := List.mem_iff_getElem?.mp hd
        obtain ⟨d', hd', -, ⟨-, rfl, -⟩ | ⟨-, rfl⟩⟩ := getElem?_set_remote pc hc hj
        · rcases hmove.recorded_keep i hrec with hkeep | hout
          · exact .inl ⟨_, hself, hkeep⟩
          · exact .inr ⟨_, hout, rfl⟩
        · exact .inl ⟨d', List.mem_of_getElem? hd', hrec⟩
      · exact .inr ⟨o, (hmove.outcomes i).1 ho, hpaired⟩
    · exact .inl ⟨_, hself, by rw [hpc']; rfl⟩
  · intro hbuild
    rw [(h.unbuilt hbuild).1] at hmem
    exact absurd hmem (by simp)

theorem AgreeInv.loop {s s' : Invite Text} {ev : LoopEvent} (h : AgreeInv s) (hres : ResultInv s)
    (hC : NoLateApproval cfg s (.loop ev)) (hn : s.next T cfg (.loop ev) = some s') :
    AgreeInv s' := by
  obtain ⟨pc, eff, hstep, hmove, rfl⟩ := next_loop hn
  obtain ⟨hadds, -, -⟩ := perform_loop_shared cfg { s with loop := pc } eff
  obtain ⟨hout, houteq⟩ := perform_outcomes cfg { s with loop := pc } eff
  have hsub : s.shared.adds ⊆ (Invite.perform cfg { s with loop := pc } eff).shared.adds := by
    rw [hadds]; exact List.Subset.refl _
  have hrecorded : ∀ d ∈ (Invite.perform cfg { s with loop := pc } eff).conns,
      d.pc.recorded = true →
        (Invite.perform cfg { s with loop := pc } eff).shared.LeftFor d.remote.display := by
    intro d hd hrec
    obtain ⟨c, hc, hremote, hcrec⟩ :=
      perform_conns_old hd (p := HandlerPc.recorded) (fun _ _ => rfl) rfl rfl hrec
    rw [← hremote]
    exact (h.recorded c hc hcrec).mono hsub
  have hqueued : ∀ n, .paired n ∈ (Invite.perform cfg { s with loop := pc } eff).shared.outcomes →
      (Invite.perform cfg { s with loop := pc } eff).shared.LeftFor n :=
    fun n hn => (h.queued n (hout hn)).mono hsub
  have hbuild : (Invite.perform cfg { s with loop := pc } eff).loop = .build →
      (Invite.perform cfg { s with loop := pc } eff).conns = [] ∧
        (Invite.perform cfg { s with loop := pc } eff).shared.outcomes = [] := by
    intro hb
    rw [perform_loop_pc] at hb
    exact absurd hb hmove.ne_build
  rcases hmove.fate hres with ⟨hnone, hnone', hpop⟩ |
    ⟨hset, hspawn, ⟨hnone, o, hpc, ho, hfate'⟩ | ⟨r, hfate, hfate'⟩⟩
  · -- still open
    refine ⟨hrecorded, hqueued, fun n hf => absurd hf (by rw [hnone']; simp),
      fun r hf => absurd hf (by rw [hnone']; simp), ?_, hbuild⟩
    rintro - ⟨a, ha, hleft⟩
    rw [hadds] at ha
    rw [houteq hpop]
    rcases h.pending hnone ⟨a, ha, hleft⟩ with ⟨c, hc, hrec⟩ | hqueue
    · obtain ⟨j, hj⟩ := List.mem_iff_getElem?.mp hc
      obtain ⟨c', hc', -, hkeep⟩ := perform_conns_keep cfg { s with loop := pc } eff hj
      exact .inl ⟨c', List.mem_of_getElem? hc',
        hkeep (fun pc => pc.recorded = true) (fun _ _ => rfl) hrec⟩
    · exact .inr hqueue
  · -- the result is decided here
    refine ⟨hrecorded, hqueued, fun n hf => ?_, fun r hf hr => ?_,
      fun hf => absurd hf (by rw [hfate']; simp), hbuild⟩
    · rw [hfate'] at hf
      rcases ho with hqueue | hnp
      · cases o with
        | paired m =>
          have hmn : m = n := InviteResult.paired.inj (Option.some.inj hf)
          rw [← hmn]
          exact (h.queued m hqueue).mono hsub
        | _ => exact absurd hf (by simp [Outcome.result])
      · cases o with
        | paired m => exact absurd hnp (by simp [Outcome.isPaired])
        | _ => exact absurd hf (by simp [Outcome.result])
    · rw [hfate'] at hf
      have hnp : o.isPaired = false := by
        cases o with
        | paired m => exact absurd (Option.some.inj hf).symm (hr m)
        | _ => rfl
      -- the condition says so, but for an endpoint that was never built: it has no handlers
      have hcalm : ¬ InFlight s := by
        rcases hpc with rfl | ⟨hb, -⟩
        · exact hC o eff hstep hnp
        · obtain ⟨hconns, houts⟩ := h.unbuilt hb
          simp [InFlight, hconns, houts]
      refine Quiet.loop ⟨fun a ha => ?_, hcalm⟩ hset hspawn
      by_contra hleft
      rcases h.pending hnone ⟨a, ha, by simpa using hleft⟩ with ⟨c, hc, hrec⟩ | hqueue
      · exact hcalm (.inl ⟨c, hc, .inr hrec⟩)
      · exact hcalm (.inr (.inl hqueue))
  · -- carried on
    refine ⟨hrecorded, hqueued, fun n hf => ?_, fun r' hf hr => ?_,
      fun hf => absurd hf (by rw [hfate']; simp), hbuild⟩
    · rw [hfate'] at hf
      exact (h.won n (hfate.trans hf)).mono hsub
    · rw [hfate'] at hf
      exact (h.lost r' (hfate.trans hf) hr).loop hset hspawn

theorem agreeInv {s : Invite Text} (h : Reach (Invite.system T cfg) (NoLateApproval cfg) s) :
    AgreeInv s := by
  refine Invite.reach_invariant agreeInv_start (fun s s' hsame hi => ?_)
    (fun _ _ _ hr hi hC hn => hi.loop (resultInv hr) hC hn)
    (fun _ _ _ _ _ hi hC hn => hi.conn hC hn) h
  obtain ⟨_, _, _, _, _, rfl⟩ := hsame
  refine ⟨hi.recorded, hi.queued, hi.won, fun r hf hr => ?_, hi.pending, hi.unbuilt⟩
  exact ⟨(hi.lost r hf hr).adds, (hi.lost r hf hr).calm⟩

/-! ### The loop is never stuck -/

/-- The steps the loop takes by itself, and the clock. -/
def loopOnly : Invite Text → InviteAct Text → Bool
  | _, .loop _ => true
  | _, .tick _ => true
  | _, _ => false

/-- The loop's own steps, with time passing, take it to its end. -/
def Finishes (T : Toml PersistedState Text) (cfg : InviteCfg) (s : Invite Text) : Prop :=
  ∃ acts s', exec (Invite.system T cfg) loopOnly s acts = some s' ∧ s'.loop = .done

section Finishes

variable {s : Invite Text}

attribute [local simp] loopNext

theorem Finishes.loop (ev : LoopEvent) (pc : LoopPc) (eff : LoopEffect)
    (h : loopNext cfg s ev = some (pc, eff))
    (hf : Finishes T cfg (Invite.perform cfg { s with loop := pc } eff)) : Finishes T cfg s := by
  obtain ⟨acts, s', hexec, hdone⟩ := hf
  refine ⟨.loop ev :: acts, s', ?_, hdone⟩
  have hn : (Invite.system T cfg).next s (.loop ev)
      = some (Invite.perform cfg { s with loop := pc } eff) := by
    show Invite.next T cfg s (.loop ev) = _
    simp only [Invite.next, h, Option.map_some]
  simp only [exec, loopOnly, if_true, hn, Option.bind_some]
  exact hexec

theorem Finishes.tick (ms : ℕ) (hf : Finishes T cfg { s with clock := s.clock + ms }) :
    Finishes T cfg s := by
  obtain ⟨acts, s', hexec, hdone⟩ := hf
  exact ⟨.tick ms :: acts, s', hexec, hdone⟩

theorem finishes_finishing {o : Outcome} (h : s.loop = .finishing o) : Finishes T cfg s := by
  refine Finishes.loop .go .removing (.sendResult o.result)
    (by simp [h]) ?_
  refine Finishes.loop .go .done .removeEntry ?_ ⟨[], _, rfl, rfl⟩
  simp [perform_loop_pc]

theorem finishes_closing {o : Outcome} (h : s.loop = .closing o) : Finishes T cfg s :=
  Finishes.loop .go (.finishing o) (.close (o = .expired))
    (by simp [h]) (finishes_finishing rfl)

theorem finishes_flush {o : Outcome} {wake : ℕ} (h : s.loop = .flush o wake) :
    Finishes T cfg s := by
  refine Finishes.tick wake (Finishes.loop .go (.closing o) .none ?_
    (finishes_closing rfl))
  simp [h]

theorem finishes_ending {o : Outcome} (h : s.loop = .ending o) : Finishes T cfg s := by
  by_cases hf : o.flushes = true
  · exact Finishes.loop .go (.flush o (s.clock + flushDelay))
      .notifyWaiters (by simp [h, hf]) (finishes_flush rfl)
  · exact Finishes.loop .go (.closing o) .none
      (by simp [h, hf]) (finishes_closing rfl)

theorem finishes_pollDeadline (h : s.loop = .pollDeadline) : Finishes T cfg s := by
  refine Finishes.tick cfg.deadline (Finishes.loop .go (.ending .expired)
    .none ?_ (finishes_ending rfl))
  simp [h]

/-- A decision was stored: a rejection ends the loop, an accept sends it back to `select!`. -/
theorem finishes_notifyDecision {accept : Bool} (h : s.loop = .notifyDecision accept)
    (hpoll : Finishes T cfg (Invite.perform cfg { s with loop := .pollOutcome } .notifyWaiters)) :
    Finishes T cfg s := by
  cases accept with
  | true => exact Finishes.loop .go .pollOutcome .notifyWaiters (by simp [h]) hpoll
  | false =>
    exact Finishes.loop .go (.ending .rejected) .notifyWaiters
      (by simp [h]) (finishes_ending rfl)

theorem finishes_setDecision {d : Decide} (h : s.loop = .setDecision d)
    (hpoll : ∀ s' : Invite Text, s'.cmds = s.cmds → s'.loop = .pollOutcome → Finishes T cfg s') :
    Finishes T cfg s :=
  Finishes.loop .go (.notifyDecision d.accept) (.setDecision d) (by simp [h])
    (finishes_notifyDecision rfl (hpoll _ rfl rfl))

/-- The command branch takes one decision off the queue, if there is one. -/
theorem finishes_pollCmd (h : s.loop = .pollCmd)
    (hpoll : ∀ d rest, s.cmds = d :: rest → ∀ s' : Invite Text, s'.cmds = rest →
      s'.loop = .pollOutcome → Finishes T cfg s') : Finishes T cfg s := by
  cases hcmds : s.cmds with
  | nil =>
    -- an empty queue is closed once the entry with its sender is gone
    cases hentry : s.entry with
    | true =>
      exact Finishes.loop .go .pollDeadline .none
        (by simp [h, hcmds, hentry]) (finishes_pollDeadline rfl)
    | false =>
      exact Finishes.loop .go (.ending .cancelled) .none
        (by simp [h, hcmds, hentry]) (finishes_ending rfl)
  | cons d rest =>
    refine Finishes.loop .go (.setDecision d) .popCmd (by simp [h, hcmds]) ?_
    refine finishes_setDecision rfl (fun s' hs' h' => hpoll d rest hcmds s' (hs'.trans ?_) h')
    show s.cmds.tail = rest
    rw [hcmds, List.tail_cons]

/-- One pass through `select!`. -/
theorem finishes_pass (h : s.loop = .pollOutcome)
    (hpoll : ∀ d rest, s.cmds = d :: rest → ∀ s' : Invite Text, s'.cmds = rest →
      s'.loop = .pollOutcome → Finishes T cfg s') : Finishes T cfg s := by
  cases hout : s.shared.outcomes with
  | cons o rest =>
    exact Finishes.loop .go (.ending o) .popOutcome (by simp [h, hout])
      (finishes_ending rfl)
  | nil =>
    exact Finishes.loop .go .pollCmd .none (by simp [h, hout])
      (finishes_pollCmd rfl hpoll)

/-- By induction on the queue: each pass takes one decision off it. -/
theorem finishes_pollOutcome (h : s.loop = .pollOutcome) : Finishes T cfg s := by
  generalize hcmds : s.cmds = cmds
  induction cmds generalizing s with
  | nil =>
    refine finishes_pass h (fun d rest hd => ?_)
    rw [hcmds] at hd
    exact absurd hd (by simp)
  | cons d cmds ih =>
    refine finishes_pass h (fun d' rest hd s' hs' h' => ih h' ?_)
    rw [hcmds] at hd
    rw [hs', (List.cons.inj hd).2]

theorem finishes_claim {remote : PublicKey} (h : s.loop = .claim remote) : Finishes T cfg s :=
  Finishes.loop .go .pollOutcome (.claimAndSpawn remote) (by simp [h])
    (finishes_pollOutcome (by rw [perform_loop_pc]))

theorem finishes_connFailed (h : s.loop = .connFailed) : Finishes T cfg s :=
  Finishes.loop .go .pollOutcome .escalate (by simp [h]) (finishes_pollOutcome rfl)

/-- A delay that outlasts the invite ends it. -/
theorem finishes_acceptDelay {wake : ℕ} (h : s.loop = .acceptDelay wake) : Finishes T cfg s := by
  refine Finishes.tick (wake + cfg.deadline) (Finishes.loop .go (.ending .expired) .none ?_
    (finishes_ending rfl))
  have hwake : wake ≤ s.clock + (wake + cfg.deadline) := by omega
  have hdead : cfg.deadline ≤ s.clock + (wake + cfg.deadline) := by omega
  simp [h, hwake, hdead]

/-- **The loop is never stuck.** From every state its own steps and the clock take it to the
    end. -/
theorem loop_can_finish (T : Toml PersistedState Text) (cfg : InviteCfg) (s : Invite Text) :
    Finishes T cfg s := by
  cases h : s.loop with
  | build =>
    exact Finishes.loop (.build true) .pollOutcome .emitCode (by simp [h])
      (finishes_pollOutcome rfl)
  | pollOutcome => exact finishes_pollOutcome h
  | pollCmd => exact finishes_pollCmd h (fun _ _ _ _ _ h' => finishes_pollOutcome h')
  | pollDeadline => exact finishes_pollDeadline h
  | pollAccept =>
    exact Finishes.loop .go .pollOutcome .none (by simp [h]) (finishes_pollOutcome rfl)
  | setDecision d => exact finishes_setDecision h (fun _ _ h' => finishes_pollOutcome h')
  | notifyDecision accept => exact finishes_notifyDecision h (finishes_pollOutcome rfl)
  | acceptDelay wake => exact finishes_acceptDelay h
  | connecting =>
    exact Finishes.loop (.handshake none) .connFailed .none (by simp [h])
      (finishes_connFailed rfl)
  | connFailed => exact finishes_connFailed h
  | connected remote =>
    exact Finishes.loop .go (.claim remote) .resetDelay (by simp [h])
      (finishes_claim rfl)
  | claim remote => exact finishes_claim h
  | ending o => exact finishes_ending h
  | flush o wake => exact finishes_flush h
  | closing o => exact finishes_closing h
  | finishing o => exact finishes_finishing h
  | removing =>
    exact Finishes.loop .go .done .removeEntry (by simp [h]) ⟨[], _, rfl, rfl⟩
  | done => exact ⟨[], s, rfl, h⟩

end Finishes

/-! ### Every run -/

/-- A result that was sent is the one the loop decided on. -/
theorem ResultInv.fate {s : Invite Text} (h : ResultInv s) {r : InviteResult}
    (hr : r ∈ s.results) : s.fate = some r := by
  obtain ⟨hlen, -⟩ := h
  have hpos := List.length_pos_of_mem hr
  have hsent : s.loop.sent = true := by
    by_contra hns
    rw [if_neg hns] at hlen
    omega
  rw [if_pos hsent] at hlen
  obtain ⟨r', hr'⟩ := List.length_eq_one_iff.mp hlen
  rw [hr', List.mem_singleton] at hr
  cases hloop : s.loop with
  | removing => simp only [Invite.fate, hloop, hr', hr, List.head?_cons]
  | done => simp only [Invite.fate, hloop, hr', hr, List.head?_cons]
  | _ => rw [hloop] at hsent; exact absurd hsent (by simp [LoopPc.sent])

/-- **The result agrees with the table.** In every run in which the loop ends the invite
    without a pairing only while no approval is under way, and no `add_peer` that passes its
    checks fails to save: at most one result is sent, exactly one by the time the loop has
    ended, and the loop can always get there; if the result is `Paired` this invite put a peer
    with that node id into the table, and if it is `Rejected` or `Expired` no `add_peer` of
    this invite has left its peer there. -/
theorem result_agrees (T : Toml PersistedState Text) (cfg : InviteCfg) {s : Invite Text}
    (h : Reach (Invite.system T cfg) (NoLateApproval cfg) s) :
    s.results.length ≤ 1 ∧ (s.loop = .done → s.results.length = 1) ∧ Finishes T cfg s ∧
      (∀ nodeId, .paired nodeId ∈ s.results →
        ∃ a ∈ s.shared.adds, a.left = true ∧ a.peer.nodeId = nodeId) ∧
      ∀ r ∈ s.results, (r = .rejected ∨ r = .expired) → ∀ a ∈ s.shared.adds, a.left = false := by
  have hres := resultInv h
  have hagree := agreeInv h
  refine ⟨?_, fun hdone => ?_, loop_can_finish T cfg s, fun n hn => ?_, fun r hr hnp => ?_⟩
  · rw [hres.length]
    split <;> omega
  · rw [hres.length, hdone]
    rfl
  · exact hagree.won n (hres.fate hn)
  · refine (hagree.lost r (hres.fate hr) (fun n hp => ?_)).adds
    rcases hnp with rfl | rfl <;> exact absurd hp (by simp)

/-- The loop, at the top of `select!`, takes the queued outcome and ends. -/
def endPaired : List (InviteAct PersistedState) :=
  [.loop .go, .loop .go, .loop .go, .loop .go, .loop .go]

/-- `pairedRun` to its end. -/
theorem result_agrees_paired : ∃ s, Reach (Invite.system (.self PersistedState) laptopInvite)
    (NoLateApproval laptopInvite) s ∧
      s.results = [.paired vectorKey0.display] ∧
      ∃ a ∈ s.shared.adds, a.left = true ∧ a.peer.nodeId = vectorKey0.display := by
  have hrun : (exec (Invite.system (.self PersistedState) laptopInvite)
      (fun s a => decide (NoLateApproval laptopInvite s a)) (.start .fresh 0)
      (pairedRun ++ endPaired)).map (fun s => s.results) = some [.paired vectorKey0.display] := by
    decide +kernel
  obtain ⟨s, hr, hs⟩ :=
    reach_of_exec_map (fun _ _ => of_decide_eq_true) hrun (.init ⟨.fresh, 0, rfl⟩)
  exact ⟨s, hr, hs, (result_agrees (.self PersistedState) laptopInvite hr).2.2.2.1 _
    (by rw [hs]; exact List.mem_singleton.mpr rfl)⟩

/-- A client is accepted five seconds before the deadline, and the deadline passes while its
    handler waits for the ack of the confirmation. -/
def expiredInAckRun : List (InviteAct PersistedState) :=
  [.loop (.build true), .tick 895000] ++ takeConn vectorKey0 ++ reachPrompt 0 ++
    answerPrompt 0 true ++
    [.conn 0 .go, .conn 0 .go, .conn 0 (.record "t" "t" none), .conn 0 .go,
     .conn 0 (.write true), .tick 4900, .loop .go, .loop .go, .loop .go, .loop .go, .tick 300,
     .loop .go, .loop .go, .loop .go, .loop .go]

/-- The invite ends as expired with its client recorded, and confirmed. -/
theorem expired_but_recorded : ∃ s,
    Reach (Invite.system (.self PersistedState) laptopInvite) anyStep s ∧
      s.loop = .done ∧ s.results = [.expired] ∧
      (∃ a ∈ s.shared.adds, a.ok = true ∧ a.left = true) ∧
      s.shared.state.peerByName "laptop" = some ⟨"laptop", vectorKey0.display, "t", "t"⟩ := by
  have hrun : (exec (Invite.system (.self PersistedState) laptopInvite) (fun _ _ => true)
      (.start .fresh 0) expiredInAckRun).map (fun s => decide (s.loop = .done ∧
        s.results = [.expired] ∧ (∃ a ∈ s.shared.adds, a.ok = true ∧ a.left = true) ∧
        s.shared.state.peerByName "laptop" =
          some ⟨"laptop", vectorKey0.display, "t", "t"⟩)) = some true := by
    decide +kernel
  obtain ⟨s, hr, hbad⟩ := reach_of_exec_map (fun _ _ _ => trivial) hrun (.init ⟨.fresh, 0, rfl⟩)
  exact ⟨s, hr, of_decide_eq_true hbad⟩

end Tmite.Daemon
