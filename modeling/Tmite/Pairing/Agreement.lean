import Tmite.Client.Pair
import Tmite.Daemon.InviteResult

namespace Tmite.Pairing

open Tmite.Core Tmite.Proto Tmite.Client Tmite.Daemon Transition TaskList

/-!
# Pairing, seen from both ends

The server records the client and then sends `PAIR_CONFIRM`; the client reads the verdict and
then updates its own registry.  With no message lost and no write failing, a client is recorded
exactly if it is sent `PAIR_CONFIRM`, and the frames it is sent are then `PAIR_WAIT` and that
confirmation.  What the client does with it depends on its own `servers.toml`: it refuses an
alias bound to a different server, and by then the server has committed.
-/

universe v w
variable {Text : Type v} {ClientText : Type w} {T : Toml PersistedState Text} {cfg : InviteCfg}

/-! ### No message lost, no write failing -/

/-- Every write of a handler reaches an open connection, and every save of `add_peer` goes
    through. -/
def Faultless (s : Invite Text) : InviteAct Text → Prop
  | .conn _ (.write ok) => ok = true ∧ s.shared.endpointClosed = false
  | .conn _ (.record _ _ fault) => fault = none
  | _ => True

instance (s : Invite Text) (a : InviteAct Text) : Decidable (Faultless s a) :=
  match a with
  | .conn _ (.write ok) =>
    inferInstanceAs (Decidable (ok = true ∧ s.shared.endpointClosed = false))
  | .conn _ (.record _ _ fault) => inferInstanceAs (Decidable (fault = none))
  | .conn _ .go | .conn _ (.acceptBi _) | .conn _ (.frame _) | .conn _ .clientGone
  | .conn _ .clientData | .conn _ .promptTimeout | .conn _ .deadline | .conn _ .acked
  | .conn _ .ackTimeout | .tick _ | .store _ | .request _ | .dispatch _ | .loop _ =>
    inferInstanceAs (Decidable True)

/-- The frames written on connection `i`, in order. -/
def framesOn (sh : InviteShared Text) (i : ℕ) : List PairingFrame :=
  (sh.wrote.filter (fun w => w.conn == i)).map Wrote.frame

/-- The server has put the client of connection `i` into the peer table. -/
def Paired (cfg : InviteCfg) (s : Invite Text) (i : ℕ) (remote : PublicKey) : Prop :=
  ∃ a ∈ s.shared.adds, a.conn = i ∧ a.left = true ∧ a.peer.name = cfg.name ∧
    a.peer.nodeId = remote.display

/-! ### What the client reads -/

/-- The `n`-th read of a client that is sent `frames`: the frame, or the end of the
    connection. -/
def received (frames : List PairingFrame) (n : ℕ) : FrameResult PairingFrame :=
  match frames[n]? with
  | some f => .ok (f.msgType, f)
  | none => .error (.io "connection lost")

/-- A client that is sent `frames`, in time, on a disk that works. -/
def delivered (frames : List PairingFrame) (pairedAt : String) : PairIo ClientText where
  opened := .ok ()
  wait := received frames 0
  verdict := some (received frames 1)
  pairedAt := pairedAt
  readError := none
  fault := none

/-! ### The frames of a connection, position by position -/

/-- The frame is a `PAIR_CONFIRM`. -/
def isConfirm : PairingFrame → Bool
  | .pairConfirm _ _ => true
  | _ => false

/-- The frames that have been written when a handler is at `pc`. -/
def FramesAt (cfg : InviteCfg) (frames : List PairingFrame) : HandlerPc → Prop
  | .acceptBi => frames = []
  | .readVersion => frames = []
  | .readHello => frames = []
  | .checkName => frames = []
  | .sendWait => frames = []
  | .emit => frames = [.pairWait]
  | .select => frames = [.pairWait]
  | .waiting _ _ => frames = [.pairWait]
  | .readDecision => frames = [.pairWait]
  | .record _ => frames = [.pairWait]
  | .resetDelay => frames = [.pairWait]
  | .verdict .confirm => frames = [.pairWait]
  | .verdict (.deny _) => frames.any isConfirm = false
  | .busyAcceptBi => frames.any isConfirm = false
  | .busySend => frames.any isConfirm = false
  | _ => frames.any isConfirm = true → frames = [.pairWait, cfg.frame .confirm]

/-- What a step writes. -/
def effectFrames : Effect Text → List PairingFrame
  | .write f => [f]
  | _ => []

theorem framesOn_perform (sh : InviteShared Text) (i j : ℕ) (remote : PublicKey)
    (eff : Effect Text) :
    framesOn (sh.perform T cfg i remote eff) j =
      framesOn sh j ++ if i = j then effectFrames eff else [] := by
  cases eff with
  | write f =>
    simp only [framesOn, InviteShared.perform, List.filter_append, List.map_append, effectFrames]
    by_cases hij : i = j
    · simp [hij]
    · simp [hij]
  | _ => simp [framesOn, InviteShared.perform, effectFrames]

/-- Frames without a confirmation meet what a handler past its verdict owes. -/
private theorem no_confirm {frames : List PairingFrame} (h : frames.any isConfirm = false) :
    frames.any isConfirm = true → frames = [.pairWait, cfg.frame .confirm] := by
  intro hany
  rw [h] at hany
  exact absurd hany (by simp)

/-- The frames of a connection follow its handler. -/
theorem framesAt_move {sh : InviteShared Text} {remote : PublicKey}
    {ev : HandlerEvent Text} {pc pc' : HandlerPc} {eff : Effect Text}
    (h : HandlerMove T cfg sh remote ev pc pc' eff) {frames : List PairingFrame}
    (hf : FramesAt cfg frames pc) : FramesAt cfg (frames ++ effectFrames eff) pc' := by
  cases h with
  | handshake hs =>
    cases hs <;> (rw [show frames = [] from hf]) <;> first | rfl | exact no_confirm rfl
  | sentWait hok => rw [show frames = [] from hf]; rfl
  | sendWaitFailed => rw [show frames = [] from hf]; exact no_confirm rfl
  -- from `PAIR_WAIT` up to the verdict nothing else is written
  | emit | listen | woken | timedOut | approved | denied | noDecision | alreadyRecorded
  | recorded | recordFailed | resetDelay =>
    rw [show frames = [.pairWait] from hf]
    rfl
  | gone w since => rw [show frames = [.pairWait] from hf]; exact no_confirm rfl
  | wrote v clock hok =>
    cases v with
    | confirm => rw [show frames = [.pairWait] from hf]; exact fun _ => rfl
    | deny reason =>
      refine no_confirm ?_
      rw [List.any_append, show frames.any isConfirm = false from hf]
      rfl
  | writeFailed v clock ok hev hno =>
    cases v with
    | confirm => rw [show frames = [.pairWait] from hf]; exact no_confirm rfl
    | deny reason =>
      rw [show effectFrames (Effect.none : Effect Text) = [] from rfl, List.append_nil]
      exact no_confirm hf
  | acked v since =>
    rw [show effectFrames (Effect.none : Effect Text) = [] from rfl, List.append_nil]
    exact hf
  | finish v =>
    have hnone : effectFrames (afterAck remote v : Effect Text) = [] := by
      cases v with
      | confirm => rfl
      | deny reason => cases reason <;> rfl
    rw [hnone, List.append_nil]
    exact hf
  | reject =>
    rw [show effectFrames (Effect.escalate : Effect Text) = [] from rfl, List.append_nil]
    exact hf
  | release =>
    rw [show effectFrames (Effect.releaseSlot : Effect Text) = [] from rfl, List.append_nil]
    exact hf
  | refuse hr =>
    rw [show effectFrames (Effect.none : Effect Text) = [] from rfl, List.append_nil]
    cases hr with
    | acceptBi => exact hf
    | acceptBiFailed => exact no_confirm hf
    | writeFailed clock => exact no_confirm hf
    | acked since => exact hf
  | refused clock =>
    refine no_confirm ?_
    rw [List.any_append, show frames.any isConfirm = false from hf]
    rfl

/-- A handler that owes a confirmation writes it, if it fits a frame and no write fails. -/
theorem confirming_move {sh : InviteShared Text} {remote : PublicKey} {ev : HandlerEvent Text}
    {pc pc' : HandlerPc} {eff : Effect Text} (h : HandlerMove T cfg sh remote ev pc pc' eff)
    (hfit : (cfg.toVec (cfg.frame .confirm)).length ≤ maxControlFrame)
    (hwrite : ∀ ok, ev = .write ok → ok = true ∧ sh.endpointClosed = false)
    (hpc : pc.confirming = true) :
    pc'.confirming = true ∨ (effectFrames eff).any isConfirm = true := by
  cases h with
  | resetDelay => exact .inl rfl
  | wrote v clock hok =>
    cases v with
    | confirm => exact .inr rfl
    | deny reason => exact absurd hpc (by simp [HandlerPc.confirming])
  | writeFailed v clock ok hev hno =>
    cases v with
    | confirm =>
      obtain ⟨rfl, hopen⟩ := hwrite ok hev
      have henc := (encodeFrame_isOk cfg.toVec (cfg.frame .confirm).msgType _).mpr hfit
      rw [InviteShared.canWrite, hopen, henc] at hno
      exact absurd hno (by simp)
    | deny reason => exact absurd hpc (by simp [HandlerPc.confirming])
  | handshake hs => cases hs <;> exact absurd hpc (by simp [HandlerPc.confirming])
  | refuse hr => cases hr <;> exact absurd hpc (by simp [HandlerPc.confirming])
  | _ => exact absurd hpc (by simp [HandlerPc.confirming])

/-- A call of `add_peer` that succeeds leaves its peer in the table. -/
theorem ok_left_move {sh : InviteShared Text} {remote : PublicKey} {ev : HandlerEvent Text}
    {pc pc' : HandlerPc} {eff : Effect Text} (h : HandlerMove T cfg sh remote ev pc pc' eff)
    {i : ℕ} {a : AddPeer} (ha : a ∈ (sh.perform T cfg i remote eff).adds) :
    a ∈ sh.adds ∨ (a.ok = true → a.left = true) := by
  cases h with
  | recorded answers pairedAt lastSeen fault hev hrec hadd =>
    rw [perform_addPeer_ok hadd] at ha
    refine (List.mem_append.mp ha).imp id (fun hnew _ => ?_)
    rw [List.mem_singleton.mp hnew]
    exact writes_of_addPeer_ok hadd
  | recordFailed answers pairedAt lastSeen fault e hev hrec hadd =>
    rw [perform_addPeer_error hadd] at ha
    refine (List.mem_append.mp ha).imp id (fun hnew hok => ?_)
    rw [List.mem_singleton.mp hnew] at hok
    exact absurd hok (by simp)
  | finish v =>
    obtain ⟨delay, outcomes, heq⟩ := perform_afterAck T cfg sh i remote v
    rw [heq] at ha
    exact .inl ha
  | _ => exact .inl ha

/-! ### The invariant -/

/-- The frames of every connection follow its handler, and a client in the table is confirmed
    or about to be. -/
structure AgreementInv (cfg : InviteCfg) (s : Invite Text) : Prop where
  frames : ∀ i c, s.conns[i]? = some c → FramesAt cfg (framesOn s.shared i) c.pc
  unspawned : ∀ i, s.conns.length ≤ i → framesOn s.shared i = []
  put : ∀ a ∈ s.shared.adds, a.left = true → ∃ c, s.conns[a.conn]? = some c ∧
    (c.pc.confirming = true ∨ (framesOn s.shared a.conn).any isConfirm = true)
  ok_left : ∀ a ∈ s.shared.adds, a.ok = true → a.left = true

theorem AgreementInv.conn {s s' : Invite Text} {i : ℕ} {ev : HandlerEvent Text}
    (hfit : (cfg.toVec (cfg.frame .confirm)).length ≤ maxControlFrame)
    (h : AgreementInv cfg s) (hC : Faultless s (.conn i ev))
    (hn : s.next T cfg (.conn i ev) = some s') : AgreementInv cfg s' := by
  obtain ⟨c, pc, eff, hc, hmove, rfl⟩ := next_conn hn
  obtain ⟨hlt, -⟩ := List.getElem?_eq_some_iff.mp hc
  have hwrite : ∀ ok, ev = .write ok → ok = true ∧ s.shared.endpointClosed = false := by
    rintro ok rfl
    exact hC
  have hsave : ∀ pairedAt lastSeen fault, ev = .record pairedAt lastSeen fault →
      writes s.shared.state.inner
        (.addPeer ⟨cfg.name, c.remote.display, pairedAt, lastSeen⟩) = true → fault = none := by
    rintro pairedAt lastSeen fault rfl -
    exact hC
  refine ⟨?_, ?_, ?_, fun a ha => (ok_left_move hmove ha).elim (h.ok_left a) id⟩
  · intro j d hd
    simp only [framesOn_perform]
    rcases getElem?_set_cases hd with ⟨rfl, rfl⟩ | ⟨hne, hd⟩
    · rw [if_pos rfl]
      exact framesAt_move hmove (h.frames i c hc)
    · rw [if_neg hne, List.append_nil]
      exact h.frames j d hd
  · intro j hj
    rw [List.length_set] at hj
    simp only [framesOn_perform]
    rw [if_neg (by omega), List.append_nil]
    exact h.unspawned j hj
  · intro a ha hleft
    simp only [framesOn_perform, List.any_append, Bool.or_eq_true]
    rcases hmove.left_new hsave ha hleft with hold | hpc'
    · -- an older call: its handler writes the confirmation it owes, or has written it
      obtain ⟨d, hd, hpos⟩ := h.put a hold hleft
      obtain ⟨d', hd', -, ⟨hia, rfl, hpc⟩ | ⟨-, rfl⟩⟩ := getElem?_set_remote pc hc hd
      · refine ⟨d', hd', ?_⟩
        rcases hpos with hconf | hany
        · rw [hpc, if_pos hia]
          exact (confirming_move hmove hfit hwrite hconf).imp id .inr
        · exact .inr (.inl hany)
      · exact ⟨d', hd', hpos.imp id .inl⟩
    · -- the call just made: its handler now owes the confirmation
      rcases hmove.adds_new ha with hold | ⟨-, hconn, -, -⟩
      · obtain ⟨d, hd, hpos⟩ := h.put a hold hleft
        obtain ⟨d', hd', -, ⟨-, rfl, hpc⟩ | ⟨-, rfl⟩⟩ := getElem?_set_remote pc hc hd
        · exact ⟨d', hd', .inl (by rw [hpc, hpc']; rfl)⟩
        · exact ⟨d', hd', hpos.imp id .inl⟩
      · rw [hconn]
        exact ⟨_, List.getElem?_set_self hlt, .inl (by simp only [hpc']; rfl)⟩

theorem AgreementInv.loop {s s' : Invite Text} {ev : LoopEvent} (h : AgreementInv cfg s)
    (hn : s.next T cfg (.loop ev) = some s') : AgreementInv cfg s' := by
  obtain ⟨pc, eff, -, -, rfl⟩ := next_loop hn
  obtain ⟨hadds, -, hwrote⟩ := perform_loop_shared cfg { s with loop := pc } eff
  have hframes : ∀ j, framesOn (Invite.perform cfg { s with loop := pc } eff).shared j
      = framesOn s.shared j := by
    intro j
    simp only [framesOn, hwrote]
  refine ⟨?_, ?_, ?_, by rw [hadds]; exact h.ok_left⟩
  · intro j d hd
    rw [hframes]
    rcases perform_conns_get hd with ⟨c, hc, rfl | rfl⟩ | ⟨hj, -, hnew⟩
    · exact h.frames j d hc
    · rw [PairConn.wake_congr (f := FramesAt cfg (framesOn s.shared j)) (fun _ _ => rfl)]
      exact h.frames j c hc
    · rw [h.unspawned j (Nat.le_of_eq hj.symm)]
      rcases hnew with hpc | hpc <;> rw [hpc] <;> rfl
  · -- a loop step does not shorten the list of connections
    intro j hj
    rw [hframes]
    refine h.unspawned j (Nat.le_trans ?_ hj)
    by_contra hlt
    obtain ⟨c, hc⟩ : ∃ c, s.conns[(Invite.perform cfg { s with loop := pc } eff).conns.length]?
        = some c := ⟨_, List.getElem?_eq_getElem (by omega)⟩
    obtain ⟨c', hc', -⟩ := perform_conns_keep cfg { s with loop := pc } eff hc
    simp at hc'
  · intro a ha hleft
    rw [hadds] at ha
    rw [hframes]
    obtain ⟨c, hc, hpos⟩ := h.put a ha hleft
    obtain ⟨c', hc', -, hkeep⟩ := perform_conns_keep cfg { s with loop := pc } eff hc
    exact ⟨c', hc', hpos.imp (hkeep (fun pc => pc.confirming = true) (fun _ _ => rfl)) id⟩

theorem agreementInv (hfit : (cfg.toVec (cfg.frame .confirm)).length ≤ maxControlFrame)
    {s : Invite Text} (h : Reach (Invite.system T cfg) Faultless s) : AgreementInv cfg s := by
  refine Invite.reach_invariant (fun state clock => ?_) (fun s s' hsame hi => ?_)
    (fun _ _ _ _ hi _ hn => hi.loop hn) (fun _ _ _ _ _ hi hC hn => hi.conn hfit hC hn) h
  · exact ⟨by simp [Invite.start], fun _ _ => rfl, by simp [Invite.start], by simp [Invite.start]⟩
  · obtain ⟨_, _, _, _, _, rfl⟩ := hsame
    exact ⟨hi.frames, hi.unspawned, hi.put, hi.ok_left⟩

/-! ### Every run -/

/-- A frame on connection `i` was written there. -/
theorem mem_framesOn {sh : InviteShared Text} {i : ℕ} {f : PairingFrame} :
    f ∈ framesOn sh i ↔ ⟨i, f⟩ ∈ sh.wrote := by
  simp only [framesOn, List.mem_map, List.mem_filter, beq_iff_eq]
  constructor
  · rintro ⟨w, ⟨hw, rfl⟩, rfl⟩
    exact hw
  · intro hw
    exact ⟨_, ⟨hw, rfl⟩, rfl⟩

/-- Once its handler is done, a client is in the table iff it was sent `PAIR_WAIT` and
    `PAIR_CONFIRM`. -/
theorem paired_iff_confirmed (hfit : (cfg.toVec (cfg.frame .confirm)).length ≤ maxControlFrame)
    {s : Invite Text} (h : Reach (Invite.system T cfg) Faultless s) {i : ℕ} {c : PairConn}
    (hc : s.conns[i]? = some c) (hdone : c.pc = .done) :
    Paired cfg s i c.remote ↔ framesOn s.shared i = [.pairWait, cfg.frame .confirm] := by
  have hinv := agreementInv hfit h
  have hat : FramesAt cfg (framesOn s.shared i) .done := hdone ▸ hinv.frames i c hc
  constructor
  · -- a handler that is done owes nothing, so the confirmation has been written
    rintro ⟨a, ha, hconn, hleft, -, -⟩
    obtain ⟨d, hd, hpos⟩ := hinv.put a ha hleft
    rw [hconn] at hd hpos
    have hcd : d = c := Option.some.inj (hd.symm.trans hc)
    rcases hpos with hconf | hany
    · rw [hcd, hdone] at hconf
      exact absurd hconf (by simp [HandlerPc.confirming])
    · exact hat hany
  · intro hframes
    have hmem : cfg.frame .confirm ∈ framesOn s.shared i := by rw [hframes]; simp
    obtain ⟨d, hd, a, ha, hconn, hok, hname, hid⟩ :=
      (confirmInv h).written _ (mem_framesOn.mp hmem) rfl
    have hcd : d = c := Option.some.inj (hd.symm.trans hc)
    exact ⟨a, ha, hconn, hinv.ok_left a ha hok, hname, by rw [hid, hcd]⟩

/-- **Pairing agreement.** In every run with no message lost and no write failing, once the
    handler of connection `i` has ended and its client has run on the frames it was sent, for
    every content of the client's `servers.toml`, invite name and alias: the server has put the
    client into its table iff it sent it `PAIR_CONFIRM`; the client has stored the server iff
    in addition its `servers.toml` loads and its alias is not bound to a different server; and
    otherwise its `servers.toml` is unchanged. -/
theorem pairing_agreement (T : Toml PersistedState Text) (cfg : InviteCfg)
    (TC : Toml ClientStore ClientText) (fromBytes : Bytes32 → Option PublicKey)
    (hkey : fromBytes cfg.serverNodeId.asBytes = some cfg.serverNodeId)
    (hfit : (cfg.toVec (cfg.frame .confirm)).length ≤ maxControlFrame)
    {s : Invite Text} (h : Reach (Invite.system T cfg) Faultless s) {i : ℕ} {c : PairConn}
    (hc : s.conns[i]? = some c) (hdone : c.pc = .done) (params : PairParams) (pairedAt : String)
    (disk : Files ClientText) :
    (Paired cfg s i c.remote ↔ framesOn s.shared i = [.pairWait, cfg.frame .confirm]) ∧
      (StoredServer TC cfg.serverNodeId
          (run TC fromBytes params (delivered (framesOn s.shared i) pairedAt) disk) ↔
        Paired cfg s i c.remote ∧
          AliasFree TC disk (params.name.getD cfg.name) cfg.serverNodeId) ∧
      (¬ StoredServer TC cfg.serverNodeId
          (run TC fromBytes params (delivered (framesOn s.shared i) pairedAt) disk) →
        (run TC fromBytes params (delivered (framesOn s.shared i) pairedAt) disk).1 = disk) := by
  have hpaired := paired_iff_confirmed hfit h hc hdone
  refine ⟨hpaired, ?_⟩
  by_cases hframes : framesOn s.shared i = [.pairWait, cfg.frame .confirm]
  · -- confirmed: the client's own registry decides
    have hrun : run TC fromBytes params (delivered (framesOn s.shared i) pairedAt) disk =
        storeServer TC params (delivered (framesOn s.shared i) pairedAt) cfg.serverNodeId cfg.name
          disk := by
      refine run_confirmed rfl ?_ ?_ hkey <;> rw [hframes] <;> rfl
    obtain ⟨hstored, hleft⟩ := storeServer_spec TC params disk cfg.serverNodeId cfg.name
      (show (delivered (framesOn s.shared i) pairedAt).readError = none from rfl) rfl
    rw [hrun]
    refine ⟨hstored.trans ⟨fun hfree => ⟨hpaired.mpr hframes, hfree⟩, fun hboth => hboth.2⟩,
      fun hnot => ?_⟩
    obtain ⟨e, he⟩ := hleft (fun hfree => hnot (hstored.mpr hfree))
    rw [he]
  · -- not confirmed: whatever came instead, the client stops at it
    have herror : ∃ e, run TC fromBytes params (delivered (framesOn s.shared i) pairedAt) disk =
        (disk, .error e) := by
      refine run_cases.resolve_left ?_
      rintro ⟨bytes, name, serverId, hverdict, -, -⟩
      have hread : received (framesOn s.shared i) 1
          = .ok (typePairConfirm, .pairConfirm bytes name) := Option.some.inj hverdict
      simp only [received] at hread
      split at hread
      · rename_i f hf
        have hfc : f = .pairConfirm bytes name := (Prod.mk.inj (Except.ok.inj hread)).2
        have hany : (framesOn s.shared i).any isConfirm = true :=
          List.any_eq_true.mpr ⟨f, List.mem_of_getElem? hf, by rw [hfc]; rfl⟩
        have hat : FramesAt cfg (framesOn s.shared i) .done :=
          hdone ▸ (agreementInv hfit h).frames i c hc
        exact hframes (hat hany)
      · exact absurd hread (by simp)
    obtain ⟨e, he⟩ := herror
    rw [he]
    exact ⟨⟨fun hs => absurd hs not_storedServer_error,
      fun hboth => absurd (hpaired.mp hboth.1) hframes⟩, fun _ => rfl⟩

/-- What `pairedRun` leaves for the client: its handler is done, and it was sent `PAIR_WAIT`
    and `PAIR_CONFIRM`. -/
theorem pairedRun_delivers : ∃ s c,
    Reach (Invite.system (.self PersistedState) laptopInvite) Faultless s ∧
      s.conns[0]? = some c ∧ c.pc = .done ∧
      framesOn s.shared 0 = [.pairWait, laptopInvite.frame .confirm] := by
  have hrun : (exec (Invite.system (.self PersistedState) laptopInvite)
      (fun s a => decide (Faultless s a))
      (.start .fresh 0) pairedRun).map (fun s => (s.conns[0]?, framesOn s.shared 0)) =
        some (some ⟨vectorKey0, .done⟩, [.pairWait, laptopInvite.frame .confirm]) := by
    decide +kernel
  obtain ⟨s, hr, hs⟩ :=
    reach_of_exec_map (fun _ _ => of_decide_eq_true) hrun (.init ⟨.fresh, 0, rfl⟩)
  obtain ⟨hconn, hframes⟩ := Prod.mk.inj hs
  exact ⟨s, _, hr, hconn, rfl, hframes⟩

theorem laptop_confirm_fits :
    (laptopInvite.toVec (laptopInvite.frame .confirm)).length ≤ maxControlFrame := by
  decide +kernel

/-- A client without a `servers.toml` stores the server of `pairedRun`. -/
theorem pairing_agreement_laptop : ∃ s c,
    Reach (Invite.system (.self PersistedState) laptopInvite) Faultless s ∧
      s.conns[0]? = some c ∧ Paired laptopInvite s 0 c.remote ∧
      StoredServer (.self ClientStore) vectorKey2
        (run (.self ClientStore) (fun bytes => some ⟨bytes⟩) ⟨none⟩
          (delivered (framesOn s.shared 0) "t") .empty) := by
  obtain ⟨s, c, hr, hc, hdone, hframes⟩ := pairedRun_delivers
  obtain ⟨hpaired, hstored, -⟩ := pairing_agreement (.self PersistedState) laptopInvite
    (.self ClientStore) (fun bytes => some ⟨bytes⟩) rfl laptop_confirm_fits hr hc hdone ⟨none⟩ "t"
    .empty
  exact ⟨s, c, hr, hc, hpaired.mpr hframes,
    hstored.mpr ⟨hpaired.mpr hframes, ⟨1, []⟩, rfl, rfl⟩⟩

/-- A `servers.toml` in which the invite's name is another server. -/
def laptopTaken : Files ClientStore :=
  ⟨some ⟨1, [⟨"laptop", vectorKey1.display, "t", []⟩]⟩, none⟩

/-- The server has recorded the client, and the client refuses to store the server. -/
theorem recorded_but_not_stored : ∃ s c,
    Reach (Invite.system (.self PersistedState) laptopInvite) Faultless s ∧
      s.conns[0]? = some c ∧ c.pc = .done ∧ Paired laptopInvite s 0 c.remote ∧
      (run (.self ClientStore) (fun bytes => some ⟨bytes⟩) ⟨none⟩
        (delivered (framesOn s.shared 0) "t") laptopTaken).2 = .error (.fs (.nameInUse "laptop")) ∧
      ¬ StoredServer (.self ClientStore) vectorKey2
        (run (.self ClientStore) (fun bytes => some ⟨bytes⟩) ⟨none⟩
          (delivered (framesOn s.shared 0) "t") laptopTaken) := by
  obtain ⟨s, c, hr, hc, hdone, hframes⟩ := pairedRun_delivers
  have hpaired := (paired_iff_confirmed laptop_confirm_fits hr hc hdone).mpr hframes
  have hrun : run (.self ClientStore) (fun bytes => some ⟨bytes⟩) ⟨none⟩
      (delivered [.pairWait, laptopInvite.frame .confirm] "t") laptopTaken
        = (laptopTaken, .error (.fs (.nameInUse "laptop"))) := by
    decide +kernel
  refine ⟨s, c, hr, hc, hdone, hpaired, ?_⟩
  rw [hframes, hrun]
  exact ⟨rfl, not_storedServer_error⟩

end Tmite.Pairing
