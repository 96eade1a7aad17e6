import Tmite.Daemon.InviteResult

namespace Tmite.Daemon

open Tmite.Core Tmite.Proto Transition TaskList

/-!
# The connection that issued an invite (`daemon/ipc.rs`)

`handle_conn` reads request lines until end of file or a malformed line, drops its sender of
replies and waits for its writer.  The `dispatch` task of `peer.invite` has a sender of its own
and waits for the invite's result; `InviteShared` has a third.  None of them is read by
`invite_serve`, which ends early only when its command channel closes, and the sender of that
channel is in the manager's `entries` until the invite itself removes it.  So an end of file
leaves the invite running, for any client that connects and any IPC connection that decides.

`eof_cancels` says what the closed connection's invite can still do: what it is used for.
-/

universe v
variable {Text : Type v} {T : Toml PersistedState Text} {cfg : InviteCfg}

/-! ### The model -/

/-- A line read by `handle_conn`.  A request is dispatched in a task of its own; what that task
    does to the invite or the store is a step of these. -/
inductive IpcLine
  | blank
  | request
  | malformed
deriving DecidableEq

/-- When `handle_conn` left its read loop: how many decisions had been sent for the invite, and
    how many pair connections taken in. -/
structure EofMark where
  requested : ℕ
  conns : ℕ
deriving DecidableEq

/-- An invite with the connection that issued it. -/
structure IssuedInvite (Text : Type v) where
  invite : Invite Text
  /-- `handle_conn` is in its read loop, and holds its `tx`. -/
  reading : Bool
  /-- `dispatch_invite` awaits the result, and holds a clone of `tx`. -/
  dispatching : Bool
  /-- The writer task runs. -/
  writing : Bool
  eof : Option EofMark
deriving DecidableEq

/-- `InviteShared`, and with it `event_tx`, is held by the loop, by a handler or by the entry. -/
def Invite.sharedHeld (s : Invite Text) : Bool :=
  s.loop != .done || s.conns.any (fun c => c.pc.holdsSlot) || s.entry

/-- `handle_conn` leaves its read loop and drops its `tx`. -/
def IssuedInvite.leave (s : IssuedInvite Text) : IssuedInvite Text :=
  { s with reading := false, eof := some ⟨s.invite.requested, s.invite.conns.length⟩ }

/-- The steps of the invite, of all that surrounds it, and of its connection. -/
inductive IssuedAct (Text : Type v)
  | invite (a : InviteAct Text)
  | line (l : IpcLine)
  /-- `next_line` returns `Ok(None)` or an error. -/
  | eof
  /-- `created.result` has arrived; `dispatch` replies and ends. -/
  | reply
  | writeFails
  /-- `rx.recv` returns `None`. -/
  | drained

/-- A step, where it is enabled. -/
def IssuedInvite.next (T : Toml PersistedState Text) (cfg : InviteCfg) (s : IssuedInvite Text) :
    IssuedAct Text → Option (IssuedInvite Text)
  | .invite a => (s.invite.next T cfg a).map fun invite => { s with invite := invite }
  | .line .malformed => if s.reading then some s.leave else none
  | .line _ => if s.reading then some s else none
  | .eof => if s.reading then some s.leave else none
  | .reply =>
    if s.dispatching && !s.invite.results.isEmpty then some { s with dispatching := false }
    else none
  | .writeFails => if s.writing then some { s with writing := false } else none
  | .drained =>
    if s.writing && !s.reading && !s.dispatching && !s.invite.sharedHeld then
      some { s with writing := false }
    else none

/-- An invite that has just been created for a connection. -/
def IssuedInvite.start (state : State Text) (clock : ℕ) : IssuedInvite Text :=
  ⟨.start state clock, true, true, true, none⟩

/-- The issued invite as a transition system. -/
def IssuedInvite.system (T : Toml PersistedState Text) (cfg : InviteCfg) :
    System (IssuedInvite Text) (IssuedAct Text) :=
  ⟨fun s => ∃ state clock, s = IssuedInvite.start state clock, IssuedInvite.next T cfg⟩

/-- Its connection is gone, and no decision had been sent for it. -/
def IssuedInvite.ClosedUndecided (s : IssuedInvite Text) (e : EofMark) : Prop :=
  s.eof = some e ∧ e.requested = 0

/-- The loop takes in no pair connection and stores no accept once the connection was closed
    undecided. -/
def UnusedAfterEof (s : IssuedInvite Text) : IssuedAct Text → Prop
  | .invite (.loop _) => ∀ e, s.ClosedUndecided e →
      (∀ remote, s.invite.loop ≠ .claim remote) ∧
        ∀ d, s.invite.loop = .setDecision d → d.accept = false
  | _ => True

instance (s : IssuedInvite Text) (a : IssuedAct Text) : Decidable (UnusedAfterEof s a) :=
  match a with
  | .invite (.loop _) =>
    decidable_of_iff (∀ e ∈ s.eof, e.requested = 0 → (∀ remote ∈ s.invite.loop.claimant, False) ∧
        ∀ d ∈ s.invite.loop.storing, d.accept = false)
      (forall_congr' fun e => by
        simp only [Option.mem_def, LoopPc.claimant_eq_some, LoopPc.storing_eq_some,
          IssuedInvite.ClosedUndecided, and_imp, ne_eq])
  | .invite (.tick _) | .invite (.store _) | .invite (.request _) | .invite (.dispatch _)
  | .invite (.conn _ _) | .line _ | .eof | .reply | .writeFails | .drained =>
    inferInstanceAs (Decidable True)

/-! ### Nothing tells the loop -/

/-- The sender of the commands is there for as long as the loop polls them. -/
def EntryInv (s : Invite Text) : Prop := s.loop ≠ .done → s.entry = true

theorem EntryInv.loop {s s' : Invite Text} {ev : LoopEvent} (h : EntryInv s)
    (hn : s.next T cfg (.loop ev) = some s') : EntryInv s' := by
  obtain ⟨pc, eff, -, hmove, rfl⟩ := next_loop hn
  intro hpc
  rw [perform_loop_pc] at hpc
  unfold EntryInv at h
  generalize s.loop = pc₀ at hmove h
  cases hmove with
  | remove => exact absurd rfl hpc
  | claim remote =>
    simp only [Invite.perform]
    split <;> exact h (by simp)
  | finish o =>
    simp only [Invite.perform]
    split <;> exact h (by simp)
  | _ => exact h (by simp)

/-- In every run the loop finds its command channel open, so `Outcome::Cancelled` is never the
    outcome of a closed channel. -/
theorem cmds_open {C : Invite Text → InviteAct Text → Prop} {s : Invite Text}
    (h : Reach (Invite.system T cfg) C s) (hpoll : s.loop = .pollCmd) : s.entry = true := by
  have hinv : EntryInv s := by
    refine Invite.reach_invariant (fun state clock _ => rfl) (fun s s' hsame hi => ?_)
      (fun _ _ _ _ hi _ hn => hi.loop hn) (fun s i ev s' _ hi _ hn => ?_) h
    · obtain ⟨_, _, _, _, _, rfl⟩ := hsame
      exact hi
    · obtain ⟨c, pc, eff, -, -, rfl⟩ := next_conn hn
      exact hi
  exact hinv (by simp [hpoll])

/-! ### An invite nobody accepts -/

/-- No accept is stored, no handler is about to record its client, and none has. -/
structure Unapproved (s : Invite Text) : Prop where
  decision : s.shared.decision ≠ some true
  record : ∀ c ∈ s.conns, c.pc.atRecord = false
  adds : s.shared.adds = []

/-- A handler that is about to record its client has just read an accept. -/
theorem HandlerMove.atRecord_true {sh : InviteShared Text} {remote : PublicKey}
    {ev : HandlerEvent Text} {pc pc' : HandlerPc} {eff : Effect Text}
    (h : HandlerMove T cfg sh remote ev pc pc' eff) (hpc' : pc'.atRecord = true) :
    sh.decision = some true := by
  cases hp : pc' with
  | record k => exact (h.atRecord hp).2.1
  | _ => rw [hp] at hpc'; exact absurd hpc' (by simp [HandlerPc.atRecord])

theorem Unapproved.conn {s s' : Invite Text} {i : ℕ} {ev : HandlerEvent Text} (h : Unapproved s)
    (hn : s.next T cfg (.conn i ev) = some s') : Unapproved s' := by
  obtain ⟨c, pc, eff, hc, hmove, rfl⟩ := next_conn hn
  refine ⟨?_, fun d hd => ?_, ?_⟩
  · rw [(perform_decision T cfg s.shared i c.remote eff).1]
    exact h.decision
  · rcases List.mem_or_eq_of_mem_set hd with hold | rfl
    · exact h.record d hold
    · by_contra hrec
      exact h.decision (hmove.atRecord_true (by simpa using hrec))
  · -- an `add_peer` is made by a handler at `record`, and there is none
    refine List.eq_nil_iff_forall_not_mem.mpr (fun a ha => ?_)
    rcases hmove.adds_new ha with hold | ⟨hpc, -⟩
    · rw [h.adds] at hold
      exact absurd hold (by simp)
    · have hno := h.record c (List.mem_of_getElem? hc)
      rw [hpc] at hno
      exact absurd hno (by simp [HandlerPc.atRecord])

theorem Unapproved.loop {s s' : Invite Text} {ev : LoopEvent} (h : Unapproved s)
    (hset : ∀ d, s.loop = .setDecision d → d.accept = false)
    (hn : s.next T cfg (.loop ev) = some s') : Unapproved s' := by
  obtain ⟨pc, eff, -, hmove, rfl⟩ := next_loop hn
  obtain ⟨hadds, -, -⟩ := perform_loop_shared cfg { s with loop := pc } eff
  refine ⟨?_, fun d hd => ?_, by rw [hadds]; exact h.adds⟩
  · by_cases heff : ∃ d, eff = .setDecision d
    · -- what is stored is not an accept
      obtain ⟨d, rfl⟩ := heff
      simp [Invite.perform, hset d hmove.at_setDecision]
    · rw [(perform_loop_decision cfg { s with loop := pc } eff
        (fun d hd => heff ⟨d, hd⟩)).1]
      exact h.decision
  · by_contra hrec
    obtain ⟨c, hc, -, hpc⟩ := perform_conns_old hd (p := HandlerPc.atRecord) (fun _ _ => rfl)
      rfl rfl (by simpa using hrec)
    rw [h.record c hc] at hpc
    exact absurd hpc (by simp)

/-- The steps of an invite keep it unapproved, but for the storing of an accept. -/
theorem Unapproved.next {s s' : Invite Text} {a : InviteAct Text} (h : Unapproved s)
    (hset : ∀ ev, a = .loop ev → ∀ d, s.loop = .setDecision d → d.accept = false)
    (hn : s.next T cfg a = some s') : Unapproved s' := by
  cases a with
  | loop ev => exact h.loop (hset ev rfl) hn
  | conn i ev => exact h.conn hn
  | _ =>
    obtain ⟨_, _, _, _, _, rfl⟩ := next_other hn (by simp) (by simp)
    exact ⟨h.decision, h.record, h.adds⟩

/-! ### An invite nobody has decided on -/

/-- No decision is on its way or in the loop's hands, and none was applied. -/
structure Undecided (s : Invite Text) : Prop where
  requests : s.requests = []
  cmds : s.cmds = []
  loop : ∀ d, s.loop ≠ .setDecision d
  unapproved : Unapproved s

/-- The commands are the loop's to take. -/
theorem perform_cmds (cfg : InviteCfg) (s : Invite Text) (eff : LoopEffect) :
    (s.perform cfg eff).requested = s.requested ∧ (s.perform cfg eff).requests = s.requests ∧
      (s.cmds = [] → (s.perform cfg eff).cmds = []) := by
  cases eff with
  | popCmd => exact ⟨rfl, rfl, fun h => by simp [Invite.perform, h]⟩
  | claimAndSpawn remote =>
    simp only [Invite.perform]
    split <;> exact ⟨rfl, rfl, fun h => h⟩
  | sendResult r =>
    simp only [Invite.perform]
    split <;> exact ⟨rfl, rfl, fun h => h⟩
  | _ => exact ⟨rfl, rfl, fun h => h⟩

theorem Undecided.loopStep {s s' : Invite Text} {ev : LoopEvent} (h : Undecided s)
    (hn : s.next T cfg (.loop ev) = some s') : Undecided s' := by
  have hunapproved : Unapproved s' :=
    h.unapproved.loop (fun d hd => absurd hd (h.loop d)) hn
  obtain ⟨pc, eff, -, hmove, rfl⟩ := next_loop hn
  obtain ⟨-, hrequests, hcmds⟩ := perform_cmds cfg { s with loop := pc } eff
  refine ⟨by rw [hrequests]; exact h.requests, hcmds h.cmds, fun d => ?_, hunapproved⟩
  rw [perform_loop_pc]
  rintro rfl
  obtain ⟨-, rest, hcmds⟩ := hmove.takes
  rw [h.cmds] at hcmds
  exact absurd hcmds (by simp)

/-- As long as no decision is sent, none is there. -/
theorem Undecided.next {s s' : Invite Text} {a : InviteAct Text} (h : Undecided s)
    (hn : s.next T cfg a = some s') (hreq : s'.requested = 0) : Undecided s' := by
  cases a with
  | loop ev => exact h.loopStep hn
  | conn i ev =>
    have hunapproved := h.unapproved.conn hn
    obtain ⟨c, pc, eff, -, -, rfl⟩ := next_conn hn
    exact ⟨h.requests, h.cmds, h.loop, hunapproved⟩
  | tick ms =>
    have hunapproved := h.unapproved.next (by simp) hn
    cases hn
    exact ⟨h.requests, h.cmds, h.loop, hunapproved⟩
  | store c =>
    have hunapproved := h.unapproved.next (by simp) hn
    simp only [Invite.next] at hn
    split at hn
    · exact absurd hn (by simp)
    · cases hn
      exact ⟨h.requests, h.cmds, h.loop, hunapproved⟩
  | request d =>
    cases hn
    simp at hreq
  | dispatch k =>
    -- there is no request to dispatch
    obtain ⟨d, hd, -⟩ := Option.map_eq_some_iff.mp hn
    rw [h.requests] at hd
    simp at hd

/-! ### The requests and the connections of an invite -/

section Next

variable {s s' : Invite Text} {a : InviteAct Text}

/-- The requests sent are only counted up. -/
theorem requested_le (hn : s.next T cfg a = some s') : s.requested ≤ s'.requested := by
  cases a with
  | tick ms => cases hn; exact Nat.le_refl _
  | store c =>
    simp only [Invite.next] at hn
    split at hn
    · exact absurd hn (by simp)
    · cases hn; exact Nat.le_refl _
  | request d => cases hn; exact Nat.le_succ _
  | dispatch k =>
    obtain ⟨d, -, rfl⟩ := Option.map_eq_some_iff.mp hn
    exact Nat.le_refl _
  | loop ev =>
    obtain ⟨pc, eff, -, -, rfl⟩ := next_loop hn
    exact Nat.le_of_eq (perform_cmds cfg { s with loop := pc } eff).1.symm
  | conn i ev =>
    obtain ⟨c, pc, eff, -, -, rfl⟩ := next_conn hn
    exact Nat.le_refl _

/-- Connections are taken in by the loop, at `claim`. -/
theorem conns_length_eq (hn : s.next T cfg a = some s')
    (hclaim : ∀ ev, a = .loop ev → ∀ remote, s.loop ≠ .claim remote) :
    s'.conns.length = s.conns.length := by
  cases a with
  | loop ev =>
    obtain ⟨pc, eff, -, hmove, rfl⟩ := next_loop hn
    cases eff with
    | claimAndSpawn remote => exact absurd hmove.at_claim (hclaim ev rfl remote)
    | notifyWaiters => simp [Invite.perform]
    | sendResult r =>
      simp only [Invite.perform]
      split <;> rfl
    | _ => rfl
  | conn i ev =>
    obtain ⟨c, pc, eff, -, -, rfl⟩ := next_conn hn
    simp
  | _ =>
    obtain ⟨_, _, _, _, _, rfl⟩ := next_other hn (by simp) (by simp)
    rfl

end Next

/-! ### The invariant -/

/-- Before the first decision nothing is approved; and nothing is approved or taken in after the
    connection was closed undecided. -/
structure EofInv (s : IssuedInvite Text) : Prop where
  undecided : s.invite.requested = 0 → Undecided s.invite
  closed : ∀ e, s.ClosedUndecided e → s.invite.conns.length ≤ e.conns ∧ Unapproved s.invite

theorem EofInv.leave {s : IssuedInvite Text} (h : EofInv s) : EofInv s.leave := by
  refine ⟨h.undecided, ?_⟩
  rintro e ⟨heof, hreq⟩
  have he : ⟨s.invite.requested, s.invite.conns.length⟩ = e := Option.some.inj heof
  rw [← he] at hreq ⊢
  exact ⟨Nat.le_refl _, (h.undecided hreq).unapproved⟩

theorem EofInv.invite {s : IssuedInvite Text} {a : InviteAct Text} {invite : Invite Text}
    (h : EofInv s) (hC : UnusedAfterEof s (.invite a))
    (hn : s.invite.next T cfg a = some invite) : EofInv { s with invite := invite } := by
  refine ⟨fun hreq => ?_, fun e he => ?_⟩
  · have hle := requested_le hn
    have hreq : invite.requested = 0 := hreq
    exact (h.undecided (by omega)).next hn hreq
  · obtain ⟨hlen, hunapproved⟩ := h.closed e he
    refine ⟨?_, hunapproved.next (fun ev ha => ?_) hn⟩
    · show invite.conns.length ≤ e.conns
      rw [conns_length_eq hn (fun ev ha => ?_)]
      · exact hlen
      · subst ha
        exact (hC e he).1
    · subst ha
      exact (hC e he).2

theorem EofInv.next {s s' : IssuedInvite Text} {a : IssuedAct Text} (h : EofInv s)
    (hC : UnusedAfterEof s a) (hn : s.next T cfg a = some s') : EofInv s' := by
  unfold IssuedInvite.next at hn
  split at hn
  · -- a step of the invite, or of what surrounds it
    obtain ⟨invite, hinvite, rfl⟩ := Option.map_eq_some_iff.mp hn
    exact h.invite hC hinvite
  · -- a malformed line
    split at hn
    · cases hn; exact h.leave
    · exact absurd hn (by simp)
  · split at hn
    · cases hn; exact h
    · exact absurd hn (by simp)
  · -- end of file
    split at hn
    · cases hn; exact h.leave
    · exact absurd hn (by simp)
  · split at hn
    · cases hn; exact ⟨h.undecided, h.closed⟩
    · exact absurd hn (by simp)
  · split at hn
    · cases hn; exact ⟨h.undecided, h.closed⟩
    · exact absurd hn (by simp)
  · split at hn
    · cases hn; exact ⟨h.undecided, h.closed⟩
    · exact absurd hn (by simp)

theorem eofInv {s : IssuedInvite Text}
    (h : Reach (IssuedInvite.system T cfg) UnusedAfterEof s) : EofInv s := by
  refine h.invariant ?_ (fun s a s' _ hi hC hn => hi.next hC hn)
  rintro s ⟨state, clock, rfl⟩
  refine ⟨fun _ => ⟨rfl, rfl, by simp [IssuedInvite.start, Invite.start], ?_⟩, ?_⟩
  · exact ⟨by simp [IssuedInvite.start, Invite.start], by simp [IssuedInvite.start, Invite.start],
      rfl⟩
  · rintro e ⟨heof, -⟩
    exact absurd heof (by simp [IssuedInvite.start])

/-- The invite of a connection takes the steps of an invite. -/
theorem reach_invite {C : IssuedInvite Text → IssuedAct Text → Prop} {s : IssuedInvite Text}
    (h : Reach (IssuedInvite.system T cfg) C s) :
    Reach (Invite.system T cfg) anyStep s.invite := by
  refine h.invariant (I := fun s => Reach (Invite.system T cfg) anyStep s.invite) ?_
    (fun s a s' _ hr _ hn => ?_)
  · rintro s ⟨state, clock, rfl⟩
    exact .init ⟨state, clock, rfl⟩
  · have hn : s.next T cfg a = some s' := hn
    unfold IssuedInvite.next at hn
    split at hn
    · obtain ⟨invite, hinvite, rfl⟩ := Option.map_eq_some_iff.mp hn
      exact .step hr trivial hinvite
    all_goals
      split at hn
      · cases hn; exact hr
      · exact absurd hn (by simp)

/-! ### Every run -/

/-- **A closed connection's invite.** In every run in which the loop takes in no pair connection
    and stores no accept after the issuing connection was closed undecided, whatever other IPC
    connections and clients do: no connection taken in after that is sent `PAIR_WAIT`, and no
    peer is ever recorded through the invite. -/
theorem eof_cancels (T : Toml PersistedState Text) (cfg : InviteCfg) {s : IssuedInvite Text}
    {e : EofMark} (h : Reach (IssuedInvite.system T cfg) UnusedAfterEof s)
    (he : s.ClosedUndecided e) :
    (∀ w ∈ s.invite.shared.wrote, w.frame = .pairWait → w.conn < e.conns) ∧
      s.invite.shared.adds = [] := by
  obtain ⟨hlen, hunapproved⟩ := (eofInv h).closed e he
  refine ⟨fun w hw hwait => ?_, hunapproved.adds⟩
  obtain ⟨c, hc, -⟩ := (confirmInv (reach_invite h)).waits w hw hwait
  obtain ⟨hlt, -⟩ := List.getElem?_eq_some_iff.mp hc
  omega

/-- The invite's steps, for the whole. -/
def issuedSteps (as : List (InviteAct PersistedState)) : List (IssuedAct PersistedState) :=
  as.map .invite

/-- The admin leaves while a client waits, and the prompt's timeout ends the wait. -/
def abandonedRun : List (IssuedAct PersistedState) :=
  issuedSteps (.loop (.build true) :: takeConn vectorKey0 ++ reachPrompt 0) ++ [.eof] ++
    issuedSteps [.tick promptTimeout, .conn 0 .promptTimeout, .conn 0 (.write true)]

/-- The client that waited is denied, and nothing else happens. -/
theorem eof_cancels_abandoned : ∃ s e,
    Reach (IssuedInvite.system (.self PersistedState) laptopInvite) UnusedAfterEof s ∧
      s.ClosedUndecided e ∧
      s.invite.shared.wrote = [⟨0, .pairWait⟩, ⟨0, .pairDeny .expired⟩] ∧
      s.invite.shared.adds = [] := by
  have hrun : (exec (IssuedInvite.system (.self PersistedState) laptopInvite)
      (fun s a => decide (UnusedAfterEof s a))
      (.start .fresh 0) abandonedRun).map (fun s => (s.eof, s.invite.shared.wrote)) =
        some (some ⟨0, 1⟩, [⟨0, .pairWait⟩, ⟨0, .pairDeny .expired⟩]) := by
    decide +kernel
  obtain ⟨s, hr, hs⟩ :=
    reach_of_exec_map (fun _ _ => of_decide_eq_true) hrun (.init ⟨.fresh, 0, rfl⟩)
  obtain ⟨heof, hwrote⟩ := Prod.mk.inj hs
  exact ⟨s, ⟨0, 1⟩, hr, ⟨heof, rfl⟩, hwrote,
    (eof_cancels (.self PersistedState) laptopInvite hr ⟨heof, rfl⟩).2⟩

/-- The admin leaves at once; a client connects, and another IPC connection accepts it. -/
def outlivedRun : List (IssuedAct PersistedState) :=
  issuedSteps [.loop (.build true)] ++ [.eof] ++
    issuedSteps (takeConn vectorKey0 ++ reachPrompt 0 ++ answerPrompt 0 true ++
      recordAndConfirm 0)

/-- The invite outlives its connection: the client is told to wait, recorded and confirmed. -/
theorem eof_outlived : ∃ s e,
    Reach (IssuedInvite.system (.self PersistedState) laptopInvite) anyStep s ∧
      s.ClosedUndecided e ∧ e.conns = 0 ∧
      s.invite.shared.wrote = [⟨0, .pairWait⟩, ⟨0, laptopInvite.frame .confirm⟩] ∧
      s.invite.shared.adds = [⟨0, ⟨"laptop", vectorKey0.display, "t", "t"⟩, 0, true, true⟩] := by
  have hrun : (exec (IssuedInvite.system (.self PersistedState) laptopInvite) (fun _ _ => true)
      (.start .fresh 0) outlivedRun).map
        (fun s => (s.eof, s.invite.shared.wrote, s.invite.shared.adds)) =
      some (some ⟨0, 0⟩, [⟨0, .pairWait⟩, ⟨0, laptopInvite.frame .confirm⟩],
        [⟨0, ⟨"laptop", vectorKey0.display, "t", "t"⟩, 0, true, true⟩]) := by
    decide +kernel
  obtain ⟨s, hr, hs⟩ := reach_of_exec_map (fun _ _ _ => trivial) hrun (.init ⟨.fresh, 0, rfl⟩)
  simp only [Prod.mk.injEq] at hs
  obtain ⟨heof, hwrote, hadds⟩ := hs
  exact ⟨s, ⟨0, 0⟩, hr, ⟨heof, rfl⟩, rfl, hwrote, hadds⟩

end Tmite.Daemon
