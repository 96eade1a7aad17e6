import Tmite.Pairing.InviteCmd

namespace Tmite.Pairing

open Tmite.Core Tmite.Proto Tmite.Daemon Transition Serde

/-!
# Whom the invite of the command records

A decision goes to an invite, not to a client: it is for whoever has its prompt out when it is
stored, and for whoever sends its prompt while it is.  `RunCurrent` is the condition of
`InviteApproval` on the invite of the command.  Under it the yes is for the key that was on the
screen:

* `recorded_by_yes` — whoever the invite records is the client whose key the command showed with the
  prompt that was answered with yes.  With `--yes` the command answers so by itself.
-/

universe v
variable {Text : Type v}

/-- An accept is stored only while the connection that has its prompt out is the node it was given
    for, and no prompt is sent under an accept for another node. -/
def RunCurrent (s : InviteRun Text) : InviteRunAct Text → Prop
  | .daemon (.invite _ a) => ∀ cfg inv, s.invite = some (cfg, inv) → AnswersCurrent inv a
  | _ => True

instance (s : InviteRun Text) (a : InviteRunAct Text) : Decidable (RunCurrent s a) :=
  match a with
  | .daemon (.invite _ a) =>
    decidable_of_iff (∀ i ∈ s.invite, AnswersCurrent i.2 a) Prod.forall
  | .daemon (.line _) | .daemon .eof | .daemon (.dispatch _ _) | .daemon (.create _ _ _ _)
  | .daemon (.reply _) | .daemon (.write _) | .deliver | .reply _ | .replyUnsent _ | .closed =>
    inferInstanceAs (Decidable True)

/-! ### A step of one command -/

section Run

variable {T : Toml PersistedState Text} {paramsError : Value → String} {yes : Bool}
  {s s' : InviteRun Text}

/-- What a step of the command, its connection or its invite does to the invite. -/
inductive InviteChange (T : Toml PersistedState Text) (paramsError : Value → String)
    (s s' : InviteRun Text) : InviteRunAct Text → Prop
  | same {a : InviteRunAct Text} : s'.invite = s.invite → InviteChange T paramsError s s' a
  | created {cfg : InviteCfg} {state : State Text} {clock : ℕ} {r : IpcRequest} :
      s.lines[0]? = some r → (inviteName paramsError r.params).toOption = some cfg.name →
      s'.invite = some (cfg, .start state clock) →
      InviteChange T paramsError s s' (.daemon (.create 0 cfg state clock))
  | moved {cfg : InviteCfg} {inv inv' : Invite Text} {b : InviteAct Text} :
      s.invite = some (cfg, inv) → inv.next T cfg b = some inv' → s'.invite = some (cfg, inv') →
      InviteChange T paramsError s s' (.daemon (.invite 0 b))
  | asked {a : InviteRunAct Text} {cfg : InviteCfg} {inv inv' : Invite Text} {d : Decide} :
      s.invite = some (cfg, inv) → inv.next T cfg (.request d) = some inv' →
      s'.invite = some (cfg, inv') → InviteChange T paramsError s s' a

theorem create_name {k : ℕ} {cfg : InviteCfg} {state : State Text} {clock : ℕ}
    {session session' : IpcSession Text}
    (h : session.next T paramsError (.create k cfg state clock) = some session') :
    ∃ t, session.tasks[k]? = some t ∧
      (inviteName paramsError t.request.params).toOption = some cfg.name := by
  obtain ⟨t, ht, hrest⟩ := Option.bind_eq_some_iff.mp h
  split at hrest
  · rename_i hok
    exact ⟨t, ht, hok.2.2.2⟩
  · exact absurd hrest (by simp)

/-- The daemon by itself. -/
theorem daemon_change (h : CmdInv T s) {a : IpcAct Text} {session : IpcSession Text}
    (hn : s.session.next T paramsError a = some session) (hown : ownStep a = true) :
    InviteChange T paramsError s { s with session := session } (.daemon a) := by
  obtain ⟨l, rfl, -, -⟩ | ⟨rfl, rfl⟩ | ⟨k, t, t', new, ht, hmove, rfl⟩ | ⟨ok, rfl, -, rfl⟩ :=
    ipcSession_step hn
  · exact absurd hown (by simp [ownStep])
  · exact .same rfl
  · cases hmove with
    | dispatch outcome r hrep hnone => exact .same (invite_advance ht rfl)
    | create cfg state clock hrep hparse =>
      obtain rfl := h.lines.parse ht hparse
      obtain ⟨t₁, ht₁, hname⟩ := create_name hn
      exact .created (h.lines.tasks 0 t₁ ht₁) hname (invite_advance_zero ht)
    | invite cfg inv inv' b hinv hstep =>
      cases k with
      | zero => exact .moved ((invite_of_task ht).trans hinv) hstep (invite_advance_zero ht)
      | succ k =>
        rw [h.lines.alone k t ht] at hinv
        exact absurd hinv (by simp)
    | reply cfg inv r hrep hinv hr => exact .same (invite_advance ht rfl)
  · cases ok <;> exact .same rfl

/-- The command takes what a reply leads to. -/
theorem take_change (a : InviteRunAct Text) (step : InviteStep) :
    InviteChange T paramsError s (s.take T paramsError step) a := by
  unfold InviteRun.take
  split
  · exact .same rfl
  · rename_i p hp
    cases hinv : s.invite with
    | none =>
      refine .same ?_
      have hsame : s.recordDecision T paramsError p = s.session := by
        have hbind : s.session.tasks[0]?.bind (·.invite) = none := hinv
        simp only [InviteRun.recordDecision, hbind]
      rw [hsame]
      rfl
    | some i =>
      obtain ⟨cfg, inv⟩ := i
      obtain ⟨t, ht, htinv⟩ := Option.bind_eq_some_iff.mp hinv
      by_cases hid : cfg.inviteId = p.inviteId
      · -- the decision goes to the invite it names
        obtain ⟨inviteId, accept⟩ := p
        cases hid
        refine .asked (d := ⟨accept, (promptsIn (s.session.replies.take s.read)).length⟩) hinv rfl
          ?_
        rw [recordDecision_eq ht htinv]
        exact invite_advance_zero (s := s) ht
      · refine .same ?_
        have hbind : s.session.tasks[0]?.bind (·.invite) = some (cfg, inv) := hinv
        have hsame : s.recordDecision T paramsError p = s.session := by
          simp only [InviteRun.recordDecision, hbind, if_neg hid]
        rw [hsame]
        rfl

/-- A step of the command, its connection or its invite. -/
theorem invite_change (h : CmdInv T s) {a : InviteRunAct Text}
    (hn : s.next T paramsError yes a = some s') : InviteChange T paramsError s s' a := by
  cases a with
  | deliver =>
    obtain ⟨r, hr, hrest⟩ := Option.bind_eq_some_iff.mp hn
    obtain ⟨session, hsession, rfl⟩ := Option.map_eq_some_iff.mp hrest
    simp only [IpcSession.next] at hsession
    split at hsession
    · cases hsession
      refine .same ?_
      show (s.session.tasks ++ [_])[0]?.bind (·.invite) = s.session.tasks[0]?.bind (·.invite)
      cases s.session.tasks <;> rfl
    · exact absurd hsession (by simp)
  | daemon a =>
    simp only [InviteRun.next] at hn
    split at hn
    · rename_i hown
      obtain ⟨session, hsession, rfl⟩ := Option.map_eq_some_iff.mp hn
      exact daemon_change h hsession hown
    · exact absurd hn (by simp)
  | reply answer =>
    simp only [InviteRun.next] at hn
    split at hn
    · cases hn
      exact take_change _ _
    · exact absurd hn (by simp)
  | replyUnsent answer =>
    simp only [InviteRun.next] at hn
    split at hn
    · split at hn
      · cases hn
        exact .same rfl
      · exact absurd hn (by simp)
    · exact absurd hn (by simp)
  | closed =>
    simp only [InviteRun.next] at hn
    split at hn
    · cases hn
      exact .same rfl
    · exact absurd hn (by simp)

/-- The command keeps what it sent and what it showed. -/
theorem run_grows {a : InviteRunAct Text} (hn : s.next T paramsError yes a = some s') :
    s.lines <+: s'.lines ∧ s.answered <+: s'.answered := by
  have htake : ∀ step, s.lines <+: (s.take T paramsError step).lines ∧
      s.answered <+: (s.take T paramsError step).answered := by
    intro step
    unfold InviteRun.take
    split
    · exact ⟨List.prefix_refl _, List.prefix_refl _⟩
    · exact ⟨List.prefix_append _ _, List.prefix_append _ _⟩
  cases a with
  | deliver =>
    obtain ⟨r, hr, hrest⟩ := Option.bind_eq_some_iff.mp hn
    obtain ⟨session, hsession, rfl⟩ := Option.map_eq_some_iff.mp hrest
    exact ⟨List.prefix_refl _, List.prefix_refl _⟩
  | daemon a =>
    simp only [InviteRun.next] at hn
    split at hn
    · obtain ⟨session, hsession, rfl⟩ := Option.map_eq_some_iff.mp hn
      exact ⟨List.prefix_refl _, List.prefix_refl _⟩
    · exact absurd hn (by simp)
  | reply answer =>
    simp only [InviteRun.next] at hn
    split at hn
    · cases hn
      exact htake _
    · exact absurd hn (by simp)
  | replyUnsent answer =>
    simp only [InviteRun.next] at hn
    split at hn
    · split at hn
      · cases hn
        exact ⟨List.prefix_refl _, List.prefix_refl _⟩
      · exact absurd hn (by simp)
    · exact absurd hn (by simp)
  | closed =>
    simp only [InviteRun.next] at hn
    split at hn
    · cases hn
      exact ⟨List.prefix_refl _, List.prefix_refl _⟩
    · exact absurd hn (by simp)

end Run

/-! ### Whom it records -/

section Recorded

variable {T : Toml PersistedState Text} {paramsError : Value → String} {yes : Bool}
  {s s' : InviteRun Text}

/-- What the invite of the command has come to, in states that meet the condition. -/
def CurrentInv (T : Toml PersistedState Text) (s : InviteRun Text) : Prop :=
  ∀ cfg inv, s.invite = some (cfg, inv) → Reach (Invite.system T cfg) AnswersCurrent inv

theorem CurrentInv.next (hcmd : CmdInv T s) (h : CurrentInv T s) {a : InviteRunAct Text}
    (hC : RunCurrent s a) (hn : s.next T paramsError yes a = some s') : CurrentInv T s' := by
  intro cfg inv hinv
  have hchange := invite_change hcmd hn
  cases hchange with
  | same hsame => exact h cfg inv (hsame ▸ hinv)
  | created hr hname hnew =>
    obtain ⟨rfl, rfl⟩ := Prod.mk.inj (Option.some.inj (hnew.symm.trans hinv))
    exact .init ⟨_, _, rfl⟩
  | moved hold hstep hnew =>
    obtain ⟨rfl, rfl⟩ := Prod.mk.inj (Option.some.inj (hnew.symm.trans hinv))
    exact .step (h _ _ hold) (hC _ _ hold) hstep
  | asked hold hstep hnew =>
    obtain ⟨rfl, rfl⟩ := Prod.mk.inj (Option.some.inj (hnew.symm.trans hinv))
    exact .step (a := .request _) (h _ _ hold) trivial hstep

/-- The prompt that was answered is the one of the client that is recorded. -/
theorem CmdInv.recorded (h : CmdInv T s) {cfg : InviteCfg} {inv : Invite Text}
    (hi : s.invite = some (cfg, inv)) (hreach : Reach (Invite.system T cfg) AnswersCurrent inv)
    {a : AddPeer} (ha : a ∈ inv.shared.adds) :
    ∃ key : PublicKey, a.peer.nodeId = key.display ∧
      inv.shared.prompts[a.answers]? = some key.display ∧
      s.answered[a.answers]? = some (shownFor key, true) := by
  obtain ⟨-, -, hjust, hshown⟩ := h.invite cfg inv hi
  have hyes := hjust.adds a ha
  rw [List.getElem?_map] at hyes
  obtain ⟨⟨shown, accept⟩, hget, rfl⟩ := Option.map_eq_some_iff.mp hyes
  obtain ⟨key, hkey, rfl⟩ := hshown _ _ hget
  have hprompt := (approvalInv hreach).adds a ha
  rw [hkey] at hprompt
  exact ⟨key, (Option.some.inj hprompt).symm, hkey, hget⟩

/-- **Nobody is recorded without a yes to its own key.**  In every run in which no accept is stored
    over another client's prompt and none is out when another client sends its prompt: for every
    client the invite records there is a prompt that the command showed with the key of that client,
    and that was answered with yes. -/
theorem recorded_by_yes (T : Toml PersistedState Text) (paramsError : Value → String)
    (yes : Bool) {s : InviteRun Text} (h : Reach (inviteCmdSystem T paramsError yes) RunCurrent s)
    {cfg : InviteCfg} {inv : Invite Text} (hi : s.invite = some (cfg, inv)) :
    ∀ a ∈ inv.shared.adds, ∃ key : PublicKey, a.peer.nodeId = key.display ∧
      inv.shared.prompts[a.answers]? = some key.display ∧
      s.answered[a.answers]? = some (shownFor key, true) := by
  obtain ⟨hcmd, hcurrent⟩ : CmdInv T s ∧ CurrentInv T s := by
    refine h.invariant (I := fun s => CmdInv T s ∧ CurrentInv T s) ?_
      (fun _ _ _ _ hinv hC hn => ⟨hinv.1.next hn, hinv.2.next hinv.1 hC hn⟩)
    rintro s ⟨name, ttl, rfl⟩
    exact ⟨cmdInv_start name ttl, fun cfg inv hinv => by
      simp [InviteRun.invite, InviteRun.start, IpcSession.start] at hinv⟩
  exact fun a ha => hcmd.recorded hi (hcurrent cfg inv hi) ha

/-- The client of `laptopCmdRun` was recorded on a yes to its key. -/
theorem recorded_by_yes_laptop : ∃ (s : InviteRun PersistedState) (cfg : InviteCfg)
    (inv : Invite PersistedState) (a : AddPeer) (key : PublicKey),
      Reach (inviteCmdSystem (.self PersistedState) (fun _ => "") false) RunCurrent s ∧
      s.invite = some (cfg, inv) ∧ inv.shared.adds = [a] ∧ a.peer.nodeId = key.display ∧
      (shownFor key, true) ∈ s.answered := by
  have hrun : (exec (inviteCmdSystem (.self PersistedState) (fun _ => "") false)
      (fun s a => decide (RunCurrent s a)) (.start "laptop" none) laptopCmdRun).map
        (fun s => s.invite.map (·.2.shared.adds.length)) = some (some 1) := by
    decide +kernel
  obtain ⟨s, hr, hview⟩ := reach_of_exec_map (fun _ _ => of_decide_eq_true) hrun
    (.init ⟨"laptop", none, rfl⟩)
  obtain ⟨⟨cfg, inv⟩, hinv, hone⟩ := Option.map_eq_some_iff.mp hview
  obtain ⟨a, ha⟩ := List.length_eq_one_iff.mp hone
  obtain ⟨key, hid, -, hyes⟩ := recorded_by_yes _ _ _ hr hinv a (ha ▸ List.mem_singleton_self a)
  exact ⟨s, cfg, inv, a, key, hr, hinv, ha, hid, List.mem_of_getElem? hyes⟩

end Recorded

end Tmite.Pairing
