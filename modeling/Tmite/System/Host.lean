import Tmite.Daemon.Backed
import Tmite.Pairing.InviteRecorded

namespace Tmite.System

open Tmite.Core Tmite.Proto Tmite.Daemon Tmite.Pairing Transition Serde

/-!
# The daemon with its admins

The parts of the daemon that other modules look at one by one, on the one store they share: the
data plane, and any number of `tmite admin peers invite` commands, each with its connection and its
invite.  The other admin commands and restarts are steps of the data plane's model.  A restart ends
every invite, so the commands of a process stay behind in `past` with what they had shown and sent.

`allowed` is a history variable: what `add_rule` was called with.
-/

universe v
variable {Text : Type v}

/-! ### The state -/

/-- `tmite admin peers invite`, with the name and the `--yes` of its command line. -/
structure Command (Text : Type v) where
  name : String
  yes : Bool
  run : InviteRun Text

structure Host (Text : Type v) where
  plane : DataPlane Text
  /-- The commands connected to this process of the daemon. -/
  commands : List (Command Text)
  past : List (Command Text)
  allowed : List (String × String)

inductive HostAct (Text : Type v)
  /-- An admin starts the command. -/
  | start (name : String) (ttl : Option ℕ) (yes : Bool)
  /-- Command `k`, its connection or its invite takes a step. -/
  | command (k : ℕ) (a : InviteRunAct Text)
  /-- The data plane, another admin command, or a restart. -/
  | plane (a : DataAct Text)

/-! ### The shared store -/

def taskOn (store : State Text) (t : IpcTask Text) : IpcTask Text :=
  { t with invite := t.invite.map fun i => (i.1, { i.2 with
      shared := { i.2.shared with state := store } }) }

/-- The invite of the command sees `store`. -/
def Command.on (store : State Text) (c : Command Text) : Command Text :=
  { c with run := { c.run with session := { c.run.session with
      tasks := c.run.session.tasks.map (taskOn store) } } }

/-- The daemon creates invites on its own store, and a command makes no one else's calls. -/
def onStore (store : State Text) : InviteRunAct Text → Option (InviteRunAct Text)
  | .daemon (.create k cfg _ clock) => some (.daemon (.create k cfg store clock))
  | .daemon (.invite _ (.store _)) => none
  | a => some a

/-- What the step asks `add_rule` for. -/
def allows : DataAct Text → List (String × String)
  | .admin ⟨.addRule name target _, _⟩ => [(name, target)]
  | _ => []

namespace Host

variable (T : Toml PersistedState Text) (paramsError : Value → String)

/-- Every part of the daemon sees `store`. -/
def share (h : Host Text) (store : State Text) : Host Text :=
  { h with
    plane := { h.plane with store := store }
    commands := h.commands.map (Command.on store) }

/-- A step of the data plane or of another admin command. -/
def planeNext (h : Host Text) : DataAct Text → Option (Host Text)
  -- peers come from invites only
  | .pair _ _ _ _ => none
  | .restart =>
    (h.plane.next T .restart).map fun plane =>
      { h with plane := plane, commands := [], past := h.past ++ h.commands }
  | a =>
    (h.plane.next T a).map fun plane =>
      { h with allowed := h.allowed ++ allows a, plane := plane }.share plane.store

/-- A step, where it is enabled. -/
def next (h : Host Text) : HostAct Text → Option (Host Text)
  | .start name ttl yes =>
    some { h with commands := h.commands ++ [⟨name, yes, .start name ttl⟩] }
  | .command k a =>
    h.commands[k]?.bind fun c => (onStore h.plane.store a).bind fun a =>
      (c.run.next T paramsError c.yes a).map fun run =>
        { h with commands := h.commands.set k { c with run := run } }.share
          (run.invite.elim h.plane.store (·.2.shared.state))
  | .plane a => h.planeNext T a

end Host

/-- The daemon and everyone around it, from a daemon that has never run. -/
def hostSystem (T : Toml PersistedState Text) (paramsError : Value → String) :
    System (Host Text) (HostAct Text) where
  init h := h = ⟨.initial, [], [], []⟩
  next := Host.next T paramsError

/-- In every invite, an accept is stored only while the connection that has its prompt out is the
    node it was given for, and no prompt is sent under an accept for another node. -/
def EachCurrent (h : Host Text) : HostAct Text → Prop
  | .command k (.daemon (.invite _ a)) => ∀ c cfg inv, h.commands[k]? = some c →
      c.run.invite = some (cfg, inv) → AnswersCurrent inv a
  | _ => True

instance (h : Host Text) (a : HostAct Text) : Decidable (EachCurrent h a) :=
  match a with
  | .command k (.daemon (.invite _ a)) =>
    decidable_of_iff (∀ c ∈ h.commands[k]?, ∀ i ∈ c.run.invite, AnswersCurrent i.2 a)
      ⟨fun h c cfg inv hc hinv => h c hc (cfg, inv) hinv,
        fun h c hc i hi => h c i.1 i.2 hc hi⟩
  | .command _ (.daemon (.line _)) | .command _ (.daemon .eof)
  | .command _ (.daemon (.dispatch _ _)) | .command _ (.daemon (.create _ _ _ _))
  | .command _ (.daemon (.reply _)) | .command _ (.daemon (.write _)) | .command _ .deliver
  | .command _ (.reply _) | .command _ (.replyUnsent _) | .command _ .closed | .start _ _ _
  | .plane _ => inferInstanceAs (Decidable True)

/-! ### What holds of each command -/

/-- The invite of the command is one of those `InviteApproval` speaks of, on the daemon's store and
    under the name on the command line. -/
structure CommandInv (T : Toml PersistedState Text) (store : State Text) (c : Command Text) :
    Prop where
  cmd : CmdInv T c.run
  line : ∃ ttl, c.run.lines[0]? = some (AdminRequest.toRequest 1 (.invite c.name ttl))
  invite : ∀ cfg inv, c.run.invite = some (cfg, inv) → cfg.name = trim c.name ∧
    inv.shared.state = store ∧ Reach (Invite.system T cfg) AnswersCurrent inv

section Command

variable {T : Toml PersistedState Text} {paramsError : Value → String} {store : State Text}
  {c : Command Text}

theorem commandInv_start (store : State Text) (name : String) (ttl : Option ℕ) (yes : Bool) :
    CommandInv T store ⟨name, yes, .start name ttl⟩ :=
  ⟨cmdInv_start name ttl, ⟨ttl, rfl⟩, by
    simp [InviteRun.invite, InviteRun.start, IpcSession.start]⟩

/-- The daemon invites under the trimmed name of the command line. -/
theorem inviteName_invite {name name' : String} {ttl : Option ℕ}
    (h : (inviteName paramsError (AdminRequest.invite name ttl).params).toOption = some name') :
    name' = trim name := by
  obtain ⟨v, hv⟩ : ∃ v, (AdminRequest.invite name ttl).params =
      .obj [("name", .str name), ("ttl", v)] := by
    cases ttl <;> exact ⟨_, rfl⟩
  simp only [inviteName, hv, InviteParams.fromValue_obj] at h
  cases httl : asTtl v with
  | none => simp [httl, Except.toOption] at h
  | some ttl' =>
    simp only [httl, Option.map_some] at h
    split at h
    · simp [Except.toOption] at h
    · simpa [Except.toOption] using h.symm

theorem taskOn_eq_self {t : IpcTask Text}
    (h : ∀ cfg inv, t.invite = some (cfg, inv) → inv.shared.state = store) :
    taskOn store t = t := by
  cases hinv : t.invite with
  | none => rw [taskOn, hinv, Option.map_none, ← hinv]
  | some i =>
    obtain ⟨cfg, inv⟩ := i
    rw [taskOn, hinv, Option.map_some, ← h cfg inv hinv, ← hinv]

/-- No task but the first has an invite that could see the store. -/
theorem LinesInv.taskOn_succ (h : LinesInv c.run) {k : ℕ} {t : IpcTask Text}
    (ht : c.run.session.tasks[k + 1]? = some t) : taskOn store t = t :=
  taskOn_eq_self (fun cfg inv hinv => by simp [h.alone k t ht] at hinv)

theorem LinesInv.map_taskOn (h : LinesInv c.run) {t : IpcTask Text}
    (ht : c.run.session.tasks[0]? = some t) :
    c.run.session.tasks.map (taskOn store) = c.run.session.tasks.set 0 (taskOn store t) := by
  refine List.ext_getElem? (fun k => ?_)
  rw [List.getElem?_map]
  cases k with
  | zero => rw [ht, List.getElem?_set_self (List.getElem?_eq_some_iff.mp ht).1, Option.map_some]
  | succ k =>
    rw [List.getElem?_set_ne (by simp)]
    cases hu : c.run.session.tasks[k + 1]? with
    | none => rfl
    | some u => rw [Option.map_some, LinesInv.taskOn_succ h hu]

/-- A command whose invite sees the store already, or that has none yet. -/
theorem on_eq_self (h : LinesInv c.run)
    (hstore : ∀ cfg inv, c.run.invite = some (cfg, inv) → inv.shared.state = store) :
    c.on store = c := by
  have htasks : c.run.session.tasks.map (taskOn store) = c.run.session.tasks := by
    refine (List.map_congr_left (fun t ht => ?_)).trans (List.map_id _)
    obtain ⟨k, hk⟩ := List.mem_iff_getElem?.mp ht
    cases k with
    | zero =>
      exact taskOn_eq_self (fun cfg inv hinv => hstore cfg inv ((invite_of_task hk).trans hinv))
    | succ k => exact LinesInv.taskOn_succ h hk
  rw [Command.on, htasks]

/-- Another part of the daemon has called the store. -/
theorem CommandInv.called (h : CommandInv T store c) {call : Call Text}
    (hcall : call.op ≠ .restart) :
    CommandInv T (store.call T call).1 (c.on (store.call T call).1) := by
  cases hinv : c.run.invite with
  | none =>
    rw [on_eq_self h.cmd.lines (by simp [hinv])]
    exact ⟨h.cmd, h.line, by simp [hinv]⟩
  | some i =>
    obtain ⟨cfg, inv⟩ := i
    obtain ⟨t, ht, htinv⟩ := Option.bind_eq_some_iff.mp hinv
    obtain ⟨hname, hstate, hreach⟩ := h.invite cfg inv hinv
    -- to the invite it is a call by another task
    have hstep : inv.next T cfg (.store call) = some { inv with
        shared := { inv.shared with state := (inv.shared.state.call T call).1 } } := by
      simp only [Invite.next, if_neg hcall]
    have hcmd := h.cmd.inviteStep ht htinv hstep (by simp)
    simp only [List.drop_length, List.map_nil, hstate] at hcmd
    have hrun : (c.on (store.call T call).1).run = { c.run with
        session := c.run.session.advance 0 { t with invite := some (cfg, { inv with
          shared := { inv.shared with state := (store.call T call).1 } }) } [] } := by
      simp only [Command.on, LinesInv.map_taskOn h.cmd.lines ht, taskOn, htinv, Option.map_some,
        IpcSession.advance, List.append_nil]
    refine ⟨by rw [hrun]; exact hcmd, h.line, fun cfg' inv' hinv' => ?_⟩
    rw [hrun, invite_advance_zero ht] at hinv'
    cases hinv'
    refine ⟨hname, rfl, ?_⟩
    rw [hstate] at hstep
    exact .step (a := .store call) hreach trivial hstep

/-- A handler calls the store only to add its client. -/
theorem move_state {cfg : InviteCfg} {sh : InviteShared Text} {remote : PublicKey}
    {ev : HandlerEvent Text} {pc pc' : HandlerPc} {eff : Effect Text}
    (h : HandlerMove T cfg sh remote ev pc pc' eff) (i : ℕ) :
    (sh.perform T cfg i remote eff).state = sh.state ∨
      ∃ a ∈ (sh.perform T cfg i remote eff).adds, ∃ fault, a.peer.name = cfg.name ∧
        (sh.perform T cfg i remote eff).state =
          (sh.state.call T ⟨.addPeer a.peer, fault⟩).1 := by
  cases h with
  | recorded answers pairedAt lastSeen fault hev hrec hadd =>
    rw [perform_addPeer_ok hadd]
    exact .inr ⟨_, List.mem_append_right _ List.mem_cons_self, fault, rfl, rfl⟩
  | recordFailed answers pairedAt lastSeen fault e hev hrec hadd =>
    rw [perform_addPeer_error hadd]
    exact .inr ⟨_, List.mem_append_right _ List.mem_cons_self, fault, rfl, rfl⟩
  | finish v =>
    obtain ⟨delay, outcomes, heq⟩ := perform_afterAck T cfg sh i remote v
    rw [heq]
    exact .inl rfl
  | _ => exact .inl rfl

/-- So does every step of an invite. -/
theorem state_of_next {cfg : InviteCfg} {inv inv' : Invite Text} {b : InviteAct Text}
    (hn : inv.next T cfg b = some inv') (hb : ∀ call, b ≠ .store call) :
    inv'.shared.state = inv.shared.state ∨ ∃ a ∈ inv'.shared.adds, ∃ fault,
      a.peer.name = cfg.name ∧
      inv'.shared.state = (inv.shared.state.call T ⟨.addPeer a.peer, fault⟩).1 := by
  cases b with
  | store call => exact absurd rfl (hb call)
  | tick ms => cases hn; exact .inl rfl
  | request d => cases hn; exact .inl rfl
  | dispatch k =>
    obtain ⟨d, -, rfl⟩ := Option.map_eq_some_iff.mp hn
    exact .inl rfl
  | loop ev =>
    obtain ⟨pc, eff, -, -, rfl⟩ := next_loop hn
    refine .inl ?_
    cases eff with
    | claimAndSpawn remote => simp only [Invite.perform]; split <;> rfl
    | sendResult r => simp only [Invite.perform]; split <;> rfl
    | _ => rfl
  | conn i ev =>
    obtain ⟨c, pc, eff, -, hmove, rfl⟩ := next_conn hn
    exact move_state hmove i

/-- Whoever the invite of the command added was on its screen, and the answer was yes. -/
theorem CommandInv.vouches (h : CommandInv T store c) {cfg : InviteCfg} {inv : Invite Text}
    (hinv : c.run.invite = some (cfg, inv)) {a : AddPeer} (ha : a ∈ inv.shared.adds) :
    ∃ node : PublicKey, a.peer.nodeId = node.display ∧ (shownFor node, true) ∈ c.run.answered := by
  obtain ⟨-, -, hreach⟩ := h.invite cfg inv hinv
  obtain ⟨node, hid, -, hyes⟩ := h.cmd.recorded hinv hreach ha
  exact ⟨node, hid, List.mem_of_getElem? hyes⟩

/-- What a step of the command leaves in the store: as it was, or with one call of `add_peer` for a
    client the command has vouched for. -/
def StoreChange (T : Toml PersistedState Text) (store store' : State Text) (c : Command Text) :
    Prop :=
  store' = store ∨ ∃ peer fault, ∃ node : PublicKey,
    store' = (store.call T ⟨.addPeer peer, fault⟩).1 ∧ peer.name = trim c.name ∧
      peer.nodeId = node.display ∧ (shownFor node, true) ∈ c.run.answered

theorem onStore_create {a : InviteRunAct Text} {k : ℕ} {cfg : InviteCfg} {state : State Text}
    {clock : ℕ} (h : onStore store a = some (.daemon (.create k cfg state clock))) :
    state = store := by
  unfold onStore at h
  split at h
  · cases h; rfl
  · exact absurd h (by simp)
  · rename_i hcreate hstore
    cases h
    exact absurd rfl (hcreate k cfg state clock)

theorem onStore_invite {a : InviteRunAct Text} {k : ℕ} {b : InviteAct Text}
    (h : onStore store a = some (.daemon (.invite k b))) :
    a = .daemon (.invite k b) ∧ ∀ call, b ≠ .store call := by
  unfold onStore at h
  split at h
  · exact absurd h (by simp)
  · exact absurd h (by simp)
  · rename_i hcreate hstore
    cases h
    exact ⟨rfl, fun call hb => hstore k call (by rw [hb])⟩

/-- **A step of one command.** -/
theorem CommandInv.next (h : CommandInv T store c) {a a' : InviteRunAct Text}
    {run : InviteRun Text} (hon : onStore store a = some a')
    (hcurrent : ∀ j b cfg inv, a = .daemon (.invite j b) → c.run.invite = some (cfg, inv) →
      AnswersCurrent inv b)
    (hn : c.run.next T paramsError c.yes a' = some run) :
    CommandInv T (run.invite.elim store (·.2.shared.state)) { c with run := run } ∧
      StoreChange T store (run.invite.elim store (·.2.shared.state)) { c with run := run } := by
  have hcmd := h.cmd.next hn
  obtain ⟨hlines, hanswered⟩ := run_grows hn
  obtain ⟨ttl, hline⟩ := h.line
  have hline' : ∃ ttl, run.lines[0]? = some (AdminRequest.toRequest 1 (.invite c.name ttl)) :=
    ⟨ttl, getElem?_of_prefix hlines hline⟩
  have hchange := invite_change h.cmd hn
  cases hchange with
  | same hsame =>
    cases hinv : c.run.invite with
    | none =>
      rw [hsame, hinv]
      exact ⟨⟨hcmd, hline', by simp [hsame, hinv]⟩, .inl rfl⟩
    | some i =>
      obtain ⟨cfg, inv⟩ := i
      obtain ⟨-, hstate, -⟩ := h.invite cfg inv hinv
      rw [hsame, hinv, Option.elim_some, hstate]
      refine ⟨⟨hcmd, hline', fun cfg' inv' hinv' => ?_⟩, .inl rfl⟩
      exact h.invite cfg' inv' (by rw [← hsame]; exact hinv')
  | created hr hname hnew =>
    obtain rfl := onStore_create hon
    rw [hline] at hr
    obtain rfl := Option.some.inj hr
    rw [hnew]
    refine ⟨⟨hcmd, hline', fun cfg' inv' hinv' => ?_⟩, .inl rfl⟩
    obtain ⟨rfl, rfl⟩ := Prod.mk.inj (Option.some.inj (hnew.symm.trans hinv'))
    exact ⟨inviteName_invite hname, rfl, .init ⟨_, _, rfl⟩⟩
  | moved hinv hstep hnew =>
    obtain ⟨rfl, hother⟩ := onStore_invite hon
    obtain ⟨hname, hstate, hreach⟩ := h.invite _ _ hinv
    have hinv' : CommandInv T (run.invite.elim store (·.2.shared.state)) { c with run := run } := by
      refine ⟨hcmd, hline', fun cfg' inv' hinv' => ?_⟩
      obtain ⟨rfl, rfl⟩ := Prod.mk.inj (Option.some.inj (hnew.symm.trans hinv'))
      rw [hnew]
      exact ⟨hname, rfl, .step hreach (hcurrent _ _ _ _ rfl hinv) hstep⟩
    refine ⟨hinv', ?_⟩
    rw [hnew, Option.elim_some]
    rcases state_of_next hstep hother with hsame | ⟨a, ha, fault, hpeer, hcall⟩
    · exact .inl (hsame.trans hstate)
    · obtain ⟨node, hid, hyes⟩ := hinv'.vouches hnew ha
      rw [hstate] at hcall
      exact .inr ⟨a.peer, fault, node, hcall, hpeer.trans hname, hid, hyes⟩
  | asked hinv hstep hnew =>
    obtain ⟨hname, hstate, hreach⟩ := h.invite _ _ hinv
    rw [hnew]
    cases hstep
    refine ⟨⟨hcmd, hline', fun cfg' inv' hinv' => ?_⟩, .inl hstate⟩
    obtain ⟨rfl, rfl⟩ := Prod.mk.inj (Option.some.inj (hnew.symm.trans hinv'))
    exact ⟨hname, rfl, .step (a := .request _) hreach trivial rfl⟩

end Command

/-! ### What holds of the whole -/

/-- A command that was started for `name` showed the key of `node`, and that prompt was answered
    with yes. -/
def Host.Vouched (h : Host Text) (name : String) (node : PublicKey) : Prop :=
  ∃ c ∈ h.past ++ h.commands, name = trim c.name ∧ (shownFor node, true) ∈ c.run.answered

/-- `add_rule` was called for it. -/
def Host.Allowed (h : Host Text) (name target : String) : Prop := (name, target) ∈ h.allowed

structure HostInv (T : Toml PersistedState Text) (h : Host Text) : Prop where
  commands : ∀ c ∈ h.commands, CommandInv T h.plane.store c
  backed : Backed T h.Vouched h.Allowed h.plane

section Host

variable {T : Toml PersistedState Text} {paramsError : Value → String} {h h' : Host Text}

theorem Host.vouched_share (h : Host Text) (store : State Text) {name : String}
    {node : PublicKey} (hv : h.Vouched name node) : (h.share store).Vouched name node := by
  obtain ⟨c, hc, hname, hyes⟩ := hv
  rcases List.mem_append.mp hc with hpast | hnow
  · exact ⟨c, List.mem_append_left _ hpast, hname, hyes⟩
  · exact ⟨c.on store, List.mem_append_right _ (List.mem_map_of_mem hnow), hname, hyes⟩

/-- The command sees the store as it is. -/
theorem CommandInv.unchanged {store : State Text} {c : Command Text} (h : CommandInv T store c) :
    CommandInv T store (c.on store) := by
  rw [on_eq_self h.cmd.lines (fun cfg inv hinv => (h.invite cfg inv hinv).2.1)]
  exact h

/-- The command sees what another one did to the store. -/
theorem CommandInv.follows {store store' : State Text} {c c' : Command Text}
    (h : CommandInv T store c) (hchange : StoreChange T store store' c') :
    CommandInv T store' (c.on store') := by
  rcases hchange with rfl | ⟨peer, fault, node, rfl, -⟩
  · exact h.unchanged
  · exact h.called (by simp)

/-- A command that moves on is still known to have shown what it showed. -/
theorem Host.vouched_set {k : ℕ} {c : Command Text} {run : InviteRun Text}
    (hc : h.commands[k]? = some c) (hgrows : c.run.answered <+: run.answered) {name : String}
    {node : PublicKey} (hv : h.Vouched name node) :
    { h with commands := h.commands.set k { c with run := run } }.Vouched name node := by
  obtain ⟨c₀, hc₀, hname, hyes⟩ := hv
  rcases List.mem_append.mp hc₀ with hpast | hnow
  · exact ⟨c₀, List.mem_append_left _ hpast, hname, hyes⟩
  · obtain ⟨j, hj⟩ := List.mem_iff_getElem?.mp hnow
    by_cases hjk : k = j
    · subst hjk
      rw [hc] at hj
      obtain rfl := Option.some.inj hj
      refine ⟨{ c with run := run }, List.mem_append_right _ ?_, hname, hgrows.subset hyes⟩
      exact List.mem_set (List.getElem?_eq_some_iff.mp hc).1 _
    · refine ⟨c₀, List.mem_append_right _ (List.mem_of_getElem? (i := j) ?_), hname, hyes⟩
      rw [List.getElem?_set_ne hjk]
      exact hj

/-- A command takes a step. -/
theorem HostInv.command (hi : HostInv T h) {k : ℕ} {a : InviteRunAct Text}
    (hC : EachCurrent h (.command k a)) (hn : h.next T paramsError (.command k a) = some h') :
    HostInv T h' := by
  obtain ⟨c, hc, hn⟩ := Option.bind_eq_some_iff.mp hn
  obtain ⟨a', hon, hn⟩ := Option.bind_eq_some_iff.mp hn
  obtain ⟨run, hrun, rfl⟩ := Option.map_eq_some_iff.mp hn
  have hcommand := hi.commands c (List.mem_of_getElem? hc)
  have hcurrent : ∀ j b cfg inv, a = .daemon (.invite j b) →
      c.run.invite = some (cfg, inv) → AnswersCurrent inv b := by
    rintro j b cfg inv rfl hinv
    exact hC c cfg inv hc hinv
  obtain ⟨hmoved, hchange⟩ := hcommand.next hon hcurrent hrun
  generalize run.invite.elim h.plane.store (·.2.shared.state) = store' at hmoved hchange
  have hknown : ∀ name node, h.Vouched name node →
      ({ h with commands := h.commands.set k { c with run := run } }.share store').Vouched
        name node :=
    fun _ _ hv => Host.vouched_share _ _ (Host.vouched_set hc (run_grows hrun).2 hv)
  refine ⟨fun c₁ hc₁ => ?_, ?_⟩
  · obtain ⟨c₀, hc₀, rfl⟩ := List.mem_map.mp hc₁
    rcases List.mem_or_eq_of_mem_set hc₀ with hold | rfl
    · exact (hi.commands c₀ hold).follows hchange
    · exact hmoved.unchanged
  · have hbacked := hi.backed.mono hknown (B := h.Allowed) (fun _ _ ha => ha)
    rcases hchange with rfl | ⟨peer, fault, node, rfl, hname, hid, hyes⟩
    · exact hbacked
    · -- the peer added is the client that was shown
      refine hbacked.call ⟨fun peer' hop => ?_, by simp⟩
      cases hop
      exact ⟨node, hid, Host.vouched_share _ _ ⟨{ c with run := run }, List.mem_append_right _
        (List.mem_set (List.getElem?_eq_some_iff.mp hc).1 _), hname, hyes⟩⟩

/-- The call of a step of the data plane brings in no peer, and the rules it was asked for. -/
theorem op_of_plane {V : String → PublicKey → Prop} {A : String → String → Prop}
    {p p' : DataPlane Text} {a : DataAct Text} (hrestart : a ≠ .restart)
    (hpair : ∀ name remote now fault, a ≠ .pair name remote now fault)
    (hn : p.next T a = some p') {call : Call Text} (hcall : p.callOf a = some call) :
    call.op ≠ .restart ∧
      OpBacked V (fun name target => A name target ∨ (name, target) ∈ allows a) call.op := by
  cases a with
  | pair name remote now fault => exact absurd rfl (hpair name remote now fault)
  | restart => exact absurd rfl hrestart
  | admin c =>
    obtain ⟨op, fault⟩ := c
    simp only [DataPlane.next] at hn
    split at hn
    · rename_i hadmin
      cases hcall
      refine ⟨?_, ⟨?_, ?_⟩⟩
      · rintro rfl
        exact absurd hadmin (by simp [Op.isAdmin])
      · rintro peer rfl
        exact absurd hadmin (by simp [Op.isAdmin])
      · rintro name target now rfl
        exact .inr (by simp [allows])
    · exact absurd hn (by simp)
  | touchLastSeen i now fault =>
    obtain ⟨c, -, rfl⟩ := Option.map_eq_some_iff.mp hcall
    exact ⟨by simp, by simp, by simp⟩
  | _ => exact absurd hcall (by simp [DataPlane.callOf])

/-- The data plane or another admin command takes a step. -/
theorem HostInv.planeStep (hi : HostInv T h) {plane : DataPlane Text} {a : DataAct Text}
    (hrestart : a ≠ .restart) (hpair : ∀ name remote now fault, a ≠ .pair name remote now fault)
    (hn : h.plane.next T a = some plane) :
    HostInv T ({ h with allowed := h.allowed ++ allows a, plane := plane }.share plane.store) := by
  refine ⟨fun c hc => ?_, ?_⟩
  · obtain ⟨c₀, hc₀, rfl⟩ := List.mem_map.mp hc
    have hcommand := hi.commands c₀ hc₀
    show CommandInv T plane.store (c₀.on plane.store)
    rw [store_of_next hn]
    cases hcall : h.plane.callOf a with
    | none => exact hcommand.unchanged
    | some call =>
      exact hcommand.called
        (op_of_plane (V := h.Vouched) (A := h.Allowed) hrestart hpair hn hcall).1
  · have hmore : Backed T h.Vouched
        (fun name target => h.Allowed name target ∨ (name, target) ∈ allows a) h.plane :=
      hi.backed.mono (fun _ _ hv => hv) (fun _ _ ha => .inl ha)
    have hnext := hmore.next (fun call hcall => (op_of_plane hrestart hpair hn hcall).2) hn
    exact hnext.mono (fun _ _ hv => Host.vouched_share _ _ hv)
      (fun _ _ ha => List.mem_append.mpr ha)

/-- The daemon restarts. -/
theorem HostInv.restart (hi : HostInv T h) {plane : DataPlane Text}
    (hn : h.plane.next T .restart = some plane) :
    HostInv T { h with plane := plane, commands := [], past := h.past ++ h.commands } := by
  refine ⟨by simp, ?_⟩
  have hnext := hi.backed.next (fun call hcall => by cases hcall; exact ⟨by simp, by simp⟩) hn
  refine hnext.mono (fun name node hv => ?_) (fun _ _ ha => ha)
  obtain ⟨c, hc, hname, hyes⟩ := hv
  exact ⟨c, List.mem_append_left _ hc, hname, hyes⟩

theorem HostInv.next (hi : HostInv T h) {a : HostAct Text} (hC : EachCurrent h a)
    (hn : h.next T paramsError a = some h') : HostInv T h' := by
  cases a with
  | start name ttl yes =>
    cases hn
    refine ⟨fun c hc => ?_, hi.backed.mono (fun name node hv => ?_) (fun _ _ ha => ha)⟩
    · rcases List.mem_append.mp hc with hold | hnew
      · exact hi.commands c hold
      · rw [List.mem_singleton.mp hnew]
        exact commandInv_start _ name ttl yes
    · obtain ⟨c, hc, hname, hyes⟩ := hv
      refine ⟨c, ?_, hname, hyes⟩
      rw [← List.append_assoc]
      exact List.mem_append_left _ hc
  | command k a => exact hi.command hC hn
  | plane a =>
    simp only [Host.next, Host.planeNext] at hn
    split at hn
    · exact absurd hn (by simp)
    · obtain ⟨plane, hplane, rfl⟩ := Option.map_eq_some_iff.mp hn
      exact hi.restart hplane
    · rename_i hpair hrestart
      obtain ⟨plane, hplane, rfl⟩ := Option.map_eq_some_iff.mp hn
      exact hi.planeStep hrestart hpair hplane

end Host

/-- **Every dial was vouched for.**  In every run of the daemon with its admins, through restarts,
    failing saves and any number of invites, in which no invite stores an accept over another
    client's prompt, and no client sends its prompt while an accept that was given for another one
    is stored: whatever is dialled is dialled for a node whose key was shown at a prompt of
    `tmite admin peers invite` and answered with yes, under the name on that command line, and the
    target is one that name was allowed, by a rule that was in the table when the ACL was asked. -/
theorem dials_vouched (T : Toml PersistedState Text) (paramsError : Value → String) {h : Host Text}
    (hr : Reach (hostSystem T paramsError) EachCurrent h) :
    ∀ d ∈ h.plane.dials, ∃ name, h.Vouched name d.node ∧ h.Allowed name d.target ∧
      ∃ r ∈ d.table.rules, r.peer = name ∧ r.target = d.target := by
  have hinv : HostInv T h := hr.invariant
    (fun h h0 => by
      obtain rfl : h = ⟨.initial, [], [], []⟩ := h0
      exact ⟨by simp, backed_initial⟩)
    (fun _ _ _ _ hi hC hn => hi.next hC hn)
  intro d hd
  obtain ⟨r, hmem, htarget, hvouched, hallowed⟩ := hinv.backed.dials d hd
  rw [htarget] at hallowed
  exact ⟨r.peer, hvouched, hallowed, r, hmem, rfl, htarget⟩

/-- A laptop is invited, shown, accepted and allowed a target; then it connects and forwards. -/
def laptopForward : List (HostAct PersistedState) :=
  .start "laptop" none false :: laptopCmdRun.map (.command 0) ++
    [.admin ⟨.addRule "laptop" "db:5432" "t", none⟩, .incoming vectorKey0, .accept 0, .accept 0,
      .touchLastSeen 0 "t" none, .acceptBi 0 true,
      .readFrame 0 (.ok (typeForward, .forward "db:5432")), .checkAcl 0,
      .dial 0 .connected].map .plane

/-- The dial of `laptopForward`. -/
theorem dials_vouched_laptop : ∃ (h : Host PersistedState) (d : Dial) (name : String),
    Reach (hostSystem (.self PersistedState) (fun _ => "")) EachCurrent h ∧
    h.plane.dials = [d] ∧ d.node = vectorKey0 ∧ h.Vouched name vectorKey0 ∧
      h.Allowed name "db:5432" := by
  have hrun : ((exec (hostSystem (.self PersistedState) (fun _ => ""))
      (fun h a => decide (EachCurrent h a))
      ⟨.initial, [], [], []⟩ laptopForward).map
        (fun h => h.plane.dials.map fun d => (d.node, d.target))) =
          some [(vectorKey0, "db:5432")] := by
    decide +kernel
  obtain ⟨h, hr, hview⟩ := reach_of_exec_map (fun _ _ => of_decide_eq_true) hrun (.init rfl)
  obtain ⟨d, hd, hview⟩ := List.map_eq_singleton_iff.mp hview
  obtain ⟨hnode, htarget⟩ := Prod.mk.inj hview
  obtain ⟨name, hvouched, hallowed, -⟩ := dials_vouched _ _ hr d (by simp [hd])
  rw [hnode] at hvouched
  rw [htarget] at hallowed
  exact ⟨h, d, name, hr, hd, hnode, hvouched, hallowed⟩

end Tmite.System
