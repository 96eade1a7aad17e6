import Tmite.Daemon.Durability

namespace Tmite.Daemon

open Tmite.Core Tmite.Proto Transition

/-!
# What was acknowledged survives a crash

The daemon can die anywhere in a call: before its save, while it writes the temp file, between the
write and the rename, or after the rename with the reply unsent.  It then comes up from the file.
What the callers know is the history of their calls: which were acknowledged, which were refused, and
of which they heard nothing certain.

* `acknowledged_kept` — a grant, a pairing or the removal of either, once acknowledged, holds in
  memory and on disk until a call that contradicts it is made, through any crashes, restarts and
  failed saves in between; and the file can be loaded at every moment.

`persist_locked` does not sync the file: a crash here is of the daemon, not of the machine.
-/

universe v
variable {Text : Type v}

/-! ### Facts, and what a caller knows of them -/

/-- What a call is made to change: whether a name is paired, whether a rule is there. -/
inductive Fact
  | peer (name : String)
  | rule (peer target : String)
deriving DecidableEq

/-- The fact holds of the table. -/
def Fact.holds (m : PersistedState) : Fact → Bool
  | .peer name => m.hasPeer name
  | .rule p t => m.hasRule p t

/-- What the operation makes of the fact, once it goes through. -/
def Op.sets : Op → Fact → Option Bool
  | .addPeer peer, .peer name => if peer.name = name then some true else none
  | .addRule peer target _, .rule peer' target' =>
    if peer = peer' ∧ target = target' then some true else none
  | .removeRule peer target, .rule peer' target' =>
    if peer = peer' ∧ target = target' then some false else none
  | .removePeer name _, .peer name' => if name = name' then some false else none
  | .removePeer name _, .rule peer _ => if name = peer then some false else none
  | _, _ => none

/-- What a caller heard: success, a refusal by the checks, or nothing certain (the save failed, or
    the daemon died before it replied). -/
inductive Answer
  | ok
  | refused
  | unknown
deriving DecidableEq

/-- The errors of reading and saving; the others come from the checks. -/
def StateError.isSave : StateError → Bool
  | .io _ => true
  | .parse _ => true
  | .serialize _ => true
  | _ => false

def answerOf {α : Type*} : Except StateError α → Answer
  | .ok _ => .ok
  | .error e => if e.isSave then .unknown else .refused

def Reply.answer : Reply → Answer
  | .unit r => answerOf r
  | .touched => .ok
  | .index r => answerOf r
  | .removed r => answerOf r
  | .loaded r => answerOf r

/-- What is known of a fact after one more call. -/
def promiseNext (f : Fact) (held : Option Bool) (e : Op × Answer) : Option Bool :=
  match e.1.sets f, e.2 with
  | none, _ => held
  | some b, .ok => some b
  | some _, .refused => held
  | some b, .unknown => if held = some b then held else none

/-- What the callers know of a fact, from the calls they made. -/
def promised (f : Fact) (history : List (Op × Answer)) : Option Bool :=
  history.foldl (promiseNext f) none

/-! ### The store, with crashes -/

/-- A call that is answered, or one in which the daemon dies and comes up again.  The fault says where
    it dies: before a write, in it (with what it left of the temp file) or before the rename; without
    a fault it dies after the rename. -/
inductive StoreEvent (Text : Type v)
  | call (c : Call Text)
  | crash (c : Call Text)

/-- The store with the calls made so far, oldest first, and whether the save of a mutation has failed
    with nothing saved or loaded since. -/
structure StoreRun (Text : Type v) where
  store : State Text
  history : List (Op × Answer)
  unsaved : Bool

def StoreRun.start : StoreRun Text := ⟨.fresh, [], false⟩

/-- A step; a daemon whose file does not load does not come up. -/
def StoreRun.next (T : Toml PersistedState Text) (s : StoreRun Text) :
    StoreEvent Text → Option (StoreRun Text)
  | .call c =>
    some ⟨(s.store.call T c).1, s.history ++ [(c.op, (s.store.call T c).2.answer)],
      unsavedNext s.store s.unsaved c⟩
  | .crash c =>
    (State.load T (s.store.call T c).1.disk).toOption.map fun store =>
      ⟨store, s.history ++ [(c.op, .unknown)], false⟩

def storeRunSystem (T : Toml PersistedState Text) : System (StoreRun Text) (StoreEvent Text) :=
  ⟨fun s => s = .start, StoreRun.next T⟩

/-- No call succeeds without writing while the failed save of an earlier one is unsaved. -/
def HeardSaves (s : StoreRun Text) : StoreEvent Text → Prop
  | .call c => s.unsaved = true → acksWithoutWriting s.store.inner c.op = false
  | .crash _ => True

instance (s : StoreRun Text) (a : StoreEvent Text) : Decidable (HeardSaves s a) :=
  match a with
  | .call c =>
    inferInstanceAs (Decidable (s.unsaved = true → acksWithoutWriting s.store.inner c.op = false))
  | .crash _ => inferInstanceAs (Decidable True)

/-! ### One change -/

/-- A change that says nothing of the fact leaves it. -/
theorem holds_mutate_of_none (m : PersistedState) {op : Op} {f : Fact} (h : op.sets f = none) :
    f.holds (mutate m op) = f.holds m := by
  cases op with
  | addPeer peer =>
    cases f with
    | peer name =>
      have hne : peer.name ≠ name := by
        rintro rfl
        simp [Op.sets] at h
      simp [Fact.holds, PersistedState.hasPeer, mutate, hne]
    | rule p t => rfl
  | touchLastSeen nodeIdHex now =>
    cases f with
    | peer name =>
      have hnames := map_touchLastSeen Peer.name (fun _ _ => rfl) m nodeIdHex now
      rw [Fact.holds, Fact.holds, Bool.eq_iff_iff, hasPeer_iff, hasPeer_iff, hnames]
    | rule p t => rfl
  | addRule peer target now =>
    cases f with
    | peer name => rfl
    | rule p t =>
      have hne : ¬ (peer = p ∧ target = t) := fun heq => by simp [Op.sets, heq] at h
      simp only [Fact.holds, PersistedState.hasRule, mutate, List.any_append, List.any_cons,
        List.any_nil, Bool.or_false, Bool.or_eq_left_iff_imp, Bool.and_eq_true, beq_iff_eq]
      exact fun heq => absurd heq hne
  | removeRule peer target =>
    cases f with
    | peer name => rfl
    | rule p t =>
      have hne : ¬ (peer = p ∧ target = t) := fun heq => by simp [Op.sets, heq] at h
      rw [Fact.holds, Fact.holds, PersistedState.hasRule, PersistedState.hasRule, mutate,
        List.any_filter]
      refine congrArg (fun g => m.rules.any g) (funext fun r => ?_)
      by_cases hr : r.peer = p ∧ r.target = t
      · have hother : ¬ (p = peer ∧ t = target) := fun heq => hne ⟨heq.1.symm, heq.2.symm⟩
        have hkeep : (p == peer && t == target) = false := by
          rw [Bool.eq_false_iff, Ne, Bool.and_eq_true, beq_iff_eq, beq_iff_eq]
          exact hother
        rw [hr.1, hr.2, hkeep]
        simp
      · have hr' : (r.peer == p && r.target == t) = false := by simpa using hr
        rw [hr', Bool.and_false]
  | removePeer name force =>
    cases f with
    | peer name' =>
      have hne : name ≠ name' := by
        rintro rfl
        simp [Op.sets] at h
      rw [Fact.holds, Fact.holds, PersistedState.hasPeer, PersistedState.hasPeer, mutate,
        List.any_filter]
      refine congrArg (fun g => m.peers.any g) (funext fun p => ?_)
      by_cases hp : p.name = name'
      · simp [hp, hne.symm]
      · simp [hp]
    | rule p t =>
      have hne : name ≠ p := by
        rintro rfl
        simp [Op.sets] at h
      rw [Fact.holds, Fact.holds, PersistedState.hasRule, PersistedState.hasRule, mutate,
        List.any_filter]
      refine congrArg (fun g => m.rules.any g) (funext fun r => ?_)
      by_cases hr : r.peer = p
      · simp [hr, hne.symm]
      · simp [hr]
  | restart => rfl

/-- The operations that are made for a fact. -/
theorem sets_cases {op : Op} {f : Fact} {b : Bool} (h : op.sets f = some b) :
    (∃ peer, op = .addPeer peer ∧ f = .peer peer.name ∧ b = true) ∨
    (∃ p t now, op = .addRule p t now ∧ f = .rule p t ∧ b = true) ∨
    (∃ p t, op = .removeRule p t ∧ f = .rule p t ∧ b = false) ∨
    (∃ name force, op = .removePeer name force ∧ f = .peer name ∧ b = false) ∨
    ∃ name force t, op = .removePeer name force ∧ f = .rule name t ∧ b = false := by
  unfold Op.sets at h
  split at h
  · obtain ⟨rfl, hb⟩ := Option.ite_none_right_eq_some.mp h
    exact .inl ⟨_, rfl, rfl, (Option.some.inj hb).symm⟩
  · obtain ⟨⟨rfl, rfl⟩, hb⟩ := Option.ite_none_right_eq_some.mp h
    exact .inr (.inl ⟨_, _, _, rfl, rfl, (Option.some.inj hb).symm⟩)
  · obtain ⟨⟨rfl, rfl⟩, hb⟩ := Option.ite_none_right_eq_some.mp h
    exact .inr (.inr (.inl ⟨_, _, rfl, rfl, (Option.some.inj hb).symm⟩))
  · obtain ⟨rfl, hb⟩ := Option.ite_none_right_eq_some.mp h
    exact .inr (.inr (.inr (.inl ⟨_, _, rfl, rfl, (Option.some.inj hb).symm⟩)))
  · obtain ⟨rfl, hb⟩ := Option.ite_none_right_eq_some.mp h
    exact .inr (.inr (.inr (.inr ⟨_, _, _, rfl, rfl, (Option.some.inj hb).symm⟩)))
  · exact absurd h (by simp)

/-- A change that is made for the fact sets it. -/
theorem holds_mutate_of_some (m : PersistedState) {op : Op} {f : Fact} {b : Bool}
    (h : op.sets f = some b) : f.holds (mutate m op) = b := by
  obtain ⟨peer, rfl, rfl, rfl⟩ | ⟨p, t, now, rfl, rfl, rfl⟩ | ⟨p, t, rfl, rfl, rfl⟩ |
    ⟨name, force, rfl, rfl, rfl⟩ | ⟨name, force, t, rfl, rfl, rfl⟩ := sets_cases h
  · simp [Fact.holds, PersistedState.hasPeer, mutate]
  · simp [Fact.holds, PersistedState.hasRule, mutate]
  · simp only [Fact.holds, PersistedState.hasRule, mutate, List.any_filter]
    exact List.any_eq_false.mpr (fun r _ => by cases (r.peer == p && r.target == t) <;> simp)
  · simp [Fact.holds, PersistedState.hasPeer, mutate, List.any_filter]
  · simp only [Fact.holds, PersistedState.hasRule, mutate, List.any_filter]
    refine List.any_eq_false.mpr (fun r _ => ?_)
    by_cases hr : r.peer = name <;> simp [hr]

/-- A call that is acknowledged without a write finds the fact as it would have it. -/
theorem holds_of_acksWithoutWriting {m : PersistedState} (hm : TableInv m) {op : Op} {f : Fact}
    {b : Bool} (h : op.sets f = some b) (hack : acksWithoutWriting m op = true) :
    f.holds m = b := by
  obtain ⟨peer, rfl, rfl, rfl⟩ | ⟨p, t, now, rfl, rfl, rfl⟩ | ⟨p, t, rfl, rfl, rfl⟩ |
    ⟨name, force, rfl, rfl, rfl⟩ | ⟨name, force, t, rfl, rfl, rfl⟩ := sets_cases h
  · exact absurd hack (by simp [acksWithoutWriting])
  · simp only [acksWithoutWriting, Bool.and_eq_true] at hack
    exact hack.2
  · simp only [acksWithoutWriting, Bool.and_eq_true, Bool.not_eq_true'] at hack
    exact hack.2
  · simp only [acksWithoutWriting, Bool.not_eq_true'] at hack
    exact hack
  · -- no rule is left behind for a name that is not in the table
    simp only [acksWithoutWriting, Bool.not_eq_true'] at hack
    refine List.any_eq_false.mpr (fun r hr hmatch => ?_)
    simp only [Bool.and_eq_true, beq_iff_eq] at hmatch
    have hnamed := hm.rules_named r hr
    rw [hmatch.1, ← hasPeer_iff, hack] at hnamed
    exact absurd hnamed (by simp)

/-- Facts look at the rules and the names only. -/
theorem holds_congr {m m' : PersistedState} (hrules : m.rules = m'.rules)
    (hpeers : m.peers.map Peer.forgetSeen = m'.peers.map Peer.forgetSeen) (f : Fact) :
    f.holds m = f.holds m' := by
  cases f with
  | rule p t => rw [Fact.holds, Fact.holds, PersistedState.hasRule, PersistedState.hasRule, hrules]
  | peer name =>
    have hnames := congrArg (List.map Peer.name) hpeers
    rw [List.map_map, List.map_map] at hnames
    rw [Fact.holds, Fact.holds, Bool.eq_iff_iff, hasPeer_iff, hasPeer_iff]
    exact iff_of_eq (congrArg (name ∈ ·) hnames)

/-! ### What a call answers -/

section Answers

variable {T : Toml PersistedState Text} {s : State Text} {c : Call Text}

theorem answerOf_map {α β : Type*} (g : α → β) (r : Except StateError α) :
    answerOf (r.map g) = answerOf r := by
  cases r <;> rfl

theorem answerOf_persistLocked (fault : Option (WriteFault Text)) (m : PersistedState)
    (disk : Files Text) :
    answerOf (State.persistLocked T fault m disk).2 =
      if fault.isNone then .ok else .unknown := by
  cases fault with
  | none => rfl
  | some f => cases f <;> rfl

/-- A call that its checks let through is acknowledged or, where its save fails, not answered for
    certain; it is not refused. -/
theorem answer_of_writes (h : writes s.inner c.op = true) :
    (s.call T c).2.answer = if c.op.isTouch || c.fault.isNone then .ok else .unknown := by
  obtain ⟨op, fault⟩ := c
  cases op with
  | addPeer peer =>
    simp only [State.call, addPeer_of_writes h, Prod.map, Reply.answer, answerOf_persistLocked,
      Op.isTouch, Bool.false_or]
  | touchLastSeen nodeIdHex now => rfl
  | addRule peer target now =>
    simp only [State.call, addRule_of_writes h, Prod.map, Reply.answer, answerOf_map,
      answerOf_persistLocked, Op.isTouch, Bool.false_or]
  | removeRule peer target =>
    simp only [State.call, removeRule_of_writes h, Prod.map, Reply.answer, answerOf_map,
      answerOf_persistLocked, Op.isTouch, Bool.false_or]
  | removePeer name force =>
    simp only [State.call, removePeer_of_writes h, Prod.map, Reply.answer, answerOf_map,
      answerOf_persistLocked, Op.isTouch, Bool.false_or]
  | restart => exact absurd h (by simp [writes])

theorem isOk_of_answerOf {α : Type*} {r : Except StateError α} (h : answerOf r = .ok) :
    r.isOk = true := by
  cases r with
  | ok a => rfl
  | error e =>
    rw [answerOf] at h
    split at h <;> exact absurd h (by simp)

theorem isOk_of_answer {r : Reply} (h : r.answer = .ok) : r.isOk = true := by
  cases r with
  | touched => rfl
  | _ => exact isOk_of_answerOf h

end Answers

/-! ### Every run -/

section Kept

variable {T : Toml PersistedState Text} {s : State Text} {c : Call Text} {f : Fact}
  {held : Option Bool}

/-- Memory and file have the fact as it is known. -/
def Kept (T : Toml PersistedState Text) (f : Fact) (held : Option Bool) (s : State Text) : Prop :=
  ∀ b, held = some b → Stored T (fun m => f.holds m = b) s

theorem isMutation_of_sets {op : Op} {b : Bool} (h : op.sets f = some b) :
    op.isMutation = true ∧ op.isTouch = false := by
  obtain ⟨_, rfl, -⟩ | ⟨_, _, _, rfl, -⟩ | ⟨_, _, rfl, -⟩ | ⟨_, _, rfl, -⟩ | ⟨_, _, _, rfl, -⟩ :=
    sets_cases h <;> exact ⟨rfl, rfl⟩

/-- A call whose outcome is not known can only weaken what is. -/
theorem Kept.unknown (h : Kept T f held s) :
    Kept T f (promiseNext f held (c.op, .unknown)) (s.call T c).1 := by
  intro b hb
  simp only [promiseNext] at hb
  cases hsets : c.op.sets f with
  | none =>
    rw [hsets] at hb
    refine (h b hb).call (fun hm _ => ?_)
    rw [holds_mutate_of_none _ hsets]
    exact hm
  | some b₀ =>
    simp only [hsets] at hb
    split at hb
    · rename_i hsame
      rw [hsame, Option.some.injEq] at hb
      subst hb
      exact (h b₀ hsame).call (fun _ _ => holds_mutate_of_some _ hsets)
    · exact absurd hb (by simp)

/-- An acknowledged call leaves the fact as it would have it. -/
theorem stored_of_ok {b : Bool} (hsets : c.op.sets f = some b) (htable : TableInv s.inner)
    (hdurable : acksWithoutWriting s.inner c.op = true → Durable T s)
    (hok : (s.call T c).2.answer = .ok) : Stored T (fun m => f.holds m = b) (s.call T c).1 := by
  obtain ⟨hmut, htouch⟩ := isMutation_of_sets hsets
  by_cases hw : writes s.inner c.op = true
  · have hf : c.fault = none := by
      rw [answer_of_writes hw, htouch, Bool.false_or] at hok
      split at hok
      · exact Option.isNone_iff_eq_none.mp ‹_›
      · exact absurd hok (by simp)
    rw [call_of_writes hw, hf]
    refine ⟨holds_mutate_of_some _ hsets, fun s' hs' => ?_⟩
    simp only [State.persistLocked, writeAndRename_none, State.load,
      T.fromStr_toStringPretty] at hs'
    cases hs'
    exact holds_mutate_of_some _ hsets
  · -- nothing was written: the table has it so, and the file agrees with the table
    rw [Bool.not_eq_true] at hw
    have hr : c.op ≠ .restart := by
      intro hr
      exact absurd hmut (by simp [hr, Op.isMutation])
    have hack := acksWithoutWriting_of_isOk hmut hw (isOk_of_answer hok)
    have hb := holds_of_acksWithoutWriting htable hsets hack
    obtain ⟨s₁, hload, hrules, hpeers⟩ := hdurable hack
    rw [call_of_not_writes hw hr]
    refine ⟨hb, fun s' hs' => ?_⟩
    rw [hload] at hs'
    cases hs'
    rw [holds_congr hrules hpeers]
    exact hb

/-- A call, with what its caller hears. -/
theorem Kept.call (h : Kept T f held s) (htable : TableInv s.inner)
    (hdurable : acksWithoutWriting s.inner c.op = true → Durable T s) :
    Kept T f (promiseNext f held (c.op, (s.call T c).2.answer)) (s.call T c).1 := by
  cases hans : (s.call T c).2.answer with
  | unknown => exact h.unknown
  | ok =>
    intro b hb
    cases hsets : c.op.sets f with
    | none =>
      refine h.unknown b ?_
      simpa only [promiseNext, hsets] using hb
    | some b₀ =>
      simp only [promiseNext, hsets, Option.some.injEq] at hb
      subst hb
      exact stored_of_ok hsets htable hdurable hans
  | refused =>
    intro b hb
    cases hsets : c.op.sets f with
    | none =>
      refine h.unknown b ?_
      simpa only [promiseNext, hsets] using hb
    | some b₀ =>
      simp only [promiseNext, hsets] at hb
      -- a refusal comes from the checks, before anything is changed
      have hw : writes s.inner c.op = false := by
        rw [Bool.eq_false_iff]
        intro hw
        rw [answer_of_writes hw] at hans
        split at hans <;> exact absurd hans (by simp)
      have hr : c.op ≠ .restart := by
        intro hr
        rw [hr] at hsets
        exact absurd hsets (by simp [Op.sets])
      rw [call_of_not_writes hw hr]
      exact h b hb

/-- What memory and file have, a daemon that comes up from the file has. -/
theorem Stored.load {I : PersistedState → Prop} {s' : State Text} (h : Stored T I s)
    (hload : State.load T s.disk = .ok s') : Stored T I s' :=
  ⟨h.file s' hload, fun s'' hs'' => h.file s'' (load_disk hload ▸ hs'')⟩

end Kept

/-- The invariant of a run with crashes. -/
structure RunInv (T : Toml PersistedState Text) (s : StoreRun Text) : Prop where
  table : Stored T TableInv s.store
  saved : DurInv T s.store s.unsaved
  kept : ∀ f, Kept T f (promised f s.history) s.store

section Run

variable {T : Toml PersistedState Text} {s s' : StoreRun Text}

theorem promised_concat (f : Fact) (history : List (Op × Answer)) (e : Op × Answer) :
    promised f (history ++ [e]) = promiseNext f (promised f history) e := by
  rw [promised, List.foldl_concat]
  rfl

theorem RunInv.call (h : RunInv T s) {c : Call Text} (hheard : HeardSaves s (.call c)) :
    RunInv T ⟨(s.store.call T c).1, s.history ++ [(c.op, (s.store.call T c).2.answer)],
      unsavedNext s.store s.unsaved c⟩ := by
  refine ⟨h.table.call (fun hm hw => hm.mutate hw), h.saved.call c, fun f => ?_⟩
  rw [promised_concat]
  refine (h.kept f).call h.table.memory (fun hack => h.saved.durable ?_)
  by_contra hu
  rw [hheard (by simpa using hu)] at hack
  exact absurd hack (by simp)

theorem RunInv.crash (h : RunInv T s) {c : Call Text} {store : State Text}
    (hload : State.load T (s.store.call T c).1.disk = .ok store) :
    RunInv T ⟨store, s.history ++ [(c.op, .unknown)], false⟩ := by
  refine ⟨(h.table.call (fun hm hw => hm.mutate hw)).load hload, durInv_of_load hload,
    fun f b hb => ?_⟩
  rw [promised_concat] at hb
  exact ((h.kept f).unknown b hb).load hload

theorem runInv_start : RunInv T (StoreRun.start : StoreRun Text) := by
  have hload : State.load T .empty = .ok .fresh := rfl
  refine ⟨stored_fresh storeInv_default.toTableInv, durInv_of_load hload, fun f b hb => ?_⟩
  exact absurd hb (by simp [promised, StoreRun.start])

theorem runInv (h : Reach (storeRunSystem T) HeardSaves s) : RunInv T s := by
  refine h.invariant (fun s hs => ?_) (fun s a s' _ hi hC hn => ?_)
  · rw [show s = .start from hs]
    exact runInv_start
  · cases a with
    | call c =>
      cases hn
      exact hi.call hC
    | crash c =>
      obtain ⟨store, hstore, rfl⟩ := Option.map_eq_some_iff.mp hn
      cases hload : State.load T (s.store.call T c).1.disk with
      | error e =>
        rw [hload] at hstore
        exact absurd hstore (by simp [Except.toOption])
      | ok store' =>
        rw [hload] at hstore
        cases hstore
        exact hi.crash hload

end Run

/-- **What was acknowledged survives.**  In every run of calls, restarts and crashes from the default
    state, in which no call succeeds without writing while the failed save of an earlier one is
    unsaved: whatever the callers know of a name or of a rule is so, in memory and in the file.  And
    wherever in a call the daemon dies, it comes up again. -/
theorem acknowledged_kept (T : Toml PersistedState Text) {s : StoreRun Text}
    (h : Reach (storeRunSystem T) HeardSaves s) :
    (∀ f b, promised f s.history = some b →
      f.holds s.store.inner = b ∧
        ∀ s', State.load T s.store.disk = .ok s' → f.holds s'.inner = b) ∧
      ∀ c, ∃ s', State.load T (s.store.call T c).1.disk = .ok s' := by
  have hinv := runInv h
  refine ⟨fun f b hb => ?_, fun c => (hinv.saved.call c).loads⟩
  have hstored := hinv.kept f b hb
  exact ⟨hstored.memory, hstored.file⟩

/-- A pairing, a grant, a revocation; then a grant of the same rule dies before its rename, and the
    daemon comes up; the pairing is still known. -/
def crashedGrant : List (StoreEvent PersistedState) :=
  [.call ⟨.addPeer ⟨"laptop", "aa11", "t", "t"⟩, none⟩,
   .call ⟨.addRule "laptop" "localhost:22" "t", none⟩,
   .call ⟨.removeRule "laptop" "localhost:22", none⟩,
   .crash ⟨.addRule "laptop" "localhost:22" "t", some (.rename "killed")⟩,
   .call ⟨.addRule "laptop" "db:5432" "t", none⟩,
   .crash ⟨.removePeer "desktop" true, some (.write "killed" none)⟩]

theorem acknowledged_kept_laptop : ∃ s : StoreRun PersistedState,
    Reach (storeRunSystem (.self PersistedState)) HeardSaves s ∧
      promised (.rule "laptop" "db:5432") s.history = some true ∧
      s.store.inner.hasRule "laptop" "db:5432" = true := by
  have hrun : (exec (storeRunSystem (.self PersistedState))
      (fun s a => decide (HeardSaves s a)) .start crashedGrant).map
      (fun s => promised (.rule "laptop" "db:5432") s.history) = some (some true) := by
    decide +kernel
  obtain ⟨s, hr, hknown⟩ := reach_of_exec_map (fun _ _ => of_decide_eq_true) hrun (.init rfl)
  exact ⟨s, hr, hknown, ((acknowledged_kept _ hr).1 _ _ hknown).1⟩

end Tmite.Daemon
