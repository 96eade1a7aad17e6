import Tmite.Lib.GrantHistory
import Tmite.Daemon.StoreInv

namespace Tmite.Daemon

open Tmite.Core Tmite.Proto GrantHistory

/-!
# The access list is the history of grants

The abstract access list is a set of (peer, target) pairs (`GrantHistory`); the store refines
it.  `grants s` is the set `rule_allows` answers from, `grantEvent` reads a call and its reply
as an event, and `grants_call` says that one call moves `grants` as its event says.  Restarts
need memory and file to agree (`Synced`), which they do while every save goes through.
-/

universe v
variable {Text : Type v} {T : Toml PersistedState Text}

/-! ### Memory and file agree while saves go through -/

/-- A restart would load exactly what memory holds. -/
def Synced (T : Toml PersistedState Text) (s : State Text) : Prop :=
  ∃ s', State.load T s.disk = .ok s' ∧ s'.inner = s.inner

theorem synced_fresh : Synced T (State.fresh : State Text) := ⟨_, rfl, rfl⟩

/-- A call whose save goes through keeps memory and file in step. -/
theorem Synced.call {s : State Text} {c : Call Text} (hf : c.fault = none) (h : Synced T s) :
    Synced T (s.call T c).1 := by
  obtain ⟨s', hload, hinner⟩ := h
  by_cases hr : c.op = .restart
  · have hdisk := load_disk hload
    simp only [State.call, hr, hload]
    exact ⟨s', hdisk ▸ hload, rfl⟩
  · by_cases hw : writes s.inner c.op = true
    · rw [call_of_writes hw, hf]
      refine ⟨_, ?_, rfl⟩
      simp only [State.persistLocked, writeAndRename_none, State.load, T.fromStr_toStringPretty]
    · rw [call_of_not_writes (Bool.eq_false_iff.mpr hw) hr]
      exact ⟨s', hload, hinner⟩

theorem synced_after (calls : List (Call Text)) (hf : ∀ c ∈ calls, c.fault = none) :
    Synced T (State.after T calls) :=
  (storeMachine T).run_invariant_of_forall (fun _ _ h hc => h.call hc) synced_fresh calls hf

/-! ### One call against the abstract list -/

/-- The pairs `rule_allows` answers yes to. -/
def grants (s : State Text) : Set (String × String) := { x | s.ruleAllows x.1 x.2 = true }

/-- A call and its reply, as an event of the grant history. -/
def grantEvent : Call Text × Reply → Event String String
  | (⟨.addRule peer target _, _⟩, .index (.ok _)) => .grant peer target
  | (⟨.removeRule peer target, _⟩, .removed (.ok true)) => .revoke peer target
  | (⟨.removePeer name _, _⟩, .removed (.ok true)) => .drop name
  | _ => .other

private theorem hasRule_addRule (m : PersistedState) (peer target now p t : String) :
    (mutate m (.addRule peer target now)).hasRule p t = true ↔
      (peer = p ∧ target = t) ∨ m.hasRule p t = true := by
  simp only [mutate, PersistedState.hasRule, List.any_append, List.any_cons, List.any_nil,
    Bool.or_false, Bool.or_eq_true, Bool.and_eq_true, beq_iff_eq]
  exact or_comm

private theorem hasRule_removeRule (m : PersistedState) (peer target p t : String) :
    (mutate m (.removeRule peer target)).hasRule p t = true ↔
      m.hasRule p t = true ∧ ¬ (peer = p ∧ target = t) := by
  simp only [mutate, PersistedState.hasRule, List.any_eq_true, List.mem_filter, Bool.and_eq_true,
    beq_iff_eq, Bool.not_eq_true', Bool.and_eq_false_iff, beq_eq_false_iff_ne]
  constructor
  · rintro ⟨r, ⟨hr, hne⟩, rfl, rfl⟩
    exact ⟨⟨r, hr, rfl, rfl⟩, fun h => by rcases hne with h' | h' <;> simp_all⟩
  · rintro ⟨⟨r, hr, rfl, rfl⟩, hne⟩
    refine ⟨r, ⟨hr, ?_⟩, rfl, rfl⟩
    by_cases hp : r.peer = peer
    · exact .inr (fun ht => hne ⟨hp.symm, ht.symm⟩)
    · exact .inl hp

private theorem hasRule_removePeer (m : PersistedState) (name p t : String) (force : Bool) :
    (mutate m (.removePeer name force)).hasRule p t = true ↔
      m.hasRule p t = true ∧ name ≠ p := by
  simp only [mutate, PersistedState.hasRule, List.any_eq_true, List.mem_filter, Bool.and_eq_true,
    beq_iff_eq, bne_iff_ne]
  constructor
  · rintro ⟨r, ⟨hr, hne⟩, rfl, rfl⟩
    exact ⟨⟨r, hr, rfl, rfl⟩, hne.symm⟩
  · rintro ⟨⟨r, hr, rfl, rfl⟩, hne⟩
    exact ⟨r, ⟨hr, hne.symm⟩, rfl, rfl⟩

/-- **Refinement step.** A call whose save goes through changes the access list exactly as
    its event says. -/
theorem grants_call {s : State Text} {c : Call Text} (hs : Synced T s) (hf : c.fault = none) :
    grants (s.call T c).1 = apply (grants s) (grantEvent (c, (s.call T c).2)) := by
  obtain ⟨op, fault⟩ := c
  obtain rfl : fault = none := hf
  ext ⟨p, t⟩
  rw [mem_apply_iff]
  show (s.call T ⟨op, none⟩).1.inner.hasRule p t = true ↔ _ ∨ s.inner.hasRule p t = true ∧ _
  cases op with
  | addPeer peer =>
    by_cases hw : writes s.inner (.addPeer peer) = true
    · simp [State.call, addPeer_of_writes hw, grantEvent, Event.Removes, mutate,
        PersistedState.hasRule]
    · obtain ⟨e, he⟩ := addPeer_of_not_writes T none (Bool.eq_false_iff.mpr hw)
      simp [State.call, he, grantEvent, Event.Removes]
  | touchLastSeen nodeIdHex now =>
    by_cases hw : writes s.inner (.touchLastSeen nodeIdHex now) = true
    · simp [State.call, touchLastSeen_of_writes hw, grantEvent, Event.Removes, mutate,
        PersistedState.hasRule]
    · simp [State.call, touchLastSeen_of_not_writes (Bool.eq_false_iff.mpr hw), grantEvent,
        Event.Removes]
  | addRule peer target now =>
    by_cases hw : writes s.inner (.addRule peer target now) = true
    · simp only [State.call, addRule_of_writes hw, State.persistLocked, writeAndRename_none,
        Except.mapError, Except.map, Prod.map, id_eq, grantEvent, Event.grant.injEq,
        Event.Removes, not_false_eq_true, and_true, hasRule_addRule]
    · obtain ⟨r, hr, hidx⟩ := addRule_of_not_writes T none
        (Bool.eq_false_iff.mpr hw)
      simp only [State.call, hr, Prod.map, id_eq]
      cases r with
      | error e => simp [grantEvent, Event.Removes]
      | ok i =>
        -- the rule was already there, so granting it again adds nothing
        have hhas : s.inner.hasRule peer target = true := by
          obtain ⟨hi, hmatch, -⟩ := List.findIdx?_eq_some_iff_getElem.mp (hidx i rfl).2.2
          exact List.any_eq_true.mpr ⟨_, List.getElem_mem hi, hmatch⟩
        simp only [grantEvent, Event.grant.injEq, Event.Removes, not_false_eq_true, and_true]
        constructor
        · exact .inr
        · rintro (⟨rfl, rfl⟩ | h)
          · exact hhas
          · exact h
  | removeRule peer target =>
    by_cases hw : writes s.inner (.removeRule peer target) = true
    · simp only [State.call, removeRule_of_writes hw, State.persistLocked, writeAndRename_none,
        Except.mapError, Except.map, Prod.map, id_eq, grantEvent, reduceCtorEq,
        Event.Removes, false_or, hasRule_removeRule]
    · rw [Bool.not_eq_true] at hw
      simp only [State.call, removeRule_of_not_writes hw, Prod.map, id_eq]
      split <;> simp [grantEvent, Event.Removes]
  | removePeer name force =>
    by_cases hw : writes s.inner (.removePeer name force) = true
    · simp only [State.call, removePeer_of_writes hw, State.persistLocked, writeAndRename_none,
        Except.mapError, Except.map, Prod.map, id_eq, grantEvent, reduceCtorEq,
        Event.Removes, false_or, hasRule_removePeer, ne_eq]
    · rw [Bool.not_eq_true] at hw
      simp only [State.call, removePeer_of_not_writes hw, Prod.map, id_eq]
      split <;> simp [grantEvent, Event.Removes]
  | restart =>
    -- memory and file agree, so the reload changes nothing
    obtain ⟨s', hload, hinner⟩ := hs
    simp [State.call, hload, hinner, grantEvent, Event.Removes]

/-- **Refinement.** After a run whose saves all go through, the store allows exactly what the
    history of its calls grants. -/
theorem grants_after (calls : List (Call Text)) (hf : ∀ c ∈ calls, c.fault = none) :
    grants (State.after T calls) =
      granted (((storeMachine T).trace State.fresh calls).map grantEvent) := by
  induction calls using List.reverseRecOn with
  | nil => exact Set.eq_empty_of_forall_notMem (fun x hx => absurd hx (by simp [grants,
      State.after, State.fresh, PersistedState.default, State.ruleAllows]))
  | append_singleton calls c ih =>
    have hpre : ∀ c' ∈ calls, c'.fault = none := fun c' hc' => hf c' (by simp [hc'])
    rw [Transition.Machine.trace_append, List.map_append, State.after,
      Transition.Machine.run_append]
    show grants ((State.after T calls).call T c).1 = granted (_ ++ [grantEvent (c, _)])
    rw [granted_concat, ← ih hpre]
    exact grants_call (synced_after calls hpre) (hf c (by simp))

/-! ### The trace characterisation -/

/-- The entry takes `(p, t)` back: an effective `remove_rule(p, t)` or `remove_peer(p, _)`. -/
def Revokes (p t : String) (entry : Call Text × Reply) : Prop :=
  entry.2 = .removed (.ok true) ∧
    (entry.1.op = .removeRule p t ∨ ∃ force, entry.1.op = .removePeer p force)

/-- The operation names `(p, t)`: it could change the answer for that pair. -/
def Op.Names (p t : String) : Op → Prop
  | .addRule peer target _ => peer = p ∧ target = t
  | .removeRule peer target => peer = p ∧ target = t
  | .removePeer name _ => name = p
  | _ => False

private theorem grantEvent_eq_grant {entry : Call Text × Reply} {p t : String} :
    grantEvent entry = .grant p t ↔
      ∃ now i, entry.1.op = .addRule p t now ∧ entry.2 = .index (.ok i) := by
  obtain ⟨⟨op, fault⟩, r⟩ := entry
  constructor
  · intro h
    unfold grantEvent at h
    split at h
    · rename_i heq
      cases heq
      cases h
      exact ⟨_, _, rfl, rfl⟩
    all_goals exact absurd h (by simp)
  · rintro ⟨now, i, rfl, rfl⟩
    rfl

private theorem grantEvent_removes {entry : Call Text × Reply} {p t : String} :
    (grantEvent entry).Removes p t ↔ Revokes p t entry := by
  obtain ⟨⟨op, fault⟩, r⟩ := entry
  constructor
  · intro h
    unfold grantEvent at h
    split at h
    · exact absurd h (by simp [Event.Removes])
    · rename_i heq
      cases heq
      obtain ⟨rfl, rfl⟩ := h
      exact ⟨rfl, .inl rfl⟩
    · rename_i heq
      cases heq
      cases h
      exact ⟨rfl, .inr ⟨_, rfl⟩⟩
    · exact absurd h (by simp [Event.Removes])
  · rintro ⟨rfl, rfl | ⟨force, rfl⟩⟩
    · exact ⟨rfl, rfl⟩
    · rfl

/-- **The ACL is exactly the history of grants.** With every save going through,
    `rule_allows(p, t)` holds iff some `add_rule(p, t)` returned `Ok` and neither a later
    `remove_rule(p, t)` nor a later `remove_peer(p, _)` returned `Ok(true)`; and an operation
    that names another peer or another target leaves the answer as it is. -/
theorem ruleAllows_iff_history (T : Toml PersistedState Text) (calls : List (Call Text))
    (hf : ∀ c ∈ calls, c.fault = none) (p t : String) :
    ((State.after T calls).ruleAllows p t = true ↔
      ∃ pre entry post, (storeMachine T).trace State.fresh calls = pre ++ entry :: post ∧
        (∃ now i, entry.1.op = .addRule p t now ∧ entry.2 = .index (.ok i)) ∧
        ∀ later ∈ post, ¬ Revokes p t later) ∧
      ∀ c : Call Text, c.fault = none → ¬ c.op.Names p t →
        ((State.after T calls).call T c).1.ruleAllows p t =
          (State.after T calls).ruleAllows p t := by
  constructor
  · have hmem : (State.after T calls).ruleAllows p t = true ↔
        (p, t) ∈ granted (((storeMachine T).trace State.fresh calls).map grantEvent) := by
      rw [← grants_after calls hf]; rfl
    rw [hmem, mem_granted_iff]
    constructor
    · -- the history is the image of the trace: pull the split back to the trace
      rintro ⟨pre, post, hsplit, hpost⟩
      obtain ⟨pre', rest, htrace, -, hrest⟩ := List.map_eq_append_iff.mp hsplit
      obtain ⟨entry, post', rfl, hentry, rfl⟩ := List.map_eq_cons_iff.mp hrest
      exact ⟨pre', entry, post', htrace, grantEvent_eq_grant.mp hentry,
        fun later hl hrev => hpost _ (List.mem_map_of_mem hl) (grantEvent_removes.mpr hrev)⟩
    · rintro ⟨pre, entry, post, htrace, hentry, hpost⟩
      refine ⟨pre.map grantEvent, post.map grantEvent, ?_, ?_⟩
      · rw [htrace, List.map_append, List.map_cons, grantEvent_eq_grant.mpr hentry]
      · intro e he
        obtain ⟨later, hl, rfl⟩ := List.mem_map.mp he
        exact fun h => hpost later hl (grantEvent_removes.mp h)
  · intro c hc hnames
    have hstep := grants_call (synced_after (T := T) calls hf) hc
    have hiff := Set.ext_iff.mp hstep (p, t)
    rw [mem_apply_iff, grantEvent_eq_grant, grantEvent_removes] at hiff
    rw [Bool.eq_iff_iff]
    refine hiff.trans ⟨?_, fun h => .inr ⟨h, ?_⟩⟩
    · rintro (⟨now, i, hop, -⟩ | ⟨h, -⟩)
      · rw [hop] at hnames
        exact absurd ⟨rfl, rfl⟩ hnames
      · exact h
    · rintro ⟨-, hop | ⟨force, hop⟩⟩
      · rw [hop] at hnames
        exact absurd ⟨rfl, rfl⟩ hnames
      · rw [hop] at hnames
        exact absurd rfl hnames

/-- A grant, its revocation, a second grant of the same pair, and a restart. -/
def regrantCalls : List (Call PersistedState) :=
  [⟨.addPeer ⟨"laptop", "aa11", "t", "t"⟩, none⟩, ⟨.addRule "laptop" "localhost:22" "t", none⟩,
   ⟨.removeRule "laptop" "localhost:22", none⟩, ⟨.addRule "laptop" "localhost:22" "t", none⟩,
   ⟨.restart, none⟩]

/-- On that run the pair is allowed, and the history says so. -/
theorem ruleAllows_iff_history_regrant :
    (State.after (.self PersistedState) regrantCalls).ruleAllows "laptop" "localhost:22" = true ∧
      ∃ pre entry post,
        (storeMachine (.self PersistedState)).trace State.fresh regrantCalls
          = pre ++ entry :: post ∧
        (∃ now i, entry.1.op = .addRule "laptop" "localhost:22" now ∧
          entry.2 = .index (.ok i)) ∧
        ∀ later ∈ post, ¬ Revokes "laptop" "localhost:22" later :=
  have hrun : (State.after (.self PersistedState) regrantCalls).ruleAllows
      "laptop" "localhost:22" = true := by decide
  ⟨hrun, (ruleAllows_iff_history (.self PersistedState) regrantCalls (by decide)
    "laptop" "localhost:22").1.mp hrun⟩

end Tmite.Daemon
