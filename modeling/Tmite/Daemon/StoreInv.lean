import Tmite.Daemon.StateEffect
import Mathlib.Data.List.Nodup

namespace Tmite.Daemon

open Tmite.Core Tmite.Proto

/-!
# The store invariant

What holds of the peer table and the rule list after any sequence of calls, failed saves and
restarts included.  A restart splices in an older snapshot, so the invariant is carried for
memory and for the file together: `Stored T I` says that `I` holds of both, and
`Stored.call` reduces its preservation to the in-memory change of one call.

* `TableInv` — the clauses every caller keeps: distinct names, no dangling and no duplicate
  rule, the two caps.
* `StoreInv` — `TableInv` with well-formed targets, which `dispatch_allow` is responsible for.
-/

universe v
variable {Text : Type v} {T : Toml PersistedState Text}

/-! ### Memory and file together -/

/-- `I` holds of memory and of what a restart would load. -/
structure Stored (T : Toml PersistedState Text) (I : PersistedState → Prop) (s : State Text) :
    Prop where
  memory : I s.inner
  file : ∀ s', State.load T s.disk = .ok s' → I s'.inner

/-- Loading looks at the file only, not at the temp file. -/
theorem load_congr {d d' : Files Text} (h : d.file = d'.file) {s : State Text}
    (hs : State.load T d = .ok s) : ∃ s', State.load T d' = .ok s' ∧ s'.inner = s.inner := by
  simp only [State.load] at hs ⊢
  rw [← h]
  cases hfile : d.file with
  | none =>
    rw [hfile] at hs
    cases hs
    exact ⟨_, rfl, rfl⟩
  | some text =>
    simp only [hfile] at hs ⊢
    cases hparse : T.fromStr text with
    | ok m =>
      rw [hparse] at hs
      cases hs
      exact ⟨_, rfl, rfl⟩
    | error e =>
      rw [hparse] at hs
      exact absurd hs (by simp)

/-- Loading does not touch the files. -/
theorem load_disk {d : Files Text} {s : State Text} (hs : State.load T d = .ok s) :
    s.disk = d := by
  simp only [State.load] at hs
  split at hs
  · exact absurd hs (by simp)
  · cases hs; rfl
  · split at hs
    · cases hs; rfl
    · exact absurd hs (by simp)

/-- What a load gives after a save: the saved state if the save went through, and what it
    gave before if not. -/
theorem load_persistLocked {fault : Option (WriteFault Text)} {m : PersistedState}
    {d : Files Text} {s : State Text}
    (hs : State.load T (State.persistLocked T fault m d).1 = .ok s) :
    s.inner = m ∨ ∃ s', State.load T d = .ok s' ∧ s'.inner = s.inner := by
  cases fault with
  | none =>
    simp only [State.persistLocked, writeAndRename_none, State.load,
      T.fromStr_toStringPretty] at hs
    cases hs
    exact .inl rfl
  | some f => exact .inr (load_congr (writeAndRename_some T f m d).1 hs)

/-- **Store rule.** A property of the table that every admitted change keeps is kept, in
    memory and on disk, by every call. -/
theorem Stored.call {I : PersistedState → Prop} {s : State Text} {c : Call Text}
    (hmut : I s.inner → writes s.inner c.op = true → I (mutate s.inner c.op))
    (h : Stored T I s) : Stored T I (s.call T c).1 := by
  by_cases hr : c.op = .restart
  · -- a restart replaces memory by what the file holds
    simp only [State.call, hr]
    cases hload : State.load T s.disk with
    | error e => exact h
    | ok s' =>
      exact ⟨h.file s' hload, fun s'' hs'' => h.file s'' (load_disk hload ▸ hs'')⟩
  · by_cases hw : writes s.inner c.op = true
    · -- the file holds what was saved now, or still what it held before
      have hI := hmut h.memory hw
      rw [call_of_writes hw]
      refine ⟨hI, fun s' hs' => ?_⟩
      rcases load_persistLocked hs' with hm | ⟨s₀, hs₀, heq⟩
      · rw [hm]; exact hI
      · rw [← heq]; exact h.file s₀ hs₀
    · rw [call_of_not_writes (Bool.eq_false_iff.mpr hw) hr]
      exact h

/-! ### The invariant -/

/-- Names are distinct, rules name existing peers and are not repeated, the caps hold. -/
structure TableInv (m : PersistedState) : Prop where
  names_nodup : (m.peers.map Peer.name).Nodup
  rules_named : ∀ r ∈ m.rules, r.peer ∈ m.peers.map Peer.name
  rules_nodup : (m.rules.map (fun r => (r.peer, r.target))).Nodup
  peers_le : m.peers.length ≤ maxPeers
  rules_le : m.rules.length ≤ maxRules

/-- The table invariant, and every target has the shape `valid_target` checks. -/
structure StoreInv (m : PersistedState) : Prop extends TableInv m where
  targets_valid : ∀ r ∈ m.rules, validTarget r.target = true

/-- `add_rule` is called as `dispatch_allow` calls it, after `valid_target`. -/
def Op.Dispatched : Op → Prop
  | .addRule _ target _ => validTarget target = true
  | _ => True

theorem map_modifyFirst {α β : Type*} (p : α → Bool) (f : α → α) (g : α → β)
    (hg : ∀ x, g (f x) = g x) (l : List α) : (modifyFirst p f l).map g = l.map g := by
  induction l with
  | nil => rfl
  | cons x xs ih =>
    simp only [modifyFirst]
    split
    · rw [List.map_cons, List.map_cons, hg]
    · rw [List.map_cons, List.map_cons, ih]

/-- `touch_last_seen` shows only in `last_seen`. -/
theorem map_touchLastSeen {β : Type*} (g : Peer → β)
    (hg : ∀ (p : Peer) (now : String), g { p with lastSeen := now } = g p)
    (m : PersistedState) (nodeIdHex now : String) :
    (mutate m (.touchLastSeen nodeIdHex now)).peers.map g = m.peers.map g :=
  map_modifyFirst _ _ g (fun p => hg p now) m.peers

theorem hasPeer_iff (m : PersistedState) (name : String) :
    m.hasPeer name = true ↔ name ∈ m.peers.map Peer.name := by
  simp only [PersistedState.hasPeer, List.any_eq_true, beq_iff_eq, List.mem_map]

theorem hasRule_iff (m : PersistedState) (peer target : String) :
    m.hasRule peer target = true ↔ (peer, target) ∈ m.rules.map (fun r => (r.peer, r.target)) := by
  simp [PersistedState.hasRule]

/-- Every change that passes its checks keeps the table invariant. -/
theorem TableInv.mutate {m : PersistedState} {op : Op} (h : TableInv m)
    (hw : writes m op = true) : TableInv (mutate m op) := by
  cases op with
  | addPeer peer =>
    -- the name check keeps names distinct; rules that named a peer still do
    simp only [writes, Bool.and_eq_true, Bool.not_eq_true', decide_eq_true_eq] at hw
    have hnew : peer.name ∉ m.peers.map Peer.name := by
      rw [← hasPeer_iff, hw.1]; simp
    refine ⟨?_, ?_, h.rules_nodup, ?_, h.rules_le⟩
    · simp only [Daemon.mutate, List.map_append, List.map_cons, List.map_nil]
      exact List.nodup_append.mpr ⟨h.names_nodup, by simp,
        fun a ha b hb => by rw [List.mem_singleton.mp hb]; rintro rfl; exact hnew ha⟩
    · intro r hr
      simp only [Daemon.mutate, List.map_append, List.mem_append]
      exact .inl (h.rules_named r hr)
    · simp only [Daemon.mutate, List.length_append, List.length_singleton]
      omega
  | touchLastSeen nodeIdHex now =>
    have hnames := map_touchLastSeen Peer.name (fun _ _ => rfl) m nodeIdHex now
    refine ⟨?_, ?_, h.rules_nodup, ?_, h.rules_le⟩
    · rw [hnames]; exact h.names_nodup
    · rw [hnames]; exact h.rules_named
    · have hlen := congrArg List.length hnames
      rw [List.length_map, List.length_map] at hlen
      rw [hlen]; exact h.peers_le
  | addRule peer target now =>
    simp only [writes, Bool.and_eq_true, Bool.not_eq_true', decide_eq_true_eq] at hw
    obtain ⟨⟨hpeer, hcap⟩, hrule⟩ := hw
    -- the early return on an existing rule is what keeps rules from being repeated
    have hnew : (peer, target) ∉ m.rules.map (fun r => (r.peer, r.target)) := by
      rw [← hasRule_iff, hrule]; simp
    refine ⟨h.names_nodup, ?_, ?_, h.peers_le, ?_⟩
    · intro r hr
      simp only [Daemon.mutate, List.mem_append, List.mem_singleton] at hr
      rcases hr with hr | rfl
      · exact h.rules_named r hr
      · exact (hasPeer_iff m peer).mp hpeer
    · simp only [Daemon.mutate, List.map_append, List.map_cons, List.map_nil]
      exact List.nodup_append.mpr ⟨h.rules_nodup, by simp,
        fun a ha b hb => by rw [List.mem_singleton.mp hb]; rintro rfl; exact hnew ha⟩
    · simp only [Daemon.mutate, List.length_append, List.length_singleton]
      omega
  | removeRule peer target =>
    refine ⟨h.names_nodup, fun r hr => h.rules_named r (List.mem_of_mem_filter hr), ?_,
      h.peers_le, ?_⟩
    · exact h.rules_nodup.sublist (List.filter_sublist.map _)
    · exact Nat.le_trans (List.length_filter_le _ _) h.rules_le
  | removePeer name force =>
    refine ⟨?_, ?_, ?_, ?_, ?_⟩
    · exact h.names_nodup.sublist (List.filter_sublist.map _)
    · -- the rules that stay name another peer, and that peer stays
      intro r hr
      simp only [Daemon.mutate, List.mem_filter, bne_iff_ne] at hr
      obtain ⟨p, hp, hname⟩ := List.mem_map.mp (h.rules_named r hr.1)
      refine List.mem_map.mpr ⟨p, ?_, hname⟩
      simp only [Daemon.mutate, List.mem_filter, bne_iff_ne]
      exact ⟨hp, by rw [hname]; exact hr.2⟩
    · exact h.rules_nodup.sublist (List.filter_sublist.map _)
    · exact Nat.le_trans (List.length_filter_le _ _) h.peers_le
    · exact Nat.le_trans (List.length_filter_le _ _) h.rules_le
  | restart => exact h

/-- Rules only ever come from `add_rule`. -/
theorem rule_of_mutate {m : PersistedState} {op : Op} {r : Rule} (hr : r ∈ (mutate m op).rules) :
    r ∈ m.rules ∨ ∃ now, op = .addRule r.peer r.target now := by
  cases op with
  | addPeer peer => exact .inl hr
  | touchLastSeen nodeIdHex now => exact .inl hr
  | addRule peer target now =>
    simp only [mutate, List.mem_append, List.mem_singleton] at hr
    rcases hr with hr | rfl
    · exact .inl hr
    · exact .inr ⟨now, rfl⟩
  | removeRule peer target => exact .inl (List.mem_of_mem_filter hr)
  | removePeer name force => exact .inl (List.mem_of_mem_filter hr)
  | restart => exact .inl hr

theorem StoreInv.mutate {m : PersistedState} {op : Op} (h : StoreInv m) (hd : op.Dispatched)
    (hw : writes m op = true) : StoreInv (mutate m op) := by
  refine ⟨h.toTableInv.mutate hw, fun r hr => ?_⟩
  rcases rule_of_mutate hr with hr | ⟨now, rfl⟩
  · exact h.targets_valid r hr
  · exact hd

theorem storeInv_default : StoreInv .default :=
  ⟨⟨by simp [PersistedState.default], by simp [PersistedState.default],
    by simp [PersistedState.default], by simp [PersistedState.default],
    by simp [PersistedState.default]⟩, by simp [PersistedState.default]⟩

/-- The default state and the missing file satisfy whatever the default state does. -/
theorem stored_fresh {I : PersistedState → Prop} (h : I .default) :
    Stored T I (State.fresh : State Text) :=
  ⟨h, fun s' hs' => by cases hs'; exact h⟩

/-- The full invariant holds after every run whose targets were checked. -/
theorem stored_storeInv (calls : List (Call Text)) (hd : ∀ c ∈ calls, c.op.Dispatched) :
    Stored T StoreInv (State.after T calls) :=
  (storeMachine T).run_invariant_of_forall
    (fun _ _ h hd => h.call (fun hm hw => hm.mutate hd hw))
    (stored_fresh storeInv_default) calls hd

/-! ### Its two consequences -/

/-- A peer that `add_peer` puts into the table has no rules there. -/
theorem TableInv.addPeer_no_rules {s : State Text} (h : TableInv s.inner)
    (fault : Option (WriteFault Text)) (peer : Peer)
    (hadd : (s.addPeer T fault peer).1.inner.peers ≠ s.inner.peers) :
    ∀ r ∈ (s.addPeer T fault peer).1.inner.rules, r.peer ≠ peer.name := by
  by_cases hw : writes s.inner (.addPeer peer) = true
  · rw [addPeer_of_writes hw]
    intro r hr hname
    have hnew := hw
    simp only [writes, Bool.and_eq_true, Bool.not_eq_true'] at hnew
    have hmem := h.rules_named r hr
    rw [hname, ← hasPeer_iff, hnew.1] at hmem
    exact absurd hmem (by simp)
  · obtain ⟨e, he⟩ := addPeer_of_not_writes T fault (Bool.eq_false_iff.mpr hw)
    rw [he] at hadd
    exact absurd rfl hadd

/-- `remove_peer` without force leaves the rule list alone: it refuses a peer that has rules. -/
theorem removePeer_unforced_rules (s : State Text) (fault : Option (WriteFault Text))
    (name : String) : (s.removePeer T fault name false).1.inner.rules = s.inner.rules := by
  by_cases hw : writes s.inner (.removePeer name false) = true
  · rw [removePeer_of_writes hw]
    simp only [writes, Bool.or_false, Bool.and_eq_true, Bool.not_eq_true'] at hw
    refine List.filter_eq_self.mpr (fun r hr => ?_)
    have hne := List.any_eq_false.mp hw.2 r hr
    simpa using hne
  · rw [removePeer_of_not_writes (Bool.eq_false_iff.mpr hw)]

/-- **Store invariant.** After every sequence of calls and restarts from the default state,
    each save succeeding or failing: names are distinct, rules name existing peers, are not
    repeated and have valid targets, and the caps hold.  So a peer just added has no rules,
    and an unforced removal removes none. -/
theorem store_invariant (T : Toml PersistedState Text) (calls : List (Call Text))
    (hd : ∀ c ∈ calls, c.op.Dispatched) :
    StoreInv (State.after T calls).inner ∧
      (∀ (fault : Option (WriteFault Text)) (peer : Peer),
        ((State.after T calls).addPeer T fault peer).1.inner.peers ≠
            (State.after T calls).inner.peers →
          ∀ r ∈ ((State.after T calls).addPeer T fault peer).1.inner.rules,
            r.peer ≠ peer.name) ∧
      ∀ (fault : Option (WriteFault Text)) (name : String),
        ((State.after T calls).removePeer T fault name false).1.inner.rules =
          (State.after T calls).inner.rules := by
  have h := (stored_storeInv (T := T) calls hd).memory
  exact ⟨h, h.toTableInv.addPeer_no_rules, removePeer_unforced_rules (State.after T calls)⟩

/-- A pairing, a grant whose save fails, and a restart that loses it. -/
theorem store_invariant_run :
    StoreInv (State.after (.self PersistedState)
      [⟨.addPeer ⟨"laptop", "aa11", "t", "t"⟩, none⟩,
       ⟨.addRule "laptop" "localhost:22" "t", some (.rename "disk full")⟩,
       ⟨.restart, none⟩]).inner :=
  (store_invariant (.self PersistedState) _ (by
    intro c hc
    simp only [List.mem_cons, List.not_mem_nil, or_false] at hc
    rcases hc with rfl | rfl | rfl
    · trivial
    · show validTarget "localhost:22" = true
      decide
    · trivial)).1

end Tmite.Daemon
