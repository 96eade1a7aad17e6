import Tmite.Daemon.State

namespace Tmite.Daemon

open Tmite.Core Tmite.Proto

/-!
# What one call on the store can do

Every method of `State` has the same shape: checks that return early, then a change of the
two vectors, then one save of the changed state.  `writes` says whether the checks let the
call through, `mutate` what it then does to memory.  The two lemmas `call_of_writes` and
`call_of_not_writes` are the only ones that unfold the methods; all results about runs of the
store go through them.
-/

universe v
variable {Text : Type v}

/-! ### Checks and changes -/

/-- A peer of that name is in the table. -/
def PersistedState.hasPeer (m : PersistedState) (name : String) : Bool :=
  m.peers.any (fun p => p.name == name)

/-- The rule is in the list. -/
def PersistedState.hasRule (m : PersistedState) (peer target : String) : Bool :=
  m.rules.any (fun r => r.peer == peer && r.target == target)

/-- The call passes its checks and goes on to change memory and save. -/
def writes (m : PersistedState) : Op → Bool
  | .addPeer peer => !m.hasPeer peer.name && decide (m.peers.length < maxPeers)
  | .touchLastSeen nodeIdHex _ => m.peers.any (fun p => eqIgnoreAsciiCase p.nodeId nodeIdHex)
  | .addRule peer target _ =>
    m.hasPeer peer && decide (m.rules.length < maxRules) && !m.hasRule peer target
  | .removeRule peer target => m.hasPeer peer && m.hasRule peer target
  | .removePeer name force => m.hasPeer name && (!m.rules.any (fun r => r.peer == name) || force)
  | .restart => false

/-- The change of memory a call makes once its checks have passed. -/
def mutate (m : PersistedState) : Op → PersistedState
  | .addPeer peer => { m with peers := m.peers ++ [peer] }
  | .touchLastSeen nodeIdHex now =>
    let peers := modifyFirst (fun p => eqIgnoreAsciiCase p.nodeId nodeIdHex)
      (fun p => { p with lastSeen := now }) m.peers
    { m with peers }
  | .addRule peer target now => { m with rules := m.rules ++ [⟨peer, target, now⟩] }
  | .removeRule peer target =>
    { m with rules := m.rules.filter (fun r => !(r.peer == peer && r.target == target)) }
  | .removePeer name _ =>
    { m with
      peers := m.peers.filter (fun p => p.name != name)
      rules := m.rules.filter (fun r => r.peer != name) }
  | .restart => m

/-- `touch_last_seen` reports nothing, not even a failed save. -/
def Op.isTouch : Op → Bool
  | .touchLastSeen _ _ => true
  | _ => false

/-- The four calls an admin or a pairing makes, whose result is reported. -/
def Op.isMutation : Op → Bool
  | .addPeer _ => true
  | .addRule _ _ _ => true
  | .removeRule _ _ => true
  | .removePeer _ _ => true
  | _ => false

/-- Removing what is not there removes nothing. -/
theorem filter_length_ne_iff {α : Type*} (l : List α) (p : α → Bool) :
    (l.filter (fun x => !p x)).length ≠ l.length ↔ l.any p = true := by
  rw [Ne, List.length_filter_eq_length_iff]
  simp [List.any_eq_true]

/-! ### The methods once their checks have passed, or not -/

section Methods

variable {T : Toml PersistedState Text} {fault : Option (WriteFault Text)} {s : State Text}

theorem addPeer_of_writes {peer : Peer} (h : writes s.inner (.addPeer peer) = true) :
    s.addPeer T fault peer =
      (⟨mutate s.inner (.addPeer peer),
        (State.persistLocked T fault (mutate s.inner (.addPeer peer)) s.disk).1⟩,
      (State.persistLocked T fault (mutate s.inner (.addPeer peer)) s.disk).2) := by
  simp only [writes, PersistedState.hasPeer, Bool.and_eq_true, Bool.not_eq_true',
    decide_eq_true_eq] at h
  simp only [State.addPeer, h.1, if_neg (Nat.not_le.mpr h.2), Bool.false_eq_true, if_false]
  rfl

theorem addPeer_of_not_writes (T : Toml PersistedState Text) (fault : Option (WriteFault Text))
    {peer : Peer} (h : writes s.inner (.addPeer peer) = false) :
    ∃ e, s.addPeer T fault peer = (s, .error e) := by
  simp only [writes, PersistedState.hasPeer, Bool.and_eq_false_iff, Bool.not_eq_false',
    decide_eq_false_iff_not] at h
  simp only [State.addPeer]
  by_cases hn : s.inner.peers.any (fun p => p.name == peer.name) = true
  · rw [if_pos hn]; exact ⟨_, rfl⟩
  · rw [if_neg hn, if_pos (Nat.not_lt.mp (h.resolve_left hn))]; exact ⟨_, rfl⟩

theorem touchLastSeen_of_writes {nodeIdHex now : String}
    (h : writes s.inner (.touchLastSeen nodeIdHex now) = true) :
    s.touchLastSeen T fault nodeIdHex now =
      ⟨mutate s.inner (.touchLastSeen nodeIdHex now),
        (State.persistLocked T fault (mutate s.inner (.touchLastSeen nodeIdHex now))
          s.disk).1⟩ := by
  simp only [writes] at h
  simp only [State.touchLastSeen, h, if_true]
  rfl

theorem touchLastSeen_of_not_writes {nodeIdHex now : String}
    (h : writes s.inner (.touchLastSeen nodeIdHex now) = false) :
    s.touchLastSeen T fault nodeIdHex now = s := by
  simp only [writes] at h
  simp only [State.touchLastSeen, h, Bool.false_eq_true, if_false]

theorem addRule_of_writes {peer target now : String}
    (h : writes s.inner (.addRule peer target now) = true) :
    s.addRule T fault peer target now =
      (⟨mutate s.inner (.addRule peer target now),
        (State.persistLocked T fault (mutate s.inner (.addRule peer target now)) s.disk).1⟩,
      (State.persistLocked T fault (mutate s.inner (.addRule peer target now)) s.disk).2.map
        (fun _ => s.inner.rules.length)) := by
  simp only [writes, PersistedState.hasPeer, PersistedState.hasRule, Bool.and_eq_true,
    Bool.not_eq_true', decide_eq_true_eq] at h
  have hidx : s.inner.rules.findIdx? (fun r => r.peer == peer && r.target == target) = none := by
    rw [List.findIdx?_eq_none_iff]
    simpa only [List.any_eq_false, Bool.not_eq_true] using h.2
  simp only [State.addRule, h.1.1, if_neg (Nat.not_le.mpr h.1.2), hidx, Bool.not_true,
    Bool.false_eq_true, if_false, List.length_append, List.length_singleton, Nat.add_sub_cancel]
  rfl

/-- Where `add_rule` does not write, an `Ok` is the index of the rule that is already there. -/
theorem addRule_of_not_writes (T : Toml PersistedState Text) (fault : Option (WriteFault Text))
    {peer target now : String}
    (h : writes s.inner (.addRule peer target now) = false) :
    ∃ r, s.addRule T fault peer target now = (s, r) ∧ ∀ i, r = .ok i →
      s.inner.hasPeer peer = true ∧ s.inner.rules.length < maxRules ∧
      s.inner.rules.findIdx? (fun r => r.peer == peer && r.target == target) = some i := by
  simp only [writes, PersistedState.hasPeer, PersistedState.hasRule] at h
  simp only [State.addRule, PersistedState.hasPeer]
  rcases Bool.eq_false_or_eq_true (s.inner.peers.any (fun p => p.name == peer)) with hpeer | hpeer
  · by_cases hcap : maxRules ≤ s.inner.rules.length
    · simp only [hpeer, if_pos hcap, Bool.not_true, Bool.false_eq_true, if_false]
      exact ⟨_, rfl, by simp⟩
    · -- past the peer and the cap, only an existing rule stops the call
      have hrule : s.inner.rules.any (fun r => r.peer == peer && r.target == target) = true := by
        simpa [hpeer, Nat.not_le.mp hcap] using h
      simp only [hpeer, if_neg hcap, Bool.not_true, Bool.false_eq_true, if_false]
      split
      · rename_i existing hidx
        refine ⟨_, rfl, fun i hi => ⟨trivial, Nat.not_le.mp hcap, ?_⟩⟩
        rw [hidx, Except.ok.inj hi]
      · rename_i hidx
        rw [List.findIdx?_eq_none_iff] at hidx
        obtain ⟨r, hr, hmatch⟩ := List.any_eq_true.mp hrule
        exact absurd hmatch (by rw [hidx r hr]; simp)
  · simp only [hpeer, Bool.not_false, if_true]
    exact ⟨_, rfl, by simp⟩

theorem removeRule_of_writes {peer target : String}
    (h : writes s.inner (.removeRule peer target) = true) :
    s.removeRule T fault peer target =
      (⟨mutate s.inner (.removeRule peer target),
        (State.persistLocked T fault (mutate s.inner (.removeRule peer target)) s.disk).1⟩,
      (State.persistLocked T fault (mutate s.inner (.removeRule peer target)) s.disk).2.map
        (fun _ => true)) := by
  simp only [writes, PersistedState.hasPeer, PersistedState.hasRule, Bool.and_eq_true] at h
  have hlen := (filter_length_ne_iff s.inner.rules
    (fun r => r.peer == peer && r.target == target)).mpr h.2
  simp only [State.removeRule, h.1, if_pos hlen, Bool.not_true, Bool.false_eq_true, if_false]
  rfl

theorem removeRule_of_not_writes {peer target : String}
    (h : writes s.inner (.removeRule peer target) = false) :
    s.removeRule T fault peer target =
      (s, if s.inner.hasPeer peer then .ok false else .error (.notFound peer)) := by
  simp only [writes, PersistedState.hasPeer, PersistedState.hasRule] at h
  simp only [State.removeRule, PersistedState.hasPeer]
  rcases Bool.eq_false_or_eq_true (s.inner.peers.any (fun p => p.name == peer)) with hpeer | hpeer
  · rw [hpeer, Bool.true_and] at h
    have hlen := mt (filter_length_ne_iff s.inner.rules
      (fun r => r.peer == peer && r.target == target)).mp (by rw [h]; simp)
    have hkeep := List.filter_eq_self.mpr (List.length_filter_eq_length_iff.mp (not_not.mp hlen))
    simp only [hpeer, hkeep, ne_eq, not_true_eq_false, Bool.not_true, Bool.false_eq_true,
      if_false, if_true]
  · simp only [hpeer, Bool.not_false, if_true, Bool.false_eq_true, if_false]

theorem removePeer_of_writes {name : String} {force : Bool}
    (h : writes s.inner (.removePeer name force) = true) :
    s.removePeer T fault name force =
      (⟨mutate s.inner (.removePeer name force),
        (State.persistLocked T fault (mutate s.inner (.removePeer name force)) s.disk).1⟩,
      (State.persistLocked T fault (mutate s.inner (.removePeer name force)) s.disk).2.map
        (fun _ => true)) := by
  simp only [writes, PersistedState.hasPeer, Bool.and_eq_true] at h
  have hforce : (s.inner.rules.any (fun r => r.peer == name) && !force) = false := by
    rw [Bool.and_eq_false_iff, Bool.not_eq_false']
    simpa using h.2
  simp only [State.removePeer, h.1, hforce, Bool.not_true, Bool.false_eq_true, if_false]
  rfl

theorem removePeer_of_not_writes {name : String} {force : Bool}
    (h : writes s.inner (.removePeer name force) = false) :
    s.removePeer T fault name force =
      (s, if s.inner.hasPeer name then .error (.peerHasRules name) else .ok false) := by
  simp only [writes, PersistedState.hasPeer] at h
  simp only [State.removePeer, PersistedState.hasPeer]
  rcases Bool.eq_false_or_eq_true (s.inner.peers.any (fun p => p.name == name)) with hpeer | hpeer
  · have hforce : (s.inner.rules.any (fun r => r.peer == name) && !force) = true := by
      rw [hpeer, Bool.true_and, Bool.or_eq_false_iff, Bool.not_eq_false'] at h
      rw [h.1, h.2]
      rfl
    simp only [hpeer, hforce, Bool.not_true, Bool.false_eq_true, if_false, if_true]
  · simp only [hpeer, Bool.not_false, if_true, Bool.false_eq_true, if_false]

end Methods

/-! ### The two outcomes of a call -/

variable {T : Toml PersistedState Text} {s : State Text} {c : Call Text}

/-- A call that its checks let through replaces memory by `mutate` and saves that, whatever
    becomes of the save. -/
theorem call_of_writes (h : writes s.inner c.op = true) :
    (s.call T c).1 = ⟨mutate s.inner c.op,
      (State.persistLocked T c.fault (mutate s.inner c.op) s.disk).1⟩ := by
  obtain ⟨op, fault⟩ := c
  cases op with
  | addPeer peer => simp only [State.call, addPeer_of_writes h]; rfl
  | touchLastSeen nodeIdHex now => simp only [State.call, touchLastSeen_of_writes h]
  | addRule peer target now => simp only [State.call, addRule_of_writes h]; rfl
  | removeRule peer target => simp only [State.call, removeRule_of_writes h]; rfl
  | removePeer name force => simp only [State.call, removePeer_of_writes h]; rfl
  | restart => exact absurd h (by simp [writes])

/-- A call that its checks stop changes neither memory nor the files. -/
theorem call_of_not_writes (h : writes s.inner c.op = false) (hr : c.op ≠ .restart) :
    (s.call T c).1 = s := by
  obtain ⟨op, fault⟩ := c
  cases op with
  | addPeer peer =>
    obtain ⟨e, he⟩ := addPeer_of_not_writes T fault h
    simp only [State.call, he]; rfl
  | touchLastSeen nodeIdHex now => simp only [State.call, touchLastSeen_of_not_writes h]
  | addRule peer target now =>
    obtain ⟨r, hr, -⟩ := addRule_of_not_writes T fault h
    simp only [State.call, hr]; rfl
  | removeRule peer target => simp only [State.call, removeRule_of_not_writes h]; rfl
  | removePeer name force => simp only [State.call, removePeer_of_not_writes h]; rfl
  | restart => exact absurd rfl hr

private theorem persistLocked_isOk (fault : Option (WriteFault Text)) (m : PersistedState)
    (disk : Files Text) :
    (State.persistLocked T fault m disk).2.isOk = fault.isNone := by
  cases fault with
  | none => rfl
  | some f =>
    obtain ⟨-, e, he⟩ := writeAndRename_some T f m disk
    simp only [State.persistLocked, he]
    rfl

private theorem isOk_map {ε α β : Type*} (f : α → β) (r : Except ε α) :
    (r.map f).isOk = r.isOk := by
  cases r <;> rfl

/-- A call that writes reports success exactly when its save went through. -/
theorem isOk_of_writes (h : writes s.inner c.op = true) :
    (s.call T c).2.isOk = (c.op.isTouch || c.fault.isNone) := by
  obtain ⟨op, fault⟩ := c
  cases op with
  | addPeer peer =>
    simp only [State.call, addPeer_of_writes h, Prod.map, Reply.isOk, persistLocked_isOk,
      Op.isTouch, Bool.false_or]
  | touchLastSeen nodeIdHex now => rfl
  | addRule peer target now =>
    simp only [State.call, addRule_of_writes h, Prod.map, Reply.isOk, isOk_map,
      persistLocked_isOk, Op.isTouch, Bool.false_or]
  | removeRule peer target =>
    simp only [State.call, removeRule_of_writes h, Prod.map, Reply.isOk, isOk_map,
      persistLocked_isOk, Op.isTouch, Bool.false_or]
  | removePeer name force =>
    simp only [State.call, removePeer_of_writes h, Prod.map, Reply.isOk, isOk_map,
      persistLocked_isOk, Op.isTouch, Bool.false_or]
  | restart => exact absurd h (by simp [writes])

end Tmite.Daemon
