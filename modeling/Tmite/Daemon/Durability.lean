import Tmite.Daemon.StoreInv

namespace Tmite.Daemon

open Tmite.Core Tmite.Proto

/-!
# Failed saves

A mutating call changes memory before it saves, and a failed save does not undo the change.
Two things follow:

* an `Err` from the save leaves the change live in memory (`failed_call_unchanged_iff` says
  exactly when a failed call changes nothing);
* memory may then be ahead of the file, and a call that succeeds *without* writing (the rule
  is already there, or already gone) acknowledges something a restart undoes.  Away from such
  calls, `Ok` means durable (`ok_durable`).
-/

universe v
variable {Text : Type v} {T : Toml PersistedState Text}

/-! ### What a failed call leaves behind -/

/-- A change that passes its checks is a change. -/
theorem mutate_ne {m : PersistedState} {op : Op} (hop : op.isMutation = true)
    (hw : writes m op = true) :
    ¬ ((mutate m op).peers = m.peers ∧ (mutate m op).rules = m.rules) := by
  rintro ⟨hpeers, hrules⟩
  cases op with
  | addPeer peer => simp [mutate] at hpeers
  | touchLastSeen nodeIdHex now => exact absurd hop (by simp [Op.isMutation])
  | addRule peer target now => simp [mutate] at hrules
  | removeRule peer target =>
    simp only [writes, Bool.and_eq_true] at hw
    exact (filter_length_ne_iff m.rules _).mpr hw.2 (congrArg List.length hrules)
  | removePeer name force =>
    simp only [writes, Bool.and_eq_true] at hw
    exact (filter_length_ne_iff m.peers (fun p => p.name == name)).mpr hw.1
      (congrArg List.length hpeers)
  | restart => exact absurd hop (by simp [Op.isMutation])

/-- **When a failed mutation changes nothing.** In every state and for every call of
    `add_peer`, `add_rule`, `remove_rule` or `remove_peer`: an `Err` leaves the peers and the
    rules in memory exactly as they were iff the save does not fail, or the call is stopped by
    its own checks before it changes anything. -/
theorem failed_call_unchanged_iff (T : Toml PersistedState Text) (s : State Text)
    (c : Call Text) (hop : c.op.isMutation = true) :
    ((s.call T c).2.isOk = false →
        (s.call T c).1.inner.peers = s.inner.peers ∧ (s.call T c).1.inner.rules = s.inner.rules) ↔
      c.fault = none ∨ writes s.inner c.op = false := by
  have htouch : c.op.isTouch = false := by
    revert hop
    cases c.op <;> simp [Op.isMutation, Op.isTouch]
  by_cases hw : writes s.inner c.op = true
  · rw [isOk_of_writes hw, htouch, call_of_writes hw, Bool.false_or]
    constructor
    · -- with the save failing, the `Err` is reported and the change stays
      intro h
      rw [or_iff_left (by simp [hw])]
      by_contra hf
      exact mutate_ne hop hw (h (by simpa [Option.isSome_iff_ne_none] using hf))
    · rintro (hf | hf) herr
      · exact absurd herr (by simp [hf])
      · exact absurd hw (by simp [hf])
  · have hr : c.op ≠ .restart := by
      intro hr
      exact absurd hop (by simp [hr, Op.isMutation])
    rw [Bool.not_eq_true] at hw
    rw [call_of_not_writes hw hr]
    exact ⟨fun _ => .inr hw, fun _ _ => ⟨rfl, rfl⟩⟩

/-- A store with a peer and its rule. -/
def oneRuleStore : State PersistedState :=
  ⟨⟨1, [⟨"laptop", "aa11", "t", "t"⟩], [⟨"laptop", "localhost:22", "t"⟩]⟩, .empty⟩

/-- A grant for an unknown peer fails and changes nothing, also on a full disk. -/
theorem failed_call_unchanged_unknown_peer :
    writes oneRuleStore.inner (.addRule "desktop" "localhost:22" "t") = false ∧
      (oneRuleStore.call (.self PersistedState)
          ⟨.addRule "desktop" "localhost:22" "t", some (.rename "disk full")⟩).1.inner.peers =
        [⟨"laptop", "aa11", "t", "t"⟩] ∧
      (oneRuleStore.call (.self PersistedState)
          ⟨.addRule "desktop" "localhost:22" "t", some (.rename "disk full")⟩).1.inner.rules =
        [⟨"laptop", "localhost:22", "t"⟩] :=
  ⟨by decide, (failed_call_unchanged_iff (.self PersistedState) oneRuleStore
    ⟨.addRule "desktop" "localhost:22" "t", some (.rename "disk full")⟩ (by decide)).mpr
    (.inr (by decide)) (by decide)⟩

/-- A pairing whose save fails on the rename. -/
def addPeerDiskFull : Call PersistedState :=
  ⟨.addPeer ⟨"laptop", "aa11", "t", "t"⟩, some (.rename "disk full")⟩

/-- The pairing is reported as failed, and the peer is in the table all the same. -/
theorem failed_addPeer_recorded :
    (State.fresh.call (.self PersistedState) addPeerDiskFull).2
        = .unit (.error (.io "disk full")) ∧
      (State.fresh : State PersistedState).peerByNode "aa11" = none ∧
      (State.fresh.call (.self PersistedState) addPeerDiskFull).1.peerByNode "aa11"
        = some ⟨"laptop", "aa11", "t", "t"⟩ := by
  decide

/-! ### What an acknowledged call leaves on disk -/

/-- The peer up to `last_seen`, whose saving may lag. -/
def Peer.forgetSeen (p : Peer) : Peer := { p with lastSeen := "" }

/-- A load of the file gives the rules of memory and, up to `last_seen`, its peers. -/
def Durable (T : Toml PersistedState Text) (s : State Text) : Prop :=
  ∃ s', State.load T s.disk = .ok s' ∧ s'.inner.rules = s.inner.rules ∧
    s'.inner.peers.map Peer.forgetSeen = s.inner.peers.map Peer.forgetSeen

/-- The call succeeds without writing: the rule is already there (`add_rule`), already gone
    (`remove_rule`), or the peer is (`remove_peer`). -/
def acksWithoutWriting (m : PersistedState) : Op → Bool
  | .addRule peer target _ =>
    m.hasPeer peer && decide (m.rules.length < maxRules) && m.hasRule peer target
  | .removeRule peer target => m.hasPeer peer && !m.hasRule peer target
  | .removePeer name _ => !m.hasPeer name
  | _ => false

/-- Whether the save of a mutation has failed and nothing has been saved or reloaded since. -/
def unsavedNext (s : State Text) (unsaved : Bool) (c : Call Text) : Bool :=
  if c.op = .restart then false
  else if writes s.inner c.op then
    if c.fault.isNone then false else unsaved || !c.op.isTouch
  else unsaved

/-- `unsavedNext` along a run. -/
def unsavedAfter (T : Toml PersistedState Text) (s : State Text) : List (Call Text) → Bool → Bool
  | [], unsaved => unsaved
  | c :: calls, unsaved =>
    unsavedAfter T (s.call T c).1 calls (unsavedNext s unsaved c)

theorem unsavedAfter_concat (s : State Text) (calls : List (Call Text)) (c : Call Text)
    (u : Bool) :
    unsavedAfter T s (calls ++ [c]) u =
      unsavedNext ((storeMachine T).run s calls) (unsavedAfter T s calls u) c := by
  induction calls generalizing s u with
  | nil => rfl
  | cons c' calls ih => exact ih _ _

/-- No call of the run succeeds without writing while the failed save of an earlier mutation
    is still unsaved. -/
def noSilentAck (T : Toml PersistedState Text) (s : State Text) :
    List (Call Text) → Bool → Bool
  | [], _ => true
  | c :: calls, unsaved =>
    !(unsaved && acksWithoutWriting s.inner c.op) &&
      noSilentAck T (s.call T c).1 calls (unsavedNext s unsaved c)

theorem not_silent_of_split (s : State Text) (u : Bool) (pre : List (Call Text)) (c : Call Text)
    (post : List (Call Text)) (h : noSilentAck T s (pre ++ c :: post) u = true)
    (hu : unsavedAfter T s pre u = true) :
    acksWithoutWriting ((storeMachine T).run s pre).inner c.op = false := by
  induction pre generalizing s u with
  | nil =>
    simp only [List.nil_append, noSilentAck, Bool.and_eq_true, Bool.not_eq_true'] at h
    simp only [unsavedAfter] at hu
    simpa [hu] using h.1
  | cons c' pre ih =>
    simp only [List.cons_append, noSilentAck, Bool.and_eq_true] at h
    exact ih _ _ h.2 hu

/-- A save that goes through makes memory durable, whatever it was before. -/
theorem durable_of_saved {s : State Text} {c : Call Text} (hw : writes s.inner c.op = true)
    (hf : c.fault = none) : Durable T (s.call T c).1 := by
  rw [call_of_writes hw, hf]
  refine ⟨⟨mutate s.inner c.op, _⟩, ?_, rfl, rfl⟩
  simp only [State.persistLocked, writeAndRename_none, State.load, T.fromStr_toStringPretty]

/-- Durability depends on the file, the rules and the peers up to `last_seen` only. -/
theorem Durable.congr {s s' : State Text} (h : Durable T s) (hfile : s'.disk.file = s.disk.file)
    (hrules : s'.inner.rules = s.inner.rules)
    (hpeers : s'.inner.peers.map Peer.forgetSeen = s.inner.peers.map Peer.forgetSeen) :
    Durable T s' := by
  obtain ⟨s₁, hload, hr, hp⟩ := h
  obtain ⟨s₂, hload₂, hinner⟩ := load_congr hfile.symm hload
  exact ⟨s₂, hload₂, by rw [hinner, hr, hrules], by rw [hinner, hp, hpeers]⟩

/-- What a run keeps: the file can be loaded, and memory is durable unless something is left
    unsaved. -/
structure DurInv (T : Toml PersistedState Text) (s : State Text) (unsaved : Bool) : Prop where
  loads : ∃ s', State.load T s.disk = .ok s'
  durable : unsaved = false → Durable T s

/-- A freshly loaded state is durable. -/
theorem durInv_of_load {disk : Files Text} {s : State Text} (h : State.load T disk = .ok s) :
    DurInv T s false :=
  have hs : State.load T s.disk = .ok s := (load_disk h).symm ▸ h
  ⟨⟨s, hs⟩, fun _ => ⟨s, hs, rfl, rfl⟩⟩

theorem DurInv.call {s : State Text} {u : Bool} (h : DurInv T s u) (c : Call Text) :
    DurInv T (s.call T c).1 (unsavedNext s u c) := by
  by_cases hr : c.op = .restart
  · obtain ⟨s', hload⟩ := h.loads
    simp only [State.call, unsavedNext, hr, hload, if_true]
    exact durInv_of_load hload
  · by_cases hw : writes s.inner c.op = true
    · simp only [unsavedNext, if_neg hr, if_pos hw]
      cases hf : c.fault with
      | none =>
        have hd := durable_of_saved (T := T) hw hf
        exact ⟨⟨_, hd.choose_spec.1⟩, fun _ => hd⟩
      | some f =>
        have hfile : (s.call T c).1.disk.file = s.disk.file := by
          rw [call_of_writes hw, hf]
          exact (writeAndRename_some T f _ _).1
        obtain ⟨s', hload⟩ := h.loads
        obtain ⟨s'', hload', -⟩ := load_congr hfile.symm hload
        refine ⟨⟨s'', hload'⟩, fun hu => ?_⟩
        -- only a failed `touch_last_seen` leaves nothing unsaved
        simp only [Option.isNone_some, Bool.false_eq_true, if_false, Bool.or_eq_false_iff,
          Bool.not_eq_false'] at hu
        refine (h.durable hu.1).congr hfile ?_ ?_
        · rw [call_of_writes hw]
          revert hu
          cases c.op <;> simp [Op.isTouch, mutate]
        · rw [call_of_writes hw]
          revert hu
          cases c.op <;> simp only [Op.isTouch, Bool.false_eq_true, and_false, IsEmpty.forall_iff]
          exact fun _ => map_touchLastSeen Peer.forgetSeen (fun _ _ => rfl) _ _ _
    · simp only [unsavedNext, if_neg hr, if_neg hw]
      rw [call_of_not_writes (Bool.eq_false_iff.mpr hw) hr]
      exact h

/-- Run lemma: the invariant holds after every run from a freshly loaded state. -/
theorem durInv_run {disk : Files Text} {s₀ : State Text} (h₀ : State.load T disk = .ok s₀)
    (calls : List (Call Text)) :
    DurInv T ((storeMachine T).run s₀ calls) (unsavedAfter T s₀ calls false) := by
  induction calls using List.reverseRecOn with
  | nil => exact durInv_of_load h₀
  | append_singleton calls c ih =>
    rw [Transition.Machine.run_append, unsavedAfter_concat]
    exact ih.call c

/-- An acknowledged mutation either wrote or is one that succeeds without writing. -/
theorem acksWithoutWriting_of_isOk {s : State Text} {c : Call Text}
    (hop : c.op.isMutation = true) (hw : writes s.inner c.op = false)
    (hok : (s.call T c).2.isOk = true) : acksWithoutWriting s.inner c.op = true := by
  obtain ⟨op, fault⟩ := c
  cases op with
  | addPeer peer =>
    obtain ⟨e, he⟩ := addPeer_of_not_writes T fault hw
    simp only [State.call, he] at hok
    exact absurd hok (by simp [Reply.isOk, Except.isOk, Except.toBool])
  | touchLastSeen nodeIdHex now => exact absurd hop (by simp [Op.isMutation])
  | addRule peer target now =>
    obtain ⟨r, hr, hidx⟩ := addRule_of_not_writes T fault hw
    simp only [State.call, hr] at hok
    cases r with
    | error e => exact absurd hok (by simp [Reply.isOk, Except.isOk, Except.toBool])
    | ok i =>
      obtain ⟨hpeer, hcap, hi⟩ := hidx i rfl
      obtain ⟨hlt, hmatch, -⟩ := List.findIdx?_eq_some_iff_getElem.mp hi
      have hrule : s.inner.hasRule peer target = true :=
        List.any_eq_true.mpr ⟨_, List.getElem_mem hlt, hmatch⟩
      simp only [acksWithoutWriting, hpeer, hcap, hrule, decide_true, Bool.and_self]
  | removeRule peer target =>
    simp only [State.call, removeRule_of_not_writes hw] at hok
    simp only [writes] at hw
    cases hpeer : s.inner.hasPeer peer with
    | false =>
      simp only [hpeer] at hok
      exact absurd hok (by simp [Reply.isOk, Except.isOk, Except.toBool])
    | true =>
      rw [hpeer, Bool.true_and] at hw
      simp only [acksWithoutWriting, hpeer, hw, Bool.not_false, Bool.and_self]
  | removePeer name force =>
    simp only [State.call, removePeer_of_not_writes hw] at hok
    cases hpeer : s.inner.hasPeer name with
    | false => simp only [acksWithoutWriting, hpeer, Bool.not_false]
    | true =>
      simp only [hpeer] at hok
      exact absurd hok (by simp [Reply.isOk, Except.isOk, Except.toBool])
  | restart => exact absurd hop (by simp [Op.isMutation])

/-- **Ok means durable, away from silent acknowledgements.** In every run from a freshly
    loaded state in which no call that succeeds without writing is made while the failed save
    of an earlier mutation is still unsaved: whenever `add_peer`, `add_rule`, `remove_rule` or
    `remove_peer` returns `Ok`, loading the file at that moment gives the rules and, up to
    `last_seen`, the peers of memory. -/
theorem ok_durable (T : Toml PersistedState Text) (disk : Files Text) (s₀ : State Text)
    (h₀ : State.load T disk = .ok s₀) (calls : List (Call Text))
    (hclean : noSilentAck T s₀ calls false = true) :
    ∀ pre c post, calls = pre ++ c :: post → c.op.isMutation = true →
      (((storeMachine T).run s₀ pre).call T c).2.isOk = true →
      Durable T (((storeMachine T).run s₀ pre).call T c).1 := by
  intro pre c post hsplit hop hok
  by_cases hw : writes ((storeMachine T).run s₀ pre).inner c.op = true
  · -- the call wrote, and its `Ok` is the success of the save
    have hf : c.fault = none := by
      have htouch : c.op.isTouch = false := by
        revert hop
        cases c.op <;> simp [Op.isMutation, Op.isTouch]
      rw [isOk_of_writes hw, htouch, Bool.false_or, Option.isNone_iff_eq_none] at hok
      exact hok
    exact durable_of_saved hw hf
  · rw [Bool.not_eq_true] at hw
    have hr : c.op ≠ .restart := by
      intro hr
      exact absurd hop (by simp [hr, Op.isMutation])
    -- acknowledged without a save: durable because nothing earlier is left unsaved
    have hack := acksWithoutWriting_of_isOk hop hw hok
    rw [call_of_not_writes hw hr]
    refine (durInv_run h₀ pre).durable ?_
    by_contra hu
    rw [not_silent_of_split s₀ false pre c post (hsplit ▸ hclean) (by simpa using hu)] at hack
    exact absurd hack (by simp)

/-- A grant whose save fails, then the same grant again. -/
def retriedGrant : List (Call PersistedState) :=
  [⟨.addPeer ⟨"laptop", "aa11", "t", "t"⟩, none⟩,
   ⟨.addRule "laptop" "localhost:22" "t", some (.rename "disk full")⟩,
   ⟨.addRule "laptop" "localhost:22" "t", none⟩]

/-- The retried grant is acknowledged, is live in memory, and is not on disk. -/
theorem retried_grant_not_durable :
    ((storeMachine (.self PersistedState)).trace State.fresh retriedGrant).getLast?
        = some (⟨.addRule "laptop" "localhost:22" "t", none⟩, .index (.ok 0)) ∧
      (State.after (.self PersistedState) retriedGrant).ruleAllows "laptop" "localhost:22" = true ∧
      ¬ Durable (.self PersistedState) (State.after (.self PersistedState) retriedGrant) := by
  refine ⟨by decide, by decide, ?_⟩
  rintro ⟨s', hload, hrules, -⟩
  cases hload
  exact absurd hrules (by decide)

/-- The same grant with another one in between, which saves what was left unsaved. -/
def rescuedGrant : List (Call PersistedState) :=
  [⟨.addPeer ⟨"laptop", "aa11", "t", "t"⟩, none⟩,
   ⟨.addRule "laptop" "localhost:22" "t", some (.rename "disk full")⟩,
   ⟨.addRule "laptop" "db:5432" "t", none⟩]

theorem ok_durable_rescued :
    Durable (.self PersistedState) ((State.after (.self PersistedState) rescuedGrant).call
      (.self PersistedState) ⟨.addRule "laptop" "localhost:22" "t", none⟩).1 :=
  ok_durable (.self PersistedState) .empty State.fresh rfl
    (rescuedGrant ++ [⟨.addRule "laptop" "localhost:22" "t", none⟩]) (by decide)
    rescuedGrant ⟨.addRule "laptop" "localhost:22" "t", none⟩ [] rfl (by decide) (by decide)

end Tmite.Daemon
