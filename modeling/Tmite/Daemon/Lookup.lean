import Tmite.Daemon.StoreInv
import Mathlib.Data.List.Pairwise

namespace Tmite.Daemon

open Tmite.Core Tmite.Proto

/-!
# Peers by name and by node id

The store is administered by name and searched by node id (`peer_by_node`, the first match).
`add_peer` checks the name only, so the two keys stay in bijection exactly as long as no node
pairs under a second name: `lookup_agrees_iff` reads this off a run, in both directions.
-/

universe v
variable {Text : Type v} {T : Toml PersistedState Text}

/-- What the two lookups owe each other for the peer `p` found under the name `N`: the node id
    leads back to `p`, so the rules of `N` are the ones consulted when that node connects, and
    once `remove_peer(N)` succeeds the node id leads nowhere. -/
structure LookupAgrees (T : Toml PersistedState Text) (s : State Text) (N : String) (p : Peer) :
    Prop where
  by_node : s.peerByNode p.nodeId = some p
  named : p.name = N
  rules : ∀ t, (s.peerByNode p.nodeId).map (fun q => s.ruleAllows q.name t)
    = some (s.ruleAllows N t)
  removed : ∀ (fault : Option (WriteFault Text)) (force : Bool),
    (s.removePeer T fault N force).2 = .ok true →
      (s.removePeer T fault N force).1.peerByNode p.nodeId = none

/-- No two peers have the same node id, up to case. -/
def NodesDistinct (m : PersistedState) : Prop :=
  (m.peers.map Peer.nodeId).Pairwise (fun a b => eqIgnoreAsciiCase a b = false)

/-- The call pairs no node that is already in the table: an `add_peer` that passes its checks
    is for a node id `peer_by_node` does not find. -/
def PairsNewNode (s : State Text) (c : Call Text) : Prop :=
  ∀ peer, c.op = .addPeer peer → writes s.inner c.op = true → s.peerByNode peer.nodeId = none

/-! ### Distinct node ids along a run -/

theorem NodesDistinct.eq {m : PersistedState} (h : NodesDistinct m) {p q : Peer}
    (hp : p ∈ m.peers) (hq : q ∈ m.peers) (heq : eqIgnoreAsciiCase p.nodeId q.nodeId = true) :
    p = q := by
  by_contra hne
  have hpw := List.pairwise_map.mp h
  have hsymm : Std.Symm (fun p q : Peer => eqIgnoreAsciiCase p.nodeId q.nodeId = false) :=
    ⟨fun a b hab => by rw [eqIgnoreAsciiCase_comm]; exact hab⟩
  exact absurd heq (by rw [hpw.forall hp hq hne]; simp)

theorem NodesDistinct.mutate {s : State Text} {c : Call Text} (hnew : PairsNewNode s c)
    (h : NodesDistinct s.inner) (hw : writes s.inner c.op = true) :
    NodesDistinct (mutate s.inner c.op) := by
  cases hop : c.op with
  | addPeer peer =>
    have hnone := hnew peer hop hw
    simp only [NodesDistinct, Daemon.mutate, List.map_append, List.map_cons, List.map_nil]
    refine List.pairwise_append.mpr ⟨h, List.pairwise_singleton _ _, fun a ha b hb => ?_⟩
    obtain ⟨q, hq, rfl⟩ := List.mem_map.mp ha
    rw [List.mem_singleton.mp hb]
    simpa using List.find?_eq_none.mp hnone q hq
  | touchLastSeen nodeIdHex now =>
    rw [NodesDistinct, map_touchLastSeen Peer.nodeId (fun _ _ => rfl)]
    exact h
  | addRule peer target now => exact h
  | removeRule peer target => exact h
  | removePeer name force => exact h.sublist (List.filter_sublist.map _)
  | restart => exact h

theorem stored_nodesDistinct (calls : List (Call Text))
    (hnew : ∀ pre c post, calls = pre ++ c :: post → PairsNewNode (State.after T pre) c) :
    Stored T NodesDistinct (State.after T calls) :=
  (storeMachine T).run_invariant (C := PairsNewNode)
    (fun _ _ h hc => h.call (fun hm hw => hm.mutate hc hw))
    (stored_fresh (by simp [NodesDistinct, PersistedState.default])) calls hnew

/-! ### The two lookups -/

theorem peerByName_some {s : State Text} {N : String} {p : Peer} (h : s.peerByName N = some p) :
    p ∈ s.inner.peers ∧ p.name = N := by
  have hname := List.find?_some h
  exact ⟨List.mem_of_find?_eq_some h, by simpa using hname⟩

theorem peerByNode_self {s : State Text} {p : Peer} (h : NodesDistinct s.inner)
    (hp : p ∈ s.inner.peers) : s.peerByNode p.nodeId = some p := by
  cases hfind : s.peerByNode p.nodeId with
  | none => exact absurd (eqIgnoreAsciiCase_refl _) (List.find?_eq_none.mp hfind p hp)
  | some q =>
    have hq := List.find?_some hfind
    rw [h.eq (List.mem_of_find?_eq_some hfind) hp hq]

/-- A removal that reports `Ok(true)` took exactly the peers of that name away. -/
theorem removePeer_ok_true {s : State Text} {fault : Option (WriteFault Text)} {N : String}
    {force : Bool} (h : (s.removePeer T fault N force).2 = .ok true) :
    (s.removePeer T fault N force).1.inner.peers = s.inner.peers.filter (fun p => p.name != N) := by
  by_cases hw : writes s.inner (.removePeer N force) = true
  · rw [removePeer_of_writes hw]; rfl
  · rw [removePeer_of_not_writes (Bool.eq_false_iff.mpr hw)] at h
    split at h <;> exact absurd h (by simp)

theorem lookupAgrees_of_distinct {s : State Text} (h : NodesDistinct s.inner) {N : String}
    {p : Peer} (hp : s.peerByName N = some p) : LookupAgrees T s N p := by
  obtain ⟨hmem, hname⟩ := peerByName_some hp
  have hself := peerByNode_self h hmem
  refine ⟨hself, hname, fun t => by rw [hself, Option.map_some, hname], fun fault force hok => ?_⟩
  rw [State.peerByNode, removePeer_ok_true hok]
  refine List.find?_eq_none.mpr (fun q hq heq => ?_)
  obtain ⟨hq, hne⟩ := List.mem_filter.mp hq
  rw [h.eq hq hmem heq, hname] at hne
  exact absurd hne (by simp)

/-- A node that pairs under a second name is found under its first one. -/
theorem not_lookupAgrees_of_known_node (T : Toml PersistedState Text)
    (fault : Option (WriteFault Text)) {s : State Text} {peer q : Peer}
    (hw : writes s.inner (.addPeer peer) = true)
    (hq : s.peerByNode peer.nodeId = some q) :
    (s.call T ⟨.addPeer peer, fault⟩).1.peerByName peer.name = some peer ∧
      (s.call T ⟨.addPeer peer, fault⟩).1.peerByNode peer.nodeId = some q ∧ q ≠ peer := by
  have hfree : s.inner.hasPeer peer.name = false := by
    simp only [writes, Bool.and_eq_true, Bool.not_eq_true'] at hw
    exact hw.1
  rw [call_of_writes hw]
  refine ⟨?_, ?_, ?_⟩
  · -- by name: nothing under that name before, so the new peer is the first
    have hnone : s.inner.peers.find? (fun p => p.name == peer.name) = none :=
      List.find?_eq_none.mpr (fun p hp => List.any_eq_false.mp hfree p hp)
    simp [State.peerByName, mutate, List.find?_append, hnone]
  · -- by node: the older entry is still the first match
    have hq' : s.inner.peers.find? (fun p => eqIgnoreAsciiCase p.nodeId peer.nodeId) = some q := hq
    simp [State.peerByNode, mutate, List.find?_append, hq']
  · rintro rfl
    have hmem := List.mem_of_find?_eq_some hq
    exact List.any_eq_false.mp hfree q hmem (by simp)

/-- **When the two lookups agree.** In every run from the default state, of any calls and with
    any failed saves: the lookups agree for every peer in every state of the run iff no node
    pairs while it is in the table under another name. -/
theorem lookup_agrees_iff (T : Toml PersistedState Text) (calls : List (Call Text)) :
    (∀ pre post, calls = pre ++ post → ∀ N p, (State.after T pre).peerByName N = some p →
        LookupAgrees T (State.after T pre) N p) ↔
      ∀ pre c post, calls = pre ++ c :: post → PairsNewNode (State.after T pre) c := by
  constructor
  · -- a known node pairing again shows in the state right after its `add_peer`
    rintro h pre ⟨op, fault⟩ post hsplit peer rfl hw
    by_contra hknown
    obtain ⟨q, hq⟩ := Option.ne_none_iff_exists'.mp hknown
    obtain ⟨hname, hnode, hne⟩ := not_lookupAgrees_of_known_node T fault hw hq
    have hafter : State.after T (pre ++ [⟨.addPeer peer, fault⟩])
        = ((State.after T pre).call T ⟨.addPeer peer, fault⟩).1 := by
      rw [State.after, Transition.Machine.run_append]; rfl
    have hagree := h (pre ++ [⟨.addPeer peer, fault⟩]) post (by simp [hsplit]) peer.name peer
      (by rw [hafter]; exact hname)
    have hself := hagree.by_node
    rw [hafter, hnode] at hself
    exact hne (Option.some.inj hself)
  · intro h pre post hsplit N p hp
    refine lookupAgrees_of_distinct (stored_nodesDistinct pre ?_).memory hp
    intro pre' c post' hpre
    exact h pre' c (post' ++ post) (by simp [hsplit, hpre])

/-- One client pairing under two invites: the golden vectors' first node, twice. -/
def pairedTwice : List (Call PersistedState) :=
  [⟨.addPeer ⟨"laptop", vectorKey0.display, "t", "t"⟩, none⟩,
   ⟨.addPeer ⟨"desktop", vectorKey0.display, "t", "t"⟩, none⟩,
   ⟨.addRule "desktop" "localhost:22" "t", none⟩]

/-- Under its second name the node gets the rules of the first, and it is still accepted once
    the second name is removed. -/
theorem paired_twice_disagrees :
    (State.after (.self PersistedState) pairedTwice).peerByName "desktop"
        = some ⟨"desktop", vectorKey0.display, "t", "t"⟩ ∧
      (State.after (.self PersistedState) pairedTwice).peerByNode vectorKey0.display
        = some ⟨"laptop", vectorKey0.display, "t", "t"⟩ ∧
      ((State.after (.self PersistedState) pairedTwice).removePeer (.self PersistedState) none
        "desktop" true).2 = .ok true ∧
      ((State.after (.self PersistedState) pairedTwice).removePeer (.self PersistedState) none
        "desktop" true).1.peerByNode vectorKey0.display
        = some ⟨"laptop", vectorKey0.display, "t", "t"⟩ := by
  decide +kernel

end Tmite.Daemon
