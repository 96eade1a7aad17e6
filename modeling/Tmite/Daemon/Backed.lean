import Tmite.Daemon.DialGrant

namespace Tmite.Daemon

open Tmite.Core Tmite.Proto Transition

/-!
# What a dial rests on

The data plane makes up no name and no rule.  A connection takes its name from a peer of the table,
a stream takes it from its connection, a dial from its stream, and the ACL answers from the rules of
the table.  So for any relations `V name node`, of the names a node may work under, and
`A name target`, of what was allowed: if all that gets into the table is covered by them, every dial
is.

* `Drawn` — where a step takes names, grants and dials from;
* `Backed.next` — a step of the data plane that brings in only what is covered keeps the rest so;
* `Backed.call` — the same for any call of the store by another part of the daemon.
-/

universe v
variable {Text : Type v} {T : Toml PersistedState Text}

/-! ### Where a step draws from -/

/-- The store call of a step, if it makes one. -/
def DataPlane.callOf (p : DataPlane Text) : DataAct Text → Option (Call Text)
  | .pair name remote now fault => some ⟨.addPeer ⟨name, remote.display, now, now⟩, fault⟩
  | .admin c => some c
  | .restart => some ⟨.restart, none⟩
  | .touchLastSeen i now fault =>
    p.conns[i]?.map fun c => ⟨.touchLastSeen c.remote.display now, fault⟩
  | _ => none

/-- The lookup of `remote` finds a peer called `name`. -/
def DataPlane.Finds (p : DataPlane Text) (remote : PublicKey) (name : String) : Prop :=
  ∃ peer, p.store.peerByNode remote.display = some peer ∧ peer.name = name

/-- A step from `p` to `p'` takes its names, its grants and its dials from `p`. -/
structure Drawn (p p' : DataPlane Text) : Prop where
  conns : ∀ c' ∈ p'.conns, ∀ name, c'.cachedName = some name →
    (∃ c ∈ p.conns, c.remote = c'.remote ∧ c.cachedName = some name) ∨
      p.Finds c'.remote name
  streams : ∀ st' ∈ p'.streams,
    (∃ st ∈ p.streams, st.peerName = st'.peerName ∧ st.remote = st'.remote) ∨
      ∃ c ∈ p.conns, c.remote = st'.remote ∧ c.cachedName = some st'.peerName
  dialling : ∀ st' ∈ p'.streams, ∀ target table, st'.pc = .dial target table →
    st' ∈ p.streams ∨ ∃ st ∈ p.streams, st.remote = st'.remote ∧ table = p.store.inner ∧
      p.store.ruleAllows st.peerName target = true
  dials : ∀ d ∈ p'.dials, d ∈ p.dials ∨
    ∃ st ∈ p.streams, st.remote = d.node ∧ st.pc = .dial d.target d.table

section Drawn

variable {p p' : DataPlane Text}

/-- What looks the same draws from the same. -/
theorem Drawn.congr {q : DataPlane Text} (h : Drawn p p') (hconns : q.conns = p'.conns)
    (hstreams : q.streams = p'.streams) (hdials : q.dials = p'.dials) : Drawn p q := by
  refine ⟨?_, ?_, ?_, ?_⟩
  · rw [hconns]; exact h.conns
  · rw [hstreams]; exact h.streams
  · rw [hstreams]; exact h.dialling
  · rw [hdials]; exact h.dials

theorem Drawn.refl (p : DataPlane Text) : Drawn p p :=
  ⟨fun c hc _ hname => .inl ⟨c, hc, rfl, hname⟩, fun st hst => .inl ⟨st, hst, rfl, rfl⟩,
    fun _ hst _ _ _ => .inl hst, fun _ hd => .inl hd⟩

theorem Drawn.setConn {i : ℕ} {c : Conn} {q : ConnPc} (hc : c ∈ p.conns)
    (hname : ∀ name, (Conn.mk c.remote q).cachedName = some name →
      c.cachedName = some name ∨ p.Finds c.remote name) :
    Drawn p (p.setConn i c q) where
  conns := fun c' hc' name hn => by
    rcases List.mem_or_eq_of_mem_set hc' with hmem | rfl
    · exact .inl ⟨c', hmem, rfl, hn⟩
    · exact (hname name hn).imp (fun h => ⟨c, hc, rfl, h⟩) id
  streams := (Drawn.refl p).streams
  dialling := (Drawn.refl p).dialling
  dials := (Drawn.refl p).dials

theorem Drawn.setStream {j : ℕ} {st st' : Stream} (hst : st ∈ p.streams)
    (hname : st'.peerName = st.peerName) (hremote : st'.remote = st.remote)
    (hdial : ∀ target table, st'.pc = .dial target table → table = p.store.inner ∧
      p.store.ruleAllows st.peerName target = true) : Drawn p (p.setStream j st') where
  conns := (Drawn.refl p).conns
  streams := fun u hu => by
    rcases List.mem_or_eq_of_mem_set hu with hmem | rfl
    · exact .inl ⟨u, hmem, rfl, rfl⟩
    · exact .inl ⟨st, hst, hname.symm, hremote.symm⟩
  dialling := fun u hu target table hpc => by
    rcases List.mem_or_eq_of_mem_set hu with hmem | rfl
    · exact .inl hmem
    · exact .inr ⟨st, hst, hremote.symm, hdial target table hpc⟩
  dials := (Drawn.refl p).dials

/-- A stream that moves on without being about to dial. -/
theorem Drawn.setStream_settled {j : ℕ} {st st' : Stream} (hst : st ∈ p.streams)
    (hname : st'.peerName = st.peerName) (hremote : st'.remote = st.remote)
    (hdial : ∀ target table, st'.pc ≠ .dial target table) : Drawn p (p.setStream j st') :=
  .setStream hst hname hremote (fun target table hpc => absurd hpc (hdial target table))

theorem Drawn.accept {i : ℕ} {c : Conn} (hc : c ∈ p.conns) (hn : p.accept i c = some p') :
    Drawn p p' := by
  simp only [DataPlane.accept] at hn
  split at hn
  · split at hn
    · cases hn
      exact .setConn hc (by simp [Conn.cachedName])
    · -- the name is that of the peer the lookup found
      rename_i peer hfind
      cases hn
      refine .setConn hc (fun name hname => .inr ⟨peer, hfind, ?_⟩)
      simpa [Conn.cachedName] using hname
  · split at hn
    · exact absurd hn (by simp)
    · cases hn
      exact (Drawn.setConn (i := i) (q := .rejectSleep) hc (by simp [Conn.cachedName])).congr
        rfl rfl rfl
  · cases hn
    exact (Drawn.setConn (i := i) (q := .ended) hc (by simp [Conn.cachedName])).congr rfl rfl rfl
  · rename_i name₀ hpc
    split at hn
    · exact absurd hn (by simp)
    · cases hn
      refine (Drawn.setConn (i := i) (q := .touch name₀) hc (fun name hname => .inl ?_)).congr
        rfl rfl rfl
      simpa [Conn.cachedName, hpc] using hname
  · exact absurd hn (by simp)

theorem Drawn.checkAcl {j : ℕ} {st : Stream} {isForward : Bool} {target : String}
    (hst : st ∈ p.streams) : Drawn p (p.setStream j (st.checkAcl p.store isForward target)) := by
  simp only [Stream.checkAcl]
  split
  · exact .setStream_settled hst rfl rfl (by simp)
  · rename_i hallow
    split
    · exact .setStream_settled hst rfl rfl (by simp)
    · refine .setStream hst rfl rfl (fun target' table hpc => ?_)
      cases hpc
      exact ⟨rfl, by simpa using hallow⟩

/-- Every step of the data plane. -/
theorem drawn_of_next {a : DataAct Text} (hn : p.next T a = some p') : Drawn p p' := by
  cases a with
  | pair name remote now fault =>
    cases hn
    exact (Drawn.refl p).congr rfl rfl rfl
  | admin c =>
    simp only [DataPlane.next] at hn
    split at hn
    · cases hn
      exact (Drawn.refl p).congr rfl rfl rfl
    · exact absurd hn (by simp)
  | restart =>
    cases hn
    exact ⟨by simp, by simp, by simp, (Drawn.refl p).dials⟩
  | incoming remote =>
    cases hn
    refine ⟨fun c hc name hname => ?_, (Drawn.refl p).streams, (Drawn.refl p).dialling,
      (Drawn.refl p).dials⟩
    rcases List.mem_append.mp hc with hmem | hnew
    · exact .inl ⟨c, hmem, rfl, hname⟩
    · rw [List.mem_singleton.mp hnew] at hname
      exact absurd hname (by simp [Conn.cachedName])
  | accept i =>
    obtain ⟨c, hc, hn⟩ := Option.bind_eq_some_iff.mp hn
    exact .accept (List.mem_of_getElem? hc) hn
  | touchLastSeen i now fault =>
    obtain ⟨c, hc, hn⟩ := Option.bind_eq_some_iff.mp hn
    split at hn
    · rename_i name hpc
      cases hn
      refine (Drawn.setConn (i := i) (q := .serving name) (List.mem_of_getElem? hc)
        (fun name' hname => .inl ?_)).congr rfl rfl rfl
      simpa [Conn.cachedName, hpc] using hname
    · exact absurd hn (by simp)
  | acceptBi i ok =>
    obtain ⟨c, hc, hn⟩ := Option.bind_eq_some_iff.mp hn
    have hmem := List.mem_of_getElem? hc
    split at hn
    · rename_i name hpc
      split at hn
      · -- the new stream works under the name of its connection
        cases hn
        refine ⟨(Drawn.refl p).conns, fun st hst => ?_, fun st hst target table hst' => ?_,
          (Drawn.refl p).dials⟩
        · rcases List.mem_append.mp hst with hold | hnew
          · exact .inl ⟨st, hold, rfl, rfl⟩
          · rw [List.mem_singleton.mp hnew]
            exact .inr ⟨c, hmem, rfl, by simp [Conn.cachedName, hpc]⟩
        · rcases List.mem_append.mp hst with hold | hnew
          · exact .inl hold
          · rw [List.mem_singleton.mp hnew] at hst'
            exact absurd hst' (by simp)
      · cases hn
        exact .setConn hmem (by simp [Conn.cachedName])
    · exact absurd hn (by simp)
  | readFrame j r =>
    obtain ⟨st, hst, hn⟩ := Option.bind_eq_some_iff.mp hn
    split at hn
    · cases hn
      obtain ⟨hname, hremote, hnd⟩ := st.read_peerName r
      exact .setStream_settled (List.mem_of_getElem? hst) hname hremote hnd
    · exact absurd hn (by simp)
  | checkAcl j =>
    obtain ⟨st, hst, hn⟩ := Option.bind_eq_some_iff.mp hn
    split at hn
    · cases hn
      exact .checkAcl (List.mem_of_getElem? hst)
    · exact absurd hn (by simp)
  | dial j outcome =>
    obtain ⟨st, hst, hn⟩ := Option.bind_eq_some_iff.mp hn
    have hmem := List.mem_of_getElem? hst
    split at hn
    · rename_i target table hpc
      cases hn
      have hsame : (st.dialled target outcome).peerName = st.peerName ∧
          (st.dialled target outcome).remote = st.remote := by
        cases outcome <;> exact ⟨rfl, rfl⟩
      have hmoved : Drawn p (p.setStream j (st.dialled target outcome)) :=
        .setStream_settled hmem hsame.1 hsame.2 (st.dialled_settled target outcome).2
      refine ⟨hmoved.conns, hmoved.streams, hmoved.dialling, fun d hd => ?_⟩
      rcases List.mem_append.mp hd with hold | hnew
      · exact .inl hold
      · rw [List.mem_singleton.mp hnew]
        exact .inr ⟨st, hmem, rfl, hpc⟩
    · exact absurd hn (by simp)
  | writeOk j ok =>
    obtain ⟨st, hst, hn⟩ := Option.bind_eq_some_iff.mp hn
    split at hn
    · cases hn
      split
      · exact .setStream_settled (List.mem_of_getElem? hst) rfl rfl (by simp)
      · exact .setStream_settled (List.mem_of_getElem? hst) rfl rfl (by simp)
    · exact absurd hn (by simp)
  | relayed j =>
    obtain ⟨st, hst, hn⟩ := Option.bind_eq_some_iff.mp hn
    split at hn
    · cases hn
      exact .setStream_settled (List.mem_of_getElem? hst) rfl rfl (by simp)
    · exact absurd hn (by simp)

/-- The store takes the call of the step, and nothing else. -/
theorem store_of_next {a : DataAct Text} (hn : p.next T a = some p') :
    p'.store = ((p.callOf a).map fun c => (p.store.call T c).1).getD p.store := by
  cases a with
  | pair name remote now fault => cases hn; rfl
  | admin c =>
    simp only [DataPlane.next] at hn
    split at hn
    · cases hn; rfl
    · exact absurd hn (by simp)
  | restart | incoming remote => cases hn; rfl
  | accept i =>
    obtain ⟨c, -, hn⟩ := Option.bind_eq_some_iff.mp hn
    simp only [DataPlane.accept] at hn
    split at hn
    · split at hn <;> cases hn <;> rfl
    · split at hn
      · exact absurd hn (by simp)
      · cases hn; rfl
    · cases hn; rfl
    · split at hn
      · exact absurd hn (by simp)
      · cases hn; rfl
    · exact absurd hn (by simp)
  | touchLastSeen i now fault =>
    obtain ⟨c, hc, hn⟩ := Option.bind_eq_some_iff.mp hn
    split at hn
    · cases hn
      simp [DataPlane.callOf, hc]
    · exact absurd hn (by simp)
  | acceptBi i ok =>
    obtain ⟨c, -, hn⟩ := Option.bind_eq_some_iff.mp hn
    split at hn
    · split at hn <;> cases hn <;> rfl
    · exact absurd hn (by simp)
  | readFrame j _ | checkAcl j | dial j _ | writeOk j _ | relayed j =>
    obtain ⟨st, -, hn⟩ := Option.bind_eq_some_iff.mp hn
    split at hn
    · cases hn; rfl
    · exact absurd hn (by simp)

end Drawn

/-! ### What is covered -/

section Cover

variable {V V' : String → PublicKey → Prop} {A B : String → String → Prop}

/-- Every peer of the table is a node that may work under its name, and every rule was allowed. -/
structure TableBacked (V : String → PublicKey → Prop) (A : String → String → Prop)
    (m : PersistedState) : Prop where
  peers : ∀ q ∈ m.peers, ∃ node : PublicKey, q.nodeId = node.display ∧ V q.name node
  rules : ∀ r ∈ m.rules, A r.peer r.target

/-- What the operation adds to the table is covered. -/
structure OpBacked (V : String → PublicKey → Prop) (A : String → String → Prop) (op : Op) :
    Prop where
  peer : ∀ peer, op = .addPeer peer → ∃ node : PublicKey, peer.nodeId = node.display ∧
    V peer.name node
  rule : ∀ name target now, op = .addRule name target now → A name target

/-- The dial's grant was allowed, and its node may work under the name of the grant. -/
def Dial.Backed (V : String → PublicKey → Prop) (A : String → String → Prop) (d : Dial) : Prop :=
  ∃ r ∈ d.table.rules, r.target = d.target ∧ V r.peer d.node ∧ A r.peer r.target

/-- All that the data plane holds is covered. -/
structure Backed (T : Toml PersistedState Text) (V : String → PublicKey → Prop)
    (A : String → String → Prop) (p : DataPlane Text) : Prop where
  table : Stored T (TableBacked V A) p.store
  conns : ∀ c ∈ p.conns, ∀ name, c.cachedName = some name → V name c.remote
  streams : ∀ st ∈ p.streams, V st.peerName st.remote
  dialling : ∀ st ∈ p.streams, ∀ target table, st.pc = .dial target table →
    (Dial.mk st.remote target table).Backed V A
  dials : ∀ d ∈ p.dials, d.Backed V A

theorem TableBacked.mono (hV : ∀ name node, V name node → V' name node)
    (hA : ∀ name target, A name target → B name target) {m : PersistedState}
    (h : TableBacked V A m) : TableBacked V' B m := by
  refine ⟨fun q hq => ?_, fun r hr => hA _ _ (h.rules r hr)⟩
  obtain ⟨node, hid, hv⟩ := h.peers q hq
  exact ⟨node, hid, hV _ _ hv⟩

theorem Dial.Backed.mono (hV : ∀ name node, V name node → V' name node)
    (hA : ∀ name target, A name target → B name target) {d : Dial} (h : d.Backed V A) :
    d.Backed V' B := by
  obtain ⟨r, hr, ht, hv, ha⟩ := h
  exact ⟨r, hr, ht, hV _ _ hv, hA _ _ ha⟩

/-- More may be known later. -/
theorem Backed.mono (hV : ∀ name node, V name node → V' name node)
    (hA : ∀ name target, A name target → B name target) {p : DataPlane Text}
    (h : Backed T V A p) : Backed T V' B p where
  table := ⟨h.table.memory.mono hV hA, fun s hs => (h.table.file s hs).mono hV hA⟩
  conns := fun c hc name hname => hV _ _ (h.conns c hc name hname)
  streams := fun st hst => hV _ _ (h.streams st hst)
  dialling := fun st hst target table hpc => (h.dialling st hst target table hpc).mono hV hA
  dials := fun d hd => (h.dials d hd).mono hV hA

theorem backed_initial : Backed T V A (DataPlane.initial : DataPlane Text) where
  table := stored_fresh ⟨by simp [PersistedState.default], by simp [PersistedState.default]⟩
  conns := by simp [DataPlane.initial]
  streams := by simp [DataPlane.initial]
  dialling := by simp [DataPlane.initial]
  dials := by simp [DataPlane.initial]

theorem TableBacked.mutate {m : PersistedState} {op : Op} (h : TableBacked V A m)
    (hop : OpBacked V A op) : TableBacked V A (mutate m op) := by
  refine ⟨fun q hq => ?_, fun r hr => ?_⟩
  · rcases peer_of_mutate hq with ⟨q₀, hq₀, hname, hid⟩ | hadd
    · obtain ⟨node, hid₀, hv⟩ := h.peers q₀ hq₀
      exact ⟨node, by rw [← hid, hid₀], by rw [← hname]; exact hv⟩
    · exact hop.peer q hadd
  · rcases rule_of_mutate hr with hold | ⟨now, hadd⟩
    · exact h.rules r hold
    · exact hop.rule _ _ now hadd

/-- Another part of the daemon calls the store. -/
theorem Backed.call {p : DataPlane Text} (h : Backed T V A p) {c : Call Text}
    (hop : OpBacked V A c.op) : Backed T V A { p with store := (p.store.call T c).1 } :=
  ⟨h.table.call (fun hm _ => hm.mutate hop), h.conns, h.streams, h.dialling, h.dials⟩

/-- Whoever the lookup finds under a name may work under it. -/
theorem Backed.finds {p : DataPlane Text} (h : Backed T V A p) {remote : PublicKey}
    {name : String} (hf : p.Finds remote name) : V name remote := by
  obtain ⟨peer, hfind, rfl⟩ := hf
  obtain ⟨node, hid, hv⟩ := h.table.memory.peers peer (List.mem_of_find?_eq_some hfind)
  have heq := List.find?_some hfind
  rw [hid, eqIgnoreAsciiCase_display] at heq
  rw [← heq]
  exact hv

/-- A rule that answers for a stream was allowed, for a name its node may work under. -/
theorem Backed.granted {p : DataPlane Text} (h : Backed T V A p) {st : Stream} {target : String}
    (hst : st ∈ p.streams) (hallow : p.store.ruleAllows st.peerName target = true) :
    (Dial.mk st.remote target p.store.inner).Backed V A := by
  obtain ⟨r, hr, hmatch⟩ := List.any_eq_true.mp hallow
  obtain ⟨hpeer, htarget⟩ := Bool.and_eq_true_iff.mp hmatch
  refine ⟨r, hr, eq_of_beq htarget, ?_, h.table.memory.rules r hr⟩
  rw [eq_of_beq hpeer]
  exact h.streams st hst

/-- **One step.**  What a step draws from the state is covered, and so is what it brings in. -/
theorem Backed.next {p p' : DataPlane Text} {a : DataAct Text} (h : Backed T V A p)
    (hop : ∀ c, p.callOf a = some c → OpBacked V A c.op) (hn : p.next T a = some p') :
    Backed T V A p' := by
  have hdrawn := drawn_of_next hn
  refine ⟨?_, fun c hc name hname => ?_, fun st hst => ?_, fun st hst target table hpc => ?_,
    fun d hd => ?_⟩
  · rw [store_of_next hn]
    cases hcall : p.callOf a with
    | none => exact h.table
    | some c => exact (h.call (hop c hcall)).table
  · rcases hdrawn.conns c hc name hname with ⟨c₀, hc₀, hremote, hname₀⟩ | hf
    · rw [← hremote]
      exact h.conns c₀ hc₀ name hname₀
    · exact h.finds hf
  · rcases hdrawn.streams st hst with ⟨st₀, hst₀, hname, hremote⟩ | ⟨c, hc, hremote, hname⟩
    · rw [← hname, ← hremote]
      exact h.streams st₀ hst₀
    · rw [← hremote]
      exact h.conns c hc _ hname
  · rcases hdrawn.dialling st hst target table hpc with hold | ⟨st₀, hst₀, hremote, rfl, hallow⟩
    · exact h.dialling st hold target table hpc
    · rw [← hremote]
      exact h.granted hst₀ hallow
  · rcases hdrawn.dials d hd with hold | ⟨st, hst, hremote, hpc⟩
    · exact h.dials d hold
    · have hbacked := h.dialling st hst _ _ hpc
      rw [hremote] at hbacked
      exact hbacked

end Cover

end Tmite.Daemon
