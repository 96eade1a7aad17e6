import Tmite.Daemon.DataPlane

namespace Tmite.Daemon

open Tmite.Core Tmite.Proto Transition

/-!
# Which dials the ACL covers

A connection carries the name `peer_by_node` found, and the ACL is asked for that name.  The
grant it finds is the dialling node's own as long as the name still belongs to that node
(`NameBound`).  Removing the peer is harmless, since its rules go with it and a name without a
peer has no rules; only a pairing that gives the name to another node while a connection or an
unchecked stream still carries it breaks the link.  `NameNotReused` is that condition and
`dial_granted` the result under it.
-/

universe v
variable {Text : Type v} {T : Toml PersistedState Text}

/-! ### The property and the condition -/

/-- At the ACL check the table held a peer with the connection's node id, whose name has a
    rule with exactly this target. -/
def Dial.Granted (d : Dial) : Prop :=
  ∃ q ∈ d.table.peers, q.nodeId = d.node.display ∧
    ∃ r ∈ d.table.rules, r.peer = q.name ∧ r.target = d.target

instance (d : Dial) : Decidable d.Granted :=
  inferInstanceAs (Decidable (∃ q ∈ d.table.peers, q.nodeId = d.node.display ∧
    ∃ r ∈ d.table.rules, r.peer = q.name ∧ r.target = d.target))

/-- The name an authenticated connection works under. -/
def Conn.cachedName (c : Conn) : Option String :=
  match c.pc with
  | .resetDelay name => some name
  | .touch name => some name
  | .serving name => some name
  | _ => none

/-- The stream's ACL check is still to come. -/
def Stream.unchecked (st : Stream) : Bool :=
  match st.pc with
  | .readFrame => true
  | .acl _ _ => true
  | _ => false

/-- Whoever still works under `name` is `remote`. -/
structure HeldBy (p : DataPlane Text) (name : String) (remote : PublicKey) : Prop where
  conns : ∀ c ∈ p.conns, c.cachedName = some name → c.remote = remote
  streams : ∀ st ∈ p.streams, st.unchecked = true → st.peerName = name → st.remote = remote

instance (p : DataPlane Text) (name : String) (remote : PublicKey) :
    Decidable (HeldBy p name remote) :=
  decidable_of_iff
    ((∀ c ∈ p.conns, c.cachedName = some name → c.remote = remote) ∧
      ∀ st ∈ p.streams, st.unchecked = true → st.peerName = name → st.remote = remote)
    ⟨fun h => ⟨h.1, h.2⟩, fun h => ⟨h.conns, h.streams⟩⟩

/-- A pairing that passes the checks of `add_peer` takes no name another node still works
    under. -/
def NameNotReused (p : DataPlane Text) : DataAct Text → Prop
  | .pair name remote now _ =>
    writes p.store.inner (.addPeer ⟨name, remote.display, now, now⟩) = true → HeldBy p name remote
  | _ => True

instance (p : DataPlane Text) (a : DataAct Text) : Decidable (NameNotReused p a) :=
  match a with
  | .pair name remote now _ =>
    inferInstanceAs (Decidable
      (writes p.store.inner (.addPeer ⟨name, remote.display, now, now⟩) = true →
        HeldBy p name remote))
  | .admin _ | .restart | .incoming _ | .accept _ | .touchLastSeen _ _ _ | .acceptBi _ _
  | .readFrame _ _ | .checkAcl _ | .dial _ _ | .writeOk _ _ | .relayed _ =>
    inferInstanceAs (Decidable True)

/-! ### The peers of a table -/

/-- Every node id in the table is a displayed key. -/
def NodesKeyed (m : PersistedState) : Prop := ∀ q ∈ m.peers, ∃ k : PublicKey, q.nodeId = k.display

/-- The peers called `name` in the table are the node `remote`. -/
def NameBound (m : PersistedState) (name : String) (remote : PublicKey) : Prop :=
  ∀ q ∈ m.peers, q.name = name → q.nodeId = remote.display

/-- Peers only ever come from `add_peer`, and keep their name and node id. -/
theorem peer_of_mutate {m : PersistedState} {op : Op} {q : Peer} (hq : q ∈ (mutate m op).peers) :
    (∃ q₀ ∈ m.peers, q₀.name = q.name ∧ q₀.nodeId = q.nodeId) ∨ op = .addPeer q := by
  cases op with
  | addPeer peer =>
    simp only [mutate, List.mem_append, List.mem_singleton] at hq
    rcases hq with hq | rfl
    · exact .inl ⟨q, hq, rfl, rfl⟩
    · exact .inr rfl
  | touchLastSeen nodeIdHex now =>
    have hkeys := map_touchLastSeen (fun p : Peer => (p.name, p.nodeId)) (fun _ _ => rfl) m
      nodeIdHex now
    have hmem : (q.name, q.nodeId) ∈ m.peers.map (fun p => (p.name, p.nodeId)) := by
      rw [← hkeys]; exact List.mem_map.mpr ⟨q, hq, rfl⟩
    obtain ⟨q₀, hq₀, heq⟩ := List.mem_map.mp hmem
    exact .inl ⟨q₀, hq₀, (Prod.mk.inj heq).1, (Prod.mk.inj heq).2⟩
  | addRule peer target now => exact .inl ⟨q, hq, rfl, rfl⟩
  | removeRule peer target => exact .inl ⟨q, hq, rfl, rfl⟩
  | removePeer name force => exact .inl ⟨q, List.mem_of_mem_filter hq, rfl, rfl⟩
  | restart => exact .inl ⟨q, hq, rfl, rfl⟩

/-- The same for a call other than a restart: a new peer passed the checks. -/
theorem peer_of_call {s : State Text} {c : Call Text} (hr : c.op ≠ .restart) {q : Peer}
    (hq : q ∈ (s.call T c).1.inner.peers) :
    (∃ q₀ ∈ s.inner.peers, q₀.name = q.name ∧ q₀.nodeId = q.nodeId) ∨
      c.op = .addPeer q ∧ writes s.inner c.op = true := by
  by_cases hw : writes s.inner c.op = true
  · rw [call_of_writes hw] at hq
    exact (peer_of_mutate hq).imp id (fun h => ⟨h, hw⟩)
  · rw [call_of_not_writes (Bool.eq_false_iff.mpr hw) hr] at hq
    exact .inl ⟨q, hq, rfl, rfl⟩

/-- A call that adds no peer under `name` leaves the name bound. -/
theorem NameBound.call {s : State Text} {c : Call Text} {name : String} {remote : PublicKey}
    (hr : c.op ≠ .restart)
    (hadd : ∀ peer, c.op = .addPeer peer → writes s.inner c.op = true → peer.name = name →
      peer.nodeId = remote.display)
    (h : NameBound s.inner name remote) : NameBound (s.call T c).1.inner name remote := by
  intro q hq hname
  rcases peer_of_call hr hq with ⟨q₀, hq₀, hn, hid⟩ | ⟨hop, hw⟩
  · rw [← hid]; exact h q₀ hq₀ (hn.trans hname)
  · exact hadd q hop hw hname

/-- The lookup binds the name it finds: names are distinct, and on displayed keys the
    case-insensitive comparison is equality. -/
theorem nameBound_of_peerByNode {s : State Text} {k : PublicKey} {peer : Peer}
    (ht : TableInv s.inner) (hk : NodesKeyed s.inner)
    (hfind : s.peerByNode k.display = some peer) : NameBound s.inner peer.name k := by
  intro q hq hname
  have hmem := List.mem_of_find?_eq_some hfind
  have heq := List.find?_some hfind
  have hqp : q = peer := List.inj_on_of_nodup_map ht.names_nodup hq hmem hname
  -- the table holds displayed keys, so the match is on the key itself
  obtain ⟨j, hj⟩ := hk peer hmem
  rw [hj, eqIgnoreAsciiCase_display] at heq
  rw [hqp, hj, heq]

/-- A rule found for a bound name is the node's own grant. -/
theorem granted_of_ruleAllows {s : State Text} {name target : String} {k : PublicKey}
    (ht : TableInv s.inner) (hb : NameBound s.inner name k)
    (hallow : s.ruleAllows name target = true) : (Dial.mk k target s.inner).Granted := by
  obtain ⟨r, hr, hmatch⟩ := List.any_eq_true.mp hallow
  simp only [Bool.and_eq_true, beq_iff_eq] at hmatch
  obtain ⟨q, hq, hname⟩ := List.mem_map.mp (ht.rules_named r hr)
  exact ⟨q, hq, hb q hq (hname.trans hmatch.1), r, hr, hname.symm, hmatch.2⟩

/-! ### The invariant -/

/-- What holds in every state of a run that meets the condition. -/
structure DialInv (T : Toml PersistedState Text) (p : DataPlane Text) : Prop where
  table : Stored T TableInv p.store
  keyed : Stored T NodesKeyed p.store
  conns : ∀ c ∈ p.conns, ∀ name, c.cachedName = some name →
    NameBound p.store.inner name c.remote
  streams : ∀ st ∈ p.streams, st.unchecked = true →
    NameBound p.store.inner st.peerName st.remote
  dialling : ∀ st ∈ p.streams, ∀ target table, st.pc = .dial target table →
    (Dial.mk st.remote target table).Granted
  dials : ∀ d ∈ p.dials, d.Granted

theorem dialInv_initial : DialInv T (DataPlane.initial : DataPlane Text) where
  table := stored_fresh storeInv_default.toTableInv
  keyed := stored_fresh (by simp [NodesKeyed, PersistedState.default])
  conns := by simp [DataPlane.initial]
  streams := by simp [DataPlane.initial]
  dialling := by simp [DataPlane.initial]
  dials := by simp [DataPlane.initial]

/-- The invariant across a call of the store that binds no held name to another node. -/
theorem DialInv.call {p : DataPlane Text} (h : DialInv T p) {c : Call Text}
    (hr : c.op ≠ .restart)
    (hkey : ∀ peer, c.op = .addPeer peer → ∃ k : PublicKey, peer.nodeId = k.display ∧
      (writes p.store.inner c.op = true → HeldBy p peer.name k)) :
    DialInv T { p with store := (p.store.call T c).1 } where
  table := h.table.call (fun hm hw => hm.mutate hw)
  keyed := h.keyed.call (fun hm _ q hq => by
    rcases peer_of_mutate hq with ⟨q₀, hq₀, -, hid⟩ | hop
    · rw [← hid]; exact hm q₀ hq₀
    · obtain ⟨k, hk, -⟩ := hkey q hop
      exact ⟨k, hk⟩)
  conns := fun cn hcn name hname => (h.conns cn hcn name hname).call hr
    (fun peer hop hw hpn => by
      obtain ⟨k, hk, hheld⟩ := hkey peer hop
      rw [hk, (hheld hw).conns cn hcn (by rw [hname, hpn])])
  streams := fun st hst hun => (h.streams st hst hun).call hr
    (fun peer hop hw hpn => by
      obtain ⟨k, hk, hheld⟩ := hkey peer hop
      rw [hk, (hheld hw).streams st hst hun hpn.symm])
  dialling := h.dialling
  dials := h.dials

/-- The invariant when connection `i` moves on, keeping its name or taking a bound one. -/
theorem DialInv.setConn {p : DataPlane Text} (h : DialInv T p) {i : ℕ} {c : Conn} {pc : ConnPc}
    (hname : ∀ name, (Conn.mk c.remote pc).cachedName = some name →
      NameBound p.store.inner name c.remote) : DialInv T (p.setConn i c pc) where
  table := h.table
  keyed := h.keyed
  conns := fun c' hc' name hn => by
    rcases List.mem_or_eq_of_mem_set hc' with hmem | rfl
    · exact h.conns c' hmem name hn
    · exact hname name hn
  streams := h.streams
  dialling := h.dialling
  dials := h.dials

/-- The invariant when stream `j` moves on. -/
theorem DialInv.setStream {p : DataPlane Text} (h : DialInv T p) {j : ℕ} {st : Stream}
    (hun : st.unchecked = true → NameBound p.store.inner st.peerName st.remote)
    (hdial : ∀ target table, st.pc = .dial target table →
      (Dial.mk st.remote target table).Granted) : DialInv T (p.setStream j st) where
  table := h.table
  keyed := h.keyed
  conns := h.conns
  streams := fun st' hst' hu => by
    rcases List.mem_or_eq_of_mem_set hst' with hmem | rfl
    · exact h.streams st' hmem hu
    · exact hun hu
  dialling := fun st' hst' target table hpc => by
    rcases List.mem_or_eq_of_mem_set hst' with hmem | rfl
    · exact h.dialling st' hmem target table hpc
    · exact hdial target table hpc
  dials := h.dials

/-- A stream past its ACL check that is not about to dial needs nothing. -/
theorem DialInv.setStream_settled {p : DataPlane Text} (h : DialInv T p) {j : ℕ} {st : Stream}
    (hun : st.unchecked = false) (hdial : ∀ target table, st.pc ≠ .dial target table) :
    DialInv T (p.setStream j st) :=
  h.setStream (fun hu => absurd hu (by rw [hun]; simp))
    (fun target table hpc => absurd hpc (hdial target table))

/-- The lock and the delay play no part in the invariant. -/
theorem DialInv.delay {p : DataPlane Text} (h : DialInv T p) (d : RejectDelay) (locked : Bool) :
    DialInv T { p with rejectDelay := d, delayLocked := locked } :=
  ⟨h.table, h.keyed, h.conns, h.streams, h.dialling, h.dials⟩

/-! ### One step -/

theorem DialInv.accept {p p' : DataPlane Text} (h : DialInv T p) {i : ℕ} {c : Conn}
    (hc : c ∈ p.conns) (hn : p.accept i c = some p') : DialInv T p' := by
  have hkeep := h.conns c hc
  simp only [DataPlane.accept] at hn
  split at hn
  · -- the lookup: an unknown node gets no name
    split at hn
    · cases hn
      exact h.setConn (fun name hname => absurd hname (by simp [Conn.cachedName]))
    · -- authenticated: from here on the connection carries the name that was found
      rename_i peer hfind
      cases hn
      refine h.setConn (fun name hname => ?_)
      simp only [Conn.cachedName, Option.some.injEq] at hname
      rw [← hname]
      exact nameBound_of_peerByNode h.table.memory h.keyed.memory hfind
  · -- the unknown node takes the lock, sleeps, and is turned away
    split at hn
    · exact absurd hn (by simp)
    · cases hn
      exact (h.setConn (fun name hname => absurd hname (by simp [Conn.cachedName]))).delay _ _
  · cases hn
    exact (h.setConn (fun name hname => absurd hname (by simp [Conn.cachedName]))).delay _ _
  · -- the reset of the delay keeps the name
    rename_i name₀ hpc
    split at hn
    · exact absurd hn (by simp)
    · cases hn
      refine (h.setConn (fun name hname => ?_)).delay _ _
      exact hkeep name (by simpa [Conn.cachedName, hpc] using hname)
  · exact absurd hn (by simp)

theorem Stream.read_peerName (st : Stream) (r : FrameResult DataFrame) :
    (st.read r).peerName = st.peerName ∧ (st.read r).remote = st.remote ∧
      ∀ target table, (st.read r).pc ≠ .dial target table := by
  simp only [Stream.read]
  split
  · split <;> simp
  · simp
  · simp

theorem Stream.dialled_settled (st : Stream) (target : String) (outcome : DialOutcome) :
    (st.dialled target outcome).unchecked = false ∧
      ∀ target' table, (st.dialled target outcome).pc ≠ .dial target' table := by
  cases outcome with
  | connected => exact ⟨rfl, by simp [Stream.dialled]⟩
  | failed e => exact ⟨rfl, by simp [Stream.dialled]⟩
  | timedOut => exact ⟨rfl, by simp [Stream.dialled]⟩

theorem DialInv.checkAcl {p : DataPlane Text} (h : DialInv T p) {j : ℕ} {st : Stream}
    {isForward : Bool} {target : String} (hb : NameBound p.store.inner st.peerName st.remote) :
    DialInv T (p.setStream j (st.checkAcl p.store isForward target)) := by
  simp only [Stream.checkAcl]
  split
  · -- denied
    exact h.setStream_settled rfl (by simp)
  · rename_i hallow
    split
    · -- a `VALIDATE` is answered and dials nothing
      exact h.setStream_settled rfl (by simp)
    · refine h.setStream (by simp [Stream.unchecked]) (fun target' table hpc => ?_)
      cases hpc
      exact granted_of_ruleAllows h.table.memory hb (by simpa using hallow)

/-- A connection that has not been looked up has no name yet. -/
theorem DialInv.addConn {p : DataPlane Text} (h : DialInv T p) (remote : PublicKey) :
    DialInv T { p with conns := p.conns ++ [⟨remote, .lookup⟩] } := by
  refine ⟨h.table, h.keyed, fun c hc name hname => ?_, h.streams, h.dialling, h.dials⟩
  rcases List.mem_append.mp hc with hmem | hnew
  · exact h.conns c hmem name hname
  · rw [List.mem_singleton.mp hnew] at hname
    exact absurd hname (by simp [Conn.cachedName])

/-- A new stream inherits the name of its connection, and with it the binding. -/
theorem DialInv.addStream {p : DataPlane Text} (h : DialInv T p) {name : String}
    {remote : PublicKey} (hb : NameBound p.store.inner name remote) :
    DialInv T { p with streams := p.streams ++ [⟨name, remote, .readFrame, []⟩] } := by
  refine ⟨h.table, h.keyed, h.conns, fun st hst hu => ?_, fun st hst target table hpc => ?_,
    h.dials⟩
  · rcases List.mem_append.mp hst with hmem | hnew
    · exact h.streams st hmem hu
    · rw [List.mem_singleton.mp hnew]; exact hb
  · rcases List.mem_append.mp hst with hmem | hnew
    · exact h.dialling st hmem target table hpc
    · rw [List.mem_singleton.mp hnew] at hpc
      exact absurd hpc (by simp)

/-- A dial is recorded with the table that granted it. -/
theorem DialInv.addDial {p : DataPlane Text} (h : DialInv T p) {d : Dial} (hd : d.Granted) :
    DialInv T { p with dials := p.dials ++ [d] } := by
  refine ⟨h.table, h.keyed, h.conns, h.streams, h.dialling, fun d' hd' => ?_⟩
  rcases List.mem_append.mp hd' with hmem | hnew
  · exact h.dials d' hmem
  · rw [List.mem_singleton.mp hnew]; exact hd

/-- Every step that meets the condition keeps the invariant. -/
theorem DialInv.next {p p' : DataPlane Text} {a : DataAct Text} (h : DialInv T p)
    (hC : NameNotReused p a) (hn : p.next T a = some p') : DialInv T p' := by
  cases a with
  | pair name remote now fault =>
    cases hn
    refine h.call (by simp) (fun peer hop => ?_)
    cases hop
    exact ⟨remote, rfl, hC⟩
  | admin c =>
    simp only [DataPlane.next] at hn
    split at hn
    · rename_i hadmin
      cases hn
      refine h.call ?_ ?_
      · rintro hr; simp [hr, Op.isAdmin] at hadmin
      · rintro peer hop; simp [hop, Op.isAdmin] at hadmin
    · exact absurd hn (by simp)
  | restart =>
    -- no connection or stream survives, so the older table binds nobody
    cases hn
    exact ⟨h.table.call (fun hm hw => hm.mutate hw), h.keyed.call (fun hm _ => hm),
      by simp, by simp, by simp, h.dials⟩
  | incoming remote =>
    cases hn
    exact h.addConn remote
  | accept i =>
    obtain ⟨c, hc, hn⟩ := Option.bind_eq_some_iff.mp hn
    exact h.accept (List.mem_of_getElem? hc) hn
  | touchLastSeen i now fault =>
    obtain ⟨c, hc, hn⟩ := Option.bind_eq_some_iff.mp hn
    split at hn
    · rename_i name hpc
      cases hn
      have hmoved : DialInv T (p.setConn i c (.serving name)) := h.setConn
        (fun name' hname => h.conns c (List.mem_of_getElem? hc) name'
          (by simpa [Conn.cachedName, hpc] using hname))
      exact hmoved.call (c := ⟨.touchLastSeen c.remote.display now, fault⟩) (by simp) (by simp)
    · exact absurd hn (by simp)
  | acceptBi i ok =>
    obtain ⟨c, hc, hn⟩ := Option.bind_eq_some_iff.mp hn
    split at hn
    · rename_i name hpc
      split at hn
      · cases hn
        exact h.addStream
          (h.conns c (List.mem_of_getElem? hc) name (by simp [Conn.cachedName, hpc]))
      · cases hn
        exact h.setConn (fun name hname => absurd hname (by simp [Conn.cachedName]))
    · exact absurd hn (by simp)
  | readFrame j r =>
    obtain ⟨st, hst, hn⟩ := Option.bind_eq_some_iff.mp hn
    split at hn
    · rename_i hpc
      cases hn
      obtain ⟨hname, hremote, hnd⟩ := st.read_peerName r
      refine h.setStream (fun _ => ?_) (fun target table hpc' => absurd hpc' (hnd target table))
      rw [hname, hremote]
      exact h.streams st (List.mem_of_getElem? hst) (by simp [Stream.unchecked, hpc])
    · exact absurd hn (by simp)
  | checkAcl j =>
    obtain ⟨st, hst, hn⟩ := Option.bind_eq_some_iff.mp hn
    split at hn
    · rename_i isForward target hpc
      cases hn
      exact h.checkAcl
        (h.streams st (List.mem_of_getElem? hst) (by simp [Stream.unchecked, hpc]))
    · exact absurd hn (by simp)
  | dial j outcome =>
    obtain ⟨st, hst, hn⟩ := Option.bind_eq_some_iff.mp hn
    split at hn
    · rename_i target table hpc
      cases hn
      have hgrant := h.dialling st (List.mem_of_getElem? hst) target table hpc
      obtain ⟨hun, hnd⟩ := st.dialled_settled target outcome
      have hmoved : DialInv T (p.setStream j (st.dialled target outcome)) :=
        h.setStream_settled hun hnd
      exact hmoved.addDial hgrant
    · exact absurd hn (by simp)
  | writeOk j ok =>
    obtain ⟨st, hst, hn⟩ := Option.bind_eq_some_iff.mp hn
    split at hn
    · cases hn
      split
      · exact h.setStream_settled rfl (by simp)
      · exact h.setStream_settled rfl (by simp)
    · exact absurd hn (by simp)
  | relayed j =>
    obtain ⟨st, hst, hn⟩ := Option.bind_eq_some_iff.mp hn
    split at hn
    · cases hn
      exact h.setStream_settled rfl (by simp)
    · exact absurd hn (by simp)

/-! ### Every run -/

/-- **No dial without a current grant.** In every run, of any pairings, admin calls,
    restarts, connections and streams, in which no pairing takes a name that another node's
    open connection or unchecked stream works under: every dial is for a node that was in the
    table, with a rule for exactly that target, when its ACL check ran. -/
theorem dial_granted (T : Toml PersistedState Text) {p : DataPlane Text}
    (h : Reach (DataPlane.system T) NameNotReused p) : ∀ d ∈ p.dials, d.Granted :=
  (h.invariant (I := DialInv T)
    (fun p h0 => by obtain rfl : p = .initial := h0; exact dialInv_initial)
    (fun _ _ _ _ hi hC hn => hi.next hC hn)).dials

/-- A client pairs, is granted a target, connects and forwards. -/
def grantedForward : List (DataAct PersistedState) :=
  [.pair "laptop" vectorKey0 "t" none, .admin ⟨.addRule "laptop" "db:5432" "t", none⟩,
   .incoming vectorKey0, .accept 0, .accept 0, .touchLastSeen 0 "t" none, .acceptBi 0 true,
   .readFrame 0 (.ok (typeForward, .forward "db:5432")), .checkAcl 0, .dial 0 .connected]

/-- The dial of `grantedForward` is covered. -/
theorem dial_granted_forward : ∃ p, Reach (DataPlane.system (.self PersistedState))
    NameNotReused p ∧ p.dials.length = 1 ∧ ∀ d ∈ p.dials, d.Granted := by
  have hrun : ((exec (DataPlane.system (.self PersistedState))
      (fun p a => decide (NameNotReused p a)) .initial grantedForward).map
        (fun p => p.dials.length)) = some 1 := by decide +kernel
  obtain ⟨p, hr, hlen⟩ := reach_of_exec_map (fun _ _ h => of_decide_eq_true h) hrun (.init rfl)
  exact ⟨p, hr, hlen, dial_granted (.self PersistedState) hr⟩

/-- A peer is removed while its connection is open, and its name is paired and granted anew
    for another client. -/
def reusedName : List (DataAct PersistedState) :=
  [.pair "laptop" vectorKey0 "t" none, .incoming vectorKey0, .accept 0, .accept 0,
   .touchLastSeen 0 "t" none, .admin ⟨.removePeer "laptop" true, none⟩,
   .pair "laptop" vectorKey1 "t" none, .admin ⟨.addRule "laptop" "db:5432" "t", none⟩,
   .acceptBi 0 true, .readFrame 0 (.ok (typeForward, .forward "db:5432")), .checkAcl 0,
   .dial 0 .connected]

/-- The removed node's connection dials the new node's target, while no peer in the table has
    its node id. -/
theorem reused_name_dials : ∃ p, Reach (DataPlane.system (.self PersistedState)) anyStep p ∧
    ∃ d ∈ p.dials, d.node = vectorKey0 ∧ d.target = "db:5432" ∧ ¬ d.Granted := by
  have hrun : ((exec (DataPlane.system (.self PersistedState)) (fun _ _ => true) .initial
      reusedName).map (fun p => decide (∃ d ∈ p.dials, d.node = vectorKey0 ∧
        d.target = "db:5432" ∧ ¬ d.Granted))) = some true := by decide +kernel
  obtain ⟨p, hr, hbad⟩ := reach_of_exec_map (fun _ _ _ => trivial) hrun (.init rfl)
  exact ⟨p, hr, of_decide_eq_true hbad⟩

end Tmite.Daemon
