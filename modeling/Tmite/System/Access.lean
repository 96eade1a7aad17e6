import Tmite.Daemon.RejectQueue
import Tmite.System.Host

namespace Tmite.System

open Tmite.Core Tmite.Proto Tmite.Daemon Tmite.Pairing Transition Serde FifoLock

/-!
# A grant takes effect

`dials_vouched` says what the daemon never dials.  The other half: whatever has happened, with any
number of invites under way, connections open and rejections sleeping, a node in the table whose
name has a rule for a target gets that target dialled.  Its own connection has only one thing in
common with the others, the lock on `reject_delay`, which is handed on in the order it was asked for
and held by a rejection while it sleeps (`RejectQueue`).

* `granted_get_through` — a new connection comes to the end of the queue; after the turns of those
  before it, its own steps lead to the dial, however the save of `last_seen` and the dial itself
  end; and nobody who comes later gets before it.
-/

universe v
variable {Text : Type v} {T : Toml PersistedState Text} {paramsError : Value → String}

/-! ### The way of a connection -/

section Knock

/-- A connection of the node comes in, is looked up, and asks for the lock; `n` is its number. -/
def knock (node : PublicKey) (n : ℕ) : List (QueuedAct (DataAct Text)) :=
  [.step (.incoming node), .step (.accept n), .lock n]

/-- With the lock, it is let in, and its first stream asks for the target; `m` is the number of the
    stream. -/
def letIn (target : String) (n m : ℕ) (now : String) (fault : Option (WriteFault Text))
    (outcome : DialOutcome) : List (DataAct Text) :=
  [.accept n, .touchLastSeen n now fault, .acceptBi n true,
    .readFrame m (.ok (typeForward, .forward target)), .checkAcl m, .dial m outcome]

variable {p : DataPlane Text} {node : PublicKey} {target : String} {peer : Peer} {queue : List ℕ}
  {n : ℕ}

/-- `touch_last_seen` leaves the rules alone. -/
theorem touchLastSeen_rules (s : State Text) (fault : Option (WriteFault Text))
    (nodeIdHex now : String) :
    (s.touchLastSeen T fault nodeIdHex now).inner.rules = s.inner.rules := by
  unfold State.touchLastSeen
  split <;> rfl

/-- A node of the table comes to the end of the queue. -/
theorem exec_knock (h : QueueInv queue p) (hfind : p.store.peerByNode node.display = some peer) :
    exec (queuedPlane T) (fun _ _ => true) ⟨p, queue⟩ (knock node p.conns.length) =
      some ⟨{ p with conns := p.conns ++ [⟨node, .resetDelay peer.name⟩] },
        queue ++ [p.conns.length]⟩ := by
  -- the numbers in the queue are those of connections that were there before
  have hnew : p.conns.length ∉ queue := by
    intro hmem
    obtain ⟨c, hc, -⟩ := h.waits _ hmem
    exact absurd (List.getElem?_eq_some_iff.mp hc).1 (Nat.lt_irrefl _)
  simp [knock, exec, queuedPlane, inOrder, lockTurn, lockAfter, DataPlane.system, DataPlane.next,
    DataPlane.accept, DataPlane.setConn, DataPlane.asksLock, ConnPc.asksLock, hfind, hnew]

/-- A stream of a connection that is served, for a target its name has a rule for. -/
theorem exec_forward {name : String} (hconn : p.conns[n]? = some ⟨node, .serving name⟩)
    (hallow : p.store.ruleAllows name target = true) (hvalid : validTarget target = true)
    (outcome : DialOutcome) :
    ∃ p', exec (queuedPlane T) (fun _ _ => true) ⟨p, []⟩
        ([.acceptBi n true, .readFrame p.streams.length (.ok (typeForward, .forward target)),
          .checkAcl p.streams.length, .dial p.streams.length outcome].map .step) =
            some ⟨p', []⟩ ∧
      p'.dials = p.dials ++ [⟨node, target, p.store.inner⟩] := by
  refine ⟨{ p with
    streams := p.streams ++
      [(Stream.mk name node (.dial target p.store.inner) []).dialled target outcome]
    dials := p.dials ++ [⟨node, target, p.store.inner⟩] }, ?_, rfl⟩
  simp [exec, queuedPlane, inOrder, lockTurn, lockAfter, DataPlane.system, DataPlane.next,
    DataPlane.setStream, hconn, hvalid, hallow, Stream.read, firstFrame, Stream.checkAcl]

/-- **Its turn**, on the data plane. -/
theorem exec_letIn (h : QueueInv [n] p) (hconn : p.conns[n]? = some ⟨node, .resetDelay peer.name⟩)
    (hallow : p.store.ruleAllows peer.name target = true) (hvalid : validTarget target = true)
    (now : String) (fault : Option (WriteFault Text)) (outcome : DialOutcome) :
    ∃ p', exec (queuedPlane T) (fun _ _ => true) ⟨p, [n]⟩
        ((letIn target n p.streams.length now fault outcome).map .step) = some ⟨p', []⟩ ∧
      ∃ table, p'.dials = p.dials ++ [⟨node, target, table⟩] ∧
        table.rules = p.store.inner.rules := by
  have hfree := h.free hconn rfl
  have hlt := (List.getElem?_eq_some_iff.mp hconn).1
  -- the save of `last_seen` does not touch the rules
  have hrules := touchLastSeen_rules (T := T) p.store fault node.display now
  have hallow₁ : (p.store.touchLastSeen T fault node.display now).ruleAllows peer.name target =
      true := by
    simp only [State.ruleAllows, hrules]
    exact hallow
  have hin : exec (queuedPlane T) (fun _ _ => true) ⟨p, [n]⟩
      ([.accept n, .touchLastSeen n now fault].map .step) =
        some ⟨{ p with
          conns := p.conns.set n ⟨node, .serving peer.name⟩
          rejectDelay := p.rejectDelay.reset
          store := p.store.touchLastSeen T fault node.display now }, []⟩ := by
    simp [exec, queuedPlane, inOrder, lockTurn, lockAfter, DataPlane.system, DataPlane.next,
      DataPlane.accept, DataPlane.setConn, DataPlane.asksLock, ConnPc.asksLock, hconn, hfree,
      List.getElem?_set_self hlt, State.call]
  obtain ⟨p', hforward, hdials⟩ := exec_forward (T := T) (n := n) (p := { p with
      conns := p.conns.set n ⟨node, .serving peer.name⟩
      rejectDelay := p.rejectDelay.reset
      store := p.store.touchLastSeen T fault node.display now })
    (List.getElem?_set_self hlt) hallow₁ hvalid outcome
  refine ⟨p', ?_, _, hdials, hrules⟩
  have hletIn : (letIn target n p.streams.length now fault outcome).map QueuedAct.step =
      [.accept n, .touchLastSeen n now fault].map .step ++
      [.acceptBi n true, .readFrame p.streams.length (.ok (typeForward, .forward target)),
        .checkAcl p.streams.length, .dial p.streams.length outcome].map .step := rfl
  rw [hletIn, exec_append, hin, Option.bind_some]
  exact hforward

end Knock

/-! ### The whole daemon -/

section Host

variable {h h' : Host Text}

/-- Neither a pairing nor a restart. -/
def Plain (a : DataAct Text) : Prop :=
  a ≠ .restart ∧ ∀ name remote now fault, a ≠ .pair name remote now fault

theorem planeNext_plain {a : DataAct Text} (ha : Plain a) : h.planeNext T a =
    (h.plane.next T a).map fun plane =>
      { h with allowed := h.allowed ++ allows a, plane := plane }.share plane.store := by
  unfold Host.planeNext
  split
  · exact absurd rfl (ha.2 _ _ _ _)
  · exact absurd rfl ha.1
  · rfl

/-- The daemon's data plane, as a part of it. -/
def HostAct.onPlane : HostAct Text → Option (DataAct Text)
  | .plane a => some a
  | _ => none

/-- The daemon, with the lock on `reject_delay` handed on in order. -/
def queuedHost (T : Toml PersistedState Text) (paramsError : Value → String) :
    System (Queued (Host Text)) (QueuedAct (HostAct Text)) :=
  inOrder (hostSystem T paramsError) Host.plane HostAct.onPlane

theorem host_hasPlane (T : Toml PersistedState Text) (paramsError : Value → String) :
    HasPlane T (hostSystem T paramsError) Host.plane HostAct.onPlane where
  init h h0 := by
    obtain rfl : h = ⟨.initial, [], [], []⟩ := h0
    exact ⟨rfl, rfl⟩
  step h a h' hn b hact := by
    cases a with
    | plane a =>
      cases hact
      simp only [hostSystem, Host.next, Host.planeNext] at hn
      split at hn
      · exact absurd hn (by simp)
      · obtain ⟨plane, hplane, rfl⟩ := Option.map_eq_some_iff.mp hn
        exact ⟨plane, hplane, rfl, rfl⟩
      · obtain ⟨plane, hplane, rfl⟩ := Option.map_eq_some_iff.mp hn
        exact ⟨plane, hplane, rfl, rfl⟩
    | _ => exact absurd hact (by simp [HostAct.onPlane])
  other h a h' hn hact := by
    cases a with
    | plane a => exact absurd hact (by simp [HostAct.onPlane])
    | start name ttl yes => cases hn; exact ⟨rfl, rfl⟩
    | command k a =>
      obtain ⟨c, -, hn⟩ := Option.bind_eq_some_iff.mp hn
      obtain ⟨a', -, hn⟩ := Option.bind_eq_some_iff.mp hn
      obtain ⟨run, -, rfl⟩ := Option.map_eq_some_iff.mp hn
      exact ⟨rfl, rfl⟩

/-- A step of the data plane, as one of the daemon. -/
def onHost : QueuedAct (DataAct Text) → QueuedAct (HostAct Text)
  | .step a => .step (.plane a)
  | .lock i => .lock i

variable (paramsError) in
/-- The data plane's steps are the daemon's. -/
theorem exec_onHost {acts : List (QueuedAct (DataAct Text))}
    (hacts : ∀ a, .step a ∈ acts → Plain a) {queue queue' : List ℕ} {p' : DataPlane Text}
    (hexec : exec (queuedPlane T) (fun _ _ => true) ⟨h.plane, queue⟩ acts = some ⟨p', queue'⟩) :
    ∃ h', exec (queuedHost T paramsError) (fun _ _ => true) ⟨h, queue⟩ (acts.map onHost) =
      some ⟨h', queue'⟩ ∧ h'.plane = p' := by
  induction acts generalizing h queue with
  | nil => cases hexec; exact ⟨h, rfl, rfl⟩
  | cons a acts ih =>
    obtain ⟨f₁, hn, hexec⟩ := Option.bind_eq_some_iff.mp hexec
    have hrest := fun b hb => hacts b (List.mem_cons_of_mem a hb)
    cases a with
    | lock i =>
      simp only [queuedPlane, inOrder] at hn
      split at hn
      · rename_i hi
        cases hn
        obtain ⟨h', hrun, hplane⟩ := ih hrest hexec
        refine ⟨h', ?_, hplane⟩
        have hlock : (queuedHost T paramsError).next ⟨h, queue⟩ (.lock i) =
            some ⟨h, queue ++ [i]⟩ := if_pos hi
        simp only [List.map_cons, onHost, exec, if_true, hlock, Option.bind_some]
        exact hrun
      · exact absurd hn (by simp)
    | step a =>
      simp only [queuedPlane, inOrder] at hn
      split at hn
      · rename_i hturn
        obtain ⟨p₁, hstep, rfl⟩ := Option.map_eq_some_iff.mp hn
        have hturn : (some a).all (lockTurn queue h.plane) = true := hturn
        have hplain := hacts a List.mem_cons_self
        have hstep : h.plane.next T a = some p₁ := hstep
        have hhost : h.planeNext T a =
            some ({ h with allowed := h.allowed ++ allows a, plane := p₁ }.share p₁.store) := by
          rw [planeNext_plain hplain, hstep, Option.map_some]
        obtain ⟨h', hrun, hplane⟩ := ih (h := { h with
          allowed := h.allowed ++ allows a, plane := p₁ }.share p₁.store) hrest hexec
        refine ⟨h', ?_, hplane⟩
        have hnext : (queuedHost T paramsError).next ⟨h, queue⟩ (.step (.plane a)) =
            some ⟨{ h with allowed := h.allowed ++ allows a, plane := p₁ }.share p₁.store,
              lockAfter queue h.plane a⟩ := by
          simp only [queuedHost, inOrder, HostAct.onPlane, hostSystem, Host.next, hhost]
          rw [if_pos hturn]
          rfl
        simp only [List.map_cons, onHost, exec, if_true, hnext, Option.bind_some]
        exact hrun
      · exact absurd hn (by simp)

/-- The turns of connections, and the way in, are steps of `accept` and of streams. -/
theorem plain_turnOf {p : DataPlane Text} {i : ℕ} {a : DataAct Text} (ha : a ∈ p.turnOf i) :
    Plain a := by
  have haccept : a = .accept i := by
    unfold DataPlane.turnOf at ha
    split at ha <;> simpa using ha
  rw [haccept]
  exact ⟨by simp, by simp⟩

theorem plain_letIn {target now : String} {n m : ℕ} {fault : Option (WriteFault Text)}
    {outcome : DialOutcome} {a : DataAct Text} (ha : a ∈ letIn target n m now fault outcome) :
    Plain a := by
  simp only [letIn, List.mem_cons, List.not_mem_nil, or_false] at ha
  rcases ha with rfl | rfl | rfl | rfl | rfl | rfl <;> exact ⟨by simp, by simp⟩

/-- **A grant takes effect.**  In every state the daemon can get into, with any invites under way,
    connections open and rejections asleep or waiting: a node whose name has a rule for a valid
    target can connect and comes to the end of the queue at the reject delay.  When those before it
    have had their turns, one after the other, the node is let in and the target dialled, by the
    rules it was granted, whatever becomes of the save of `last_seen` and of the dial.  Until its
    own turn, as long as the daemon does not restart, the queue before it is what is left of
    those. -/
theorem granted_get_through (T : Toml PersistedState Text) (paramsError : Value → String)
    {f : Queued (Host Text)} (hr : Reach (queuedHost T paramsError) anyStep f) {node : PublicKey}
    {peer : Peer} {target : String}
    (hfind : f.base.plane.store.peerByNode node.display = some peer)
    (hallow : f.base.plane.store.ruleAllows peer.name target = true)
    (hvalid : validTarget target = true) (now : String) (fault : Option (WriteFault Text))
    (outcome : DialOutcome) :
    ∃ f₁ f₂ : Queued (Host Text),
      exec (queuedHost T paramsError) (fun _ _ => true) f
          ((knock node f.base.plane.conns.length).map onHost) = some f₁ ∧
        f₁.queue = f.queue ++ [f.base.plane.conns.length] ∧
      exec (queuedHost T paramsError) (fun _ _ => true) f₁
          ((f.queue.flatMap f.base.plane.turnOf ++ letIn target f.base.plane.conns.length
            f.base.plane.streams.length now fault outcome).map fun a => .step (.plane a)) =
          some f₂ ∧
      (∃ table, f₂.base.plane.dials = f.base.plane.dials ++ [⟨node, target, table⟩] ∧
        table.rules = f.base.plane.store.inner.rules) ∧
      ∀ g, Reach ((queuedHost T paramsError).goingOn f₁)
          (Waiting HostAct.onPlane f.base.plane.conns.length) g →
        f.base.plane.conns.length ∈ g.queue →
          Behind f.base.plane.conns.length f.queue g.queue := by
  obtain ⟨h, queue⟩ := f
  dsimp only at hfind hallow ⊢
  have hinv : QueueInv queue h.plane := queueInv (host_hasPlane T paramsError) hr
  -- it comes to the end of the queue
  have hknock := exec_knock (T := T) hinv hfind
  generalize hp₁ : ({ h.plane with
    conns := h.plane.conns ++ [⟨node, .resetDelay peer.name⟩] } : DataPlane Text) = p₁ at hknock
  have hconn : p₁.conns[h.plane.conns.length]? = some ⟨node, .resetDelay peer.name⟩ := by
    rw [← hp₁]
    exact List.getElem?_concat_length
  obtain ⟨h₁, hexec₁, rfl⟩ := exec_onHost paramsError (fun a ha => by
    simp only [knock, List.mem_cons, QueuedAct.step.injEq, reduceCtorEq, List.not_mem_nil,
      or_false] at ha
    rcases ha with rfl | rfl <;> exact ⟨by simp, by simp⟩) hknock
  have hr₁ := reach_of_exec (C := anyStep) (fun _ _ _ => trivial) hr hexec₁
  have hinv₁ : QueueInv (queue ++ [h.plane.conns.length]) h₁.plane :=
    queueInv (host_hasPlane T paramsError) hr₁
  -- those ahead have the turns they had before
  obtain ⟨p₂, hturns, hinv₂, hkept⟩ := exec_turns (T := T) hinv₁
  have hsame : queue.flatMap h₁.plane.turnOf = queue.flatMap h.plane.turnOf := by
    refine List.flatMap_congr fun i hi => turnOf_congr ?_
    obtain ⟨c, hc, -⟩ := hinv.waits i hi
    rw [← hp₁]
    exact (TaskList.getElem?_concat_of_some hc).trans hc.symm
  have hnew : h.plane.conns.length ∉ queue :=
    fun hmem => (List.nodup_append.mp hinv₁.nodup).2.2 _ hmem _ (List.mem_singleton_self _) rfl
  -- and then it has its own
  have hstore : p₂.store = h.plane.store := by
    rw [hkept.store, ← hp₁]
  have hstreams : p₂.streams.length = h.plane.streams.length := by
    rw [hkept.streams, ← hp₁]
  rw [← hstore] at hallow
  obtain ⟨p₃, hlet, table, hdials, hrules⟩ := exec_letIn (T := T) hinv₂
    ((hkept.conns _ hnew).trans hconn) hallow hvalid now fault outcome
  rw [hsame] at hturns
  rw [hstreams] at hlet
  have hboth : exec (queuedPlane T) (fun _ _ => true)
      ⟨h₁.plane, queue ++ [h.plane.conns.length]⟩
      ((queue.flatMap h.plane.turnOf ++ letIn target h.plane.conns.length h.plane.streams.length
        now fault outcome).map .step) = some ⟨p₃, []⟩ := by
    rw [List.map_append, exec_append, hturns, Option.bind_some, hlet]
  obtain ⟨h₂, hexec₂, rfl⟩ := exec_onHost paramsError (fun a ha => by
    obtain ⟨b, hb, heq⟩ := List.mem_map.mp ha
    cases heq
    rcases List.mem_append.mp hb with hturn | hin
    · obtain ⟨i, -, hi⟩ := List.mem_flatMap.mp hturn
      exact plain_turnOf hi
    · exact plain_letIn hin) hboth
  rw [List.map_map] at hexec₂
  refine ⟨_, _, hexec₁, rfl, hexec₂, ⟨table, ?_, ?_⟩, fun g hg hmem => ?_⟩
  · rw [hdials, hkept.dials, ← hp₁]
  · rw [hrules, hstore]
  · exact not_overtaken (host_hasPlane T paramsError) hinv₁ rfl hg hmem

/-- A laptop is invited, accepted and allowed a target; one stranger is asleep with the lock, and
    another waits for it. -/
def laptopAllowed : List (QueuedAct (HostAct PersistedState)) :=
  (.start "laptop" none false :: laptopCmdRun.map (.command 0)).map .step ++
    [.step (.admin ⟨.addRule "laptop" "db:5432" "t", none⟩), .step (.incoming vectorKey1),
      .step (.accept 0), .lock 0, .step (.accept 0), .step (.incoming vectorKey2),
      .step (.accept 1), .lock 1].map onHost

/-- It gets through after both of them, a full disk notwithstanding. -/
theorem granted_get_through_laptop : ∃ f f₁ f₂ : Queued (Host PersistedState),
    Reach (queuedHost (.self PersistedState) (fun _ => "")) anyStep f ∧
      f.queue = [0, 1] ∧ f.base.plane.delayLocked = true ∧ f₁.queue = [0, 1, 2] ∧
      exec (queuedHost (.self PersistedState) (fun _ => "")) (fun _ _ => true) f₁
          (([DataAct.accept 0, .accept 1, .accept 1] ++ letIn "db:5432" 2 0 "t"
            (some (.rename "disk full")) .connected).map fun a => .step (.plane a)) = some f₂ ∧
      ∃ table, f₂.base.plane.dials = f.base.plane.dials ++ [⟨vectorKey0, "db:5432", table⟩] := by
  have hrun : ((exec (queuedHost (.self PersistedState) (fun _ => "")) (fun _ _ => true)
      ⟨⟨.initial, [], [], []⟩, []⟩ laptopAllowed).map fun f =>
        ((f.queue, f.base.plane.delayLocked, f.base.plane.conns.map Conn.pc,
            f.base.plane.streams.length),
          (f.base.plane.store.peerByNode vectorKey0.display).map Peer.name,
          f.base.plane.store.ruleAllows "laptop" "db:5432")) =
        some (([0, 1], true, [.rejectSleep, .rejectWait], 0), some "laptop", true) := by
    decide +kernel
  obtain ⟨f, hr, hview⟩ := reach_of_exec_map (C := anyStep) (fun _ _ _ => trivial) hrun
    (.init ⟨rfl, rfl⟩)
  obtain ⟨hplane, hgrant⟩ := Prod.mk.inj hview
  simp only [Prod.mk.injEq] at hplane hgrant
  obtain ⟨hqueue, hlocked, hpcs, hstreams⟩ := hplane
  obtain ⟨hfind, hallow⟩ := hgrant
  obtain ⟨peer, hfind, hname⟩ := Option.map_eq_some_iff.mp hfind
  rw [← hname] at hallow
  have hlen : f.base.plane.conns.length = 2 := by
    simpa using congrArg List.length hpcs
  have hturns : [0, 1].flatMap f.base.plane.turnOf =
      ([.accept 0, .accept 1, .accept 1] : List (DataAct PersistedState)) := by
    simp [DataPlane.turnOf, ← List.getElem?_map, hpcs]
  obtain ⟨f₁, f₂, -, hqueue₁, hexec, ⟨table, hdials, -⟩, -⟩ := granted_get_through _ _ hr hfind
    hallow (by decide) "t" (some (.rename "disk full")) .connected
  rw [hqueue, hlen] at hqueue₁
  rw [hqueue, hturns, hlen, hstreams] at hexec
  exact ⟨f, f₁, f₂, hr, hqueue, hlocked, hqueue₁, hexec, table, hdials⟩

end Host

end Tmite.System
