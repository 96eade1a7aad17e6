import Mathlib.Logic.Function.Basic
import Tmite.Core.PublicKey
import Tmite.Lib.TaskList
import Tmite.Lib.Transition

namespace Tmite.Daemon

open Tmite.Core Transition TaskList

/-!
# Live sessions (`daemon/sessions.rs`, `DataPlaneHandler::accept` of `daemon/main_ep.rs`)

The registry behind `tmite admin status` maps a node id to the entry of one connection.  `accept`
registers its connection, runs `connection_loop` and unregisters; a re-dial replaces the entry, and
`unregister` compares pointers, so it removes nothing but its own.  A pointer is the index of the
connection here, and `registered` is a history of the registrations.

* `sessions_never_dead` — a row is that of the latest registration, which is not through.
* `connected_visible` — the converse, a row for every node that is connected, needs the ends of
  overlapping connections to come in the order of `EndsInOrder`: the registry has room for one
  entry of a node, and a replaced one does not come back.
-/

/-! ### Entries -/

structure AnnouncedForward where
  localAddr : String
  target : String
deriving DecidableEq, Repr

/-- `SessionEntry`; `live` has no zeros. -/
structure SessionEntry where
  peerName : String
  nodeId : String
  connectedAt : ℕ
  forwards : List AnnouncedForward
  live : String → Option ℕ

namespace SessionEntry

/-- `SessionEntry::new`. -/
def new (peerName nodeId : String) (now : ℕ) : SessionEntry :=
  ⟨peerName, nodeId, now, [], fun _ => none⟩

/-- `SessionEntry::set_forwards`. -/
def setForwards (e : SessionEntry) (forwards : List AnnouncedForward) : SessionEntry :=
  { e with forwards := forwards }

/-- `SessionEntry::forward_open`. -/
def forwardOpen (e : SessionEntry) (target : String) : SessionEntry :=
  { e with live := Function.update e.live target (some ((e.live target).getD 0 + 1)) }

/-- `SessionEntry::forward_close`. -/
def forwardClose (e : SessionEntry) (target : String) : SessionEntry :=
  match e.live target with
  | none => e
  | some count =>
    { e with
      live := Function.update e.live target (if count - 1 = 0 then none else some (count - 1)) }

end SessionEntry

/-- `ForwardInfo`. -/
structure ForwardInfo where
  localAddr : String
  target : String
  live : ℕ
deriving DecidableEq, Repr

/-- `PathInfo`, without the times the transport measures. -/
structure PathInfo where
  isRelay : Bool
  addr : String
  selected : Bool
deriving DecidableEq, Repr

/-- `SessionInfo`. -/
structure SessionInfo where
  connectedSecs : ℕ
  forwards : List ForwardInfo
  paths : List PathInfo
deriving DecidableEq, Repr

/-- `SessionEntry::snapshot`, at `now` in milliseconds and with the paths of its connection. -/
def SessionEntry.snapshot (e : SessionEntry) (now : ℕ) (paths : List PathInfo) : SessionInfo where
  connectedSecs := (now - e.connectedAt) / 1000
  forwards := e.forwards.map fun f => ⟨f.localAddr, f.target, (e.live f.target).getD 0⟩
  paths := paths

/-! ### The registry and the connections -/

/-- Where `accept` stands, once the peer is known. -/
inductive AcceptPc
  /-- The entry is made. -/
  | accepted
  /-- Registered, and in `connection_loop`. -/
  | serving
  /-- `connection_loop` has returned. -/
  | ending
  /-- Unregistered. -/
  | ended
deriving DecidableEq, Repr

/-- An `accept` call with its entry. -/
structure SessionConn where
  remote : PublicKey
  entry : SessionEntry
  pc : AcceptPc

structure SessionPlane where
  conns : List SessionConn
  /-- `Sessions::inner`. -/
  sessions : String → Option ℕ
  /-- The keys and connections that were registered, in order. -/
  registered : List (String × ℕ)

namespace SessionPlane

def start : SessionPlane := ⟨[], fun _ => none, []⟩

/-- `Sessions::register`. -/
def register (s : SessionPlane) (i : ℕ) (entry : SessionEntry) : SessionPlane :=
  { s with
    sessions := Function.update s.sessions (toLowercase entry.nodeId) (some i)
    registered := s.registered ++ [(toLowercase entry.nodeId, i)] }

/-- `Sessions::unregister`. -/
def unregister (s : SessionPlane) (i : ℕ) (entry : SessionEntry) : SessionPlane :=
  -- `Arc::ptr_eq`
  if s.sessions (toLowercase entry.nodeId) = some i then
    { s with sessions := Function.update s.sessions (toLowercase entry.nodeId) none }
  else s

theorem unregister_conns (s : SessionPlane) (i : ℕ) (entry : SessionEntry) :
    (s.unregister i entry).conns = s.conns := by
  unfold unregister
  split <;> rfl

/-- `Sessions::peer_snapshot`. -/
def peerSnapshot (s : SessionPlane) (nodeIdHex : String) (now : ℕ) (paths : List PathInfo) :
    Option SessionInfo :=
  (s.sessions (toLowercase nodeIdHex)).bind fun i =>
    s.conns[i]?.map fun c => c.entry.snapshot now paths

/-- Connection `i` moves on. -/
def setConn (s : SessionPlane) (i : ℕ) (c : SessionConn) : SessionPlane :=
  { s with conns := s.conns.set i c }

end SessionPlane

/-- The steps. -/
inductive SessionAct
  /-- A connection of a known peer; its entry is made. -/
  | accept (peerName : String) (remote : PublicKey) (now : ℕ)
  | register (i : ℕ)
  /-- A stream of the connection announces forwards, or opens or closes one; it may outlive it. -/
  | setForwards (i : ℕ) (forwards : List AnnouncedForward)
  | forwardOpen (i : ℕ) (target : String)
  | forwardClose (i : ℕ) (target : String)
  /-- `connection_loop` returns. -/
  | loopEnds (i : ℕ)
  | unregister (i : ℕ)

/-- A step, where it is enabled. -/
def SessionPlane.next (s : SessionPlane) : SessionAct → Option SessionPlane
  | .accept peerName remote now =>
    some { s with
      conns := s.conns ++ [⟨remote, .new peerName remote.display now, .accepted⟩] }
  | .register i =>
    s.conns[i]?.bind fun c => match c.pc with
    | .accepted => some ((s.register i c.entry).setConn i { c with pc := .serving })
    | _ => none
  | .setForwards i forwards =>
    s.conns[i]?.map fun c => s.setConn i { c with entry := c.entry.setForwards forwards }
  | .forwardOpen i target =>
    s.conns[i]?.map fun c => s.setConn i { c with entry := c.entry.forwardOpen target }
  | .forwardClose i target =>
    s.conns[i]?.map fun c => s.setConn i { c with entry := c.entry.forwardClose target }
  | .loopEnds i =>
    s.conns[i]?.bind fun c => match c.pc with
    | .serving => some (s.setConn i { c with pc := .ending })
    | _ => none
  | .unregister i =>
    s.conns[i]?.bind fun c => match c.pc with
    | .ending => some ((s.unregister i c.entry).setConn i { c with pc := .ended })
    | _ => none

def sessionSystem : System SessionPlane SessionAct where
  init s := s = .start
  next := SessionPlane.next

/-! ### What a step does -/

section Step

variable {s s' : SessionPlane}

/-- A step that leaves the registry alone: a new connection, or one whose loop ends or whose entry
    changes. -/
inductive QuietStep (s : SessionPlane) : SessionPlane → Prop
  | accept (c : SessionConn) : c.pc = .accepted → c.entry.nodeId = c.remote.display →
      QuietStep s { s with conns := s.conns ++ [c] }
  | move (i : ℕ) (c c' : SessionConn) : s.conns[i]? = some c → c'.remote = c.remote →
      c'.entry.nodeId = c.entry.nodeId → (c'.pc = c.pc ∨ c.pc = .serving ∧ c'.pc = .ending) →
      QuietStep s (s.setConn i c')

/-- **The steps.** -/
theorem session_step {a : SessionAct} (h : s.next a = some s') :
    (QuietStep s s' ∧ ∀ i, a ≠ .unregister i) ∨
    (∃ i c, a = .register i ∧ s.conns[i]? = some c ∧ c.pc = .accepted ∧
      s' = (s.register i c.entry).setConn i { c with pc := .serving }) ∨
    ∃ i c, a = .unregister i ∧ s.conns[i]? = some c ∧ c.pc = .ending ∧
      s' = (s.unregister i c.entry).setConn i { c with pc := .ended } := by
  cases a with
  | accept peerName remote now =>
    cases h
    exact .inl ⟨.accept _ rfl rfl, by simp⟩
  | register i =>
    obtain ⟨c, hc, hpc⟩ := Option.bind_eq_some_iff.mp h
    split at hpc
    · rename_i haccepted
      cases hpc
      exact .inr (.inl ⟨i, c, rfl, hc, haccepted, rfl⟩)
    · exact absurd hpc (by simp)
  | setForwards i forwards =>
    obtain ⟨c, hc, rfl⟩ := Option.map_eq_some_iff.mp h
    exact .inl ⟨.move i c _ hc rfl rfl (.inl rfl), by simp⟩
  | forwardOpen i target =>
    obtain ⟨c, hc, rfl⟩ := Option.map_eq_some_iff.mp h
    exact .inl ⟨.move i c _ hc rfl rfl (.inl rfl), by simp⟩
  | forwardClose i target =>
    obtain ⟨c, hc, rfl⟩ := Option.map_eq_some_iff.mp h
    refine .inl ⟨.move i c _ hc rfl ?_ (.inl rfl), by simp⟩
    simp only [SessionEntry.forwardClose]
    split <;> rfl
  | loopEnds i =>
    obtain ⟨c, hc, hpc⟩ := Option.bind_eq_some_iff.mp h
    split at hpc
    · rename_i hserving
      cases hpc
      exact .inl ⟨.move i c _ hc rfl rfl (.inr ⟨hserving, rfl⟩), by simp⟩
    · exact absurd hpc (by simp)
  | unregister i =>
    obtain ⟨c, hc, hpc⟩ := Option.bind_eq_some_iff.mp h
    split at hpc
    · rename_i hending
      cases hpc
      exact .inr (.inr ⟨i, c, rfl, hc, hending, rfl⟩)
    · exact absurd hpc (by simp)

/-- A quiet step leaves the registry and its history alone. -/
theorem QuietStep.registry (h : QuietStep s s') :
    s'.sessions = s.sessions ∧ s'.registered = s.registered := by
  cases h <;> exact ⟨rfl, rfl⟩

/-- In a quiet step connections stay where they are, with their node; none starts to serve. -/
theorem QuietStep.conn (h : QuietStep s s') {i : ℕ} {c : SessionConn} (hc : s.conns[i]? = some c) :
    ∃ c', s'.conns[i]? = some c' ∧ c'.remote = c.remote ∧
      c'.entry.nodeId = c.entry.nodeId ∧ (c'.pc = c.pc ∨ c.pc = .serving ∧ c'.pc = .ending) := by
  cases h with
  | accept => exact ⟨c, getElem?_concat_of_some hc, rfl, rfl, .inl rfl⟩
  | move j c₁ c₂ hc₁ hremote hnode hpc =>
    by_cases hij : j = i
    · subst hij
      rw [hc] at hc₁
      cases hc₁
      have hlt := (List.getElem?_eq_some_iff.mp hc).1
      exact ⟨c₂, List.getElem?_set_self hlt, hremote, hnode, hpc⟩
    · exact ⟨c, by rw [← hc]; exact List.getElem?_set_ne hij, rfl, rfl, .inl rfl⟩

/-- And every connection after it was there before, or is new and not registered. -/
theorem QuietStep.conn_old (h : QuietStep s s') {i : ℕ} {c' : SessionConn} (hc' : s'.conns[i]? = some c') :
    (∃ c, s.conns[i]? = some c ∧ c'.remote = c.remote ∧ c'.entry.nodeId = c.entry.nodeId ∧
        (c'.pc = c.pc ∨ c.pc = .serving ∧ c'.pc = .ending)) ∨
      c'.pc = .accepted ∧ c'.entry.nodeId = c'.remote.display := by
  cases h with
  | accept c hpc hnode =>
    obtain hold | ⟨-, rfl⟩ := getElem?_concat_cases hc'
    · exact .inl ⟨c', hold, rfl, rfl, .inl rfl⟩
    · exact .inr ⟨hpc, hnode⟩
  | move j c₁ c₂ hc₁ hremote hnode hpc =>
    obtain ⟨rfl, rfl⟩ | ⟨-, hold⟩ := getElem?_set_cases hc'
    · exact .inl ⟨c₁, hc₁, hremote, hnode, hpc⟩
    · exact .inl ⟨c', hold, rfl, rfl, .inl rfl⟩

end Step

/-! ### A row is alive -/

/-- The connection registered last under a key. -/
def SessionPlane.latest (s : SessionPlane) (key : String) : Option ℕ :=
  (s.registered.filter (fun r => r.1 == key)).getLast?.map Prod.snd

/-- Registered, and not unregistered yet. -/
def AcceptPc.inside : AcceptPc → Bool
  | serving => true
  | ending => true
  | _ => false

structure SessionInv (s : SessionPlane) : Prop where
  node : ∀ (i : ℕ) (c : SessionConn), s.conns[i]? = some c → c.entry.nodeId = c.remote.display
  row : ∀ key i, s.sessions key = some i →
    ∃ c, s.conns[i]? = some c ∧ c.remote.display = key ∧ c.pc.inside = true
  latest : ∀ key i, s.sessions key = some i → s.latest key = some i

section Inv

variable {s s' : SessionPlane}

theorem SessionInv.quiet (h : SessionInv s) (hquiet : QuietStep s s') : SessionInv s' := by
  obtain ⟨hsessions, hregistered⟩ := hquiet.registry
  refine ⟨fun i c' hc' => ?_, fun key i hrow => ?_, fun key i hrow => ?_⟩
  · obtain ⟨c, hc, hremote, hnode, -⟩ | ⟨-, hnew⟩ := hquiet.conn_old hc'
    · rw [hnode, hremote]
      exact h.node i c hc
    · exact hnew
  · rw [hsessions] at hrow
    obtain ⟨c, hc, hkey, hin⟩ := h.row key i hrow
    obtain ⟨c', hc', hremote, -, hpc⟩ := hquiet.conn hc
    refine ⟨c', hc', by rw [hremote, hkey], ?_⟩
    obtain hsame | ⟨-, hending⟩ := hpc
    · rw [hsame]
      exact hin
    · rw [hending]
      rfl
  · rw [hsessions] at hrow
    simp only [SessionPlane.latest, hregistered]
    exact h.latest key i hrow

/-- The key of a connection's row. -/
theorem SessionInv.key (h : SessionInv s) {i : ℕ} {c : SessionConn} (hc : s.conns[i]? = some c) :
    toLowercase c.entry.nodeId = c.remote.display := by
  rw [h.node i c hc, toLowercase_display]

/-- To unregister a connection removes its own row, or nothing. -/
theorem SessionInv.unregister_sessions (h : SessionInv s) {i : ℕ} {c : SessionConn}
    (hc : s.conns[i]? = some c) (key : String) :
    (s.unregister i c.entry).sessions key =
      if key = c.remote.display ∧ s.sessions c.remote.display = some i then none
      else s.sessions key := by
  simp only [SessionPlane.unregister, h.key hc]
  by_cases hown : s.sessions c.remote.display = some i
  · simp [hown, Function.update_apply]
  · simp [hown]

theorem SessionInv.register (h : SessionInv s) {i : ℕ} {c : SessionConn}
    (hc : s.conns[i]? = some c) :
    SessionInv ((s.register i c.entry).setConn i { c with pc := .serving }) := by
  have hlt := (List.getElem?_eq_some_iff.mp hc).1
  have hkey := h.key hc
  refine ⟨fun j c' hc' => ?_, fun key j hrow => ?_, fun key j hrow => ?_⟩
  · obtain ⟨rfl, rfl⟩ | ⟨-, hold⟩ := getElem?_set_cases hc'
    · exact h.node i c hc
    · exact h.node j c' hold
  · simp only [SessionPlane.setConn, SessionPlane.register, hkey, Function.update_apply] at hrow
    by_cases hsame : key = c.remote.display
    · rw [if_pos hsame] at hrow
      cases hrow
      exact ⟨_, List.getElem?_set_self hlt, hsame.symm, rfl⟩
    · rw [if_neg hsame] at hrow
      obtain ⟨c', hc', hkey', hin⟩ := h.row key j hrow
      -- a row of another node is not this connection's
      have hij : i ≠ j := by
        rintro rfl
        rw [hc] at hc'
        cases hc'
        exact hsame hkey'.symm
      exact ⟨c', by rw [← hc']; exact List.getElem?_set_ne hij, hkey', hin⟩
  · simp only [SessionPlane.setConn, SessionPlane.register, hkey, Function.update_apply] at hrow
    simp only [SessionPlane.latest, SessionPlane.setConn, SessionPlane.register, hkey,
      List.filter_append]
    by_cases hsame : key = c.remote.display
    · rw [if_pos hsame] at hrow
      cases hrow
      simp [hsame]
    · rw [if_neg hsame] at hrow
      -- the history of another node gets nothing new
      have hother : ([(c.remote.display, i)].filter fun r => r.1 == key) = [] := by
        simp [Ne.symm hsame]
      rw [hother, List.append_nil]
      exact h.latest key j hrow

theorem SessionInv.unregister (h : SessionInv s) {i : ℕ} {c : SessionConn}
    (hc : s.conns[i]? = some c) :
    SessionInv ((s.unregister i c.entry).setConn i { c with pc := .ended }) := by
  -- the rows that are left are those of other connections
  have hrows : ∀ key j, (s.unregister i c.entry).sessions key = some j →
      s.sessions key = some j ∧ j ≠ i := by
    intro key j hrow
    rw [h.unregister_sessions hc] at hrow
    split at hrow
    · exact absurd hrow (by simp)
    · rename_i hnot
      refine ⟨hrow, ?_⟩
      rintro rfl
      obtain ⟨c', hc', hkey', -⟩ := h.row key j hrow
      rw [hc] at hc'
      cases hc'
      exact hnot ⟨hkey'.symm, by rw [hkey', hrow]⟩
  have hconns := s.unregister_conns i c.entry
  have hregistered : (s.unregister i c.entry).registered = s.registered := by
    unfold SessionPlane.unregister
    split <;> rfl
  refine ⟨fun j c' hc' => ?_, fun key j hrow => ?_, fun key j hrow => ?_⟩
  · simp only [SessionPlane.setConn, hconns] at hc'
    obtain ⟨rfl, rfl⟩ | ⟨-, hold⟩ := getElem?_set_cases hc'
    · exact h.node i c hc
    · exact h.node j c' hold
  · obtain ⟨hold, hne⟩ := hrows key j hrow
    obtain ⟨c', hc', hkey', hin⟩ := h.row key j hold
    refine ⟨c', ?_, hkey', hin⟩
    simp only [SessionPlane.setConn, hconns]
    rw [List.getElem?_set_ne (Ne.symm hne)]
    exact hc'
  · simp only [SessionPlane.latest, SessionPlane.setConn, hregistered]
    exact h.latest key j (hrows key j hrow).1

theorem SessionInv.step {a : SessionAct} (h : SessionInv s) (hs' : s.next a = some s') :
    SessionInv s' := by
  obtain ⟨hquiet, -⟩ | ⟨i, c, -, hc, -, rfl⟩ | ⟨i, c, -, hc, -, rfl⟩ := session_step hs'
  · exact h.quiet hquiet
  · exact h.register hc
  · exact h.unregister hc

theorem sessionInv {C : SessionPlane → SessionAct → Prop} (h : Reach sessionSystem C s) :
    SessionInv s := by
  refine h.invariant ?_ ?_
  · rintro _ rfl
    exact ⟨fun i c hc => absurd hc (by simp [SessionPlane.start]),
      fun key i hrow => absurd hrow (by simp [SessionPlane.start]),
      fun key i hrow => absurd hrow (by simp [SessionPlane.start])⟩
  · intro s a s' _ hinv _ hs'
    exact hinv.step hs'

/-- **No dead row.**  In every run: a row is that of a connection that is registered and not yet
    unregistered, the latest one registered for its node; once all connections of a node are
    through, its row is gone; and to unregister a connection never removes another's row. -/
theorem sessions_never_dead (h : Reach sessionSystem anyStep s) :
    (∀ key i, s.sessions key = some i →
      ∃ c, s.conns[i]? = some c ∧ c.remote.display = key ∧
        (c.pc = .serving ∨ c.pc = .ending) ∧ s.latest key = some i) ∧
    (∀ n : PublicKey, (∀ c ∈ s.conns, c.remote = n → c.pc = .ended) →
      s.sessions n.display = none ∧ ∀ now paths, s.peerSnapshot n.display now paths = none) ∧
    ∀ i s', s.next (.unregister i) = some s' →
      ∀ key j, s.sessions key = some j → j ≠ i → s'.sessions key = some j := by
  have hinv := sessionInv h
  refine ⟨fun key i hrow => ?_, fun n hended => ?_, fun i s' hs' key j hrow hne => ?_⟩
  · obtain ⟨c, hc, hkey, hin⟩ := hinv.row key i hrow
    refine ⟨c, hc, hkey, ?_, hinv.latest key i hrow⟩
    revert hin
    cases c.pc <;> simp [AcceptPc.inside]
  · have hnone : s.sessions n.display = none := by
      cases hrow : s.sessions n.display with
      | none => rfl
      | some i =>
        obtain ⟨c, hc, hkey, hin⟩ := hinv.row _ i hrow
        rw [hended c (List.mem_of_getElem? hc) (display_inj hkey)] at hin
        exact absurd hin (by simp [AcceptPc.inside])
    refine ⟨hnone, fun now paths => ?_⟩
    rw [SessionPlane.peerSnapshot, toLowercase_display, hnone]
    rfl
  · obtain ⟨-, ha⟩ | ⟨k, c, ha, -⟩ | ⟨k, c, ha, hc, -, rfl⟩ := session_step hs'
    · exact absurd rfl (ha i)
    · exact absurd ha (by simp)
    · cases ha
      show (s.unregister i c.entry).sessions key = some j
      rw [hinv.unregister_sessions hc, if_neg]
      · exact hrow
      · rintro ⟨hsame, hown⟩
        rw [← hsame, hrow] at hown
        exact hne (Option.some.inj hown)

end Inv

/-- Two connections of a node, the second while the first is served; then the first ends. -/
def redialRun : List SessionAct :=
  [.accept "laptop" vectorKey0 0, .register 0, .accept "laptop" vectorKey0 5, .register 1,
    .loopEnds 0, .unregister 0]

theorem sessions_never_dead_redial : ∃ s, Reach sessionSystem anyStep s ∧
    ∃ c, s.conns[1]? = some c ∧ (c.pc = .serving ∨ c.pc = .ending) ∧
      s.latest vectorKey0.display = some 1 := by
  have hrun : (exec sessionSystem (fun _ _ => true) .start redialRun).map
      (fun s => s.sessions vectorKey0.display) = some (some 1) := by
    decide +kernel
  obtain ⟨s, hs, hrow⟩ := reach_of_exec_map (C := anyStep) (fun _ _ _ => trivial) hrun (.init rfl)
  obtain ⟨c, hc, -, hpc, hlatest⟩ := (sessions_never_dead hs).1 _ _ hrow
  exact ⟨s, hs, c, hc, hpc, hlatest⟩

/-! ### Who is connected is shown -/

/-- A node with a connection in `connection_loop` has a row. -/
def Visible (s : SessionPlane) : Prop :=
  ∀ c ∈ s.conns, c.pc = .serving →
    ∀ now paths, s.peerSnapshot c.remote.display now paths ≠ none

/-- A connection whose entry is its node's row unregisters only when no connection of the node is
    in `connection_loop`: of those that overlap, the one registered last is the last to end. -/
def EndsInOrder (s : SessionPlane) : SessionAct → Prop
  | .unregister i => ∀ c, s.conns[i]? = some c → s.sessions c.remote.display = some i →
      ∀ c' ∈ s.conns, c'.remote = c.remote → c'.pc ≠ .serving
  | _ => True

instance (s : SessionPlane) (a : SessionAct) : Decidable (EndsInOrder s a) :=
  match a with
  | .unregister i =>
    inferInstanceAs (Decidable (∀ c ∈ s.conns[i]?, s.sessions c.remote.display = some i →
      ∀ c' ∈ s.conns, c'.remote = c.remote → c'.pc ≠ .serving))
  | .accept _ _ _ | .register _ | .setForwards _ _ | .forwardOpen _ _ | .forwardClose _ _
  | .loopEnds _ => inferInstanceAs (Decidable True)

section Visible

variable {s s' : SessionPlane}

/-- Every row is of a connection, so a row is all it takes. -/
theorem SessionInv.peerSnapshot_iff (h : SessionInv s) (n : PublicKey) :
    (∀ now paths, s.peerSnapshot n.display now paths ≠ none) ↔ s.sessions n.display ≠ none := by
  simp only [SessionPlane.peerSnapshot, toLowercase_display]
  cases hrow : s.sessions n.display with
  | none => simp
  | some i =>
    obtain ⟨c, hc, -, -⟩ := h.row _ i hrow
    simp [hc]

theorem SessionInv.visible_iff (h : SessionInv s) :
    Visible s ↔ ∀ c ∈ s.conns, c.pc = .serving → s.sessions c.remote.display ≠ none := by
  constructor
  · intro hvis c hc hpc
    exact (h.peerSnapshot_iff c.remote).mp (hvis c hc hpc)
  · intro hrows c hc hpc
    exact (h.peerSnapshot_iff c.remote).mpr (hrows c hc hpc)

/-- **One step** from a state in which every connected node has a row leads to another such state
    exactly if it meets the condition. -/
theorem visible_step {a : SessionAct} (h : SessionInv s) (hvis : Visible s)
    (hs' : s.next a = some s') : EndsInOrder s a ↔ Visible s' := by
  have hinv' := h.step hs'
  rw [h.visible_iff] at hvis
  rw [hinv'.visible_iff]
  obtain ⟨hquiet, ha⟩ | ⟨i, c, rfl, hc, hpc, rfl⟩ | ⟨i, c, rfl, hc, hpc, rfl⟩ :=
    session_step hs'
  · -- the registry is as it was, and whoever serves did so before
    refine ⟨fun _ c' hc' hpc' => ?_, fun _ => ?_⟩
    · obtain ⟨i, hi⟩ := List.getElem?_of_mem hc'
      rw [hquiet.registry.1]
      obtain ⟨c, hc, hremote, -, hsame | ⟨-, hending⟩⟩ | ⟨hnew, -⟩ := hquiet.conn_old hi
      · rw [hremote]
        exact hvis c (List.mem_of_getElem? hc) (by rw [← hsame, hpc'])
      · rw [hending] at hpc'
        exact absurd hpc' (by simp)
      · rw [hnew] at hpc'
        exact absurd hpc' (by simp)
    · cases a with
      | unregister i => exact absurd rfl (ha i)
      | _ => trivial
  · -- the node that registers has a row, and no other loses one
    have hkey := h.key hc
    refine ⟨fun _ c' hc' hpc' => ?_, fun _ => trivial⟩
    simp only [SessionPlane.setConn, SessionPlane.register, hkey, Function.update_apply]
    split
    · simp
    · rename_i hother
      obtain ⟨j, hj⟩ := List.getElem?_of_mem hc'
      obtain ⟨rfl, rfl⟩ | ⟨-, hold⟩ := getElem?_set_cases hj
      · exact absurd rfl hother
      · exact hvis c' (List.mem_of_getElem? hold) hpc'
  · -- one row may go: that of a node of which others may serve
    have hconns := s.unregister_conns i c.entry
    have hrows := h.unregister_sessions hc
    constructor
    · intro hguard c' hc' hpc'
      simp only [SessionPlane.setConn, hconns] at hc'
      obtain ⟨j, hj⟩ := List.getElem?_of_mem hc'
      obtain ⟨rfl, rfl⟩ | ⟨-, hold⟩ := getElem?_set_cases hj
      · exact absurd hpc' (by simp)
      · have hmem := List.mem_of_getElem? hold
        show (s.unregister i c.entry).sessions c'.remote.display ≠ none
        rw [hrows, if_neg]
        · exact hvis c' hmem hpc'
        · rintro ⟨hsame, hown⟩
          exact hguard c hc hown c' hmem (display_inj hsame) hpc'
    · intro hvis' c₁ hc₁ hown c' hc' hremote hpc'
      rw [hc] at hc₁
      cases hc₁
      -- such a connection goes on serving without a row
      obtain ⟨j, hj⟩ := List.getElem?_of_mem hc'
      have hij : i ≠ j := by
        rintro rfl
        rw [hc] at hj
        cases hj
        rw [hpc] at hpc'
        exact absurd hpc' (by simp)
      have hmem' : c' ∈ ((s.unregister i c.entry).setConn i { c with pc := .ended }).conns := by
        simp only [SessionPlane.setConn, hconns]
        refine List.mem_of_getElem? (i := j) ?_
        rw [List.getElem?_set_ne hij]
        exact hj
      refine hvis' c' hmem' hpc' ?_
      show (s.unregister i c.entry).sessions c'.remote.display = none
      rw [hrows, hremote, if_pos ⟨rfl, hown⟩]

/-- **Connected nodes are shown**, as long as each step meets the condition; and the first step
    that does not meet it hides a node that is connected. -/
theorem connected_visible (h : Reach sessionSystem EndsInOrder s) :
    Visible s ∧ ∀ a s', s.next a = some s' → (EndsInOrder s a ↔ Visible s') := by
  have hvis : Visible s := by
    refine h.invariant ?_ ?_
    · rintro _ rfl c hc
      exact absurd hc (by simp [SessionPlane.start])
    · intro s a s' hreach hvis hguard hs'
      exact (visible_step (sessionInv hreach) hvis hs').mp hguard
  exact ⟨hvis, fun a s' hs' => visible_step (sessionInv h) hvis hs'⟩

/-- In `redialRun` the latest connection is the one that is left. -/
theorem connected_visible_redial : ∃ s, Reach sessionSystem EndsInOrder s ∧ Visible s ∧
    s.sessions vectorKey0.display = some 1 := by
  have hrun : (exec sessionSystem (fun s a => decide (EndsInOrder s a)) .start redialRun).map
      (fun s => s.sessions vectorKey0.display) = some (some 1) := by
    decide +kernel
  obtain ⟨s, hs, hrow⟩ := reach_of_exec_map (fun _ _ => of_decide_eq_true) hrun (.init rfl)
  exact ⟨s, hs, (connected_visible hs).1, hrow⟩

/-- The second connection of a node ends before the first. -/
def hiddenRun : List SessionAct :=
  [.accept "laptop" vectorKey0 0, .register 0, .accept "laptop" vectorKey0 5, .register 1,
    .loopEnds 1, .unregister 1]

/-- The node is served and has no row. -/
theorem connected_hidden : ¬ ∀ s, Reach sessionSystem anyStep s → Visible s := by
  intro hall
  have hrun : (exec sessionSystem (fun _ _ => true) .start hiddenRun).map
      (fun s => (s.sessions vectorKey0.display, s.conns[0]?.map fun c => (c.remote, c.pc))) =
        some (none, some (vectorKey0, .serving)) := by
    decide +kernel
  obtain ⟨s, hs, hview⟩ := reach_of_exec_map (C := anyStep) (fun _ _ _ => trivial) hrun (.init rfl)
  obtain ⟨hrow, hconn⟩ := Prod.mk.inj hview
  obtain ⟨c, hc, hpc⟩ := Option.map_eq_some_iff.mp hconn
  obtain ⟨hremote, hserving⟩ := Prod.mk.inj hpc
  refine hall s hs c (List.mem_of_getElem? hc) hserving 0 [] ?_
  rw [hremote, SessionPlane.peerSnapshot, toLowercase_display, hrow]
  rfl

end Visible

end Tmite.Daemon
