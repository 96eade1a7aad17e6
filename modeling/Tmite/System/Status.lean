import Tmite.Daemon.LiveCounts
import Tmite.Daemon.SessionsResult

namespace Tmite.System

open Tmite.Core Tmite.Proto Tmite.Daemon Serde Transition TaskList

/-!
# `tmite admin status` beside the daemon (`dispatch_sessions` of `daemon/ipc.rs`)

`dispatch_sessions` copies the peer table, and then looks up the session of one peer after another.
No lock is held over all of it: pairings, removals, re-dials and streams come in between, and other
status queries too.  `past` is a history of the table and the sessions, with a moment for each step.

* `status_shows` — what is printed has a row for each peer of the table as it was at one moment of
  the query, and each row shows the session and the streams of its peer as they were at a later one;
  a reply that is cut is not printed.
-/

universe v
variable {Text : Type v}

/-! ### The query -/

/-- A path of a connection, with the round trip the transport measures. -/
structure TransportPath where
  path : PathInfo
  rttMs : ℕ

/-- `SessionEntry::snapshot`, for a path. -/
def TransportPath.report (p : TransportPath) : PathReport where
  kind := if p.path.isRelay then .relay else .direct
  addr := some p.path.addr
  selected := p.path.selected
  rttMs := some (min p.rttMs (UInt64.size - 1))

/-- The row of a peer in the result, with what the clock and the transport say at that moment. -/
def peerRow (plane : SessionPlane) (p : Peer) (now : ℕ) (paths : List TransportPath) :
    PeerSessionInfo where
  name := p.name
  nodeId := p.nodeId
  session := (plane.peerSnapshot p.nodeId now (paths.map TransportPath.path)).map fun s =>
    ⟨s.connectedSecs, s.forwards, paths.map TransportPath.report⟩

inductive StatusPc
  /-- The request is sent. -/
  | asked
  /-- In `dispatch_sessions`: the peers to come, and the rows so far. -/
  | asking (todo : List Peer) (rows : List PeerSessionInfo)
  | replied (r : SessionsResult)
  | printed (lines : List String)
  | failed (e : String)

structure StatusCall where
  pc : StatusPc
  /-- When it began. -/
  since : ℕ

structure StatusPlane (Text : Type v) where
  store : State Text
  live : LivePlane
  calls : List StatusCall
  /-- The table and the sessions at each moment up to now. -/
  past : List (List Peer × LivePlane)

/-- A step of a query. -/
inductive QueryAct
  /-- `dispatch_sessions` copies the table. -/
  | table
  /-- And looks up the session of the next peer. -/
  | row (now : ℕ) (paths : List TransportPath)
  | reply
  /-- The command gets `n` bytes of the reply's line. -/
  | receive (n : ℕ)

inductive StatusAct (Text : Type v)
  /-- A part of the daemon calls the store. -/
  | store (c : Call Text)
  | live (a : LiveAct)
  | begin
  | query (k : ℕ) (a : QueryAct)

namespace StatusPlane

def start (store : State Text) : StatusPlane Text :=
  ⟨store, .start, [], [(store.inner.peers, .start)]⟩

/-- What there is to see now. -/
def view (s : StatusPlane Text) : List Peer × LivePlane := (s.store.inner.peers, s.live)

variable (T : Toml PersistedState Text) (S : SerdeJson) (resultError : Value → String)

/-- Where a query gets to by a step. -/
def queryNext (s : StatusPlane Text) : StatusPc → QueryAct → Option StatusPc
  | .asked, .table => some (.asking s.store.inner.peers [])
  | .asking (p :: todo) rows, .row now paths =>
    some (.asking todo (rows ++ [peerRow s.live.plane p now paths]))
  | .asking [] rows, .reply => some (.replied ⟨rows⟩)
  | .replied r, .receive n =>
    match statusCmd S resultError (r.line.take n) with
    | .ok lines => some (.printed lines)
    | .error e => some (.failed e)
  | _, _ => none

/-- A step, but for the history. -/
def advance (s : StatusPlane Text) : StatusAct Text → Option (StatusPlane Text)
  | .store c => if c.op = .restart then none else some { s with store := (s.store.call T c).1 }
  | .live a => (s.live.next a).map fun live => { s with live := live }
  | .begin => some { s with calls := s.calls ++ [⟨.asked, s.past.length⟩] }
  | .query k a =>
    s.calls[k]?.bind fun c => (s.queryNext S resultError c.pc a).map fun pc =>
      { s with calls := s.calls.set k { c with pc := pc } }

/-- A step, where it is enabled. -/
def next (s : StatusPlane Text) (a : StatusAct Text) : Option (StatusPlane Text) :=
  (s.advance T S resultError a).map fun s' => { s' with past := s'.past ++ [s'.view] }

/-- One life of the daemon, from a store on. -/
def system (store : State Text) : System (StatusPlane Text) (StatusAct Text) :=
  ⟨fun s => s = .start store, next T S resultError⟩

end StatusPlane

/-- The types hold the numbers a row has, and the crate reads what is written. -/
def Reportable (S : SerdeJson) (s : StatusPlane Text) : StatusAct Text → Prop
  | .query _ (.row now _) => now / 1000 < UInt64.size ∧ s.live.streams.length < UInt64.size
  | .query k .reply => ∀ c rows, s.calls[k]? = some c → c.pc = .asking [] rows →
      SerdeJson.Reads S (SessionsResult.mk rows).reply.toValue
  | _ => True

/-! ### What a row shows -/

/-- A row with a session shows the connection registered last for its node, which is not through,
    with its forwards and for each the number of handlers that relay for it.  A row without is of a
    node that has no connection registered. -/
def Shows (live : LivePlane) (row : PeerSessionInfo) : Prop :=
  match row.session with
  | none => live.plane.sessions (toLowercase row.nodeId) = none
  | some r => ∃ j c, live.plane.latest (toLowercase row.nodeId) = some j ∧
      live.plane.conns[j]? = some c ∧ c.remote.display = toLowercase row.nodeId ∧
      c.pc.inside = true ∧
      r.forwards = c.entry.forwards.map fun f => ⟨f.localAddr, f.target, live.inFlight j f.target⟩

section Row

variable {live : LivePlane} (p : Peer) (now : ℕ) (paths : List TransportPath)

/-- What a row is, by what the registry has for its peer. -/
theorem peerRow_session (hsession : SessionInv live.plane) :
    (live.plane.sessions (toLowercase p.nodeId) = none ∧
      (peerRow live.plane p now paths).session = none) ∨
    ∃ j c, live.plane.sessions (toLowercase p.nodeId) = some j ∧
      live.plane.conns[j]? = some c ∧ c.remote.display = toLowercase p.nodeId ∧
      c.pc.inside = true ∧
      (peerRow live.plane p now paths).session =
        some ⟨(now - c.entry.connectedAt) / 1000,
          c.entry.forwards.map fun f => ⟨f.localAddr, f.target, (c.entry.live f.target).getD 0⟩,
          paths.map TransportPath.report⟩ := by
  cases hrow : live.plane.sessions (toLowercase p.nodeId) with
  | none => exact .inl ⟨rfl, by simp [peerRow, SessionPlane.peerSnapshot, hrow]⟩
  | some j =>
    obtain ⟨c, hc, hkey, hin⟩ := hsession.row _ j hrow
    exact .inr ⟨j, c, rfl, hc, hkey, hin,
      by simp [peerRow, SessionPlane.peerSnapshot, hrow, hc, SessionEntry.snapshot]⟩

theorem live_getD (hlive : LiveInv live) {j : ℕ} {c : SessionConn}
    (hc : live.plane.conns[j]? = some c) (target : String) :
    (c.entry.live target).getD 0 = live.inFlight j target := by
  rw [hlive.count j c hc target, asCount]
  split
  · rename_i hzero
    exact hzero.symm
  · rfl

theorem shows_peerRow (hlive : LiveInv live) (hsession : SessionInv live.plane) :
    Shows live (peerRow live.plane p now paths) := by
  obtain ⟨hrow, hnone⟩ | ⟨j, c, hrow, hc, hkey, hin, hsome⟩ := peerRow_session p now paths hsession
  · rw [Shows, hnone]
    exact hrow
  · rw [Shows, hsome]
    refine ⟨j, c, hsession.latest _ j hrow, hc, hkey, hin, List.map_congr_left fun f _ => ?_⟩
    rw [live_getD hlive hc]

theorem peerRow_fits (hlive : LiveInv live) (hsession : SessionInv live.plane)
    (hnow : now / 1000 < UInt64.size) (hstreams : live.streams.length < UInt64.size)
    {r : SessionReport} (hr : (peerRow live.plane p now paths).session = some r) : r.Fits := by
  obtain ⟨-, hnone⟩ | ⟨j, c, -, hc, -, -, hsome⟩ := peerRow_session p now paths hsession
  · exact absurd (hnone.symm.trans hr) (by simp)
  · rw [hsome] at hr
    cases hr
    refine ⟨?_, fun f hf => ?_, fun q hq ms hms => ?_⟩
    · exact lt_of_le_of_lt (Nat.div_le_div_right (Nat.sub_le ..)) hnow
    · obtain ⟨g, -, rfl⟩ := List.mem_map.mp hf
      show (c.entry.live g.target).getD 0 < UInt64.size
      rw [live_getD hlive hc]
      exact lt_of_le_of_lt List.countP_le_length hstreams
    · obtain ⟨q, -, rfl⟩ := List.mem_map.mp hq
      cases hms
      exact lt_of_le_of_lt (Nat.min_le_right ..) (by decide)

end Row

/-! ### The rows of a query -/

/-- How the rows so far were collected: they and the peers to come are those of the table at one
    moment since the query began; each row is of a later moment than the one before it, and shows
    the sessions as they were then. -/
structure Collected (past : List (List Peer × LivePlane)) (since : ℕ) (todo : List Peer)
    (rows : List PeerSessionInfo) (m : ℕ) (moments : List ℕ) : Prop where
  since_le : since ≤ m
  order : (m :: moments).Pairwise (· < ·)
  table : ∃ view, past[m]? = some view ∧
    rows.map (fun r => (r.name, r.nodeId)) ++ todo.map (fun p => (p.name, p.nodeId)) =
      view.1.map fun p => (p.name, p.nodeId)
  shows : List.Forall₂ (fun n row => ∃ view, past[n]? = some view ∧ Shows view.2 row) moments rows

section Collected

variable {past : List (List Peer × LivePlane)} {since : ℕ} {todo : List Peer}
  {rows : List PeerSessionInfo} {m : ℕ} {moments : List ℕ}

/-- The moments are past. -/
theorem Collected.lt (h : Collected past since todo rows m moments) :
    ∀ n ∈ m :: moments, n < past.length := by
  have hmoments := (List.forall₂_and_left moments rows).mp <|
    h.shows.imp (S := fun n row => n < past.length ∧ ∃ view, past[n]? = some view ∧
      Shows view.2 row) fun n row hn => by
        obtain ⟨view, hview, hrow⟩ := hn
        exact ⟨(List.getElem?_eq_some_iff.mp hview).1, view, hview, hrow⟩
  obtain ⟨view, hview, -⟩ := h.table
  exact List.forall_mem_cons.mpr ⟨(List.getElem?_eq_some_iff.mp hview).1, hmoments.1⟩

theorem Collected.grow (h : Collected past since todo rows m moments)
    (now : List Peer × LivePlane) : Collected (past ++ [now]) since todo rows m moments where
  since_le := h.since_le
  order := h.order
  table := by
    obtain ⟨view, hview, hkeys⟩ := h.table
    exact ⟨view, getElem?_concat_of_some hview, hkeys⟩
  shows := h.shows.imp fun n row hn => by
    obtain ⟨view, hview, hrow⟩ := hn
    exact ⟨view, getElem?_concat_of_some hview, hrow⟩

/-- The table is copied now. -/
theorem collected_table (hsince : since ≤ past.length) (now : List Peer × LivePlane) :
    Collected (past ++ [now]) since now.1 [] past.length [] where
  since_le := hsince
  order := List.pairwise_singleton ..
  table := ⟨now, by simp, rfl⟩
  shows := .nil

/-- The row of the next peer is added now. -/
theorem Collected.row {p : Peer} (h : Collected past since (p :: todo) rows m moments)
    {row : PeerSessionInfo} (hkey : (row.name, row.nodeId) = (p.name, p.nodeId))
    {now : List Peer × LivePlane} (hshow : Shows now.2 row) :
    Collected (past ++ [now]) since todo (rows ++ [row]) m (moments ++ [past.length]) where
  since_le := h.since_le
  order := by
    rw [← List.cons_append, List.pairwise_append]
    refine ⟨h.order, List.pairwise_singleton .., fun n hn k hk => ?_⟩
    rw [List.mem_singleton.mp hk]
    exact h.lt n hn
  table := by
    obtain ⟨view, hview, hkeys⟩ := (h.grow now).table
    exact ⟨view, hview, by rw [← hkeys]; simp [hkey]⟩
  shows := List.rel_append (h.grow now).shows (.cons ⟨now, by simp, hshow⟩ .nil)

end Collected

/-! ### The invariant -/

def RowsFit (rows : List PeerSessionInfo) : Prop :=
  ∀ p ∈ rows, ∀ r, p.session = some r → r.Fits

/-- What holds of a query at each point. -/
def StatusCall.Ok (S : SerdeJson) (past : List (List Peer × LivePlane)) (c : StatusCall) : Prop :=
  match c.pc with
  | .asked => c.since ≤ past.length
  | .asking todo rows => RowsFit rows ∧ ∃ m moments, Collected past c.since todo rows m moments
  | .replied r => r.Read S ∧ ∃ m moments, Collected past c.since [] r.peers m moments
  | .printed lines => ∃ rows m moments, Collected past c.since [] rows m moments ∧
      lines = printSessionsTable ⟨rows⟩
  | .failed _ => True

structure StatusInv (S : SerdeJson) (s : StatusPlane Text) : Prop where
  live : LiveInv s.live
  session : SessionInv s.live.plane
  calls : ∀ (k : ℕ) (c : StatusCall), s.calls[k]? = some c → c.Ok S s.past

section Inv

variable {T : Toml PersistedState Text} {S : SerdeJson} {resultError : Value → String}
  {s s' : StatusPlane Text}

theorem StatusCall.Ok.grow {past : List (List Peer × LivePlane)} {c : StatusCall}
    (h : c.Ok S past) (now : List Peer × LivePlane) : c.Ok S (past ++ [now]) := by
  obtain ⟨pc, since⟩ := c
  cases pc with
  | asked =>
    have hsince : since ≤ past.length := h
    show since ≤ (past ++ [now]).length
    rw [List.length_append]
    omega
  | asking todo rows =>
    obtain ⟨hfit, m, moments, hrows⟩ := h
    exact ⟨hfit, m, moments, hrows.grow now⟩
  | replied r =>
    obtain ⟨hread, m, moments, hrows⟩ := h
    exact ⟨hread, m, moments, hrows.grow now⟩
  | printed lines =>
    obtain ⟨rows, m, moments, hrows, hlines⟩ := h
    exact ⟨rows, m, moments, hrows.grow now, hlines⟩
  | failed e => trivial

/-- The sessions keep to their own rules, whatever the streams do. -/
theorem sessionInv_live {live live' : LivePlane} {a : LiveAct} (h : SessionInv live.plane)
    (hn : live.next a = some live') : SessionInv live'.plane := by
  obtain ⟨b, p, -, -, hp, rfl⟩ | ⟨conn, target, -, -, rfl⟩ | ⟨j, t, t', -, -, rfl⟩ | ⟨hcount, -⟩ :=
    live_step hn
  · exact h.step hp
  · exact h
  · exact h
  · cases hcount with
    | opens j t c _ _ hc =>
      exact h.step (a := .forwardOpen t.conn t.target) (by simp [SessionPlane.next, hc])
    | closes j t c _ _ _ _ hc =>
      exact h.step (a := .forwardClose t.conn t.target) (by simp [SessionPlane.next, hc])

/-- A step of a query, from what holds of it to what holds of it at the next moment. -/
theorem StatusInv.query (h : StatusInv S s) {k : ℕ} {c : StatusCall} {a : QueryAct} {pc : StatusPc}
    (hc : s.calls[k]? = some c) (hfits : Reportable S s (.query k a))
    (hpc : s.queryNext S resultError c.pc a = some pc) :
    StatusCall.Ok S (s.past ++ [s.view]) { c with pc := pc } := by
  have hok := h.calls k c hc
  obtain ⟨old, since⟩ := c
  dsimp only at hpc
  unfold StatusPlane.queryNext at hpc
  split at hpc
  · -- the table is copied
    cases hpc
    exact ⟨by simp [RowsFit], s.past.length, [], collected_table hok s.view⟩
  · -- a row more
    rename_i p todo rows now paths
    cases hpc
    obtain ⟨hfit, m, moments, hrows⟩ := hok
    refine ⟨fun q hq r hr => ?_, m, _, hrows.row rfl (shows_peerRow p now paths h.live h.session)⟩
    rcases List.mem_append.mp hq with hq | hq
    · exact hfit q hq r hr
    · rw [List.mem_singleton.mp hq] at hr
      exact peerRow_fits p now paths h.live h.session hfits.1 hfits.2 hr
  · rename_i rows
    cases hpc
    obtain ⟨hfit, m, moments, hrows⟩ := hok
    exact ⟨⟨hfit, hfits _ rows hc rfl⟩, m, moments, hrows.grow s.view⟩
  · -- what is printed was read of the whole line
    rename_i r n
    obtain ⟨hread, m, moments, hrows⟩ := hok
    by_cases hwhole : r.line.length ≤ n + 1
    · rw [statusCmd_whole resultError hread hwhole] at hpc
      cases hpc
      exact ⟨r.peers, m, moments, hrows.grow s.view, rfl⟩
    · obtain ⟨e, he⟩ := statusCmd_part resultError hread (by omega : n + 1 < r.line.length)
      rw [he] at hpc
      cases hpc
      trivial
  · exact absurd hpc (by simp)

theorem StatusInv.next (h : StatusInv S s) {a : StatusAct Text} (hfits : Reportable S s a)
    (hn : s.next T S resultError a = some s') : StatusInv S s' := by
  obtain ⟨s₁, hadvance, rfl⟩ := Option.map_eq_some_iff.mp hn
  cases a with
  | store c =>
    simp only [StatusPlane.advance] at hadvance
    split at hadvance
    · exact absurd hadvance (by simp)
    · cases hadvance
      exact ⟨h.live, h.session, fun k c hc => (h.calls k c hc).grow _⟩
  | live a =>
    obtain ⟨live, hlive, rfl⟩ := Option.map_eq_some_iff.mp hadvance
    exact ⟨h.live.step hlive, sessionInv_live h.session hlive,
      fun k c hc => (h.calls k c hc).grow _⟩
  | begin =>
    cases hadvance
    refine ⟨h.live, h.session, fun k c hc => ?_⟩
    obtain hold | ⟨-, rfl⟩ := getElem?_concat_cases hc
    · exact (h.calls k c hold).grow _
    · exact StatusCall.Ok.grow (c := ⟨.asked, s.past.length⟩) (Nat.le_refl s.past.length) _
  | query k a =>
    obtain ⟨c, hc, hmap⟩ := Option.bind_eq_some_iff.mp hadvance
    obtain ⟨pc, hpc, rfl⟩ := Option.map_eq_some_iff.mp hmap
    refine ⟨h.live, h.session, fun j d hd => ?_⟩
    obtain ⟨rfl, rfl⟩ | ⟨-, hold⟩ := getElem?_set_cases hd
    · exact h.query hc hfits hpc
    · exact (h.calls j d hold).grow _

theorem statusInv {store : State Text}
    (h : Reach (StatusPlane.system T S resultError store) (Reportable S) s) : StatusInv S s := by
  refine h.invariant ?_ ?_
  · rintro _ rfl
    exact ⟨liveInv (C := anyStep) (.init rfl), sessionInv (C := anyStep) (.init rfl),
      fun k c hc => absurd hc (by simp [StatusPlane.start])⟩
  · intro s a s' _ hinv hfits hn
    exact hinv.next hfits hn

/-- The command prints what it gets the whole line of. -/
theorem next_receive (resultError : Value → String) {k n since : ℕ} {r : SessionsResult} (hread : r.Read S)
    (hc : s.calls[k]? = some ⟨.replied r, since⟩) (hn : r.line.length ≤ n + 1) :
    ∃ s', s.next T S resultError (.query k (.receive n)) = some s' ∧ s'.store = s.store := by
  refine ⟨{ s with
    calls := s.calls.set k ⟨.printed (printSessionsTable r), since⟩
    past := s.past ++ [s.view] }, ?_, rfl⟩
  simp only [StatusPlane.next, StatusPlane.advance, hc, Option.bind_some, StatusPlane.queryNext,
    statusCmd_whole resultError hread hn, Option.map_some]
  rfl

/-- **Status is true.**  In every run of one daemon, with its store and its sessions changing and
    any number of status queries: the table a query prints has exactly the peers that were in the
    store at one moment since the query began, in order; the rows are of later moments, one after
    the other, and each shows the session that was registered for its peer then, with the number of
    streams relayed for each forward.  A reply is printed once all of its line is there, but for
    the newline, and nothing of a shorter one is. -/
theorem status_shows {store : State Text}
    (h : Reach (StatusPlane.system T S resultError store) (Reportable S) s) {k : ℕ}
    {c : StatusCall} (hc : s.calls[k]? = some c) :
    (∀ lines, c.pc = .printed lines → ∃ rows m moments,
      Collected s.past c.since [] rows m moments ∧ lines = printSessionsTable ⟨rows⟩) ∧
    ∀ r n s', c.pc = .replied r → s.next T S resultError (.query k (.receive n)) = some s' →
      (∃ m moments, Collected s.past c.since [] r.peers m moments) ∧
      if r.line.length ≤ n + 1 then
        s'.calls[k]? = some { c with pc := .printed (printSessionsTable r) }
      else ∃ e, s'.calls[k]? = some { c with pc := .failed e } := by
  have hok := (statusInv h).calls k c hc
  have hlt := (List.getElem?_eq_some_iff.mp hc).1
  obtain ⟨pc, since⟩ := c
  refine ⟨?_, ?_⟩
  · rintro lines rfl
    exact hok
  · rintro r n s' rfl hn
    obtain ⟨hread, hrows⟩ := hok
    obtain ⟨s₁, hadvance, rfl⟩ := Option.map_eq_some_iff.mp hn
    obtain ⟨c, hc', hmap⟩ := Option.bind_eq_some_iff.mp hadvance
    obtain ⟨pc, hpc, rfl⟩ := Option.map_eq_some_iff.mp hmap
    rw [hc] at hc'
    cases hc'
    refine ⟨hrows, ?_⟩
    simp only [StatusPlane.queryNext] at hpc
    split
    · rename_i hwhole
      rw [statusCmd_whole resultError hread hwhole] at hpc
      cases hpc
      exact List.getElem?_set_self hlt
    · rename_i hpart
      obtain ⟨e, he⟩ := statusCmd_part resultError hread (by omega : n + 1 < r.line.length)
      rw [he] at hpc
      cases hpc
      exact ⟨e, List.getElem?_set_self hlt⟩

end Inv

/-! ### Two rows -/

def statusStore : State PersistedState :=
  ⟨⟨1, [⟨"laptop", vectorKey0.display, "t", "t"⟩, ⟨"phone", vectorKey1.display, "t", "t"⟩], []⟩,
    .empty⟩

/-- The phone is removed while the query is under way, and the laptop opens a stream. -/
def statusRun : List (StatusAct PersistedState) :=
  [.accept "laptop" vectorKey0 1000, .register 0,
    .setForwards 0 [⟨"127.0.0.1:2222", "localhost:22"⟩]].map (.live ∘ .session) ++
  [.begin, .query 0 .table, .store ⟨.removePeer "phone" true, none⟩,
    .live (.stream 0 "localhost:22"), .live (.writeOk 0 true), .live (.forwardOpen 0),
    .query 0 (.row 5000 [⟨⟨false, "192.168.1.20:4000", true⟩, 11⟩]), .query 0 (.row 5000 []),
    .query 0 .reply]

/-- The phone has its row, though it is gone from the store by then. -/
def statusResult : SessionsResult where
  peers :=
    [⟨"laptop", vectorKey0.display, some ⟨4, [⟨"127.0.0.1:2222", "localhost:22", 1⟩],
      [⟨.direct, some "192.168.1.20:4000", true, some 11⟩]⟩⟩, ⟨"phone", vectorKey1.display, none⟩]

/-- The result is the one of the run. -/
def statusReportable (s : StatusPlane PersistedState) : StatusAct PersistedState → Bool
  | .query _ (.row now _) => decide (now / 1000 < UInt64.size ∧ s.live.streams.length < UInt64.size)
  | .query k .reply => s.calls[k]?.all fun c =>
      match c.pc with
      | .asking [] rows => decide (rows = statusResult.peers)
      | _ => true
  | _ => true

def statusSerde : SerdeJson := .ofValue statusResult.reply.toValue

theorem statusReportable_sound (s : StatusPlane PersistedState) (a : StatusAct PersistedState)
    (h : statusReportable s a = true) : Reportable statusSerde s a := by
  cases a with
  | query k a =>
    cases a with
    | row now paths =>
      simp only [statusReportable, decide_eq_true_eq] at h
      exact h
    | reply =>
      intro c rows hc hpc
      simp only [statusReportable, hc, Option.all_some, hpc, decide_eq_true_eq] at h
      rw [h]
      exact reads_ofValue _
    | _ => trivial
  | _ => trivial

def StatusPc.isReply (r : SessionsResult) : StatusPc → Bool
  | .replied r' => decide (r' = r)
  | _ => false

theorem eq_replied {r : SessionsResult} {pc : StatusPc} (h : pc.isReply r = true) :
    pc = .replied r := by
  cases pc with
  | replied r' => rw [of_decide_eq_true (p := r' = r) h]
  | _ => exact absurd h (by simp [StatusPc.isReply])

theorem status_shows_laptop : ∃ (s : StatusPlane PersistedState) (c : StatusCall),
    Reach (StatusPlane.system (.self PersistedState) statusSerde (fun _ => "") statusStore)
      (Reportable statusSerde) s ∧
    s.calls[0]? = some c ∧ c.pc = .printed (printSessionsTable statusResult) ∧
    s.store.inner.peers.length = 1 ∧ ∃ rows m moments, Collected s.past c.since [] rows m moments ∧
      printSessionsTable statusResult = printSessionsTable ⟨rows⟩ := by
  have hrun : (exec (StatusPlane.system (.self PersistedState) statusSerde (fun _ => "") statusStore)
      statusReportable (.start statusStore) statusRun).map
        (fun s =>
          (s.calls[0]?.any fun c => c.pc.isReply statusResult, s.store.inner.peers.length)) =
      some (true, 1) := by
    decide +kernel
  obtain ⟨s, hs, hview⟩ := reach_of_exec_map statusReportable_sound hrun (.init rfl)
  obtain ⟨hreply, hpeers⟩ := Prod.mk.inj hview
  obtain ⟨⟨pc, since⟩, hc, hpc⟩ := (Option.any_eq_true ..).mp hreply
  have hreplied := eq_replied hpc
  dsimp only at hreplied
  -- which result it is does not matter from here on
  generalize statusResult = r at hreplied ⊢
  subst hreplied
  -- the whole line comes
  have hread := ((statusInv hs).calls 0 _ hc).1
  obtain ⟨n, hn⟩ : ∃ n, r.line.length ≤ n + 1 := ⟨r.line.length, Nat.le_add_right _ _⟩
  obtain ⟨s', hnext, hstore⟩ := next_receive (T := .self PersistedState)
    (fun _ => "") hread hc hn
  have hprinted := ((status_shows hs hc).2 r n s' rfl hnext).2
  rw [if_pos hn] at hprinted
  have hfits : Reportable statusSerde s (.query 0 (.receive n)) := trivial
  have hs' := hs.step hfits hnext
  exact ⟨s', _, hs', hprinted, rfl, by rw [hstore]; exact hpeers,
    (status_shows hs' hprinted).1 _ rfl⟩

example : printSessionsTable statusResult =
    ["NAME    NODE ID    PROXIES                            STATE",
      "laptop  e0926cdd\u2026  127.0.0.1:2222 \u2192 localhost:22 (1)  " ++
        "\u25cf direct 192.168.1.20:4000 (11ms)",
      "phone   e6b112aa\u2026  -                                  -"] := by
  decide +kernel

end Tmite.System
