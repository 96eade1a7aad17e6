import Tmite.Daemon.Sessions

namespace Tmite.Daemon

open Tmite.Core Transition TaskList

/-!
# Live streams (`daemon/sessions.rs`, `handle_stream` of `daemon/main_ep.rs`)

The handler of a stream that was granted writes OK, raises the live count of its target in the entry
of its connection, relays, and lowers the count.  The handlers interleave with each other, with the
sessions of `Sessions.lean`, and with the clients that read the OKs.

* `live_exact` — an entry counts, for each target, the handlers between their `forward_open` and
  their `forward_close`, and nothing else.
* `live_follows_client` — the client may have its OK before the count is raised.  A status query in
  between shows a stream too few, which `CountedFirst` rules out.
-/

/-! ### Handlers -/

/-- Where the handler of a granted stream stands. -/
inductive LivePc
  /-- The target is dialled. -/
  | granted
  /-- OK is written. -/
  | replied
  /-- The stream is counted, and in `relay`. -/
  | relaying
  /-- It is not counted any more. -/
  | ended
  /-- OK could not be written. -/
  | failed
deriving DecidableEq, Repr

/-- A stream, with what its ends have done to it. -/
structure LiveStream where
  conn : ℕ
  target : String
  pc : LivePc
  /-- The client has read OK. -/
  okRead : Bool
  /-- An end has closed the direction to the target, or that from it. -/
  upClosed : Bool
  downClosed : Bool
deriving DecidableEq, Repr

namespace LiveStream

/-- Between `forward_open` and `forward_close`. -/
def inFlight (conn : ℕ) (target : String) (t : LiveStream) : Bool :=
  t.conn == conn && t.target == target && t.pc == .relaying

/-- What the client takes for an open stream: it has its OK, and no direction is closed. -/
def observed (t : LiveStream) : Bool := t.okRead && !t.upClosed && !t.downClosed

end LiveStream

structure LivePlane where
  plane : SessionPlane
  streams : List LiveStream

/-- The steps the handlers of streams take themselves. -/
def SessionAct.ofHandler : SessionAct → Bool
  | forwardOpen _ _ => true
  | forwardClose _ _ => true
  | _ => false

inductive LiveAct
  /-- A session is made, registered, ended, or announces forwards. -/
  | session (a : SessionAct)
  /-- A stream of a connection is granted and its target dialled. -/
  | stream (conn : ℕ) (target : String)
  | writeOk (j : ℕ) (ok : Bool)
  | forwardOpen (j : ℕ)
  | forwardClose (j : ℕ)
  /-- The client reads OK. -/
  | readOk (j : ℕ)
  /-- An end closes a direction; with an idle timeout or an error that end is the daemon. -/
  | closeUp (j : ℕ)
  | closeDown (j : ℕ)

namespace LivePlane

def start : LivePlane := ⟨.start, []⟩

/-- Stream `j` moves on. -/
def setStream (s : LivePlane) (j : ℕ) (t : LiveStream) : LivePlane :=
  { s with streams := s.streams.set j t }

/-- A step, where it is enabled. -/
def next (s : LivePlane) : LiveAct → Option LivePlane
  | .session a => if a.ofHandler then none else (s.plane.next a).map fun p => { s with plane := p }
  | .stream conn target =>
    s.plane.conns[conn]?.map fun _ =>
      { s with streams := s.streams ++ [⟨conn, target, .granted, false, false, false⟩] }
  | .writeOk j ok =>
    s.streams[j]?.bind fun t => match t.pc with
    | .granted => some (s.setStream j { t with pc := if ok then .replied else .failed })
    | _ => none
  | .forwardOpen j =>
    s.streams[j]?.bind fun t => match t.pc with
    | .replied => (s.plane.next (.forwardOpen t.conn t.target)).map fun p =>
        ⟨p, s.streams.set j { t with pc := .relaying }⟩
    | _ => none
  | .forwardClose j =>
    s.streams[j]?.bind fun t => match t.pc, t.upClosed, t.downClosed with
    -- `relay` returns once both directions are through
    | .relaying, true, true => (s.plane.next (.forwardClose t.conn t.target)).map fun p =>
        ⟨p, s.streams.set j { t with pc := .ended }⟩
    | _, _, _ => none
  | .readOk j =>
    s.streams[j]?.bind fun t => match t.pc with
    | .granted => none
    | .failed => none
    | _ => some (s.setStream j { t with okRead := true })
  | .closeUp j => s.streams[j]?.map fun t => s.setStream j { t with upClosed := true }
  | .closeDown j => s.streams[j]?.map fun t => s.setStream j { t with downClosed := true }

end LivePlane

def liveSystem : System LivePlane LiveAct where
  init s := s = .start
  next := LivePlane.next

/-! ### What a step does -/

/-- A move of one stream that leaves the counts alone. -/
inductive StreamMove (t : LiveStream) : LiveAct → ℕ → LiveStream → Prop
  | writeOk (j : ℕ) (ok : Bool) : t.pc = .granted →
      StreamMove t (.writeOk j ok) j { t with pc := if ok then .replied else .failed }
  | readOk (j : ℕ) : t.pc ≠ .granted → t.pc ≠ .failed →
      StreamMove t (.readOk j) j { t with okRead := true }
  | closeUp (j : ℕ) : StreamMove t (.closeUp j) j { t with upClosed := true }
  | closeDown (j : ℕ) : StreamMove t (.closeDown j) j { t with downClosed := true }

/-- A handler raises or lowers the count of its target. -/
inductive CountMove (s : LivePlane) : LivePlane → Prop
  | opens (j : ℕ) (t : LiveStream) (c : SessionConn) : s.streams[j]? = some t → t.pc = .replied →
      s.plane.conns[t.conn]? = some c →
      CountMove s ⟨s.plane.setConn t.conn { c with entry := c.entry.forwardOpen t.target },
        s.streams.set j { t with pc := .relaying }⟩
  | closes (j : ℕ) (t : LiveStream) (c : SessionConn) : s.streams[j]? = some t → t.pc = .relaying →
      t.upClosed = true → t.downClosed = true → s.plane.conns[t.conn]? = some c →
      CountMove s ⟨s.plane.setConn t.conn { c with entry := c.entry.forwardClose t.target },
        s.streams.set j { t with pc := .ended }⟩

section Step

variable {s s' : LivePlane}

/-- **The steps.** -/
theorem live_step {a : LiveAct} (h : s.next a = some s') :
    (∃ b p, a = .session b ∧ b.ofHandler = false ∧ s.plane.next b = some p ∧
      s' = { s with plane := p }) ∨
    (∃ conn target, a = .stream conn target ∧ conn < s.plane.conns.length ∧
      s' = { s with streams := s.streams ++ [⟨conn, target, .granted, false, false, false⟩] }) ∨
    (∃ j t t', s.streams[j]? = some t ∧ StreamMove t a j t' ∧ s' = s.setStream j t') ∨
    CountMove s s' ∧ (∃ j, a = .forwardOpen j ∨ a = .forwardClose j) := by
  cases a with
  | session b =>
    simp only [LivePlane.next] at h
    split at h
    · exact absurd h (by simp)
    · rename_i hown
      obtain ⟨p, hp, rfl⟩ := Option.map_eq_some_iff.mp h
      exact .inl ⟨b, p, rfl, by simpa using hown, hp, rfl⟩
  | stream conn target =>
    obtain ⟨c, hc, rfl⟩ := Option.map_eq_some_iff.mp h
    exact .inr (.inl ⟨conn, target, rfl, (List.getElem?_eq_some_iff.mp hc).1, rfl⟩)
  | writeOk j ok =>
    obtain ⟨t, ht, hpc⟩ := Option.bind_eq_some_iff.mp h
    split at hpc
    · rename_i hgranted
      cases hpc
      exact .inr (.inr (.inl ⟨j, t, _, ht, .writeOk j ok hgranted, rfl⟩))
    · exact absurd hpc (by simp)
  | forwardOpen j =>
    obtain ⟨t, ht, hpc⟩ := Option.bind_eq_some_iff.mp h
    split at hpc
    · rename_i hreplied
      obtain ⟨p, hp, rfl⟩ := Option.map_eq_some_iff.mp hpc
      obtain ⟨c, hc, rfl⟩ := Option.map_eq_some_iff.mp hp
      exact .inr (.inr (.inr ⟨.opens j t c ht hreplied hc, j, .inl rfl⟩))
    · exact absurd hpc (by simp)
  | forwardClose j =>
    obtain ⟨t, ht, hpc⟩ := Option.bind_eq_some_iff.mp h
    split at hpc
    · rename_i hrelaying hup hdown
      obtain ⟨p, hp, rfl⟩ := Option.map_eq_some_iff.mp hpc
      obtain ⟨c, hc, rfl⟩ := Option.map_eq_some_iff.mp hp
      exact .inr (.inr (.inr ⟨.closes j t c ht hrelaying hup hdown hc, j, .inr rfl⟩))
    · exact absurd hpc (by simp)
  | readOk j =>
    obtain ⟨t, ht, hpc⟩ := Option.bind_eq_some_iff.mp h
    split at hpc
    · exact absurd hpc (by simp)
    · exact absurd hpc (by simp)
    · rename_i hgranted hfailed
      cases hpc
      exact .inr (.inr (.inl ⟨j, t, _, ht, .readOk j hgranted hfailed, rfl⟩))
  | closeUp j =>
    obtain ⟨t, ht, rfl⟩ := Option.map_eq_some_iff.mp h
    exact .inr (.inr (.inl ⟨j, t, _, ht, .closeUp j, rfl⟩))
  | closeDown j =>
    obtain ⟨t, ht, rfl⟩ := Option.map_eq_some_iff.mp h
    exact .inr (.inr (.inl ⟨j, t, _, ht, .closeDown j, rfl⟩))

theorem StreamMove.same {t t' : LiveStream} {a : LiveAct} {j : ℕ} (h : StreamMove t a j t') :
    t'.conn = t.conn ∧ t'.target = t.target ∧ (t'.pc = .relaying ↔ t.pc = .relaying) := by
  cases h with
  | writeOk j ok hgranted =>
    refine ⟨rfl, rfl, ?_⟩
    rw [hgranted]
    cases ok <;> simp
  | readOk => exact ⟨rfl, rfl, Iff.rfl⟩
  | closeUp => exact ⟨rfl, rfl, Iff.rfl⟩
  | closeDown => exact ⟨rfl, rfl, Iff.rfl⟩

/-- The counts of the connections stay, and so do their forwards but for those `b` announces; a new
    connection has none of either. -/
def KeepsCounts (b : SessionAct) (p p' : SessionPlane) : Prop :=
  p.conns.length ≤ p'.conns.length ∧ ∀ (i : ℕ) (c' : SessionConn), p'.conns[i]? = some c' →
    (∃ c, p.conns[i]? = some c ∧ c'.entry.live = c.entry.live ∧
      (c'.entry.forwards = c.entry.forwards ∨ b = .setForwards i c'.entry.forwards)) ∨
    i = p.conns.length ∧ (∀ target, c'.entry.live target = none) ∧ c'.entry.forwards = []

/-- A connection moves, and its counts stay. -/
theorem keepsCounts_setConn {p : SessionPlane} {b : SessionAct} {i : ℕ} {c : SessionConn}
    (d : SessionConn) (hc : p.conns[i]? = some c) (hlive : d.entry.live = c.entry.live)
    (hforwards : d.entry.forwards = c.entry.forwards ∨ b = .setForwards i d.entry.forwards) :
    KeepsCounts b p (p.setConn i d) := by
  refine ⟨Nat.le_of_eq (List.length_set ..).symm, fun k c' hc' => .inl ?_⟩
  obtain ⟨rfl, rfl⟩ | ⟨-, hold⟩ := getElem?_set_cases hc'
  · exact ⟨c, hc, hlive, hforwards⟩
  · exact ⟨c', hold, rfl, .inl rfl⟩

/-- What happens to a session keeps the counts. -/
theorem session_entry {p p' : SessionPlane} {b : SessionAct} (hb : b.ofHandler = false)
    (h : p.next b = some p') : KeepsCounts b p p' := by
  cases b with
  | accept peerName remote now =>
    cases h
    refine ⟨by simp, fun i c' hc' => ?_⟩
    obtain hold | ⟨rfl, rfl⟩ := getElem?_concat_cases hc'
    · exact .inl ⟨c', hold, rfl, .inl rfl⟩
    · exact .inr ⟨rfl, fun _ => rfl, rfl⟩
  | register i =>
    obtain ⟨c, hc, hpc⟩ := Option.bind_eq_some_iff.mp h
    split at hpc
    · cases hpc
      exact keepsCounts_setConn _ hc rfl (.inl rfl)
    · exact absurd hpc (by simp)
  | setForwards i forwards =>
    obtain ⟨c, hc, rfl⟩ := Option.map_eq_some_iff.mp h
    exact keepsCounts_setConn _ hc rfl (.inr rfl)
  | forwardOpen i target => exact absurd hb (by simp [SessionAct.ofHandler])
  | forwardClose i target => exact absurd hb (by simp [SessionAct.ofHandler])
  | loopEnds i =>
    obtain ⟨c, hc, hpc⟩ := Option.bind_eq_some_iff.mp h
    split at hpc
    · cases hpc
      exact keepsCounts_setConn _ hc rfl (.inl rfl)
    · exact absurd hpc (by simp)
  | unregister i =>
    obtain ⟨c, hc, hpc⟩ := Option.bind_eq_some_iff.mp h
    split at hpc
    · cases hpc
      have hconns := p.unregister_conns i c.entry
      simp only [SessionPlane.setConn, hconns]
      exact keepsCounts_setConn _ hc rfl (.inl rfl)
    · exact absurd hpc (by simp)

end Step

/-! ### The counts are exact -/

/-- A count as the map keeps it: an entry that would be zero is not there. -/
def asCount (n : ℕ) : Option ℕ := if n = 0 then none else some n

/-- The handlers of connection `i` between their `forward_open` and `forward_close` of `target`. -/
def LivePlane.inFlight (s : LivePlane) (i : ℕ) (target : String) : ℕ :=
  s.streams.countP (LiveStream.inFlight i target)

/-- The invariant. -/
structure LiveInv (s : LivePlane) : Prop where
  conn : ∀ t ∈ s.streams, t.conn < s.plane.conns.length
  count : ∀ (i : ℕ) (c : SessionConn), s.plane.conns[i]? = some c →
    ∀ target, c.entry.live target = asCount (s.inFlight i target)
  /-- Who has read OK got it from a handler that wrote it. -/
  read : ∀ t ∈ s.streams, t.okRead = true → t.pc ≠ .granted ∧ t.pc ≠ .failed
  /-- `relay` returns when both directions are through. -/
  ended : ∀ t ∈ s.streams, t.pc = .ended → t.upClosed = true ∧ t.downClosed = true

section Inv

variable {s s' : LivePlane}

theorem forwardOpen_count {e : SessionEntry} {target : String} {n : ℕ}
    (h : e.live target = asCount n) (x : String) :
    (e.forwardOpen target).live x = if x = target then asCount (n + 1) else e.live x := by
  show Function.update e.live target (some ((e.live target).getD 0 + 1)) x = _
  rw [Function.update_apply]
  by_cases hx : x = target
  · rw [if_pos hx, if_pos hx, h]
    by_cases hn : n = 0
    · simp [asCount, hn]
    · simp [asCount, hn]
  · rw [if_neg hx, if_neg hx]

/-- The subtraction takes one from a count that is not zero. -/
theorem forwardClose_count {e : SessionEntry} {target : String} {n : ℕ}
    (h : e.live target = asCount (n + 1)) (x : String) :
    (e.forwardClose target).live x = if x = target then asCount n else e.live x := by
  have hsome : e.live target = some (n + 1) := h
  rw [SessionEntry.forwardClose, hsome]
  show Function.update e.live target (if n + 1 - 1 = 0 then none else some (n + 1 - 1)) x = _
  rw [Function.update_apply, Nat.add_sub_cancel]
  rfl

/-- No stream counts for a connection that is not there yet. -/
theorem LiveInv.inFlight_new (h : LiveInv s) (target : String) :
    s.inFlight s.plane.conns.length target = 0 := by
  refine List.countP_eq_zero.mpr fun t ht hin => ?_
  simp only [LiveStream.inFlight, Bool.and_eq_true, beq_iff_eq] at hin
  have hlt := h.conn t ht
  omega

theorem LiveInv.session (h : LiveInv s) {b : SessionAct} {p : SessionPlane}
    (hb : b.ofHandler = false) (hp : s.plane.next b = some p) : LiveInv { s with plane := p } := by
  obtain ⟨hlen, hentry⟩ := session_entry hb hp
  refine ⟨fun t ht => Nat.lt_of_lt_of_le (h.conn t ht) hlen, fun i c' hc' target => ?_, h.read,
    h.ended⟩
  obtain ⟨c, hc, hsame, -⟩ | ⟨rfl, hnone, -⟩ := hentry i c' hc'
  · rw [hsame]
    exact h.count i c hc target
  · rw [hnone]
    show none = asCount (s.inFlight s.plane.conns.length target)
    rw [h.inFlight_new]
    rfl

theorem LiveInv.stream (h : LiveInv s) {conn : ℕ} (hconn : conn < s.plane.conns.length)
    (target : String) :
    LiveInv { s with streams := s.streams ++ [⟨conn, target, .granted, false, false, false⟩] } := by
  refine ⟨fun t ht => ?_, fun i c hc x => ?_, fun t ht hread => ?_, fun t ht hended => ?_⟩
  · rcases List.mem_append.mp ht with ht | ht
    · exact h.conn t ht
    · rw [List.mem_singleton.mp ht]
      exact hconn
  · rw [h.count i c hc x, LivePlane.inFlight, LivePlane.inFlight, List.countP_append]
    congr 1
    simp [LiveStream.inFlight]
  · rcases List.mem_append.mp ht with ht | ht
    · exact h.read t ht hread
    · rw [List.mem_singleton.mp ht] at hread
      exact absurd hread (by simp)
  · rcases List.mem_append.mp ht with ht | ht
    · exact h.ended t ht hended
    · rw [List.mem_singleton.mp ht] at hended
      exact absurd hended (by simp)

/-- A move of one stream keeps what it has to keep of that stream. -/
theorem LiveInv.moveStream (h : LiveInv s) {j : ℕ} {t : LiveStream} (ht : s.streams[j]? = some t)
    (t' : LiveStream) (conns : List SessionConn) (hlen : conns.length = s.plane.conns.length)
    (hconn : t'.conn = t.conn) (hread : t'.okRead = true → t'.pc ≠ .granted ∧ t'.pc ≠ .failed)
    (hended : t'.pc = .ended → t'.upClosed = true ∧ t'.downClosed = true) :
    ∀ x ∈ s.streams.set j t', x.conn < conns.length ∧
      (x.okRead = true → x.pc ≠ .granted ∧ x.pc ≠ .failed) ∧
      (x.pc = .ended → x.upClosed = true ∧ x.downClosed = true) := by
  intro x hx
  obtain hold | rfl := List.mem_or_eq_of_mem_set hx
  · exact ⟨by rw [hlen]; exact h.conn x hold, h.read x hold, h.ended x hold⟩
  · refine ⟨?_, hread, hended⟩
    rw [hlen, hconn]
    exact h.conn t (List.mem_of_getElem? ht)

theorem LiveInv.quiet (h : LiveInv s) {a : LiveAct} {j : ℕ} {t t' : LiveStream}
    (ht : s.streams[j]? = some t) (hmove : StreamMove t a j t') : LiveInv (s.setStream j t') := by
  obtain ⟨hconn, htarget, hpc⟩ := hmove.same
  have hmem := List.mem_of_getElem? ht
  have hread : t'.okRead = true → t'.pc ≠ .granted ∧ t'.pc ≠ .failed := by
    intro hread
    cases hmove with
    | writeOk j ok hgranted => exact absurd hgranted (h.read t hmem hread).1
    | readOk j hgranted hfailed => exact ⟨hgranted, hfailed⟩
    | closeUp => exact h.read t hmem hread
    | closeDown => exact h.read t hmem hread
  have hended : t'.pc = .ended → t'.upClosed = true ∧ t'.downClosed = true := by
    intro hended
    cases hmove with
    | writeOk j ok hgranted => cases ok <;> exact absurd hended (by simp)
    | readOk => exact h.ended t hmem hended
    | closeUp => exact ⟨rfl, (h.ended t hmem hended).2⟩
    | closeDown => exact ⟨(h.ended t hmem hended).1, rfl⟩
  have hstreams := h.moveStream ht t' s.plane.conns rfl hconn hread hended
  refine ⟨fun x hx => (hstreams x hx).1, fun i c hc target => ?_, fun x hx => (hstreams x hx).2.1,
    fun x hx => (hstreams x hx).2.2⟩
  have hsame : t'.inFlight i target = t.inFlight i target := by
    rw [LiveStream.inFlight, LiveStream.inFlight, hconn, htarget, Bool.eq_iff_iff]
    simp [hpc]
  have hset := countP_set_add (b := t') (LiveStream.inFlight i target) ht
  rw [hsame] at hset
  rw [h.count i c hc target, LivePlane.inFlight, LivePlane.inFlight]
  show asCount (s.streams.countP _) = asCount ((s.streams.set j t').countP _)
  rw [show (s.streams.set j t').countP (LiveStream.inFlight i target) =
    s.streams.countP (LiveStream.inFlight i target) by omega]

/-- How many streams of a connection and target are in flight, after one of them moved. -/
theorem inFlight_set {j : ℕ} {t : LiveStream} (ht : s.streams[j]? = some t) (pc : LivePc)
    (i : ℕ) (target : String) :
    (s.streams.set j { t with pc := pc }).countP (LiveStream.inFlight i target) +
        (if t.conn = i ∧ t.target = target ∧ t.pc = .relaying then 1 else 0) =
      s.inFlight i target + if t.conn = i ∧ t.target = target ∧ pc = .relaying then 1 else 0 := by
  have hset := countP_set_add (b := { t with pc := pc }) (LiveStream.inFlight i target) ht
  rw [LivePlane.inFlight]
  simpa [LiveStream.inFlight, and_assoc] using hset

/-- A handler moves on, and the entry of its connection counts for its target what is then in
    flight. -/
theorem LiveInv.setEntry (h : LiveInv s) {j : ℕ} {t : LiveStream} {c : SessionConn}
    (ht : s.streams[j]? = some t) (hc : s.plane.conns[t.conn]? = some c) (pc : LivePc)
    (entry : SessionEntry) (hread : pc ≠ .granted ∧ pc ≠ .failed)
    (hended : pc = .ended → t.upClosed = true ∧ t.downClosed = true)
    (hlive : ∀ x, entry.live x = if x = t.target then
      asCount ((s.streams.set j { t with pc := pc }).countP (LiveStream.inFlight t.conn t.target))
      else c.entry.live x) :
    LiveInv ⟨s.plane.setConn t.conn { c with entry := entry },
      s.streams.set j { t with pc := pc }⟩ := by
  have hstreams := h.moveStream ht { t with pc := pc }
    (s.plane.setConn t.conn { c with entry := entry }).conns
    (List.length_set ..) rfl (fun _ => hread) hended
  refine ⟨fun x hx => (hstreams x hx).1, fun i c' hc' target => ?_,
    fun x hx => (hstreams x hx).2.1, fun x hx => (hstreams x hx).2.2⟩
  -- elsewhere nothing is counted that was not
  have hset := inFlight_set ht pc i target
  have hother : ¬ (t.conn = i ∧ t.target = target) → s.inFlight i target =
      (s.streams.set j { t with pc := pc }).countP (LiveStream.inFlight i target) := by
    intro hne
    rw [if_neg (fun hsame => hne ⟨hsame.1, hsame.2.1⟩),
      if_neg (fun hsame => hne ⟨hsame.1, hsame.2.1⟩)] at hset
    exact hset.symm
  obtain ⟨rfl, rfl⟩ | ⟨hi, hold⟩ := getElem?_set_cases hc'
  · show entry.live target = asCount (List.countP _ _)
    rw [hlive]
    by_cases htarget : target = t.target
    · rw [if_pos htarget, htarget]
    · rw [if_neg htarget, h.count t.conn c hc target,
        hother (fun hsame => htarget hsame.2.symm)]
  · rw [h.count i c' hold target, hother (fun hsame => hi hsame.1)]
    rfl

theorem LiveInv.counts (h : LiveInv s) (hs' : CountMove s s') : LiveInv s' := by
  cases hs' with
  | opens j t c ht hpc hc =>
    have hown := inFlight_set ht .relaying t.conn t.target
    rw [if_neg (by simp [hpc]), if_pos ⟨rfl, rfl, rfl⟩, Nat.add_zero] at hown
    refine h.setEntry ht hc .relaying _ ⟨by simp, by simp⟩ (fun hended => absurd hended (by simp))
      fun x => ?_
    rw [forwardOpen_count (h.count t.conn c hc t.target), hown]
  | closes j t c ht hpc hup hdown hc =>
    have hown := inFlight_set ht .ended t.conn t.target
    rw [if_neg (c := _ ∧ _ ∧ LivePc.ended = .relaying) (by simp), Nat.add_zero,
      if_pos ⟨rfl, rfl, hpc⟩] at hown
    have hcount := h.count t.conn c hc t.target
    rw [← hown] at hcount
    refine h.setEntry ht hc .ended _ ⟨by simp, by simp⟩ (fun _ => ⟨hup, hdown⟩) fun x => ?_
    rw [forwardClose_count hcount]

theorem LiveInv.step {a : LiveAct} (h : LiveInv s) (hs' : s.next a = some s') : LiveInv s' := by
  obtain ⟨b, p, -, hb, hp, rfl⟩ | ⟨conn, target, -, hconn, rfl⟩ | ⟨j, t, t', ht, hmove, rfl⟩ |
    ⟨hcount, -⟩ := live_step hs'
  · exact h.session hb hp
  · exact h.stream hconn target
  · exact h.quiet ht hmove
  · exact h.counts hcount

theorem liveInv {C : LivePlane → LiveAct → Prop} (h : Reach liveSystem C s) : LiveInv s := by
  refine h.invariant ?_ ?_
  · rintro _ rfl
    exact ⟨by simp [LivePlane.start], by simp [LivePlane.start, SessionPlane.start],
      by simp [LivePlane.start], by simp [LivePlane.start]⟩
  · intro s a s' _ hinv _ hs'
    exact hinv.step hs'

/-- **Live counts are exact.**  In every run, the map of an entry has the targets that a handler of
    the connection is between its `forward_open` and its `forward_close` of, each with the number
    of those handlers; to close a stream takes one from a count that is not zero; and once no
    handler of the connection relays, the map is empty. -/
theorem live_exact (h : Reach liveSystem anyStep s) {i : ℕ} {c : SessionConn}
    (hc : s.plane.conns[i]? = some c) :
    (∀ target, (c.entry.live target ≠ none ↔ ∃ t ∈ s.streams, t.inFlight i target = true) ∧
      ∀ n, c.entry.live target = some n → n = s.inFlight i target) ∧
    (∀ j t s', s.streams[j]? = some t → t.conn = i → s.next (.forwardClose j) = some s' →
      ∃ count, c.entry.live t.target = some count ∧ 1 ≤ count) ∧
    ((∀ t ∈ s.streams, t.conn = i → t.pc ≠ .relaying) → ∀ target, c.entry.live target = none) := by
  have hcount := (liveInv h).count i c hc
  have hpos : ∀ target, s.inFlight i target ≠ 0 ↔ ∃ t ∈ s.streams, t.inFlight i target = true := by
    intro target
    rw [LivePlane.inFlight, ← Nat.pos_iff_ne_zero, List.countP_pos_iff]
  have hnone : ∀ target, c.entry.live target = none ↔ s.inFlight i target = 0 := by
    intro target
    rw [hcount target, asCount]
    split <;> simp_all
  refine ⟨fun target => ⟨?_, fun n hn => ?_⟩, fun j t s' ht hconn hs' => ?_,
    fun hended target => ?_⟩
  · rw [← hpos, Ne, hnone]
  · rw [hcount target, asCount] at hn
    split at hn
    · exact absurd hn (by simp)
    · exact (Option.some.inj hn).symm
  · -- the handler that closes is one of those counted
    have hrelaying : t.pc = .relaying := by
      obtain ⟨t', ht', hpc⟩ := Option.bind_eq_some_iff.mp hs'
      rw [ht] at ht'
      cases ht'
      split at hpc
      · rename_i hrelaying _ _
        exact hrelaying
      · exact absurd hpc (by simp)
    have hin : t.inFlight i t.target = true := by simp [LiveStream.inFlight, hconn, hrelaying]
    have hne : s.inFlight i t.target ≠ 0 :=
      (hpos t.target).mpr ⟨t, List.mem_of_getElem? ht, hin⟩
    refine ⟨s.inFlight i t.target, ?_, Nat.pos_of_ne_zero hne⟩
    rw [hcount, asCount, if_neg hne]
  · rw [hnone]
    refine List.countP_eq_zero.mpr fun t ht hin => ?_
    simp only [LiveStream.inFlight, Bool.and_eq_true, beq_iff_eq] at hin
    exact hended t ht hin.1.1 hin.2

end Inv

/-- Two streams to one target and one to another; one of the two ends. -/
def threeStreams : List LiveAct :=
  [.session (.accept "laptop" vectorKey0 0), .session (.register 0),
    .stream 0 "a:1", .stream 0 "a:1", .stream 0 "b:2", .writeOk 0 true, .forwardOpen 0,
    .writeOk 2 true, .writeOk 1 true, .forwardOpen 1, .forwardOpen 2, .closeUp 0, .closeDown 0,
    .forwardClose 0]

theorem live_exact_three : ∃ s, Reach liveSystem anyStep s ∧ ∃ c, s.plane.conns[0]? = some c ∧
    s.inFlight 0 "a:1" = 1 ∧ c.entry.live "a:1" ≠ none := by
  have hrun : (exec liveSystem (fun _ _ => true) .start threeStreams).map
      (fun s => (s.inFlight 0 "a:1", s.plane.conns.length)) = some (1, 1) := by
    decide +kernel
  obtain ⟨s, hs, hview⟩ := reach_of_exec_map (C := anyStep) (fun _ _ _ => trivial) hrun (.init rfl)
  obtain ⟨hcount, hlen⟩ := Prod.mk.inj hview
  have hc : s.plane.conns[0]? = some (s.plane.conns.get ⟨0, by omega⟩) :=
    List.getElem?_eq_getElem (by omega)
  refine ⟨s, hs, _, hc, hcount, (((live_exact hs hc).1 "a:1").1).mpr ?_⟩
  have hpos : 0 < s.streams.countP (LiveStream.inFlight 0 "a:1") :=
    Nat.lt_of_lt_of_eq Nat.zero_lt_one hcount.symm
  exact List.countP_pos_iff.mp hpos

/-! ### What the client has seen -/

/-- Every stream that is open as the client sees it is among those that the snapshot of its entry
    counts, in each row for its target. -/
def ShownLive (s : LivePlane) : Prop :=
  ∀ t ∈ s.streams, t.observed = true → ∀ c, s.plane.conns[t.conn]? = some c →
    ∀ now paths, ∀ f ∈ (c.entry.snapshot now paths).forwards, f.target = t.target →
      f.live = s.inFlight t.conn t.target ∧ t.inFlight t.conn t.target = true

/-- The session of the stream has announced its target. -/
def SessionPlane.Announces (p : SessionPlane) (t : LiveStream) : Prop :=
  ∃ c, p.conns[t.conn]? = some c ∧ ∃ f ∈ c.entry.forwards, f.target = t.target

/-- While a handler is between OK and `forward_open`, its client does not read OK if the target is
    announced, and the target is not announced if the client has. -/
def CountedFirst (s : LivePlane) : LiveAct → Prop
  | .readOk j => ∀ t, s.streams[j]? = some t → t.upClosed = false → t.downClosed = false →
      s.plane.Announces t → t.pc ≠ .replied
  | .session (.setForwards i forwards) => ∀ t ∈ s.streams, t.conn = i → t.observed = true →
      (∃ f ∈ forwards, f.target = t.target) → t.pc ≠ .replied
  | _ => True

instance (p : SessionPlane) (t : LiveStream) : Decidable (p.Announces t) :=
  inferInstanceAs (Decidable (∃ c ∈ p.conns[t.conn]?, ∃ f ∈ c.entry.forwards, f.target = t.target))

instance (s : LivePlane) (a : LiveAct) : Decidable (CountedFirst s a) :=
  match a with
  | .readOk j =>
    inferInstanceAs (Decidable (∀ t ∈ s.streams[j]?, t.upClosed = false → t.downClosed = false →
      s.plane.Announces t → t.pc ≠ .replied))
  | .session (.setForwards i forwards) =>
    inferInstanceAs (Decidable (∀ t ∈ s.streams, t.conn = i → t.observed = true →
      (∃ f ∈ forwards, f.target = t.target) → t.pc ≠ .replied))
  | .session (.accept _ _ _) | .session (.register _) | .session (.forwardOpen _ _)
  | .session (.forwardClose _ _) | .session (.loopEnds _) | .session (.unregister _)
  | .stream _ _ | .writeOk _ _ | .forwardOpen _ | .forwardClose _ | .closeUp _ | .closeDown _ =>
    inferInstanceAs (Decidable True)

section Shown

variable {s s' : LivePlane}

/-- A stream in the client's hands that is not counted is one whose handler is not so far. -/
theorem LiveInv.shownLive_iff (h : LiveInv s) : ShownLive s ↔
    ∀ t ∈ s.streams, t.observed = true → s.plane.Announces t → t.pc ≠ .replied := by
  constructor
  · rintro hshown t ht hobs ⟨c, hc, f, hf, htarget⟩ hpc
    have hrow : (⟨f.localAddr, f.target, (c.entry.live f.target).getD 0⟩ : ForwardInfo) ∈
        (c.entry.snapshot 0 []).forwards :=
      List.mem_map_of_mem hf
    have hin := (hshown t ht hobs c hc 0 [] _ hrow htarget).2
    simp [LiveStream.inFlight, hpc] at hin
  · intro hcounted t ht hobs c hc now paths row hrow htarget
    obtain ⟨f, hf, rfl⟩ := List.mem_map.mp hrow
    have htarget' : f.target = t.target := htarget
    have hpc := hcounted t ht hobs ⟨c, hc, f, hf, htarget'⟩
    simp only [LiveStream.observed, Bool.and_eq_true, Bool.not_eq_true'] at hobs
    -- OK was read and no direction is closed, so the handler is neither before nor after
    obtain ⟨hgranted, hfailed⟩ := h.read t ht hobs.1.1
    have hended : t.pc ≠ .ended := by
      intro hended
      rw [(h.ended t ht hended).1] at hobs
      exact absurd hobs.1.2 (by simp)
    have hrelaying : t.pc = .relaying := by
      cases hcase : t.pc <;> simp_all
    refine ⟨?_, by simp [LiveStream.inFlight, hrelaying]⟩
    show (c.entry.live f.target).getD 0 = _
    rw [htarget', h.count t.conn c hc t.target, asCount]
    split
    · rename_i hzero
      rw [hzero]
      rfl
    · rfl

/-- No forwards come up where the connections keep theirs. -/
theorem announces_of_forwards {p p' : SessionPlane} {t : LiveStream}
    (h : ∀ c', p'.conns[t.conn]? = some c' → (∃ c, p.conns[t.conn]? = some c ∧
      c'.entry.forwards = c.entry.forwards) ∨ c'.entry.forwards = [])
    (hann : p'.Announces t) : p.Announces t := by
  obtain ⟨c', hc', f, hf, htarget⟩ := hann
  obtain ⟨c, hc, hsame⟩ | hnone := h c' hc'
  · exact ⟨c, hc, f, by rw [← hsame]; exact hf, htarget⟩
  · rw [hnone] at hf
    exact absurd hf (by simp)

theorem CountMove.announces (h : CountMove s s') (t : LiveStream) (hann : s'.plane.Announces t) :
    s.plane.Announces t := by
  refine announces_of_forwards (fun c' hc' => .inl ?_) hann
  cases h with
  | opens j x c hx hpc hc =>
    obtain ⟨hconn, rfl⟩ | ⟨-, hold⟩ := getElem?_set_cases hc'
    · exact ⟨c, by rw [← hconn]; exact hc, rfl⟩
    · exact ⟨c', hold, rfl⟩
  | closes j x c hx hpc hup hdown hc =>
    obtain ⟨hconn, rfl⟩ | ⟨-, hold⟩ := getElem?_set_cases hc'
    · refine ⟨c, by rw [← hconn]; exact hc, ?_⟩
      show (c.entry.forwardClose x.target).forwards = c.entry.forwards
      unfold SessionEntry.forwardClose
      split <;> rfl
    · exact ⟨c', hold, rfl⟩

/-- A stream after its handler counted or uncounted it is not one that waits to be. -/
theorem CountMove.streams (h : CountMove s s') {t : LiveStream} (ht : t ∈ s'.streams)
    (hpc : t.pc = .replied) : t ∈ s.streams := by
  cases h with
  | opens j x c hx =>
    obtain hold | rfl := List.mem_or_eq_of_mem_set ht
    · exact hold
    · exact absurd hpc (by simp)
  | closes j x c hx =>
    obtain hold | rfl := List.mem_or_eq_of_mem_set ht
    · exact hold
    · exact absurd hpc (by simp)

/-- The same for a session that goes on: only an announcement brings up a target. -/
theorem shown_session {b : SessionAct} {p : SessionPlane}
    (hb : b.ofHandler = false) (hp : s.plane.next b = some p)
    (hcounted : ∀ t ∈ s.streams, t.observed = true → s.plane.Announces t → t.pc ≠ .replied) :
    CountedFirst s (.session b) ↔
      ∀ t ∈ s.streams, t.observed = true → p.Announces t → t.pc ≠ .replied := by
  have hentry := (session_entry hb hp).2
  constructor
  · intro hguard t ht hobs hann
    obtain ⟨c', hc', f, hf, htarget⟩ := hann
    obtain ⟨c, hc, -, hsame | rfl⟩ | ⟨-, -, hnone⟩ := hentry t.conn c' hc'
    · exact hcounted t ht hobs ⟨c, hc, f, by rw [← hsame]; exact hf, htarget⟩
    · exact hguard t ht rfl hobs ⟨f, hf, htarget⟩
    · rw [hnone] at hf
      exact absurd hf (by simp)
  · intro hshown
    cases b with
    | setForwards i forwards =>
      rintro t ht rfl hobs hf
      obtain ⟨c, hc, rfl⟩ := Option.map_eq_some_iff.mp hp
      refine hshown t ht hobs ⟨{ c with entry := c.entry.setForwards forwards }, ?_, hf⟩
      exact List.getElem?_set_self (List.getElem?_eq_some_iff.mp hc).1
    | _ => trivial

/-- The same for a stream that moves on. -/
theorem shown_stream (h : LiveInv s) {a : LiveAct} {j : ℕ} {t t' : LiveStream}
    (ht : s.streams[j]? = some t) (hmove : StreamMove t a j t')
    (hcounted : ∀ t ∈ s.streams, t.observed = true → s.plane.Announces t → t.pc ≠ .replied) :
    CountedFirst s a ↔
      ∀ x ∈ s.streams.set j t', x.observed = true → s.plane.Announces x → x.pc ≠ .replied := by
  have hmem := List.mem_of_getElem? ht
  -- the others are as they were
  have hothers : (t'.observed = true → s.plane.Announces t' → t'.pc ≠ .replied) →
      ∀ x ∈ s.streams.set j t', x.observed = true → s.plane.Announces x → x.pc ≠ .replied := by
    intro hown x hx
    obtain hold | rfl := List.mem_or_eq_of_mem_set hx
    · exact hcounted x hold
    · exact hown
  cases hmove with
  | writeOk j ok hgranted =>
    refine iff_of_true trivial (hothers fun hobs _ => ?_)
    simp only [LiveStream.observed, Bool.and_eq_true] at hobs
    exact absurd hgranted (h.read t hmem hobs.1.1).1
  | readOk j hgranted hfailed =>
    constructor
    · intro hguard
      refine hothers fun hobs hann => ?_
      simp only [LiveStream.observed, Bool.and_eq_true, Bool.not_eq_true'] at hobs
      exact hguard t ht hobs.1.2 hobs.2 hann
    · intro hshown x hx hup hdown hann
      rw [ht] at hx
      cases hx
      refine hshown { t with okRead := true } ?_ ?_ hann
      · exact List.mem_of_getElem? (List.getElem?_set_self (List.getElem?_eq_some_iff.mp ht).1)
      · simp [LiveStream.observed, hup, hdown]
  | closeUp =>
    refine iff_of_true trivial (hothers fun hobs _ => ?_)
    exact absurd hobs (by simp [LiveStream.observed])
  | closeDown =>
    refine iff_of_true trivial (hothers fun hobs _ => ?_)
    exact absurd hobs (by simp [LiveStream.observed])

/-- **One step** from a state in which all such streams are shown leads to another exactly if it
    meets the condition. -/
theorem shown_step {a : LiveAct} (h : LiveInv s) (hshown : ShownLive s) (hs' : s.next a = some s') :
    CountedFirst s a ↔ ShownLive s' := by
  rw [h.shownLive_iff] at hshown
  rw [(h.step hs').shownLive_iff]
  obtain ⟨b, p, rfl, hb, hp, rfl⟩ | ⟨conn, target, rfl, hconn, rfl⟩ |
    ⟨j, t, t', ht, hmove, rfl⟩ | ⟨hmove, ha⟩ := live_step hs'
  · exact shown_session hb hp hshown
  · refine iff_of_true trivial fun t ht hobs hann => ?_
    rcases List.mem_append.mp ht with ht | ht
    · exact hshown t ht hobs hann
    · rw [List.mem_singleton.mp ht]
      simp
  · exact shown_stream h ht hmove hshown
  · refine iff_of_true ?_ fun t ht hobs hann hpc => ?_
    · obtain ⟨j, rfl | rfl⟩ := ha
      · trivial
      · trivial
    · exact hshown t (hmove.streams ht hpc) hobs (hmove.announces t hann) hpc

/-- **What the client has seen is shown** by the snapshot of its session, as long as each step meets
    the condition; the first step that does not leaves a stream out.  The snapshot of a session in
    the registry is what `peer_snapshot` returns. -/
theorem live_follows_client (h : Reach liveSystem CountedFirst s) :
    ShownLive s ∧ (∀ a s', s.next a = some s' → (CountedFirst s a ↔ ShownLive s')) ∧
    ∀ (i : ℕ) (c : SessionConn), s.plane.conns[i]? = some c →
      s.plane.sessions c.remote.display = some i → ∀ now paths,
        s.plane.peerSnapshot c.remote.display now paths = some (c.entry.snapshot now paths) := by
  have hshown : ShownLive s := by
    refine h.invariant ?_ ?_
    · rintro _ rfl t ht
      exact absurd ht (by simp [LivePlane.start])
    · intro s a s' hreach hshown hguard hs'
      exact (shown_step (liveInv hreach) hshown hs').mp hguard
  refine ⟨hshown, fun a s' hs' => shown_step (liveInv h) hshown hs',
    fun i c hc hrow now paths => ?_⟩
  rw [SessionPlane.peerSnapshot, toLowercase_display, hrow]
  show s.plane.conns[i]?.map _ = _
  rw [hc]
  rfl

end Shown

/-- A session that announces a target, and a stream to it of which OK is written. -/
def okWritten : List LiveAct :=
  [.session (.accept "laptop" vectorKey0 0), .session (.register 0),
    .session (.setForwards 0 [⟨"127.0.0.1:2222", "a:1"⟩]), .stream 0 "a:1", .writeOk 0 true]

theorem live_follows_counted : ∃ s, Reach liveSystem CountedFirst s ∧ ShownLive s ∧
    s.streams = [⟨0, "a:1", .relaying, true, false, false⟩] := by
  have hrun : (exec liveSystem (fun s a => decide (CountedFirst s a)) .start
      (okWritten ++ [.forwardOpen 0, .readOk 0])).map (fun s => s.streams) =
        some [⟨0, "a:1", .relaying, true, false, false⟩] := by
    decide +kernel
  obtain ⟨s, hs, hstreams⟩ := reach_of_exec_map (fun _ _ => of_decide_eq_true) hrun (.init rfl)
  exact ⟨s, hs, (live_follows_client hs).1, hstreams⟩

/-- The client has its OK and `peer_snapshot` shows no live stream. -/
theorem live_lags_client : ¬ ∀ s, Reach liveSystem anyStep s → ShownLive s := by
  intro hall
  have hrun : (exec liveSystem (fun _ _ => true) .start (okWritten ++ [.readOk 0])).map
      (fun s => (s.streams, (s.plane.peerSnapshot vectorKey0.display 0 []).map (·.forwards),
        s.plane.conns[0]?.map fun c => (c.entry.snapshot 0 []).forwards)) =
      some ([⟨0, "a:1", .replied, true, false, false⟩], some [⟨"127.0.0.1:2222", "a:1", 0⟩],
        some [⟨"127.0.0.1:2222", "a:1", 0⟩]) := by
    decide +kernel
  obtain ⟨s, hs, hview⟩ := reach_of_exec_map (C := anyStep) (fun _ _ _ => trivial) hrun (.init rfl)
  obtain ⟨hstreams, hrest⟩ := Prod.mk.inj hview
  obtain ⟨-, hconn⟩ := Prod.mk.inj hrest
  obtain ⟨c, hc, hforwards⟩ := Option.map_eq_some_iff.mp hconn
  have hrow : (⟨"127.0.0.1:2222", "a:1", 0⟩ : ForwardInfo) ∈ (c.entry.snapshot 0 []).forwards := by
    rw [hforwards]
    exact List.mem_singleton.mpr rfl
  have hshown := hall s hs ⟨0, "a:1", .replied, true, false, false⟩ (by rw [hstreams]; simp) rfl
    c hc 0 [] _ hrow rfl
  exact absurd hshown.2 (by decide)

end Tmite.Daemon
