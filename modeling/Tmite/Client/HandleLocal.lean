import Tmite.Client.SessionRace

namespace Tmite.Client

open Tmite.Core Tmite.Proto Transition TaskList

/-!
# One stream, and the session (`handle_local`)

The errors of one forwarded stream are its own affair, those of the connection reset the
session.  `handle_local` tells them apart by where they show: a failed write of the `FORWARD`
and any error of the read of the reply count as the connection's.  So do a reset or an early
end of the stream, and a reply that is too large, that does not decode or that is late, all
while the connection is open.  `stream_leaves_session` says which outcomes leave the session
alone.
-/

variable {toVec : DataFrame → List UInt8}

/-! ### The runs -/

/-- How a stream on an open connection goes: whether it takes the `FORWARD`, and how the wait for
    the reply ends (`none` when the timeout around it fires). -/
structure StreamOutcome where
  wrote : Bool
  reply : Option (FrameResult DataFrame)

/-- How things go on from `s`. -/
def Connect.goingOn (toVec : DataFrame → List UInt8) (s : Connect) : System Connect ConnectAct :=
  ⟨fun s' => s' = s, Connect.next toVec⟩

/-- Time passes and task `i` runs; it can open its stream on `c`, and that goes like `o`. -/
def StreamGoes (i c : ℕ) (o : StreamOutcome) (s : Connect) : ConnectAct → Prop
  | .tick _ => True
  | .task j ev => j = i ∧ ∀ t, s.tasks[i]? = some t →
      (t.pc = .openBi c → ev = .opened (.ok ())) ∧
      (t.pc = .forward c → ev = .wrote o.wrote) ∧
      (t.pc = .awaitReply c → ev = .replied o.reply)
  | _ => False

/-- The `FORWARD` is sent, and the wait for the reply does not end in an error of the read. -/
def StreamOutcome.Harmless (toVec : DataFrame → List UInt8) (target : String)
    (o : StreamOutcome) : Prop :=
  canForward toVec target o.wrote = true ∧ ∀ e, o.reply ≠ some (.error e)

section Stream

variable {s : Connect} {i c n : ℕ} {target : String} {o : StreamOutcome}

attribute [local simp] taskNext

/-! ### Harmless outcomes -/

/-- Where `handle_local` is on its way through a stream that is harmless. -/
inductive OnStream (c : ℕ) : TaskPc → Prop
  | get : OnStream c .get
  | openBi : OnStream c (.openBi c)
  | forward : OnStream c (.forward c)
  | awaitReply : OnStream c (.awaitReply c)
  | relay : OnStream c (.relay c)
  | done : OnStream c .done

/-- A step there stays there, and does nothing to the session. -/
theorem taskNext_harmless {session : Session} {next : ℕ} {pc : TaskPc} {ev : TaskEvent}
    {t' : Task} {eff : Effect} {lines : List UiLine} (ho : o.Harmless toVec target)
    (hconn : session.conn = some c) (hpc : OnStream c pc)
    (hopen : pc = .openBi c → ev = .opened (.ok ()))
    (hwrote : pc = .forward c → ev = .wrote o.wrote)
    (hreply : pc = .awaitReply c → ev = .replied o.reply)
    (h : taskNext toVec session next ⟨.handleLocal target, n, pc⟩ ev = some (t', eff, lines)) :
    eff = .none ∧ t'.kind = .handleLocal target ∧ t'.attempt = n ∧ OnStream c t'.pc := by
  cases hpc with
  | get =>
    -- the connection is cached, so `get` does not dial
    cases ev with
    | go =>
      simp only [taskNext, hconn] at h
      split at h
      · exact absurd h (by simp)
      · cases h
        exact ⟨rfl, rfl, rfl, .openBi⟩
    | _ => exact absurd h (by simp)
  | openBi =>
    rw [hopen rfl] at h
    cases h
    exact ⟨rfl, rfl, rfl, .forward⟩
  | forward =>
    rw [hwrote rfl] at h
    simp only [taskNext, ho.1, if_true] at h
    cases h
    exact ⟨rfl, rfl, rfl, .awaitReply⟩
  | awaitReply =>
    rw [hreply rfl] at h
    cases hr : o.reply with
    | none =>
      -- the timeout around the read only ends the stream
      rw [hr] at h
      cases h
      exact ⟨rfl, rfl, rfl, .done⟩
    | some r =>
      cases r with
      | error e => exact absurd hr (ho.2 e)
      | ok f =>
        -- `OK` goes on to the relay, every other frame ends the stream
        obtain ⟨ty, f⟩ := f
        rw [hr] at h
        cases f with
        | ok => cases h; exact ⟨rfl, rfl, rfl, .relay⟩
        | _ => cases h; exact ⟨rfl, rfl, rfl, .done⟩
  | relay =>
    cases ev with
    | relayed => cases h; exact ⟨rfl, rfl, rfl, .done⟩
    | _ => exact absurd h (by simp)
  | done => cases ev <;> exact absurd h (by simp)

/-- The session is as in `s`, and the task is on its way. -/
def StreamInv (s : Connect) (i c n : ℕ) (target : String) (x : Connect) : Prop :=
  x.session = s.session ∧ ∃ pc, x.tasks[i]? = some ⟨.handleLocal target, n, pc⟩ ∧ OnStream c pc

theorem StreamInv.next {x y : Connect} {a : ConnectAct} (h : StreamInv s i c n target x)
    (ho : o.Harmless toVec target) (hconn : s.session.conn = some c)
    (hC : StreamGoes i c o x a) (hn : x.next toVec a = some y) :
    StreamInv s i c n target y := by
  obtain ⟨hsession, pc, ht, hpc⟩ := h
  cases a with
  | tick ms => cases hn; exact ⟨hsession, pc, ht, hpc⟩
  | task j ev =>
    obtain ⟨rfl, hgoes⟩ := hC
    obtain ⟨hopen, hwrote, hreply⟩ := hgoes _ ht
    obtain ⟨t, t', eff, lines, ht', hstep, -, rfl⟩ := next_task hn
    have htask : t = ⟨.handleLocal target, n, pc⟩ := Option.some.inj (ht'.symm.trans ht)
    rw [htask] at hstep
    obtain ⟨rfl, hkind, hattempt, hpc'⟩ := taskNext_harmless ho (by rw [hsession]; exact hconn)
      hpc hopen hwrote hreply hstep
    obtain ⟨hlt, -⟩ := List.getElem?_eq_some_iff.mp ht
    refine ⟨hsession, t'.pc, ?_, hpc'⟩
    show (x.tasks.set j t')[j]? = some ⟨.handleLocal target, n, t'.pc⟩
    rw [List.getElem?_set_self hlt, ← hkind, ← hattempt]
  | _ => exact absurd hC (by simp [StreamGoes])

/-! ### The others -/

/-- A run brings the task to `pc`, and has not touched the session. -/
def Visits (toVec : DataFrame → List UInt8) (s : Connect) (i c n : ℕ) (target : String)
    (o : StreamOutcome) (pc : TaskPc) : Prop :=
  ∃ x, Reach (s.goingOn toVec) (StreamGoes i c o) x ∧ x.session = s.session ∧
    x.tasks[i]? = some ⟨.handleLocal target, n, pc⟩

/-- What the environment does at a position of the task, as a guard. -/
theorem streamGoes_of {x : Connect} {pc : TaskPc} {ev : TaskEvent}
    (ht : x.tasks[i]? = some ⟨.handleLocal target, n, pc⟩)
    (hgoes : (pc = .openBi c → ev = .opened (.ok ())) ∧
      (pc = .forward c → ev = .wrote o.wrote) ∧ (pc = .awaitReply c → ev = .replied o.reply)) :
    StreamGoes i c o x (.task i ev) := by
  refine ⟨rfl, fun t ht' => ?_⟩
  rw [Option.some.inj (ht'.symm.trans ht)]
  exact hgoes

/-- A step the task can take there. -/
theorem Visits.step {pc pc' : TaskPc} (h : Visits toVec s i c n target o pc) (ev : TaskEvent)
    (hgoes : (pc = .openBi c → ev = .opened (.ok ())) ∧
      (pc = .forward c → ev = .wrote o.wrote) ∧ (pc = .awaitReply c → ev = .replied o.reply))
    (hstep : ∀ next, taskNext toVec s.session next ⟨.handleLocal target, n, pc⟩ ev =
      some (⟨.handleLocal target, n, pc'⟩, .none, [])) :
    Visits toVec s i c n target o pc' := by
  obtain ⟨x, hr, hsession, ht⟩ := h
  obtain ⟨hlt, -⟩ := List.getElem?_eq_some_iff.mp ht
  have hnext : x.next toVec (.task i ev) = some { x with
      tasks := x.tasks.set i ⟨.handleLocal target, n, pc'⟩
      said := x.said ++ [] } := by
    simp only [Connect.next, ht, Option.bind_some, hsession, hstep, Option.map_some,
      Connect.perform]
  exact ⟨_, .step hr (streamGoes_of ht hgoes) hnext, hsession, List.getElem?_set_self hlt⟩

/-- A run that brings the task to `invalidate` goes on to empty the cache. -/
theorem Visits.drops {msg : String} (h : Visits toVec s i c n target o (.invalidate c msg))
    (hfree : s.session.locked = false) :
    ∃ x, Reach (s.goingOn toVec) (StreamGoes i c o) x ∧ x.session.conn = none := by
  obtain ⟨x, hr, hsession, ht⟩ := h
  have hnext : x.next toVec (.task i .go) = some (Connect.perform { x with
      tasks := x.tasks.set i ⟨.handleLocal target, n, .setReconnecting msg⟩
      said := x.said ++ [] } (.dropConn c)) := by
    simp only [Connect.next, ht, Option.bind_some, taskNext, hsession, hfree,
      Bool.false_eq_true, if_false, Option.map_some]
  exact ⟨_, .step hr (streamGoes_of ht ⟨by simp, by simp, by simp⟩) hnext, rfl⟩

/-- With its connection cached, the task gets to sending its `FORWARD`. -/
theorem visits_forward (toVec : DataFrame → List UInt8)
    (ht : s.tasks[i]? = some ⟨.handleLocal target, n, .get⟩) (hconn : s.session.conn = some c)
    (hfree : s.session.locked = false) (o : StreamOutcome) :
    Visits toVec s i c n target o (.forward c) := by
  have hget : Visits toVec s i c n target o .get := ⟨s, .init rfl, rfl, ht⟩
  have hopen : Visits toVec s i c n target o (.openBi c) := by
    refine hget.step .go ⟨by simp, by simp, by simp⟩ (fun next => ?_)
    simp only [taskNext, hfree, Bool.false_eq_true, if_false, hconn, TaskKind.use]
  exact hopen.step (.opened (.ok ())) ⟨by simp, by simp, by simp⟩ (fun next => rfl)

/-- And from there to waiting for the reply, if the `FORWARD` is sent. -/
theorem Visits.awaits (h : Visits toVec s i c n target o (.forward c))
    (hwrote : canForward toVec target o.wrote = true) :
    Visits toVec s i c n target o (.awaitReply c) := by
  refine h.step (.wrote o.wrote) ⟨by simp, by simp, by simp⟩ (fun next => ?_)
  simp only [taskNext, hwrote, if_true]

/-- A failed write is taken for the connection's failure. -/
theorem Visits.write_failed (h : Visits toVec s i c n target o (.forward c))
    (hwrote : ¬ canForward toVec target o.wrote = true) :
    Visits toVec s i c n target o (.invalidate c "failed to send FORWARD") := by
  refine h.step (.wrote o.wrote) ⟨by simp, by simp, by simp⟩ (fun next => ?_)
  simp only [taskNext, if_neg hwrote]

/-- And so is every error of the read of the reply. -/
theorem Visits.reply_failed {e : FrameIoError} (h : Visits toVec s i c n target o (.awaitReply c))
    (he : o.reply = some (.error e)) : Visits toVec s i c n target o
      (.invalidate c ("lost connection while awaiting reply: " ++ e.display)) := by
  refine h.step (.replied o.reply) ⟨by simp, by simp, by simp⟩ (fun next => ?_)
  rw [he]
  rfl

/-- An outcome that is not harmless empties the cache. -/
theorem drops_of_not_harmless (ht : s.tasks[i]? = some ⟨.handleLocal target, n, .get⟩)
    (hconn : s.session.conn = some c) (hfree : s.session.locked = false)
    (ho : ¬ o.Harmless toVec target) :
    ∃ x, Reach (s.goingOn toVec) (StreamGoes i c o) x ∧ x.session.conn = none := by
  have hforward := visits_forward toVec ht hconn hfree o
  by_cases hwrote : canForward toVec target o.wrote = true
  · obtain ⟨e, he⟩ : ∃ e, o.reply = some (.error e) := by
      by_contra hnone
      exact ho ⟨hwrote, fun e he => hnone ⟨e, he⟩⟩
    exact ((hforward.awaits hwrote).reply_failed he).drops hfree
  · exact (hforward.write_failed hwrote).drops hfree

end Stream

/-! ### Every outcome -/

/-- **One stream and the session.** Let `handle_local` begin with its connection cached, in any
    state that any run reaches.  For every outcome of its stream while the connection
    stays open: in all states it goes through, up to and past its return, the cached connection
    and the status are as they were, exactly if the `FORWARD` was sent and the wait for the
    reply did not end in an error of the read. -/
theorem stream_leaves_session (toVec : DataFrame → List UInt8) {s : Connect} {i c n : ℕ}
    {target : String} (h : Reach (Connect.system toVec) anyStep s)
    (ht : s.tasks[i]? = some ⟨.handleLocal target, n, .get⟩) (hconn : s.session.conn = some c)
    (o : StreamOutcome) :
    (∀ x, Reach (s.goingOn toVec) (StreamGoes i c o) x →
      x.session.conn = s.session.conn ∧ x.session.status = s.session.status) ↔
    o.Harmless toVec target := by
  have hfree := (lockInv h).free hconn
  constructor
  · -- any other outcome has a run into `invalidate`
    intro hall
    by_contra ho
    obtain ⟨x, hr, hnone⟩ := drops_of_not_harmless ht hconn hfree ho
    have hkept := (hall x hr).1
    rw [hnone, hconn] at hkept
    exact absurd hkept (by simp)
  · -- and on the way of a harmless one no step has an effect
    intro ho x hr
    have hinv : StreamInv s i c n target x := by
      refine hr.invariant (I := StreamInv s i c n target) ?_
        (fun x a y _ hi hC hn => hi.next ho hconn hC hn)
      rintro x rfl
      exact ⟨rfl, .get, ht, .get⟩
    rw [hinv.1]
    exact ⟨rfl, rfl⟩

/-- `connect` has its connection, and a TCP connection comes in for `db:5432`. -/
def servingRun : List ConnectAct :=
  [.spawn .eager] ++ dialConn 0 ++ [.task 0 .validated, .spawn (.handleLocal "db:5432")]

/-- The state after `servingRun`. -/
theorem exists_serving : ∃ s, Reach (Connect.system DataFrame.json) anyStep s ∧
    s.tasks[1]? = some ⟨.handleLocal "db:5432", 0, .get⟩ ∧
    s.session = ⟨some 0, false, ⟨.established, 0⟩, 0, true⟩ ∧ s.lost = [] := by
  have hrun : (exec (Connect.system DataFrame.json) (fun _ _ => true) (.start 0) servingRun).map
      (fun s => (s.tasks[1]?, s.session, s.lost)) =
        some (some ⟨.handleLocal "db:5432", 0, .get⟩,
          ⟨some 0, false, ⟨.established, 0⟩, 0, true⟩, []) := by
    decide +kernel
  obtain ⟨s, hr, hs⟩ := reach_of_exec_map (fun _ _ _ => trivial) hrun (.init ⟨0, rfl⟩)
  simp only [Prod.mk.injEq] at hs
  exact ⟨s, hr, hs⟩

/-- A denied forward leaves the session alone. -/
theorem stream_leaves_session_denied : ∃ s, Reach (Connect.system DataFrame.json) anyStep s ∧
    s.session.conn = some 0 ∧
    ∀ x, Reach (s.goingOn DataFrame.json)
        (StreamGoes 1 0 ⟨true, some (.ok (typeDeny, .deny .unauthorized))⟩) x →
      x.session.conn = s.session.conn ∧ x.session.status = s.session.status := by
  obtain ⟨s, hr, htask, hsession, -⟩ := exists_serving
  have hconn : s.session.conn = some 0 := by rw [hsession]
  refine ⟨s, hr, hconn, (stream_leaves_session DataFrame.json hr htask hconn _).mpr ?_⟩
  exact ⟨by decide +kernel, by simp⟩

/-- The reply of a stream that the server resets before it has answered. -/
def resetReply : FrameResult DataFrame :=
  (readFrame (SerdeJson.ofValue .null) DataFrame.fromValue (fun _ => "stream finished early")
    ⟨[], .failed "stream reset by peer: error 0"⟩).1

/-- A reset of one stream empties the cache, with the connection open. -/
theorem reset_drops_conn : ∃ s, Reach (Connect.system DataFrame.json) anyStep s ∧
    s.session.conn = some 0 ∧ s.lost = [] ∧
    ∃ x, Reach (s.goingOn DataFrame.json) (StreamGoes 1 0 ⟨true, some resetReply⟩) x ∧
      x.session.conn = none ∧ x.session.conn ≠ s.session.conn := by
  obtain ⟨s, hr, htask, hsession, hlost⟩ := exists_serving
  have hconn : s.session.conn = some 0 := by rw [hsession]
  have hfree : s.session.locked = false := by rw [hsession]
  have hharm : ¬ StreamOutcome.Harmless DataFrame.json "db:5432" ⟨true, some resetReply⟩ :=
    fun hharmless => hharmless.2 _ rfl
  obtain ⟨x, hx, hnone⟩ := drops_of_not_harmless htask hconn hfree hharm
  exact ⟨s, hr, hconn, hlost, x, hx, hnone, by rw [hnone, hconn]; simp⟩

end Tmite.Client
