import Tmite.Daemon.DataPlane
import Tmite.Lib.TaskList

namespace Tmite.Daemon

open Tmite.Core Tmite.Proto Transition TaskList

/-!
# How fast unknown nodes are turned away (`DataPlaneHandler::accept`)

Each connection is accepted in a task of its own, so any number of unknown nodes can be waiting to
be rejected at once.  One lock is held over the sleep before a rejection, and the delay behind it is
doubled by every rejection and reset by every known peer that is let in.  Here the data plane has a
clock, and its history of rejections and admissions, the newest first.

* `paceInv` — a rejection sleeps for what the rejections since the last admission or restart say, and
  begins to only when the one before it is over;
* `rejects_paced` — so rejections in a row take at least the sum of their delays, however many
  connections there are.
-/

universe v
variable {Text : Type v}

/-! ### The data plane and the clock -/

/-- What becomes of connections; `began` is when the lock was taken, `ended` when the connection was
    closed. -/
inductive PaceEvent
  | rejected (node : PublicKey) (began ended : ℕ)
  | admitted (node : PublicKey)
  | restarted
deriving DecidableEq

def PaceEvent.isRejected : PaceEvent → Bool
  | rejected _ _ _ => true
  | _ => false

/-- A rejection that is over by `t`. -/
def PaceEvent.EndedBy (t : ℕ) : PaceEvent → Prop
  | rejected _ _ ended => ended ≤ t
  | _ => True

/-- The data plane, with the time, when the lock was last taken for a rejection, and what has become
    of connections, the newest first. -/
structure PacedPlane (Text : Type v) where
  plane : DataPlane Text
  clock : ℕ
  since : ℕ
  history : List PaceEvent

inductive PacedAct (Text : Type v)
  | tick (ms : ℕ)
  | plane (a : DataAct Text)

namespace PacedPlane

variable (T : Toml PersistedState Text)

/-- A step of `accept`, with its time. -/
def accepted (s : PacedPlane Text) (c : Conn) (plane : DataPlane Text) :
    Option (PacedPlane Text) :=
  match c.pc with
  | .rejectWait => some { s with plane, since := s.clock }
  -- the sleep is over
  | .rejectSleep =>
    if s.since + s.plane.rejectDelay.delay ≤ s.clock then
      some { s with plane, history := .rejected c.remote s.since s.clock :: s.history }
    else none
  | .resetDelay _ => some { s with plane, history := .admitted c.remote :: s.history }
  | _ => some { s with plane }

/-- A step, where it is enabled. -/
def next (s : PacedPlane Text) : PacedAct Text → Option (PacedPlane Text)
  | .tick ms => some { s with clock := s.clock + ms }
  | .plane (.accept i) =>
    s.plane.conns[i]?.bind fun c => (s.plane.accept i c).bind (s.accepted c)
  | .plane .restart =>
    (s.plane.next T .restart).map fun plane =>
      { s with plane, history := .restarted :: s.history }
  | .plane a => (s.plane.next T a).map fun plane => { s with plane }

def system : System (PacedPlane Text) (PacedAct Text) :=
  ⟨fun s => s = ⟨DataPlane.initial, 0, 0, []⟩, next T⟩

end PacedPlane

/-! ### The schedule -/

/-- The rejections since the last admission or restart. -/
def rejections (history : List PaceEvent) : ℕ := (history.takeWhile PaceEvent.isRejected).length

/-- What is slept before a rejection, after `n` others in a row. -/
def pause (n : ℕ) : ℕ := min (rejectDelayInitial * 2 ^ n) rejectDelayMax

/-- Every rejection took its pause, and began when those before it were over. -/
def Paced : List PaceEvent → Prop
  | [] => True
  | .rejected _ began ended :: older =>
    began + pause (rejections older) ≤ ended ∧ (∀ e ∈ older, e.EndedBy began) ∧ Paced older
  | _ :: older => Paced older

theorem escalate_pause {d : RejectDelay} {n : ℕ} (h : d.delay = pause n) :
    d.escalate.delay = pause (n + 1) := by
  show min (d.current * 2) rejectDelayMax = _
  rw [show d.current = pause n from h, pause, pause, Nat.pow_succ, ← Nat.mul_assoc]
  omega

theorem PaceEvent.EndedBy.mono {e : PaceEvent} {t t' : ℕ} (h : e.EndedBy t) (ht : t ≤ t') :
    e.EndedBy t' := by
  cases e with
  | rejected node began ended => exact Nat.le_trans h ht
  | _ => trivial

/-! ### The invariant -/

/-- The connection holds the lock. -/
def Conn.sleeping (c : Conn) : Bool := c.pc == .rejectSleep

structure PaceInv (s : PacedPlane Text) : Prop where
  paced : Paced s.history
  past : ∀ e ∈ s.history, e.EndedBy s.clock
  delay : s.plane.rejectDelay.delay = pause (rejections s.history)
  holder : OneHolder Conn.sleeping s.plane.conns s.plane.delayLocked
  since : s.plane.delayLocked = true → s.since ≤ s.clock ∧ ∀ e ∈ s.history, e.EndedBy s.since

section Steps

variable {T : Toml PersistedState Text} {s s' : PacedPlane Text}

/-- A step that has nothing to do with the lock. -/
theorem PaceInv.other (h : PaceInv s) {plane : DataPlane Text}
    (hdelay : plane.rejectDelay = s.plane.rejectDelay)
    (hlocked : plane.delayLocked = s.plane.delayLocked)
    (hholder : OneHolder Conn.sleeping plane.conns s.plane.delayLocked) :
    PaceInv { s with plane } := by
  refine ⟨h.paced, h.past, ?_, ?_, ?_⟩
  · show plane.rejectDelay.delay = _
    rw [hdelay]
    exact h.delay
  · show OneHolder _ plane.conns plane.delayLocked
    rw [hlocked]
    exact hholder
  · intro hl
    exact h.since (hlocked ▸ hl)

/-- A connection moves on, neither taking the lock nor giving it back. -/
theorem PaceInv.moved (h : PaceInv s) {plane : DataPlane Text} {i : ℕ} {c : Conn} {pc : ConnPc}
    (hi : s.plane.conns[i]? = some c) (hc : c.sleeping = false)
    (hpc : ({ c with pc } : Conn).sleeping = false)
    (hconns : plane.conns = s.plane.conns.set i { c with pc })
    (hdelay : plane.rejectDelay = s.plane.rejectDelay)
    (hlocked : plane.delayLocked = s.plane.delayLocked) : PaceInv { s with plane } := by
  refine h.other hdelay hlocked ?_
  rw [hconns]
  exact h.holder.keep hi (by rw [hc, hpc])

/-- An unknown node's task takes the lock. -/
theorem PaceInv.lock (h : PaceInv s) {i : ℕ} {c : Conn} (hi : s.plane.conns[i]? = some c)
    (hpc : c.pc = .rejectWait) (hfree : s.plane.delayLocked = false) :
    PaceInv { s with
      plane := { s.plane.setConn i c .rejectSleep with delayLocked := true }
      since := s.clock } := by
  refine ⟨h.paced, h.past, h.delay, ?_, fun _ => ⟨Nat.le_refl _, h.past⟩⟩
  have hholder := h.holder
  rw [hfree] at hholder
  exact hholder.take hi (by simp [Conn.sleeping, hpc]) rfl

/-- It has slept, and closes the connection. -/
theorem PaceInv.reject (h : PaceInv s) {i : ℕ} {c : Conn} (hi : s.plane.conns[i]? = some c)
    (hpc : c.pc = .rejectSleep) (hslept : s.since + s.plane.rejectDelay.delay ≤ s.clock) :
    PaceInv { s with
      plane := { s.plane.setConn i c .ended with
        delayLocked := false
        rejectDelay := s.plane.rejectDelay.escalate }
      history := .rejected c.remote s.since s.clock :: s.history } := by
  have hsleeping : c.sleeping = true := by simp [Conn.sleeping, hpc]
  obtain ⟨-, hover⟩ := h.since (h.holder.held_of_holds hi hsleeping)
  refine ⟨⟨?_, hover, h.paced⟩, ?_, ?_, h.holder.drop hi hsleeping rfl, by simp⟩
  · rw [← h.delay]
    exact hslept
  · intro e he
    rcases List.mem_cons.mp he with rfl | he
    · exact Nat.le_refl _
    · exact h.past e he
  · exact escalate_pause h.delay

/-- A known peer is let in. -/
theorem PaceInv.admit (h : PaceInv s) {i : ℕ} {c : Conn} {name : String}
    (hi : s.plane.conns[i]? = some c) (hpc : c.pc = .resetDelay name) :
    PaceInv { s with
      plane := { s.plane.setConn i c (.touch name) with rejectDelay := s.plane.rejectDelay.reset }
      history := .admitted c.remote :: s.history } := by
  refine ⟨h.paced, ?_, rfl, h.holder.keep hi (by simp [Conn.sleeping, hpc]), fun hl => ?_⟩
  · intro e he
    rcases List.mem_cons.mp he with rfl | he
    · trivial
    · exact h.past e he
  · obtain ⟨hle, hover⟩ := h.since hl
    refine ⟨hle, fun e he => ?_⟩
    rcases List.mem_cons.mp he with rfl | he
    · trivial
    · exact hover e he

/-- A step of `accept`. -/
theorem PaceInv.accept (h : PaceInv s) {i : ℕ} {c : Conn} {plane : DataPlane Text}
    (hi : s.plane.conns[i]? = some c) (haccept : s.plane.accept i c = some plane)
    (hn : s.accepted c plane = some s') : PaceInv s' := by
  cases hpc : c.pc with
  | lookup =>
    simp only [PacedPlane.accepted, hpc, Option.some.injEq] at hn
    subst hn
    have hc : c.sleeping = false := by simp [Conn.sleeping, hpc]
    simp only [DataPlane.accept, hpc] at haccept
    split at haccept
    · cases haccept
      exact h.moved hi hc rfl rfl rfl rfl
    · cases haccept
      exact h.moved hi hc rfl rfl rfl rfl
  | rejectWait =>
    simp only [PacedPlane.accepted, hpc, Option.some.injEq] at hn
    subst hn
    simp only [DataPlane.accept, hpc] at haccept
    split at haccept
    · exact absurd haccept (by simp)
    · rename_i hfree
      cases haccept
      exact h.lock hi hpc (by simpa using hfree)
  | rejectSleep =>
    simp only [DataPlane.accept, hpc, Option.some.injEq] at haccept
    subst haccept
    simp only [PacedPlane.accepted, hpc] at hn
    split at hn
    · rename_i hslept
      cases hn
      exact h.reject hi hpc hslept
    · exact absurd hn (by simp)
  | resetDelay name =>
    simp only [PacedPlane.accepted, hpc, Option.some.injEq] at hn
    subst hn
    simp only [DataPlane.accept, hpc] at haccept
    split at haccept
    · exact absurd haccept (by simp)
    · cases haccept
      exact h.admit hi hpc
  | _ => exact absurd haccept (by simp [DataPlane.accept, hpc])

/-- The other steps of the data plane leave the lock, the delay and the sleepers alone. -/
theorem PaceInv.plane (h : PaceInv s) {a : DataAct Text} {plane : DataPlane Text}
    (haccept : ∀ i, a ≠ .accept i) (hrestart : a ≠ .restart)
    (hn : s.plane.next T a = some plane) : PaceInv { s with plane } := by
  cases a with
  | accept i => exact absurd rfl (haccept i)
  | restart => exact absurd rfl hrestart
  | pair name remote now fault =>
    cases hn
    exact h.other rfl rfl h.holder
  | admin c =>
    simp only [DataPlane.next] at hn
    split at hn
    · cases hn
      exact h.other rfl rfl h.holder
    · exact absurd hn (by simp)
  | incoming remote =>
    cases hn
    exact h.other rfl rfl (h.holder.concat rfl)
  | touchLastSeen i now fault =>
    obtain ⟨c, hc, hrest⟩ := Option.bind_eq_some_iff.mp hn
    cases hpc : c.pc with
    | touch name =>
      simp only [hpc, Option.some.injEq] at hrest
      subst hrest
      exact h.moved hc (by simp [Conn.sleeping, hpc]) rfl rfl rfl rfl
    | _ => simp only [hpc] at hrest; exact absurd hrest (by simp)
  | acceptBi i ok =>
    obtain ⟨c, hc, hrest⟩ := Option.bind_eq_some_iff.mp hn
    cases hpc : c.pc with
    | serving name =>
      simp only [hpc] at hrest
      split at hrest
      · cases hrest
        exact h.other rfl rfl h.holder
      · cases hrest
        exact h.moved hc (by simp [Conn.sleeping, hpc]) rfl rfl rfl rfl
    | _ => simp only [hpc] at hrest; exact absurd hrest (by simp)
  | _ =>
    obtain ⟨st, -, hrest⟩ := Option.bind_eq_some_iff.mp hn
    split at hrest
    · cases hrest
      exact h.other rfl rfl h.holder
    · exact absurd hrest (by simp)

theorem PaceInv.next (h : PaceInv s) {a : PacedAct Text} (hn : s.next T a = some s') :
    PaceInv s' := by
  cases a with
  | tick ms =>
    cases hn
    refine ⟨h.paced, fun e he => (h.past e he).mono (Nat.le_add_right _ _), h.delay, h.holder,
      fun hl => ?_⟩
    obtain ⟨hle, hover⟩ := h.since hl
    exact ⟨Nat.le_trans hle (Nat.le_add_right _ _), hover⟩
  | plane a =>
    cases a with
    | accept i =>
      obtain ⟨c, hc, hrest⟩ := Option.bind_eq_some_iff.mp hn
      obtain ⟨plane, haccept, hn⟩ := Option.bind_eq_some_iff.mp hrest
      exact h.accept hc haccept hn
    | restart =>
      cases hn
      refine ⟨h.paced, fun e he => ?_, rfl, rfl, by simp⟩
      rcases List.mem_cons.mp he with rfl | he
      · trivial
      · exact h.past e he
    | _ =>
      simp only [PacedPlane.next] at hn
      obtain ⟨plane, hplane, rfl⟩ := Option.map_eq_some_iff.mp hn
      exact h.plane (by simp) (by simp) hplane

end Steps

theorem paceInv {T : Toml PersistedState Text} {C : PacedPlane Text → PacedAct Text → Prop}
    {s : PacedPlane Text} (h : Reach (PacedPlane.system T) C s) : PaceInv s := by
  refine h.invariant (fun s hs => ?_) (fun _ _ _ _ hi _ hn => hi.next hn)
  rw [show s = ⟨DataPlane.initial, 0, 0, []⟩ from hs]
  exact ⟨trivial, by simp, rfl, rfl, fun hl => absurd hl (by simp [DataPlane.initial])⟩

/-! ### Rejections in a row -/

theorem Paced.of_append {newer older : List PaceEvent} (h : Paced (newer ++ older)) :
    Paced older := by
  induction newer with
  | nil => exact h
  | cons e newer ih =>
    cases e with
    | rejected node began ended => exact ih h.2.2
    | admitted node => exact ih h
    | restarted => exact ih h

theorem rejections_append {block older : List PaceEvent}
    (hblock : ∀ e ∈ block, e.isRejected = true) :
    rejections (block ++ older) = rejections older + block.length := by
  rw [rejections, List.takeWhile_append_of_pos hblock, List.length_append, Nat.add_comm]
  rfl

/-- What `n` rejections in a row take, after `k` others. -/
def pauses (k : ℕ) : ℕ → ℕ
  | 0 => 0
  | n + 1 => pauses k n + pause (k + n)

theorem pauses_succ (k n : ℕ) : pauses k (n + 1) = pauses k n + pause (k + n) := rfl

/-- In a history that is paced, rejections in a row take their pauses, one after the other. -/
theorem Paced.block {older : List PaceEvent} :
    ∀ {block : List PaceEvent} {node₀ : PublicKey} {began₀ ended₀ : ℕ},
      Paced (block ++ .rejected node₀ began₀ ended₀ :: older) →
      (∀ e ∈ block, e.isRejected = true) →
      ∀ node began ended tail, block ++ [.rejected node₀ began₀ ended₀] =
        .rejected node began ended :: tail →
      began₀ + pauses (rejections older) (block.length + 1) ≤ ended := by
  intro block node₀ began₀ ended₀
  induction block with
  | nil =>
    intro h _ node began ended tail heq
    simp only [List.nil_append, List.cons.injEq, PaceEvent.rejected.injEq] at heq
    obtain ⟨⟨-, -, rfl⟩, -⟩ := heq
    rw [pauses_succ]
    simpa [pauses] using h.1
  | cons e block ih =>
    intro h hblock node began ended tail heq
    obtain ⟨rfl, -⟩ := List.cons.inj heq
    have hrest : ∀ x ∈ block, x.isRejected = true :=
      fun x hx => hblock x (List.mem_cons_of_mem _ hx)
    rw [List.cons_append] at h
    obtain ⟨hslept, hover, hpaced⟩ := h
    -- the rejection right before this one is the newest of the rest
    obtain ⟨node', began', ended', tail', hhead⟩ : ∃ node' began' ended' tail',
        block ++ [PaceEvent.rejected node₀ began₀ ended₀] =
          .rejected node' began' ended' :: tail' := by
      cases block with
      | nil => exact ⟨_, _, _, [], rfl⟩
      | cons x block =>
        cases x with
        | rejected n b e => exact ⟨n, b, e, _, rfl⟩
        | _ => exact absurd (hrest _ List.mem_cons_self) (by simp [PaceEvent.isRejected])
    have hbefore := ih hpaced hrest node' began' ended' tail' hhead
    have hended : ended' ≤ began := by
      refine hover (.rejected node' began' ended') ?_
      have hmem : PaceEvent.rejected node' began' ended' ∈
          block ++ [PaceEvent.rejected node₀ began₀ ended₀] := by
        rw [hhead]
        exact List.mem_cons_self
      rw [show block ++ PaceEvent.rejected node₀ began₀ ended₀ :: older =
        (block ++ [PaceEvent.rejected node₀ began₀ ended₀]) ++ older by simp]
      exact List.mem_append_left _ hmem
    have hcount : rejections (block ++ .rejected node₀ began₀ ended₀ :: older) =
        rejections older + (block.length + 1) := by
      rw [rejections_append hrest]
      show rejections ([PaceEvent.rejected node₀ began₀ ended₀] ++ older) + _ = _
      rw [rejections_append (by simp [PaceEvent.isRejected])]
      simp only [List.length_singleton]
      omega
    rw [hcount] at hslept
    rw [List.length_cons, pauses_succ]
    omega

/-- **Unknown nodes are turned away no faster than the schedule.**  In every run, whatever
    connections come and go and whatever the admin does: of rejections in a row, from one that began
    at `began₀` up to one that ended at `ended`, each has slept for its delay (500 ms doubled by each
    rejection since the last admission or restart, up to 8 s), and one after the other. -/
theorem rejects_paced (T : Toml PersistedState Text) {s : PacedPlane Text}
    (h : Reach (PacedPlane.system T) anyStep s) {newer block older : List PaceEvent}
    {node₀ node : PublicKey} {began₀ ended₀ began ended : ℕ} {tail : List PaceEvent}
    (hhistory : s.history = newer ++ (block ++ .rejected node₀ began₀ ended₀ :: older))
    (hblock : ∀ e ∈ block, e.isRejected = true)
    (hnewest : block ++ [.rejected node₀ began₀ ended₀] = .rejected node began ended :: tail) :
    began₀ + pauses (rejections older) (block.length + 1) ≤ ended := by
  have hpaced := (paceInv h).paced
  rw [hhistory] at hpaced
  exact hpaced.of_append.block hblock node began ended tail hnewest

/-- Two unknown nodes at once: the second waits for the first, and sleeps twice as long. -/
def twoUnknown (a b : PublicKey) : List (PacedAct PersistedState) :=
  [.plane (.incoming a), .plane (.incoming b), .plane (.accept 0), .plane (.accept 1),
   .plane (.accept 0), .tick 500, .plane (.accept 0), .plane (.accept 1), .tick 1000,
   .plane (.accept 1)]

theorem rejects_paced_two : ∃ s, ∃ a b : PublicKey,
    Reach (PacedPlane.system (.self PersistedState)) anyStep s ∧
      s.history = [.rejected b 500 1500, .rejected a 0 500] ∧ 0 + pauses 0 2 ≤ 1500 := by
  have hrun : (exec (PacedPlane.system (.self PersistedState)) (fun _ _ => true)
      ⟨DataPlane.initial, 0, 0, []⟩
      (twoUnknown ⟨List.replicate 32 1, rfl⟩ ⟨List.replicate 32 2, rfl⟩)).map PacedPlane.history =
        some [.rejected ⟨List.replicate 32 2, rfl⟩ 500 1500,
          .rejected ⟨List.replicate 32 1, rfl⟩ 0 500] := by
    decide +kernel
  obtain ⟨s, hr, hhistory⟩ := reach_of_exec_map (C := anyStep) (fun _ _ _ => trivial) hrun
    (.init rfl)
  have hsplit : s.history = [] ++ ([.rejected ⟨List.replicate 32 2, rfl⟩ 500 1500] ++
      .rejected ⟨List.replicate 32 1, rfl⟩ 0 500 :: []) := hhistory
  exact ⟨s, _, _, hr, hhistory,
    rejects_paced (.self PersistedState) hr hsplit (by simp [PaceEvent.isRejected]) rfl⟩

end Tmite.Daemon
