import Tmite.Client.Session
import Tmite.Proto.FrameCodec
import Mathlib.Data.Finset.Card
import Mathlib.Data.Finset.Option

namespace Tmite.Client

open Tmite.Core Tmite.Proto Transition TaskList

/-!
# Whose connection `invalidate` drops

When a connection dies, every task that works with it reacts on its own, and late.
`invalidate` does not say which connection failed, so a task that is behind drops the
connection another task has dialed meanwhile, and makes one dial more.  `RedialsAlone` says
when that cannot happen: whoever finds the cache empty and dials is the only one left.
-/

variable {toVec : DataFrame → List UInt8}

/-! ### The callers, and the condition -/

/-- `invalidate` is called after the caller's connection was lost. -/
def AfterLoss (s : Connect) : ConnectAct → Prop
  | .task i _ => ∀ t c msg, s.tasks[i]? = some t → t.pc = .invalidate c msg → c ∈ s.lost
  | _ => True

/-- A task that finds the cache empty, and so dials, does so when no task works with an earlier
    connection any more. -/
def RedialsAlone (s : Connect) : ConnectAct → Prop
  | .task i _ => ∀ t, s.tasks[i]? = some t → t.pc = .get → s.session.conn = none →
      ∀ t' ∈ s.tasks, t'.pc.worksWith = none
  | _ => True

/-- The connection whose failure it is about to report. -/
def TaskPc.failed : TaskPc → Option ℕ
  | .invalidate c _ => some c
  | _ => none

theorem TaskPc.failed_eq_some (pc : TaskPc) (c : ℕ) :
    pc.failed = some c ↔ ∃ msg, pc = .invalidate c msg := by
  cases pc <;> simp [TaskPc.failed]

instance (s : Connect) (a : ConnectAct) : Decidable (AfterLoss s a) :=
  match a with
  | .task i _ =>
    decidable_of_iff (∀ t ∈ s.tasks[i]?, ∀ c ∈ t.pc.failed, c ∈ s.lost)
      ⟨fun h t c msg ht hpc => h t ht c ((TaskPc.failed_eq_some t.pc c).mpr ⟨msg, hpc⟩),
        fun h t ht c hc =>
          let ⟨msg, hpc⟩ := (TaskPc.failed_eq_some t.pc c).mp hc
          h t c msg ht hpc⟩
  | .tick _ | .spawn _ | .lose _ => inferInstanceAs (Decidable True)

instance (s : Connect) (a : ConnectAct) : Decidable (RedialsAlone s a) :=
  match a with
  | .task i _ =>
    inferInstanceAs (Decidable (∀ t ∈ s.tasks[i]?, t.pc = .get → s.session.conn = none →
      ∀ t' ∈ s.tasks, t'.pc.worksWith = none))
  | .tick _ | .spawn _ | .lose _ => inferInstanceAs (Decidable True)

/-! ### The invariant -/

/-- Nobody works with a connection while one is dialed; what a task works with is cached, unless
    the cache is empty; a connection that lives is cached; and `invalidate` has removed only what
    its caller saw fail. -/
structure RaceInv (s : Connect) : Prop where
  alone : s.session.locked = true → ∀ t ∈ s.tasks, t.pc.worksWith = none
  works : ∀ t ∈ s.tasks, ∀ c, t.pc.worksWith = some c →
    s.session.conn = none ∨ s.session.conn = some c
  live : ∀ c < s.established, c ∉ s.lost → s.session.conn = some c
  removals : ∀ r ∈ s.removals, r.found = none ∨ r.found = some r.failed

theorem raceInv_start (clock : ℕ) : RaceInv (Connect.start clock) :=
  ⟨by simp [Connect.start], by simp [Connect.start], by simp [Connect.start],
    by simp [Connect.start]⟩

theorem RaceInv.spawn {s : Connect} (h : RaceInv s) (kind : TaskKind) :
    RaceInv { s with tasks := s.tasks ++ [⟨kind, 0, kind.first⟩] } := by
  have hmem : ∀ t ∈ s.tasks ++ [⟨kind, 0, kind.first⟩], t ∈ s.tasks ∨ t.pc.worksWith = none := by
    intro t ht
    refine (List.mem_append.mp ht).imp id (fun hlast => ?_)
    rw [List.mem_singleton.mp hlast]
    cases kind <;> rfl
  refine ⟨fun hlocked t ht => ?_, fun t ht c hc => ?_, h.live, h.removals⟩
  · exact (hmem t ht).elim (h.alone hlocked t) id
  · rcases hmem t ht with hold | hnone
    · exact h.works t hold c hc
    · rw [hnone] at hc
      exact absurd hc (by simp)

theorem RaceInv.lose {s : Connect} (h : RaceInv s) (c : ℕ) :
    RaceInv { s with lost := c :: s.lost } :=
  ⟨h.alone, h.works,
    fun c' hc' hnot => h.live c' hc' (fun hmem => hnot (List.mem_cons_of_mem c hmem)),
    h.removals⟩

section Task

variable {s : Connect} {i : ℕ} {t t' : Task} {lines : List UiLine}

/-- A move that leaves the session alone. -/
theorem RaceInv.quiet (h : RaceInv s)
    (hworks : ∀ c, t'.pc.worksWith = some c → s.session.locked = false ∧
      (s.session.conn = none ∨ s.session.conn = some c)) :
    RaceInv { s with tasks := s.tasks.set i t', said := s.said ++ lines } := by
  refine ⟨fun hlocked x hx => ?_, fun x hx c hc => ?_, h.live, h.removals⟩
  · rcases List.mem_or_eq_of_mem_set hx with hold | rfl
    · exact h.alone hlocked x hold
    · cases hw : x.pc.worksWith with
      | none => rfl
      | some c =>
        have hfree : s.session.locked = false := (hworks c hw).1
        have hlocked : s.session.locked = true := hlocked
        rw [hlocked] at hfree
        exact absurd hfree (by simp)
  · rcases List.mem_or_eq_of_mem_set hx with hold | rfl
    · exact h.works x hold c hc
    · exact (hworks c hc).2

/-- `get` finds the cache empty: by the condition nobody else has a connection to give up. -/
theorem RaceInv.startDial (h : RaceInv s) (hpc' : t'.pc = .dial)
    (halone : ∀ x ∈ s.tasks, x.pc.worksWith = none) :
    RaceInv (Connect.perform { s with tasks := s.tasks.set i t', said := s.said ++ lines }
      .startDial) := by
  have hnone : ∀ x ∈ s.tasks.set i t', x.pc.worksWith = none := by
    intro x hx
    rcases List.mem_or_eq_of_mem_set hx with hold | rfl
    · exact halone x hold
    · rw [hpc']
      rfl
  refine ⟨fun _ => hnone, fun x hx c hc => ?_, h.live, h.removals⟩
  rw [hnone x hx] at hc
  exact absurd hc (by simp)

/-- A dial gives a connection: the cache was empty, so all earlier ones are lost, and only the
    task that dialed has the new one. -/
theorem RaceInv.establish (h : RaceInv s) (hlocked : s.session.locked = true)
    (hconn : s.session.conn = none) (hpc' : t'.pc = t.kind.use s.established) :
    RaceInv (Connect.perform { s with tasks := s.tasks.set i t', said := s.said ++ lines }
      .establish) := by
  refine ⟨fun habs => absurd habs (by simp [Connect.perform, Session.establish]),
    fun x hx c hc => ?_, fun c hc hnot => ?_, h.removals⟩
  · rcases List.mem_or_eq_of_mem_set hx with hold | rfl
    · rw [h.alone hlocked x hold] at hc
      exact absurd hc (by simp)
    · rw [hpc'] at hc
      rcases t.kind.worksWith_use s.established with huse | huse
      · rw [huse] at hc
        exact .inr hc
      · rw [huse] at hc
        exact absurd hc (by simp)
  · -- an earlier connection that lived would have been cached
    show some s.established = some c
    have hc : c < s.established + 1 := hc
    by_cases hlast : c = s.established
    · rw [hlast]
    · have hold := h.live c (by omega) hnot
      rw [hconn] at hold
      exact absurd hold (by simp)

/-- `invalidate`: the cache holds the caller's connection, which is lost, or nothing. -/
theorem RaceInv.dropConn (h : RaceInv s) (ht : t ∈ s.tasks) {c : ℕ} {msg : String}
    (hpc : t.pc = .invalidate c msg) (hlocked : s.session.locked = false)
    (hloss : c ∈ s.lost) :
    RaceInv (Connect.perform { s with tasks := s.tasks.set i t', said := s.said ++ lines }
      (.dropConn c)) := by
  have hfound := h.works t ht c (by rw [hpc]; rfl)
  refine ⟨fun habs => ?_, fun _ _ _ _ => .inl rfl, fun c' hc' hnot => ?_, fun r hr => ?_⟩
  · have habs : s.session.locked = true := habs
    rw [hlocked] at habs
    exact absurd habs (by simp)
  · -- the connection that was cached is not a live one
    have hcached := h.live c' hc' hnot
    rcases hfound with hnone | hsome
    · rw [hnone] at hcached
      exact absurd hcached (by simp)
    · rw [hsome] at hcached
      rw [← Option.some.inj hcached] at hnot
      exact absurd hloss hnot
  · rcases List.mem_append.mp hr with hold | hnew
    · exact h.removals r hold
    · rw [List.mem_singleton.mp hnew]
      exact hfound

theorem RaceInv.task {s' : Connect} {ev : TaskEvent} (h : RaceInv s) (hlock : LockInv s)
    (hloss : AfterLoss s (.task i ev)) (halone : RedialsAlone s (.task i ev))
    (hn : s.next toVec (.task i ev) = some s') : RaceInv s' := by
  obtain ⟨t, t', eff, lines, ht, -, hmove, rfl⟩ := next_task hn
  have hmem := List.mem_of_getElem? ht
  -- a move to a position without a connection leaves nothing to show of the moved task
  have hleave : t'.pc.worksWith = none →
      RaceInv { s with tasks := s.tasks.set i t', said := s.said ++ lines } := by
    intro hnone
    refine h.quiet (fun c hc => ?_)
    rw [hnone] at hc
    exact absurd hc (by simp)
  generalize hpc : t.pc = pc at hmove
  generalize hpc' : t'.pc = pc' at hmove
  cases hmove with
  | cached c hlocked hconn =>
    refine h.quiet (fun c' hc' => ?_)
    rw [hpc'] at hc'
    rcases t.kind.worksWith_use c with huse | huse
    · rw [huse] at hc'
      exact ⟨hlocked, .inr (hconn.trans hc')⟩
    · rw [huse] at hc'
      exact absurd hc' (by simp)
  | startDial hlocked hconn => exact h.startDial hpc' (halone t ht hpc hconn)
  | dialed => exact hleave (by rw [hpc']; rfl)
  | dialFailed hdial hdial' hworks =>
    have hquiet := hleave (by rw [hpc']; exact hworks)
    exact ⟨fun habs => absurd habs (by simp [Connect.perform, Session.dialFailed]),
      hquiet.works, hquiet.live, hquiet.removals⟩
  | established =>
    have hlocked := hlock.holder.held_of_holds ht (by rw [hpc]; rfl)
    exact h.establish hlocked (hlock.empty hlocked) hpc'
  | works c hworks hworks' =>
    refine h.quiet (fun c' hc' => ?_)
    rw [hpc', hworks'] at hc'
    have hc : t.pc.worksWith = some c' := by rw [hpc, hworks, hc']
    refine ⟨?_, h.works t hmem c' hc⟩
    -- nobody dials while this task works
    by_contra hlocked
    have hnone := h.alone (by simpa using hlocked) t hmem
    rw [hc] at hnone
    exact absurd hnone (by simp)
  | leaves hdial hdial' hworks => exact hleave (by rw [hpc']; exact hworks)
  | dropConn c msg hlocked => exact h.dropConn hmem hpc hlocked (hloss t c msg ht hpc)
  | reconnecting msg hdial hworks =>
    have hquiet := hleave (by rw [hpc']; exact hworks)
    exact ⟨hquiet.alone, hquiet.works, hquiet.live, hquiet.removals⟩

end Task

theorem raceInv {s : Connect}
    (h : Reach (Connect.system toVec) (fun s a => AfterLoss s a ∧ RedialsAlone s a) s) :
    RaceInv s := by
  refine h.invariant ?_ (fun s a s' hr hi hC hn => ?_)
  · rintro s ⟨clock, rfl⟩
    exact raceInv_start clock
  · have hn : s.next toVec a = some s' := hn
    cases a with
    | tick ms => cases hn; exact ⟨hi.alone, hi.works, hi.live, hi.removals⟩
    | spawn kind => cases hn; exact hi.spawn kind
    | lose c =>
      simp only [Connect.next] at hn
      split at hn
      · cases hn; exact hi.lose c
      · exact absurd hn (by simp)
    | task i ev => exact hi.task (lockInv hr) hC.1 hC.2 hn

/-! ### Counting -/

/-- All connections but the cached one are lost, so they are no more than those and one. -/
theorem RaceInv.established_le {s : Connect} (h : RaceInv s) :
    s.established ≤ s.lost.length + if s.session.conn = none then 0 else 1 := by
  have hsub : Finset.range s.established ⊆ s.lost.toFinset ∪ s.session.conn.toFinset := by
    intro c hc
    rw [Finset.mem_union, List.mem_toFinset, Option.mem_toFinset]
    by_cases hlost : c ∈ s.lost
    · exact .inl hlost
    · exact .inr (h.live c (Finset.mem_range.mp hc) hlost)
  have hconn : s.session.conn.toFinset.card = if s.session.conn = none then 0 else 1 := by
    cases s.session.conn <;> rfl
  calc s.established = (Finset.range s.established).card := (Finset.card_range _).symm
    _ ≤ (s.lost.toFinset ∪ s.session.conn.toFinset).card := Finset.card_le_card hsub
    _ ≤ s.lost.toFinset.card + s.session.conn.toFinset.card := Finset.card_union_le _ _
    _ ≤ s.lost.length + if s.session.conn = none then 0 else 1 := by
      rw [hconn]
      exact Nat.add_le_add_right (List.toFinset_card_le _) _

/-- **Own failures only.** In every run of any number of `handle_local` tasks and path watches in
    which `invalidate` is called after the caller's connection was lost, and a task dials only
    when no other still works with an earlier connection: every `invalidate` has removed the
    connection its caller saw fail, or found nothing; and the dials, less those that gave no
    connection, are one and at most one more for each lost connection. -/
theorem invalidate_own (toVec : DataFrame → List UInt8) {s : Connect}
    (h : Reach (Connect.system toVec) (fun s a => AfterLoss s a ∧ RedialsAlone s a) s) :
    (∀ r ∈ s.removals, r.found = none ∨ r.found = some r.failed) ∧
      s.dials ≤ 1 + s.lost.length + s.failed := by
  have hinv := raceInv h
  have hlock := lockInv h
  refine ⟨hinv.removals, ?_⟩
  have hle := hinv.established_le
  have hdials := hlock.dials
  -- during a dial nothing is cached, so the dial under way takes the place of the cached one
  by_cases hlocked : s.session.locked = true
  · rw [hlock.empty hlocked, if_pos rfl] at hle
    rw [if_pos hlocked] at hdials
    omega
  · rw [if_neg hlocked] at hdials
    split at hle <;> omega

/-! ### Two tasks and one lost connection -/

/-- `send_hello` is answered with `OK`. -/
def helloOk : TaskEvent := .hello ⟨.ok (), .ok (), .ok (typeOk, .ok)⟩

/-- Task `i` gets the connection it dials. -/
def dialConn (i : ℕ) : List ConnectAct :=
  [.task i .go, .task i (.dialed (.ok ())), .task i helloOk]

/-- Task `i`, a `handle_local`, finds its connection dead and gives it up, up to its next `get`. -/
def giveUp (i : ℕ) : List ConnectAct :=
  [.task i (.opened (.error "connection lost")), .task i .go, .task i .go]

/-- Two `handle_local` tasks on the first connection, which dies. -/
def lostRun : List ConnectAct :=
  [.spawn (.handleLocal "db:5432"), .spawn (.handleLocal "web:80")] ++ dialConn 0 ++
    [.task 1 .go, .lose 0]

/-- Both give the connection up before one dials again and the other uses what it dialed. -/
theorem invalidate_own_both : ∃ s,
    Reach (Connect.system DataFrame.json) (fun s a => AfterLoss s a ∧ RedialsAlone s a) s ∧
      s.removals = [⟨0, some 0⟩, ⟨0, none⟩] ∧ s.dials = 2 ∧ s.lost = [0] ∧
      s.dials ≤ 1 + s.lost.length + s.failed := by
  have hrun : (exec (Connect.system DataFrame.json)
      (fun s a => decide (AfterLoss s a ∧ RedialsAlone s a)) (.start 0)
      (lostRun ++ giveUp 0 ++ giveUp 1 ++ dialConn 0 ++ [.task 1 .go])).map
        (fun s => (s.removals, s.dials, s.lost)) =
      some ([⟨0, some 0⟩, ⟨0, none⟩], 2, [0]) := by
    decide +kernel
  obtain ⟨s, hr, hs⟩ := reach_of_exec_map
    (fun _ _ => of_decide_eq_true) hrun
    (.init ⟨0, rfl⟩)
  simp only [Prod.mk.injEq] at hs
  obtain ⟨hremovals, hdials, hlost⟩ := hs
  exact ⟨s, hr, hremovals, hdials, hlost, (invalidate_own DataFrame.json hr).2⟩

/-- One gives the connection up and dials again; then the other, which is behind, gives up what
    it thinks is the first connection and dials a third, though only one was lost. -/
theorem newer_conn_dropped : ∃ s,
    Reach (Connect.system DataFrame.json) AfterLoss s ∧ ⟨0, some 1⟩ ∈ s.removals ∧
      s.lost = [0] ∧ s.dials = 3 ∧ s.failed = 0 := by
  have hrun : (exec (Connect.system DataFrame.json) (fun s a => decide (AfterLoss s a)) (.start 0)
      (lostRun ++ giveUp 0 ++ dialConn 0 ++ giveUp 1 ++ dialConn 1)).map
        (fun s => (s.removals, s.lost, s.dials, s.failed)) =
      some ([⟨0, some 0⟩, ⟨0, some 1⟩], [0], 3, 0) := by
    decide +kernel
  obtain ⟨s, hr, hs⟩ := reach_of_exec_map (fun _ _ => of_decide_eq_true) hrun (.init ⟨0, rfl⟩)
  simp only [Prod.mk.injEq] at hs
  obtain ⟨hremovals, hlost, hdials, hfailed⟩ := hs
  refine ⟨s, hr, ?_, hlost, hdials, hfailed⟩
  rw [hremovals]
  simp

end Tmite.Client
