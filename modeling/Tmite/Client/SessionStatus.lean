import Tmite.Client.Session

namespace Tmite.Client

open Tmite.Proto Transition TaskList

/-!
# The watched session status (`Session::get`, `Session::invalidate`)

Any number of calls of `get` and `invalidate` on one session, down to the single accesses to what
they share: the lock, the counter and the watched status.  `get` writes the status twice while it
holds the lock; `invalidate` reads the counter and writes the status after it has let go, so a
whole `get` fits in between.

* `status_at_rest` — whenever no call is in progress, the status is right exactly if the last
  write to it was not a late one of an `invalidate`; so it is right in every run without late
  writes.
* `late_reconnecting` — a run with one.

`dials` and `late` are history variables: what became of the dials, and whether the last write to
the status was late.
-/

/-! ### The session between two accesses -/

namespace Session

/-- `get` with the lock and an empty cache: the dial is counted. -/
def countDial (s : Session) : Session :=
  { s with
    locked := true
    redials := if s.wasEstablished then s.redials + 1 else s.redials }

/-- The write of `set_state`, after it has read `redials`. -/
def sendStatus (s : Session) (state : SessionState) (redials : ℕ) : Session :=
  { s with status := ⟨state, redials⟩ }

/-- `get` after its hello: `was_established` and the status. -/
def announce (s : Session) : Session :=
  { s with wasEstablished := true }.sendStatus .established s.redials

/-- `get` returns: the connection is cached and the lock free. -/
def cache (s : Session) (c : ℕ) : Session := { s with conn := some c, locked := false }

/-- Counting a dial and saying so is the step up to the dial. -/
theorem startDial_eq (s : Session) :
    s.startDial = s.countDial.sendStatus .dialing s.countDial.redials := rfl

/-- Saying that the session is established and caching the connection is the step after the
    hello. -/
theorem establish_eq (s : Session) (c : ℕ) : s.establish c = s.announce.cache c := rfl

end Session

/-! ### Calls -/

/-- Where a call stands. -/
inductive CallPc
  /-- In `get`, before it has the lock. -/
  | get
  /-- In `get`, with the lock: the dial is counted, the status not written yet. -/
  | counted
  | dial
  | hello (c : ℕ)
  /-- In `get`, with the lock: the status says established, nothing is cached yet. -/
  | announced (c : ℕ)
  /-- In `invalidate`, before it has the lock. -/
  | invalidate
  /-- In `invalidate`, without the lock again: before `redials` is read, and before the status is
      written. -/
  | dropped
  | loaded (redials : ℕ)
  | done
deriving DecidableEq

namespace CallPc

/-- The call holds the lock. -/
def holds : CallPc → Bool
  | counted | dial | hello _ | announced _ => true
  | _ => false

/-- Before the write of `Dialing`. -/
def isCounted : CallPc → Bool
  | counted => true
  | _ => false

/-- Between the write of `Established` and the caching. -/
def isAnnounced : CallPc → Bool
  | announced _ => true
  | _ => false

/-- Between the emptying of the cache and the write of `Reconnecting`. -/
def isPending : CallPc → Bool
  | dropped | loaded _ => true
  | _ => false

end CallPc

/-- What is noted about a dial. -/
inductive DialNote
  | started
  | succeeded
deriving DecidableEq

/-- The dials started after the first successful one. -/
def redialsIn (dials : List DialNote) : ℕ :=
  (dials.dropWhile (fun d => d != .succeeded)).count .started

/-- The session and the calls on it. -/
structure Calls where
  session : Session
  calls : List CallPc
  dials : List DialNote
  late : Bool
deriving DecidableEq

/-- What a call meets at its next access. -/
inductive CallEvent
  /-- The lock is taken. -/
  | lock
  /-- `Dialing` is written. -/
  | sendDialing
  /-- `connect` under its timeout returns. -/
  | dialed (r : Except SessionError ℕ)
  /-- `send_hello` returns; if it went through, `Established` is written. -/
  | greeted (io : HelloIo)
  | cache
  /-- `redials` is read. -/
  | load
  /-- `Reconnecting` is written. -/
  | sendReconnecting (now : ℕ)

inductive CallAct
  | get
  | invalidate
  | call (i : ℕ) (ev : CallEvent)

namespace Calls

/-- A call in position `p`. -/
def has (s : Calls) (p : CallPc → Bool) : Prop := ∃ c ∈ s.calls, p c = true

instance (s : Calls) (p : CallPc → Bool) : Decidable (s.has p) :=
  inferInstanceAs (Decidable (∃ c ∈ s.calls, p c = true))

/-- An `invalidate` that has read `redials` writes the status too late: a connection is cached
    again or about to be, or another dial has been counted. -/
def isLate (s : Calls) (redials : ℕ) : Bool :=
  decide (s.session.conn.isSome = true ∨ s.has CallPc.isAnnounced ∨ redials ≠ s.session.redials)

/-- The next access of a call at `pc`: where it goes, and what it does to the rest. -/
def callNext (s : Calls) : CallPc → CallEvent → Option (CallPc × Calls)
  | .get, .lock =>
    if s.session.locked then none
    else
      match s.session.conn with
      | some _ => some (.done, s)
      | none =>
        some (.counted, { s with
          session := s.session.countDial
          dials := s.dials ++ [.started] })
  | .counted, .sendDialing =>
    some (.dial, { s with
      session := s.session.sendStatus .dialing s.session.redials
      late := false })
  | .dial, .dialed (.ok c) => some (.hello c, s)
  | .dial, .dialed (.error _) => some (.done, { s with session := s.session.dialFailed })
  | .hello c, .greeted io =>
    match sendHello io with
    | .ok () =>
      some (.announced c, { s with
        session := s.session.announce
        dials := s.dials ++ [.succeeded]
        late := false })
    | .error _ => some (.done, { s with session := s.session.dialFailed })
  | .announced c, .cache => some (.done, { s with session := s.session.cache c })
  | .invalidate, .lock =>
    if s.session.locked then none
    else some (.dropped, { s with session := s.session.dropConn })
  | .dropped, .load => some (.loaded s.session.redials, s)
  | .loaded redials, .sendReconnecting now =>
    some (.done, { s with
      session := s.session.sendStatus (.reconnecting now) redials
      late := s.isLate redials })
  | _, _ => none

/-- A step, where it is enabled. -/
def next (s : Calls) : CallAct → Option Calls
  | .get => some { s with calls := s.calls ++ [.get] }
  | .invalidate => some { s with calls := s.calls ++ [.invalidate] }
  | .call i ev =>
    s.calls[i]?.bind fun pc => (s.callNext pc ev).map fun (pc', s') =>
      { s' with calls := s.calls.set i pc' }

/-- A new session, and no call yet. -/
def initial : Calls := ⟨.new, [], [], false⟩

/-- The calls on a session as a transition system. -/
def system : System Calls CallAct := ⟨fun s => s = initial, next⟩

/-- No call is in progress. -/
def AtRest (s : Calls) : Prop := ∀ c ∈ s.calls, c = .done

/-- The status says whether a connection is cached, and how often the server has been dialled
    again. -/
def Truthful (s : Calls) : Prop :=
  (s.session.status.state = .established ↔ s.session.conn.isSome = true) ∧
    s.session.status.redials = redialsIn s.dials

instance (s : Calls) : Decidable s.AtRest := inferInstanceAs (Decidable (∀ c ∈ s.calls, c = .done))

instance (s : Calls) : Decidable s.Truthful := inferInstanceAs (Decidable (_ ∧ _))

/-! ### Moves -/

/-- What a call can do, with the events left out. -/
inductive Move (s : Calls) : CallPc → CallPc → Calls → Prop
  | cached (c : ℕ) : s.session.locked = false → s.session.conn = some c → Move s .get .done s
  | countDial : s.session.locked = false → s.session.conn = none →
      Move s .get .counted { s with
        session := s.session.countDial
        dials := s.dials ++ [.started] }
  | sendDialing : Move s .counted .dial { s with
      session := s.session.sendStatus .dialing s.session.redials
      late := false }
  | dialed (c : ℕ) : Move s .dial (.hello c) s
  | failed {pc : CallPc} : pc.holds = true → pc.isCounted = false → pc.isAnnounced = false →
      Move s pc .done { s with session := s.session.dialFailed }
  | announce (c : ℕ) : Move s (.hello c) (.announced c) { s with
      session := s.session.announce
      dials := s.dials ++ [.succeeded]
      late := false }
  | cache (c : ℕ) : Move s (.announced c) .done { s with session := s.session.cache c }
  | dropConn : s.session.locked = false →
      Move s .invalidate .dropped { s with session := s.session.dropConn }
  | load : Move s .dropped (.loaded s.session.redials) s
  | sendReconnecting (redials now : ℕ) : Move s (.loaded redials) .done { s with
      session := s.session.sendStatus (.reconnecting now) redials
      late := s.isLate redials }

/-- Every step of a call is one of the moves. -/
theorem callNext_move {s s' : Calls} {pc pc' : CallPc} {ev : CallEvent}
    (h : s.callNext pc ev = some (pc', s')) : s.Move pc pc' s' := by
  unfold callNext at h
  split at h
  · split at h
    · exact absurd h (by simp)
    · rename_i hfree
      split at h
      · rename_i c hconn
        cases h
        exact .cached c (by simpa using hfree) hconn
      · rename_i hconn
        cases h
        exact .countDial (by simpa using hfree) hconn
  · cases h
    exact .sendDialing
  · cases h
    exact .dialed _
  · cases h
    exact .failed rfl rfl rfl
  · split at h
    · cases h
      exact .announce _
    · cases h
      exact .failed rfl rfl rfl
  · cases h
    exact .cache _
  · split at h
    · exact absurd h (by simp)
    · rename_i hfree
      cases h
      exact .dropConn (by simpa using hfree)
  · cases h
    exact .load
  · cases h
    exact .sendReconnecting _ _
  · exact absurd h (by simp)

/-- What an `invalidate` does last. -/
theorem callNext_loaded {s s' : Calls} {redials : ℕ} {pc' : CallPc} {ev : CallEvent}
    (h : s.callNext (.loaded redials) ev = some (pc', s')) : ∃ now, ev = .sendReconnecting now := by
  cases ev with
  | sendReconnecting now => exact ⟨now, rfl⟩
  | _ => exact absurd h (by simp [callNext])

/-- A step of call `i`, taken apart. -/
theorem next_call {s s' : Calls} {i : ℕ} {ev : CallEvent} (h : s.next (.call i ev) = some s') :
    ∃ pc pc' s₁, s.calls[i]? = some pc ∧ s.callNext pc ev = some (pc', s₁) ∧
      s' = { s₁ with calls := s.calls.set i pc' } := by
  obtain ⟨pc, hpc, h⟩ := Option.bind_eq_some_iff.mp h
  obtain ⟨⟨pc', s₁⟩, hstep, rfl⟩ := Option.map_eq_some_iff.mp h
  exact ⟨pc, pc', s₁, hpc, hstep, rfl⟩

/-- A call in position `p`, other than call `i`. -/
def others (s : Calls) (i : ℕ) (p : CallPc → Bool) : Prop :=
  ∃ j c, i ≠ j ∧ s.calls[j]? = some c ∧ p c = true

theorem has_iff {s : Calls} {i : ℕ} {pc : CallPc} (h : s.calls[i]? = some pc)
    (p : CallPc → Bool) : s.has p ↔ p pc = true ∨ s.others i p :=
  exists_mem_split h

/-- The others are where they were when call `i` has moved. -/
theorem has_set {s s' : Calls} {i : ℕ} {pc pc' : CallPc} (h : s.calls[i]? = some pc)
    (hset : s'.calls = s.calls.set i pc') (p : CallPc → Bool) :
    s'.has p ↔ p pc' = true ∨ s.others i p := by
  unfold has
  rw [hset]
  exact exists_mem_set h

/-- Another call stays in its position when a call that is not in it moves. -/
theorem has_of_has {s s' : Calls} {i : ℕ} {pc pc' : CallPc} (hpc : s.calls[i]? = some pc)
    (hset : s'.calls = s.calls.set i pc') {p : CallPc → Bool} (hp : p pc = false)
    (h : s.has p) : s'.has p := by
  refine (has_set hpc hset p).mpr (.inr ?_)
  rcases (has_iff hpc p).mp h with habs | hothers
  · rw [hp] at habs
    exact absurd habs (by simp)
  · exact hothers

/-- A new call stands before the lock. -/
theorem has_concat {s : Calls} {pc : CallPc} {p : CallPc → Bool} (h : p pc = false) :
    ({ s with calls := s.calls ++ [pc] } : Calls).has p ↔ s.has p := by
  constructor
  · rintro ⟨c, hc, hp⟩
    rcases List.mem_append.mp hc with hc | hc
    · exact ⟨c, hc, hp⟩
    · rw [List.mem_singleton.mp hc, h] at hp
      exact absurd hp (by simp)
  · rintro ⟨c, hc, hp⟩
    exact ⟨c, List.mem_append_left _ hc, hp⟩

/-! ### The lock -/

/-- The lock is held by one call at most, and nothing is cached while it is. -/
structure LockInv (s : Calls) : Prop where
  holder : OneHolder CallPc.holds s.calls s.session.locked
  empty : s.session.locked = true → s.session.conn = none

namespace LockInv

variable {s : Calls} {i : ℕ} {pc : CallPc}

theorem locked (h : s.LockInv) (hpc : s.calls[i]? = some pc) (hholds : pc.holds = true) :
    s.session.locked = true :=
  h.holder.held_of_holds hpc hholds

/-- While call `i` holds the lock, no other call does. -/
theorem not_others (h : s.LockInv) (hpc : s.calls[i]? = some pc) (hholds : pc.holds = true)
    {p : CallPc → Bool} (hp : ∀ c, p c = true → c.holds = true) : ¬ s.others i p := by
  rintro ⟨j, c, hij, hc, hpcj⟩
  exact hij (h.holder.unique hpc hc hholds (hp c hpcj))

/-- While the lock is free, no call holds it. -/
theorem not_has (h : s.LockInv) (hfree : s.session.locked = false) {p : CallPc → Bool}
    (hp : ∀ c, p c = true → c.holds = true) : ¬ s.has p := by
  rintro ⟨c, hc, hpc⟩
  obtain ⟨j, hj⟩ := List.mem_iff_getElem?.mp hc
  have hlocked := h.locked hj (hp c hpc)
  rw [hfree] at hlocked
  exact absurd hlocked (by simp)

section Move

variable {s₁ : Calls} {pc' : CallPc}

/-- A move that neither takes the lock nor lets go of it. -/
theorem keep (h : s.LockInv) (hpc : s.calls[i]? = some pc) (hholds : pc'.holds = pc.holds)
    (hlocked : s₁.session.locked = s.session.locked)
    (hempty : s₁.session.locked = true → s₁.session.conn = none) :
    LockInv { s₁ with calls := s.calls.set i pc' } := by
  refine ⟨?_, hempty⟩
  show OneHolder CallPc.holds (s.calls.set i pc') s₁.session.locked
  rw [hlocked]
  exact h.holder.keep hpc hholds

theorem acquire (h : s.LockInv) (hpc : s.calls[i]? = some pc) (hpc₀ : pc.holds = false)
    (hpc' : pc'.holds = true) (hfree : s.session.locked = false)
    (hlocked : s₁.session.locked = true) (hempty : s₁.session.conn = none) :
    LockInv { s₁ with calls := s.calls.set i pc' } := by
  have hholder := h.holder
  rw [hfree] at hholder
  refine ⟨?_, fun _ => hempty⟩
  show OneHolder CallPc.holds (s.calls.set i pc') s₁.session.locked
  rw [hlocked]
  exact hholder.take hpc hpc₀ hpc'

theorem release (h : s.LockInv) (hpc : s.calls[i]? = some pc) (hpc₀ : pc.holds = true)
    (hpc' : pc'.holds = false) (hfree : s₁.session.locked = false) :
    LockInv { s₁ with calls := s.calls.set i pc' } := by
  refine ⟨?_, fun hlocked => absurd hlocked (by simp [hfree])⟩
  show OneHolder CallPc.holds (s.calls.set i pc') s₁.session.locked
  rw [hfree]
  exact h.holder.drop hpc hpc₀ hpc'

theorem move (h : s.LockInv) (hpc : s.calls[i]? = some pc) (hmove : s.Move pc pc' s₁) :
    LockInv { s₁ with calls := s.calls.set i pc' } := by
  cases hmove with
  | cached c hfree hconn => exact h.keep hpc rfl rfl h.empty
  | countDial hfree hconn => exact h.acquire hpc rfl rfl hfree rfl hconn
  | sendDialing => exact h.keep hpc rfl rfl h.empty
  | dialed c => exact h.keep hpc rfl rfl h.empty
  | failed hholds hcounted hannounced => exact h.release hpc hholds rfl rfl
  | announce c => exact h.keep hpc rfl rfl h.empty
  | cache c => exact h.release hpc rfl rfl rfl
  | dropConn hfree => exact h.keep hpc rfl rfl (fun _ => rfl)
  | load => exact h.keep hpc rfl rfl h.empty
  | sendReconnecting redials now => exact h.keep hpc rfl rfl h.empty

end Move

/-- A new call does not hold the lock. -/
theorem concat (h : s.LockInv) (hpc : pc.holds = false) :
    LockInv { s with calls := s.calls ++ [pc] } :=
  ⟨h.holder.concat hpc, h.empty⟩

end LockInv

/-- In every run. -/
theorem lockInv {C : Calls → CallAct → Prop} {s : Calls} (h : Reach system C s) : s.LockInv := by
  refine h.invariant ?_ (fun s a s' _ hi _ hn => ?_)
  · rintro s rfl
    exact ⟨rfl, by simp [initial, Session.new]⟩
  · cases a with
    | get =>
      cases hn
      exact hi.concat rfl
    | invalidate =>
      cases hn
      exact hi.concat rfl
    | call i ev =>
      obtain ⟨pc, pc', s₁, hpc, hstep, rfl⟩ := next_call hn
      exact hi.move hpc (callNext_move hstep)

/-! ### The counter -/

/-- A success is noted before it is counted from. -/
theorem redialsIn_started (dials : List DialNote) :
    redialsIn (dials ++ [.started]) =
      redialsIn dials + if DialNote.succeeded ∈ dials then 1 else 0 := by
  unfold redialsIn
  induction dials with
  | nil => rfl
  | cons d dials ih =>
    cases d with
    | started => simpa using ih
    | succeeded => simp

/-- Another success changes nothing. -/
theorem redialsIn_succeeded (dials : List DialNote) :
    redialsIn (dials ++ [.succeeded]) = redialsIn dials := by
  unfold redialsIn
  induction dials with
  | nil => rfl
  | cons d dials ih =>
    cases d with
    | started => simpa using ih
    | succeeded => simp

/-- The counter counts what it is for. -/
structure CountInv (s : Calls) : Prop where
  wasEstablished : s.session.wasEstablished = true ↔ DialNote.succeeded ∈ s.dials
  redials : s.session.redials = redialsIn s.dials

theorem CountInv.move {s s₁ : Calls} {pc pc' : CallPc} (h : s.CountInv)
    (hmove : s.Move pc pc' s₁) : s₁.CountInv := by
  obtain ⟨hwas, hredials⟩ := h
  cases hmove with
  | countDial hfree hconn =>
    refine ⟨?_, ?_⟩
    · show s.session.wasEstablished = true ↔ _ ∈ s.dials ++ [.started]
      simp [hwas]
    · show (if s.session.wasEstablished then _ else _) = redialsIn (s.dials ++ [.started])
      rw [redialsIn_started, ← hredials]
      by_cases hsucc : DialNote.succeeded ∈ s.dials
      · rw [if_pos (hwas.mpr hsucc), if_pos hsucc]
      · rw [if_neg (fun h => hsucc (hwas.mp h)), if_neg hsucc, Nat.add_zero]
  | announce c =>
    refine ⟨?_, ?_⟩
    · show true = true ↔ _ ∈ s.dials ++ [.succeeded]
      simp
    · show s.session.redials = redialsIn (s.dials ++ [.succeeded])
      rw [redialsIn_succeeded, hredials]
  | cached c hfree hconn => exact ⟨hwas, hredials⟩
  | sendDialing => exact ⟨hwas, hredials⟩
  | dialed c => exact ⟨hwas, hredials⟩
  | failed hholds hcounted hannounced => exact ⟨hwas, hredials⟩
  | cache c => exact ⟨hwas, hredials⟩
  | dropConn hfree => exact ⟨hwas, hredials⟩
  | load => exact ⟨hwas, hredials⟩
  | sendReconnecting redials now => exact ⟨hwas, hredials⟩

/-- In every run. -/
theorem countInv {C : Calls → CallAct → Prop} {s : Calls} (h : Reach system C s) :
    s.CountInv := by
  refine h.invariant ?_ (fun s a s' _ hi _ hn => ?_)
  · rintro s rfl
    exact ⟨by simp [initial, Session.new], rfl⟩
  · cases a with
    | get =>
      cases hn
      exact ⟨hi.wasEstablished, hi.redials⟩
    | invalidate =>
      cases hn
      exact ⟨hi.wasEstablished, hi.redials⟩
    | call i ev =>
      obtain ⟨pc, pc', s₁, hpc, hstep, rfl⟩ := next_call hn
      have hmoved := hi.move (callNext_move hstep)
      exact ⟨hmoved.wasEstablished, hmoved.redials⟩

theorem redialsIn_le (dials : List DialNote) : redialsIn dials ≤ dials.length :=
  Nat.le_trans List.count_le_length (List.dropWhile_sublist _).length_le

/-- The counter is an `AtomicU64`, and a natural number here: with fewer than 2^64 dials they are
    the same. -/
theorem redials_lt {C : Calls → CallAct → Prop} {s : Calls} (h : Reach system C s)
    (hdials : s.dials.length < UInt64.size) : s.session.redials < UInt64.size := by
  rw [(countInv h).redials]
  exact Nat.lt_of_le_of_lt (redialsIn_le s.dials) hdials

/-! ### The status -/

/-- The status is right, up to what the calls in progress are about to do. -/
structure Current (s : Calls) : Prop where
  redials : s.session.status.redials = s.session.redials
  established : s.session.conn.isSome = true ∨ s.has CallPc.isAnnounced →
    s.session.status.state = .established
  cached : s.session.status.state = .established →
    s.session.conn.isSome = true ∨ s.has CallPc.isAnnounced ∨ s.has CallPc.isPending

/-- The status is wrong, or an `invalidate` is about to write it. -/
def Stale (s : Calls) : Prop :=
  s.has CallPc.isPending ∨ s.session.status.redials ≠ s.session.redials ∨
    s.session.status.state ≠ .established ∧
      (s.session.conn.isSome = true ∨ s.has CallPc.isAnnounced)

/-- Before a dial writes the status nothing is known of it.  Otherwise it depends on the last
    write. -/
structure StatusInv (s : Calls) : Prop where
  current : ¬ s.has CallPc.isCounted → s.late = false → s.Current
  stale : ¬ s.has CallPc.isCounted → s.late = true → s.Stale

theorem holds_of_isCounted (c : CallPc) (h : c.isCounted = true) : c.holds = true := by
  cases c with
  | counted => rfl
  | _ => exact absurd h (by simp [CallPc.isCounted])

theorem holds_of_isAnnounced (c : CallPc) (h : c.isAnnounced = true) : c.holds = true := by
  cases c with
  | announced c => rfl
  | _ => exact absurd h (by simp [CallPc.isAnnounced])

namespace StatusInv

variable {s s₁ : Calls} {i : ℕ} {pc pc' : CallPc}

/-- What only these read can be exchanged. -/
theorem congr (h : s.StatusInv) (hstatus : s₁.session.status = s.session.status)
    (hredials : s₁.session.redials = s.session.redials) (hconn : s₁.session.conn = s.session.conn)
    (hlate : s₁.late = s.late) (hcounted : s₁.has CallPc.isCounted ↔ s.has CallPc.isCounted)
    (hannounced : s₁.has CallPc.isAnnounced ↔ s.has CallPc.isAnnounced)
    (hpending : s₁.has CallPc.isPending ↔ s.has CallPc.isPending) : s₁.StatusInv := by
  refine ⟨?_, ?_⟩
  · intro hno hin
    obtain ⟨hr, he, hc⟩ := h.current (fun h => hno (hcounted.mpr h)) (hlate ▸ hin)
    refine ⟨?_, ?_, ?_⟩
    · rw [hstatus, hredials, hr]
    · rw [hstatus, hconn, hannounced]
      exact he
    · rw [hstatus, hconn, hannounced, hpending]
      exact hc
  · intro hno hlate'
    have hstale := h.stale (fun h => hno (hcounted.mpr h)) (hlate ▸ hlate')
    unfold Stale
    rw [hstatus, hredials, hconn, hannounced, hpending]
    exact hstale

/-- A move that writes nothing, from and to positions that count alike. -/
theorem quiet (h : s.StatusInv) (hpc : s.calls[i]? = some pc)
    (hstatus : s₁.session.status = s.session.status)
    (hredials : s₁.session.redials = s.session.redials) (hconn : s₁.session.conn = s.session.conn)
    (hlate : s₁.late = s.late) (hcounted : pc'.isCounted = pc.isCounted)
    (hannounced : pc'.isAnnounced = pc.isAnnounced) (hpending : pc'.isPending = pc.isPending) :
    StatusInv { s₁ with calls := s.calls.set i pc' } := by
  refine h.congr hstatus hredials hconn hlate ?_ ?_ ?_
  · exact (has_set hpc rfl _).trans (by rw [hcounted, has_iff hpc])
  · exact (has_set hpc rfl _).trans (by rw [hannounced, has_iff hpc])
  · exact (has_set hpc rfl _).trans (by rw [hpending, has_iff hpc])

/-- A dial is counted: its own write is still to come. -/
theorem countDial (hpc : s.calls[i]? = some pc) (hset : s₁.calls = s.calls.set i .counted) :
    s₁.StatusInv := by
  have hcounted : s₁.has CallPc.isCounted := (has_set hpc hset CallPc.isCounted).mpr (.inl rfl)
  exact ⟨fun hno => absurd hcounted hno, fun hno => absurd hcounted hno⟩

/-- `Dialing`, while nothing is cached and nobody else is in `get` past the lock. -/
theorem sendDialing (hlock : s.LockInv) (hpc : s.calls[i]? = some .counted) :
    StatusInv { s with
      session := s.session.sendStatus .dialing s.session.redials
      calls := s.calls.set i .dial
      late := false } := by
  have hconn := hlock.empty (hlock.locked hpc rfl)
  have hannounced : ¬ s.others i CallPc.isAnnounced :=
    hlock.not_others hpc rfl holds_of_isAnnounced
  refine ⟨fun _ _ => ⟨rfl, ?_, ?_⟩, fun _ hlate => absurd hlate (by simp)⟩
  · rintro (hsome | hsome)
    · exact absurd hsome (by simp [Session.sendStatus, hconn])
    · rcases (has_set hpc rfl CallPc.isAnnounced).mp hsome with habs | habs
      · exact absurd habs (by simp [CallPc.isAnnounced])
      · exact absurd habs hannounced
  · intro hstate
    exact absurd hstate (by simp [Session.sendStatus])

/-- `Established`, right before the connection is cached. -/
theorem announce {c : ℕ} (hpc : s.calls[i]? = some (.hello c)) :
    StatusInv { s with
      session := s.session.announce
      calls := s.calls.set i (.announced c)
      dials := s.dials ++ [.succeeded]
      late := false } := by
  refine ⟨fun _ _ => ⟨rfl, fun _ => rfl, fun _ => .inr (.inl ?_)⟩,
    fun _ hlate => absurd hlate (by simp)⟩
  exact (has_set hpc rfl CallPc.isAnnounced).mpr (.inl rfl)

/-- The connection takes the place of the call that was about to cache it. -/
theorem cache {c : ℕ} (h : s.StatusInv) (hlock : s.LockInv)
    (hpc : s.calls[i]? = some (.announced c)) :
    StatusInv { s with session := s.session.cache c, calls := s.calls.set i .done } := by
  have hno : ¬ s.has CallPc.isCounted := by
    rw [has_iff hpc]
    rintro (habs | habs)
    · exact absurd habs (by simp [CallPc.isCounted])
    · exact hlock.not_others hpc rfl holds_of_isCounted habs
  have hannounced : s.has CallPc.isAnnounced := (has_iff hpc _).mpr (.inl rfl)
  refine ⟨?_, ?_⟩
  · intro _ hlate
    obtain ⟨hredials, hest, -⟩ := h.current hno hlate
    exact ⟨hredials, fun _ => hest (.inr hannounced), fun _ => .inl rfl⟩
  · intro _ hlate
    rcases h.stale hno hlate with hpending | hredials | ⟨hstate, -⟩
    · exact .inl (has_of_has hpc rfl rfl hpending)
    · exact .inr (.inl hredials)
    · exact .inr (.inr ⟨hstate, .inl rfl⟩)

/-- The cache is emptied: the call that does it has yet to write the status. -/
theorem dropConn (h : s.StatusInv) (hlock : s.LockInv) (hpc : s.calls[i]? = some .invalidate)
    (hfree : s.session.locked = false) :
    StatusInv { s with session := s.session.dropConn, calls := s.calls.set i .dropped } := by
  have hno : ¬ s.has CallPc.isCounted := hlock.not_has hfree holds_of_isCounted
  have hannounced : ¬ s.has CallPc.isAnnounced := hlock.not_has hfree holds_of_isAnnounced
  have hpending : ({ s with
      session := s.session.dropConn
      calls := s.calls.set i .dropped } : Calls).has CallPc.isPending :=
    (has_set hpc rfl CallPc.isPending).mpr (.inl rfl)
  refine ⟨?_, fun _ _ => .inl hpending⟩
  intro _ hlate
  obtain ⟨hredials, -, -⟩ := h.current hno hlate
  refine ⟨hredials, ?_, fun _ => .inr (.inr hpending)⟩
  rintro (hsome | hsome)
  · exact absurd hsome (by simp [Session.dropConn])
  · rcases (has_set hpc rfl CallPc.isAnnounced).mp hsome with habs | habs
    · exact absurd habs (by simp [CallPc.isAnnounced])
    · exact absurd ((has_iff hpc _).mpr (.inr habs)) hannounced

/-- `Reconnecting`: the write is late exactly if it makes the status wrong. -/
theorem sendReconnecting {redials : ℕ} (hpc : s.calls[i]? = some (.loaded redials)) (now : ℕ) :
    StatusInv { s with
      session := s.session.sendStatus (.reconnecting now) redials
      calls := s.calls.set i .done
      late := s.isLate redials } := by
  have hannounced : ({ s with
      session := s.session.sendStatus (.reconnecting now) redials
      calls := s.calls.set i .done
      late := s.isLate redials } : Calls).has CallPc.isAnnounced ↔
      s.has CallPc.isAnnounced := by
    refine (has_set hpc rfl CallPc.isAnnounced).trans ?_
    rw [has_iff hpc]
    rfl
  refine ⟨?_, ?_⟩
  · intro _ hlate
    have hin : ¬ (_ ∨ _ ∨ _) := of_decide_eq_false hlate
    push Not at hin
    obtain ⟨hconn, hno, hredials⟩ := hin
    refine ⟨hredials, ?_, fun hstate => absurd hstate (by simp [Session.sendStatus])⟩
    rintro (hsome | hsome)
    · exact absurd hsome hconn
    · exact absurd (hannounced.mp hsome) hno
  · intro _ hlate
    have hcases : _ ∨ _ ∨ _ := of_decide_eq_true hlate
    rcases hcases with hconn | hsome | hredials
    · exact .inr (.inr ⟨by simp [Session.sendStatus], .inl hconn⟩)
    · exact .inr (.inr ⟨by simp [Session.sendStatus], .inr (hannounced.mpr hsome)⟩)
    · exact .inr (.inl hredials)

theorem move (h : s.StatusInv) (hlock : s.LockInv) (hpc : s.calls[i]? = some pc)
    (hmove : s.Move pc pc' s₁) : StatusInv { s₁ with calls := s.calls.set i pc' } := by
  cases hmove with
  | cached c hfree hconn => exact h.quiet hpc rfl rfl rfl rfl rfl rfl rfl
  | countDial hfree hconn => exact countDial hpc rfl
  | sendDialing => exact sendDialing hlock hpc
  | dialed c => exact h.quiet hpc rfl rfl rfl rfl rfl rfl rfl
  | failed hholds hcounted hannounced =>
    have hpending : pc.isPending = false := by
      cases pc with
      | dropped => exact absurd hholds (by simp [CallPc.holds])
      | loaded redials => exact absurd hholds (by simp [CallPc.holds])
      | _ => rfl
    exact h.quiet hpc rfl rfl rfl rfl hcounted.symm hannounced.symm hpending.symm
  | announce c => exact announce hpc
  | cache c => exact h.cache hlock hpc
  | dropConn hfree => exact h.dropConn hlock hpc hfree
  | load => exact h.quiet hpc rfl rfl rfl rfl rfl rfl rfl
  | sendReconnecting redials now => exact sendReconnecting hpc now

/-- A new call has done nothing yet. -/
theorem concat (h : s.StatusInv) (hcounted : pc.isCounted = false)
    (hannounced : pc.isAnnounced = false) (hpending : pc.isPending = false) :
    StatusInv { s with calls := s.calls ++ [pc] } :=
  h.congr rfl rfl rfl rfl (has_concat hcounted) (has_concat hannounced) (has_concat hpending)

end StatusInv

/-- In every run. -/
theorem statusInv {C : Calls → CallAct → Prop} {s : Calls} (h : Reach system C s) :
    s.StatusInv := by
  refine h.invariant ?_ (fun s a s' hr hi _ hn => ?_)
  · rintro s rfl
    refine ⟨fun _ _ => ⟨rfl, ?_, ?_⟩, fun _ hlate => absurd hlate (by simp [initial])⟩
    · rintro (hsome | ⟨c, hc, -⟩)
      · exact absurd hsome (by simp [initial, Session.new])
      · exact absurd hc (by simp [initial])
    · intro hstate
      exact absurd hstate (by simp [initial, Session.new])
  · cases a with
    | get =>
      cases hn
      exact hi.concat rfl rfl rfl
    | invalidate =>
      cases hn
      exact hi.concat rfl rfl rfl
    | call i ev =>
      obtain ⟨pc, pc', s₁, hpc, hstep, rfl⟩ := next_call hn
      exact hi.move (lockInv hr) hpc (callNext_move hstep)

/-! ### At rest -/

theorem AtRest.not_has {s : Calls} (h : s.AtRest) {p : CallPc → Bool} (hp : p .done = false) :
    ¬ s.has p := by
  rintro ⟨c, hc, hpc⟩
  rw [h c hc, hp] at hpc
  exact absurd hpc (by simp)

/-- At rest the last write to the status decides. -/
theorem truthful_iff {C : Calls → CallAct → Prop} {s : Calls} (h : Reach system C s)
    (hrest : s.AtRest) : s.Truthful ↔ s.late = false := by
  have hno : ¬ s.has CallPc.isCounted := hrest.not_has rfl
  have hannounced : ¬ s.has CallPc.isAnnounced := hrest.not_has rfl
  have hpending : ¬ s.has CallPc.isPending := hrest.not_has rfl
  have hcount := (countInv h).redials
  constructor
  · rintro ⟨hstate, hredials⟩
    by_contra hlate
    rcases (statusInv h).stale hno (by simpa using hlate) with habs | habs | ⟨hnot, hsome | habs⟩
    · exact hpending habs
    · exact habs (by rw [hredials, hcount])
    · exact hnot (hstate.mpr hsome)
    · exact hannounced habs
  · intro hlate
    obtain ⟨hredials, hest, hcached⟩ := (statusInv h).current hno hlate
    refine ⟨⟨?_, fun hsome => hest (.inl hsome)⟩, by rw [hredials, hcount]⟩
    intro hstate
    rcases hcached hstate with hsome | habs | habs
    · exact hsome
    · exact absurd habs hannounced
    · exact absurd habs hpending

/-- The write of an `invalidate` is in time, or a dial is about to write over it. -/
def inTime (s : Calls) : CallAct → Bool
  | .call i (.sendReconnecting _) =>
    match s.calls[i]? with
    | some (.loaded redials) => !s.isLate redials || decide (s.has CallPc.isCounted)
    | _ => true
  | _ => true

/-- Without late writes, a status that is wrong is about to be written over. -/
theorem late_has_counted {s : Calls} (h : Reach system (fun s a => s.inTime a = true) s)
    (hlate : s.late = true) : s.has CallPc.isCounted := by
  revert hlate
  refine h.invariant (I := fun s => s.late = true → s.has CallPc.isCounted) ?_
    (fun s a s' hr hi hC hn => ?_)
  · rintro s rfl hlate
    exact absurd hlate (by simp [initial])
  · cases a with
    | get =>
      cases hn
      exact fun hlate => (has_concat rfl).mpr (hi hlate)
    | invalidate =>
      cases hn
      exact fun hlate => (has_concat rfl).mpr (hi hlate)
    | call i ev =>
      obtain ⟨pc, pc', s₁, hpc, hstep, rfl⟩ := next_call hn
      cases callNext_move hstep with
      | countDial hfree hconn => exact fun _ => (has_set hpc rfl CallPc.isCounted).mpr (.inl rfl)
      | sendDialing => exact fun hlate => absurd hlate (by simp)
      | announce c => exact fun hlate => absurd hlate (by simp)
      | cached c hfree hconn => exact fun hlate => has_of_has hpc rfl rfl (hi hlate)
      | dialed c => exact fun hlate => has_of_has hpc rfl rfl (hi hlate)
      | failed hholds hcounted hannounced =>
        exact fun hlate => has_of_has hpc rfl hcounted (hi hlate)
      | cache c => exact fun hlate => has_of_has hpc rfl rfl (hi hlate)
      | dropConn hfree => exact fun hlate => has_of_has hpc rfl rfl (hi hlate)
      | load => exact fun hlate => has_of_has hpc rfl rfl (hi hlate)
      | sendReconnecting redials now =>
        intro hlate
        -- the one write that can be late: the guard leaves the case of a dial that goes on
        obtain ⟨now', rfl⟩ := callNext_loaded hstep
        simp only [inTime, hpc, Bool.or_eq_true, Bool.not_eq_true', decide_eq_true_eq] at hC
        rcases hC with hin | hcounted
        · exact absurd hlate (by simp [hin])
        · exact has_of_has hpc rfl rfl hcounted

end Calls

/-- **The status at rest.**  In every run whose `invalidate`s write the status in time, it is
    right whenever no call is in progress; and in any run at all, it is right there exactly if the
    last write to it was not a late one. -/
theorem status_at_rest (s : Calls) :
    (Reach Calls.system (fun s a => s.inTime a = true) s → s.AtRest → s.Truthful) ∧
      (Reach Calls.system anyStep s → s.AtRest → (s.Truthful ↔ s.late = false)) := by
  refine ⟨?_, fun h hrest => Calls.truthful_iff h hrest⟩
  intro h hrest
  refine (Calls.truthful_iff h hrest).mpr ?_
  by_contra hlate
  exact hrest.not_has rfl (Calls.late_has_counted h (by simpa using hlate))

/-- The events of a `get` that dials and reaches the server. -/
def reached (i c : ℕ) : List CallAct :=
  [.call i .lock, .call i .sendDialing, .call i (.dialed (.ok c)),
    .call i (.greeted ⟨.ok (), .ok (), .ok (typeOk, .ok)⟩), .call i .cache]

/-- Call 1 drops the connection, and call 2 is about to get a new one. -/
def droppedConn : List CallAct := [.invalidate, .get, .call 1 .lock]

/-- Call 1 writes the status. -/
def writesReconnecting : List CallAct := [.call 1 .load, .call 1 (.sendReconnecting 7)]

/-- A connection is dropped and the status written before the server is dialled again. -/
def promptInvalidate : List CallAct :=
  .get :: (reached 0 0 ++ droppedConn ++ writesReconnecting ++ reached 2 1)

theorem prompt_status_truthful : ∃ s, Reach Calls.system (fun s a => s.inTime a = true) s ∧
    s.AtRest ∧ s.session.status = ⟨.established, 1⟩ ∧ s.Truthful := by
  have hrun : (exec Calls.system Calls.inTime .initial promptInvalidate).map
      (fun s => decide (s.AtRest ∧ s.session.status = ⟨.established, 1⟩)) = some true := by
    decide +kernel
  obtain ⟨s, hr, hview⟩ := reach_of_exec_map (fun _ _ h => h) hrun (.init rfl)
  obtain ⟨hrest, hstatus⟩ := of_decide_eq_true hview
  exact ⟨s, hr, hrest, hstatus, (status_at_rest s).1 hr hrest⟩

/-- A connection is dropped and re-established while the `invalidate` that dropped it has not
    written the status yet. -/
def lateInvalidate : List CallAct :=
  .get :: (reached 0 0 ++ droppedConn ++ reached 2 1 ++ writesReconnecting)

/-- A connection is cached, and the status says `Reconnecting`. -/
theorem late_reconnecting : ∃ s, Reach Calls.system anyStep s ∧ s.AtRest ∧
    s.session.conn = some 1 ∧ s.session.status = ⟨.reconnecting 7, 1⟩ ∧ ¬ s.Truthful := by
  have hrun : (exec Calls.system (fun _ _ => true) .initial lateInvalidate).map
      (fun s => decide (s.AtRest ∧ s.session.conn = some 1 ∧
        s.session.status = ⟨.reconnecting 7, 1⟩ ∧ ¬ s.Truthful)) = some true := by
    decide +kernel
  obtain ⟨s, hr, hview⟩ := reach_of_exec_map (fun _ _ _ => trivial) hrun (.init rfl)
  exact ⟨s, hr, of_decide_eq_true hview⟩

end Tmite.Client
