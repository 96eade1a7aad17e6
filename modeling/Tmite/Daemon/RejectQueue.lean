import Tmite.Daemon.RejectPacing
import Tmite.Lib.FifoLock

namespace Tmite.Daemon

open Tmite.Core Tmite.Proto Transition TaskList FifoLock

/-!
# Who is next at the reject delay (`DataPlaneHandler::accept`)

`DataPlane.accept` gives the lock on `reject_delay` to whoever finds it free.  Tokio's lock is
handed on in the order in which it was asked for, so a connection waits for the rejections that
were queued before it, each with its sleep, and for no others.  `inOrder` puts that queue next to
any system that has a data plane in it.

* `reach_base` — what holds of every run without the queue holds of every run with it;
* `queueInv_next` — whoever sleeps with the lock is the first of the queue;
* `not_overtaken` — a connection in the queue has only those before it that were there when it came;
* `exec_turns` — and those come to an end, one after the other.
-/

universe u v w
variable {Text : Type v} {σ : Type u} {α : Type w}

/-! ### The queue -/

/-- It is about to lock `reject_delay`, or waits for it. -/
def ConnPc.asksLock : ConnPc → Bool
  | .rejectWait => true
  | .resetDelay _ => true
  | _ => false

/-- Connection `i` is about to lock `reject_delay`, or waits for it. -/
def DataPlane.asksLock (p : DataPlane Text) (i : ℕ) : Bool :=
  (p.conns[i]?.map Conn.pc).any ConnPc.asksLock

/-- The first of the queue has the lock. -/
def lockTurn (queue : List ℕ) (p : DataPlane Text) : DataAct Text → Bool
  | .accept i => !p.asksLock i || queue.head? == some i
  | _ => true

/-- The queue after a step: the lock is dropped by the reset of a known peer and after the sleep of
    a rejection. -/
def lockAfter (queue : List ℕ) (p : DataPlane Text) : DataAct Text → List ℕ
  | .accept i =>
    match p.conns[i]?.map Conn.pc with
    | some (.resetDelay _) => queue.tail
    | some .rejectSleep => queue.tail
    | _ => queue
  | .restart => []
  | _ => queue

/-- A state with the connections that have or wait for the lock, in order. -/
structure Queued (σ : Type u) where
  base : σ
  queue : List ℕ

inductive QueuedAct (α : Type w)
  | step (a : α)
  /-- The task of connection `i` polls `lock()` for the first time. -/
  | lock (i : ℕ)

/-- A system with a data plane in it, whose lock is handed on in order. -/
def inOrder (M : System σ α) (plane : σ → DataPlane Text) (act : α → Option (DataAct Text)) :
    System (Queued σ) (QueuedAct α) where
  init f := M.init f.base ∧ f.queue = []
  next f
    | .step a =>
      if (act a).all (lockTurn f.queue (plane f.base)) then
        (M.next f.base a).map fun s =>
          ⟨s, (act a).elim f.queue (lockAfter f.queue (plane f.base))⟩
      else none
    | .lock i =>
      if (plane f.base).asksLock i = true ∧ i ∉ f.queue then some ⟨f.base, f.queue ++ [i]⟩ else none

section InOrder

variable {M : System σ α} {plane : σ → DataPlane Text} {act : α → Option (DataAct Text)}
  {f f' : Queued σ}

/-- **The queue only takes runs away.** -/
theorem reach_base {C : Queued σ → QueuedAct α → Prop} (h : Reach (inOrder M plane act) C f) :
    Reach M anyStep f.base := by
  refine h.invariant (I := fun f => Reach M anyStep f.base) ?_ ?_
  · exact fun f h0 => .init h0.1
  · intro f a f' _ hr _ hn
    cases a with
    | step a =>
      simp only [inOrder] at hn
      split at hn
      · obtain ⟨s, hs, rfl⟩ := Option.map_eq_some_iff.mp hn
        exact .step hr trivial hs
      · exact absurd hn (by simp)
    | lock i =>
      simp only [inOrder] at hn
      split at hn
      · cases hn; exact hr
      · exact absurd hn (by simp)

end InOrder

/-! ### Who has the lock -/

/-- Everyone in the queue asks for the lock or has it, and who sleeps with it is the first. -/
structure QueueInv (queue : List ℕ) (p : DataPlane Text) : Prop where
  nodup : queue.Nodup
  waits : ∀ i ∈ queue, ∃ c, p.conns[i]? = some c ∧ (c.pc.asksLock = true ∨ c.sleeping = true)
  holder : OneHolder Conn.sleeping p.conns p.delayLocked
  first : ∀ i c, p.conns[i]? = some c → c.sleeping = true → queue.head? = some i

section Steps

variable {T : Toml PersistedState Text} {queue : List ℕ} {p p' : DataPlane Text}

theorem sleeping_iff {c : Conn} : c.sleeping = true ↔ c.pc = .rejectSleep := by
  simp [Conn.sleeping]

/-- Who asks for the lock does not sleep with it. -/
theorem not_sleeping_of_asks {c : Conn} (h : c.pc.asksLock = true) : c.sleeping = false := by
  cases hpc : c.pc <;> simp_all [ConnPc.asksLock, Conn.sleeping]

/-- A step that leaves the connections and the lock alone. -/
theorem QueueInv.other (h : QueueInv queue p) (hconns : p'.conns = p.conns)
    (hlocked : p'.delayLocked = p.delayLocked) : QueueInv queue p' :=
  ⟨h.nodup, by rw [hconns]; exact h.waits, by rw [hconns, hlocked]; exact h.holder,
    by rw [hconns]; exact h.first⟩

/-- A connection comes in. -/
theorem QueueInv.incoming (h : QueueInv queue p) {remote : PublicKey}
    (hconns : p'.conns = p.conns ++ [⟨remote, .lookup⟩])
    (hlocked : p'.delayLocked = p.delayLocked) : QueueInv queue p' := by
  refine ⟨h.nodup, fun i hi => ?_, ?_, fun i c hc hs => ?_⟩
  · obtain ⟨c, hc, hpc⟩ := h.waits i hi
    exact ⟨c, by rw [hconns]; exact getElem?_concat_of_some hc, hpc⟩
  · rw [hconns, hlocked]
    exact h.holder.concat rfl
  · rw [hconns] at hc
    rcases getElem?_concat_cases hc with hold | ⟨-, rfl⟩
    · exact h.first i c hold hs
    · exact absurd hs (by simp [Conn.sleeping])

/-- A connection that has nothing to do with the lock moves on, perhaps to ask for it. -/
theorem QueueInv.moved (h : QueueInv queue p) {i : ℕ} {c : Conn} {pc : ConnPc}
    (hc : p.conns[i]? = some c) (hasks : c.pc.asksLock = false) (hsleeps : c.sleeping = false)
    (hpc : pc ≠ .rejectSleep) (hconns : p'.conns = p.conns.set i { c with pc })
    (hlocked : p'.delayLocked = p.delayLocked) : QueueInv queue p' := by
  have hnew : ({ c with pc } : Conn).sleeping = false := by simpa [Conn.sleeping] using hpc
  refine ⟨h.nodup, fun j hj => ?_, ?_, fun j d hd hs => ?_⟩
  · obtain ⟨d, hd, hwaits⟩ := h.waits j hj
    have hij : i ≠ j := by
      rintro rfl
      rw [hc] at hd
      obtain rfl := Option.some.inj hd
      simp [hasks, hsleeps] at hwaits
    exact ⟨d, by rw [hconns, List.getElem?_set_ne hij]; exact hd, hwaits⟩
  · rw [hconns, hlocked]
    exact h.holder.keep hc (by rw [hnew, hsleeps])
  · rw [hconns] at hd
    rcases getElem?_set_cases hd with ⟨-, rfl⟩ | ⟨-, hold⟩
    · rw [hnew] at hs
      exact absurd hs (by simp)
    · exact h.first j d hold hs

/-- Nobody has the lock while its first still asks for it. -/
theorem QueueInv.free {i : ℕ} {rest : List ℕ} (h : QueueInv (i :: rest) p) {c : Conn}
    (hc : p.conns[i]? = some c) (hasks : c.pc.asksLock = true) : p.delayLocked = false := by
  by_contra hlocked
  rw [Bool.not_eq_false] at hlocked
  have hone := h.holder
  rw [OneHolder, if_pos hlocked] at hone
  obtain ⟨d, hd, hs⟩ := List.countP_pos_iff.mp (by rw [hone]; exact Nat.one_pos)
  obtain ⟨j, hj⟩ := List.mem_iff_getElem?.mp hd
  obtain rfl : i = j := Option.some.inj (h.first j d hj hs)
  rw [hc] at hj
  rw [← Option.some.inj hj, not_sleeping_of_asks hasks] at hs
  exact absurd hs (by simp)

/-- The first takes the lock and goes to sleep. -/
theorem QueueInv.sleep {i : ℕ} {rest : List ℕ} (h : QueueInv (i :: rest) p) {c : Conn}
    (hc : p.conns[i]? = some c) (hpc : c.pc = .rejectWait) (hfree : p.delayLocked = false) :
    QueueInv (i :: rest) { p.setConn i c .rejectSleep with delayLocked := true } := by
  have hlt := (List.getElem?_eq_some_iff.mp hc).1
  refine ⟨h.nodup, fun j hj => ?_, ?_, fun j d hd hs => ?_⟩
  · by_cases hij : i = j
    · subst hij
      exact ⟨_, List.getElem?_set_self hlt, .inr rfl⟩
    · obtain ⟨d, hd, hwaits⟩ := h.waits j hj
      exact ⟨d, (List.getElem?_set_ne hij).trans hd, hwaits⟩
  · have hholder := h.holder
    rw [hfree] at hholder
    exact hholder.take hc (by simp [Conn.sleeping, hpc]) rfl
  · rcases getElem?_set_cases hd with ⟨rfl, -⟩ | ⟨-, hold⟩
    · rfl
    · exact h.first j d hold hs

/-- The first gives the lock back, or has had it and gone on. -/
theorem QueueInv.leave {i : ℕ} {rest : List ℕ} (h : QueueInv (i :: rest) p) {c : Conn}
    {pc : ConnPc} (hpc : pc ≠ .rejectSleep) (hconns : p'.conns = p.conns.set i { c with pc })
    (hholder : OneHolder Conn.sleeping p'.conns p'.delayLocked) : QueueInv rest p' := by
  obtain ⟨hi, hrest⟩ := List.nodup_cons.mp h.nodup
  refine ⟨hrest, fun j hj => ?_, hholder, fun j d hd hs => ?_⟩
  · have hij : i ≠ j := by
      rintro rfl
      exact hi hj
    obtain ⟨d, hd, hwaits⟩ := h.waits j (List.mem_cons_of_mem i hj)
    exact ⟨d, by rw [hconns, List.getElem?_set_ne hij]; exact hd, hwaits⟩
  · rw [hconns] at hd
    rcases getElem?_set_cases hd with ⟨-, rfl⟩ | ⟨hij, hold⟩
    · exact absurd (sleeping_iff.mp hs) hpc
    · exact absurd (Option.some.inj (h.first j d hold hs)) hij

/-- The accept task of the first goes on, or of one that has nothing to do with the lock. -/
theorem QueueInv.accept (h : QueueInv queue p) {i : ℕ} {c : Conn} (hc : p.conns[i]? = some c)
    (hturn : lockTurn queue p (.accept i : DataAct Text) = true)
    (hn : p.accept i c = some p') : QueueInv (lockAfter queue p (.accept i : DataAct Text)) p' := by
  have hasks : p.asksLock i = c.pc.asksLock := by simp [DataPlane.asksLock, hc]
  -- whoever asks for the lock goes on as the first
  have hfirst : c.pc.asksLock = true → ∃ rest, queue = i :: rest := by
    intro hask
    simp only [lockTurn, hasks, hask, Bool.not_true, Bool.false_or, beq_iff_eq] at hturn
    exact List.head?_eq_some_iff.mp hturn
  simp only [lockAfter, hc, Option.map_some]
  cases hpc : c.pc with
  | lookup =>
    simp only [DataPlane.accept, hpc] at hn
    split at hn <;> cases hn
    · exact h.moved hc (by simp [hpc, ConnPc.asksLock]) (by simp [Conn.sleeping, hpc]) (by simp)
        rfl rfl
    · exact h.moved hc (by simp [hpc, ConnPc.asksLock]) (by simp [Conn.sleeping, hpc]) (by simp)
        rfl rfl
  | rejectWait =>
    obtain ⟨rest, rfl⟩ := hfirst (by simp [hpc, ConnPc.asksLock])
    simp only [DataPlane.accept, hpc] at hn
    split at hn
    · exact absurd hn (by simp)
    · rename_i hfree
      cases hn
      exact h.sleep hc hpc (by simpa using hfree)
  | rejectSleep =>
    simp only [DataPlane.accept, hpc, Option.some.injEq] at hn
    subst hn
    have hsleeping : c.sleeping = true := sleeping_iff.mpr hpc
    obtain ⟨rest, rfl⟩ := List.head?_eq_some_iff.mp (h.first i c hc hsleeping)
    exact h.leave (by simp) rfl (h.holder.drop hc hsleeping rfl)
  | resetDelay name =>
    have hask : c.pc.asksLock = true := by simp [hpc, ConnPc.asksLock]
    obtain ⟨rest, rfl⟩ := hfirst hask
    simp only [DataPlane.accept, hpc] at hn
    split at hn
    · exact absurd hn (by simp)
    · cases hn
      exact h.leave (by simp) rfl (h.holder.keep hc (by simp [Conn.sleeping, hpc]))
  | _ => exact absurd hn (by simp [DataPlane.accept, hpc])

/-- **One step of the data plane**, in its turn. -/
theorem QueueInv.next (h : QueueInv queue p) {a : DataAct Text}
    (hturn : lockTurn queue p a = true) (hn : p.next T a = some p') :
    QueueInv (lockAfter queue p a) p' := by
  cases a with
  | accept i =>
    obtain ⟨c, hc, hn⟩ := Option.bind_eq_some_iff.mp hn
    exact h.accept hc hturn hn
  | restart =>
    cases hn
    exact ⟨List.nodup_nil, by simp [lockAfter], rfl, by simp⟩
  | pair name remote now fault => cases hn; exact h.other rfl rfl
  | admin c =>
    simp only [DataPlane.next] at hn
    split at hn
    · cases hn; exact h.other rfl rfl
    · exact absurd hn (by simp)
  | incoming remote => cases hn; exact h.incoming rfl rfl
  | touchLastSeen i now fault =>
    obtain ⟨c, hc, hn⟩ := Option.bind_eq_some_iff.mp hn
    split at hn
    · rename_i hpc
      cases hn
      exact h.moved hc (by simp [hpc, ConnPc.asksLock]) (by simp [Conn.sleeping, hpc])
        (by simp) rfl rfl
    · exact absurd hn (by simp)
  | acceptBi i ok =>
    obtain ⟨c, hc, hn⟩ := Option.bind_eq_some_iff.mp hn
    split at hn
    · rename_i hpc
      split at hn
      · cases hn; exact h.other rfl rfl
      · cases hn
        exact h.moved hc (by simp [hpc, ConnPc.asksLock]) (by simp [Conn.sleeping, hpc])
          (by simp) rfl rfl
    · exact absurd hn (by simp)
  | readFrame j _ | checkAcl j | dial j _ | writeOk j _ | relayed j =>
    -- a stream's step
    obtain ⟨st, -, hn⟩ := Option.bind_eq_some_iff.mp hn
    split at hn
    · cases hn; exact h.other rfl rfl
    · exact absurd hn (by simp)

/-- A connection asks for the lock for the first time. -/
theorem QueueInv.join (h : QueueInv queue p) {i : ℕ} (hasks : p.asksLock i = true)
    (hi : i ∉ queue) : QueueInv (queue ++ [i]) p := by
  refine ⟨(Turn.join hi).nodup h.nodup, fun j hj => ?_, h.holder, fun j c hc hs => ?_⟩
  · rcases List.mem_append.mp hj with hold | hnew
    · exact h.waits j hold
    · obtain rfl := List.mem_singleton.mp hnew
      obtain ⟨pc, hpc, hask⟩ := (Option.any_eq_true ..).mp hasks
      obtain ⟨c, hc, rfl⟩ := Option.map_eq_some_iff.mp hpc
      exact ⟨c, hc, .inl hask⟩
  · obtain ⟨rest, rfl⟩ := List.head?_eq_some_iff.mp (h.first j c hc hs)
    rfl

/-- A step in its turn moves the queue on as a lock may. -/
theorem QueueInv.turn (h : QueueInv queue p) {a : DataAct Text} (hrestart : a ≠ .restart)
    (hturn : lockTurn queue p a = true) : Turn queue (lockAfter queue p a) := by
  cases a with
  | restart => exact absurd rfl hrestart
  | accept i =>
    cases hc : p.conns[i]? with
    | none =>
      simp only [lockAfter, hc, Option.map_none]
      exact .stay queue
    | some c =>
      simp only [lockAfter, hc, Option.map_some]
      cases hpc : c.pc with
      | resetDelay name =>
        simp only [lockTurn, DataPlane.asksLock, hc, Option.map_some, hpc, ConnPc.asksLock,
          Option.any_some, Bool.not_true, Bool.false_or, beq_iff_eq] at hturn
        obtain ⟨rest, rfl⟩ := List.head?_eq_some_iff.mp hturn
        exact .leave i rest
      | rejectSleep =>
        obtain ⟨rest, rfl⟩ := List.head?_eq_some_iff.mp (h.first i c hc (sleeping_iff.mpr hpc))
        exact .leave i rest
      | _ => exact .stay queue
  | _ => exact .stay queue

end Steps

/-! ### In any system with a data plane -/

/-- `plane` is a data plane, on which `M` takes the steps `act` names; the others leave its
    connections and the lock alone. -/
structure HasPlane (T : Toml PersistedState Text) (M : System σ α) (plane : σ → DataPlane Text)
    (act : α → Option (DataAct Text)) : Prop where
  init : ∀ s, M.init s → (plane s).conns = [] ∧ (plane s).delayLocked = false
  step : ∀ s a s', M.next s a = some s' → ∀ b, act a = some b → ∃ p', (plane s).next T b = some p' ∧
    (plane s').conns = p'.conns ∧ (plane s').delayLocked = p'.delayLocked
  other : ∀ s a s', M.next s a = some s' → act a = none →
    (plane s').conns = (plane s).conns ∧ (plane s').delayLocked = (plane s).delayLocked

section Runs

variable {T : Toml PersistedState Text} {M : System σ α} {plane : σ → DataPlane Text}
  {act : α → Option (DataAct Text)} {f f' : Queued σ}

/-- A step of any part of the system. -/
theorem queueInv_next (hM : HasPlane T M plane act) (h : QueueInv f.queue (plane f.base))
    {a : QueuedAct α} (hn : (inOrder M plane act).next f a = some f') :
    QueueInv f'.queue (plane f'.base) ∧
      ((∀ b, a = .step b → act b ≠ some .restart) → Turn f.queue f'.queue) := by
  cases a with
  | lock i =>
    simp only [inOrder] at hn
    split at hn
    · rename_i hi
      cases hn
      exact ⟨h.join hi.1 hi.2, fun _ => .join hi.2⟩
    · exact absurd hn (by simp)
  | step a =>
    simp only [inOrder] at hn
    split at hn
    · rename_i hturn
      obtain ⟨s, hs, rfl⟩ := Option.map_eq_some_iff.mp hn
      cases hact : act a with
      | none =>
        obtain ⟨hconns, hlocked⟩ := hM.other _ _ _ hs hact
        exact ⟨h.other hconns hlocked, fun _ => .stay f.queue⟩
      | some b =>
        rw [hact, Option.all_some] at hturn
        obtain ⟨p', hp', hconns, hlocked⟩ := hM.step _ _ _ hs b hact
        refine ⟨(h.next hturn hp').other hconns hlocked, fun hrestart => h.turn ?_ hturn⟩
        rintro rfl
        exact hrestart a rfl hact
    · exact absurd hn (by simp)

theorem queueInv (hM : HasPlane T M plane act) {C : Queued σ → QueuedAct α → Prop}
    (h : Reach (inOrder M plane act) C f) : QueueInv f.queue (plane f.base) := by
  refine h.invariant (I := fun f => QueueInv f.queue (plane f.base)) ?_
    (fun _ _ _ _ hi _ hn => (queueInv_next hM hi hn).1)
  rintro f ⟨h0, hqueue⟩
  obtain ⟨hconns, hlocked⟩ := hM.init _ h0
  rw [hqueue]
  exact ⟨List.nodup_nil, by simp, by rw [hconns, hlocked]; rfl, by simp [hconns]⟩

/-- As long as connection `n` is in the queue and the daemon does not restart. -/
def Waiting (act : α → Option (DataAct Text)) (n : ℕ) (f : Queued σ) (a : QueuedAct α) : Prop :=
  n ∈ f.queue ∧ ∀ b, a = .step b → act b ≠ some .restart

/-- **Nobody overtakes.**  Once a connection is in the queue, only those before it are that were
    there when it came. -/
theorem not_overtaken (hM : HasPlane T M plane act) (h : QueueInv f.queue (plane f.base)) {n : ℕ}
    {ahead : List ℕ} (hqueue : f.queue = ahead ++ [n])
    (hrun : Reach ((inOrder M plane act).goingOn f) (Waiting act n) f') (hn : n ∈ f'.queue) :
    Behind n ahead f'.queue := by
  obtain ⟨-, hbehind⟩ := hrun.invariant (I := fun g => QueueInv g.queue (plane g.base) ∧
      (n ∈ g.queue → Behind n ahead g.queue))
    (by
      rintro g rfl
      exact ⟨h, fun _ => by rw [hqueue]; exact behind_join n ahead⟩)
    (by
      rintro g a g' - ⟨hinv, hbehind⟩ ⟨hwaits, hrestart⟩ hstep
      obtain ⟨hinv', hturn⟩ := queueInv_next hM hinv hstep
      exact ⟨hinv', (hturn hrestart).behind hinv.nodup (hbehind hwaits)⟩)
  exact hbehind hn

end Runs

/-! ### The turns of those ahead -/

/-- What connection `i` does with its turn: a rejection that has the lock wakes up, one that does
    not have it yet takes it and sleeps first, and a known peer resets the delay. -/
def DataPlane.turnOf (p : DataPlane Text) (i : ℕ) : List (DataAct Text) :=
  match p.conns[i]?.map Conn.pc with
  | some .rejectWait => [.accept i, .accept i]
  | _ => [.accept i]

/-- The data plane itself, with its lock handed on in order. -/
def queuedPlane (T : Toml PersistedState Text) :
    System (Queued (DataPlane Text)) (QueuedAct (DataAct Text)) :=
  inOrder (DataPlane.system T) id some

/-- What turns of the connections `is` leave alone. -/
structure OthersKept (is : List ℕ) (p p' : DataPlane Text) : Prop where
  store : p'.store = p.store
  streams : p'.streams = p.streams
  dials : p'.dials = p.dials
  length : p'.conns.length = p.conns.length
  conns : ∀ j ∉ is, p'.conns[j]? = p.conns[j]?

section Turns

variable {T : Toml PersistedState Text} {p p' : DataPlane Text} {queue rest : List ℕ} {i : ℕ}

theorem turnOf_congr {j : ℕ} (h : p'.conns[j]? = p.conns[j]?) : p'.turnOf j = p.turnOf j := by
  simp only [DataPlane.turnOf, h]

theorem OthersKept.setConn {c : Conn} {pc : ConnPc} (locked : Bool) (delay : RejectDelay) :
    OthersKept [i] p
      { p.setConn i c pc with delayLocked := locked, rejectDelay := delay } where
  store := rfl
  streams := rfl
  dials := rfl
  length := List.length_set
  conns j hj := List.getElem?_set_ne (by
    rintro rfl
    exact hj (List.mem_singleton_self _))

theorem OthersKept.trans {is js : List ℕ} {p₁ : DataPlane Text} (h : OthersKept is p p₁)
    (h' : OthersKept js p₁ p') : OthersKept (is ++ js) p p' where
  store := h'.store.trans h.store
  streams := h'.streams.trans h.streams
  dials := h'.dials.trans h.dials
  length := h'.length.trans h.length
  conns j hj := by
    rw [List.mem_append, not_or] at hj
    exact (h'.conns j hj.2).trans (h.conns j hj.1)

/-- A step of the first of the queue. -/
theorem queuedPlane_accept {c : Conn} (hc : p.conns[i]? = some c)
    (hn : p.accept i c = some p') :
    (queuedPlane T).next ⟨p, i :: rest⟩ (.step (.accept i)) =
      some ⟨p', lockAfter (i :: rest) p (.accept i : DataAct Text)⟩ := by
  have hstep : (DataPlane.system T).next p (.accept i) = some p' := by
    simp only [DataPlane.system, DataPlane.next, hc, Option.bind_some, hn]
  simp [queuedPlane, inOrder, lockTurn, hstep]

/-- A turn that is one step of `accept`, at the end of which the lock is dropped. -/
theorem exec_turn_accept (h : QueueInv (i :: rest) p) {c : Conn} (hc : p.conns[i]? = some c)
    (hturn : p.turnOf i = [.accept i])
    (hafter : lockAfter (i :: rest) p (.accept i : DataAct Text) = rest)
    (hn : p.accept i c = some p') :
    exec (queuedPlane T) (fun _ _ => true) ⟨p, i :: rest⟩ ((p.turnOf i).map .step) =
      some ⟨p', rest⟩ ∧ QueueInv rest p' := by
  have hinv := h.accept hc (by simp [lockTurn]) hn
  rw [hafter] at hinv
  refine ⟨?_, hinv⟩
  simp only [hturn, List.map_cons, List.map_nil, exec, if_true, queuedPlane_accept hc hn,
    Option.bind_some, hafter]

/-- **One turn.** -/
theorem exec_turn (h : QueueInv (i :: rest) p) : ∃ p',
    exec (queuedPlane T) (fun _ _ => true) ⟨p, i :: rest⟩ ((p.turnOf i).map .step) =
      some ⟨p', rest⟩ ∧ QueueInv rest p' ∧ OthersKept [i] p p' := by
  obtain ⟨c, hc, hwaits⟩ := h.waits i List.mem_cons_self
  cases hpc : c.pc with
  | rejectWait =>
    have hfree := h.free hc (by simp [hpc, ConnPc.asksLock])
    have hlt := (List.getElem?_eq_some_iff.mp hc).1
    -- it takes the lock, sleeps and gives it back
    have hfirst : p.accept i c = some { p.setConn i c .rejectSleep with delayLocked := true } := by
      simp [DataPlane.accept, hpc, hfree]
    have hsleep := h.sleep hc hpc hfree
    generalize hp₁ : ({ p.setConn i c .rejectSleep with delayLocked := true } : DataPlane Text) =
      p₁ at hfirst hsleep
    have hc₁ : p₁.conns[i]? = some { c with pc := .rejectSleep } := by
      rw [← hp₁]
      exact List.getElem?_set_self hlt
    have hkept₁ : OthersKept [i] p p₁ := by
      rw [← hp₁]
      exact .setConn true p.rejectDelay
    obtain ⟨p₂, hsecond⟩ : ∃ p₂, p₁.accept i { c with pc := .rejectSleep } = some p₂ := ⟨_, rfl⟩
    have hkept₂ : OthersKept [i] p₁ p₂ := by
      cases hsecond
      exact .setConn _ _
    have hturn₁ : p₁.turnOf i = [.accept i] := by
      simp [DataPlane.turnOf, hc₁]
    have hafter : lockAfter (i :: rest) p (.accept i : DataAct Text) = i :: rest := by
      simp [lockAfter, hc, hpc]
    obtain ⟨hexec, hinv⟩ := exec_turn_accept (T := T) hsleep hc₁ hturn₁ (by simp [lockAfter, hc₁])
      hsecond
    refine ⟨p₂, ?_, hinv, ?_⟩
    · rw [hturn₁] at hexec
      simp only [DataPlane.turnOf, hc, Option.map_some, hpc, List.map_cons, List.map_nil]
      rw [exec, if_pos rfl, queuedPlane_accept hc hfirst, Option.bind_some, hafter]
      exact hexec
    · have hboth := hkept₁.trans hkept₂
      exact ⟨hboth.store, hboth.streams, hboth.dials, hboth.length,
        fun j hj => hboth.conns j (by simpa using hj)⟩
  | rejectSleep =>
    obtain ⟨p', haccept⟩ : ∃ p', p.accept i c = some p' := by
      simp [DataPlane.accept, hpc]
    obtain ⟨hexec, hinv⟩ := exec_turn_accept (T := T) h hc (by simp [DataPlane.turnOf, hc, hpc])
      (by simp [lockAfter, hc, hpc]) haccept
    refine ⟨p', hexec, hinv, ?_⟩
    simp only [DataPlane.accept, hpc, Option.some.injEq] at haccept
    subst haccept
    exact .setConn _ _
  | resetDelay name =>
    have hfree := h.free hc (by simp [hpc, ConnPc.asksLock])
    obtain ⟨p', haccept⟩ : ∃ p', p.accept i c = some p' := by
      simp [DataPlane.accept, hpc, hfree]
    obtain ⟨hexec, hinv⟩ := exec_turn_accept (T := T) h hc (by simp [DataPlane.turnOf, hc, hpc])
      (by simp [lockAfter, hc, hpc]) haccept
    refine ⟨p', hexec, hinv, ?_⟩
    simp only [DataPlane.accept, hpc, hfree, Bool.false_eq_true, if_false,
      Option.some.injEq] at haccept
    subst haccept
    exact .setConn p.delayLocked p.rejectDelay.reset
  | _ => simp [hpc, ConnPc.asksLock, Conn.sleeping] at hwaits

/-- **Those ahead come to an end**, one after the other. -/
theorem exec_turns (h : QueueInv (queue ++ rest) p) : ∃ p',
    exec (queuedPlane T) (fun _ _ => true) ⟨p, queue ++ rest⟩
      ((queue.flatMap p.turnOf).map .step) = some ⟨p', rest⟩ ∧
      QueueInv rest p' ∧ OthersKept queue p p' := by
  induction queue generalizing p with
  | nil => exact ⟨p, rfl, h, ⟨rfl, rfl, rfl, rfl, fun _ _ => rfl⟩⟩
  | cons i queue ih =>
    rw [List.cons_append] at h ⊢
    obtain ⟨p₁, hfirst, hinv₁, hkept₁⟩ := exec_turn (T := T) h
    obtain ⟨p₂, hlater, hinv₂, hkept₂⟩ := ih hinv₁
    -- the others' turns are what they were
    have hsame : queue.flatMap p₁.turnOf = queue.flatMap p.turnOf := by
      refine List.flatMap_congr fun j hj => turnOf_congr (hkept₁.conns j ?_)
      rintro hji
      obtain rfl := List.mem_singleton.mp hji
      exact (List.nodup_cons.mp h.nodup).1 (List.mem_append_left _ hj)
    rw [hsame] at hlater
    refine ⟨p₂, ?_, hinv₂, hkept₁.trans hkept₂⟩
    rw [List.flatMap_cons, List.map_append, exec_append, hfirst, Option.bind_some, hlater]

end Turns

end Tmite.Daemon
