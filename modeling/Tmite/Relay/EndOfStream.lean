import Tmite.Relay.Pump

namespace Tmite.Relay

open Fifo Transition

/-!
# When a relay ends a stream (`relay` of `daemon/main_ep.rs`, `relay_local` of `client/connect.rs`)

Both run two blocks, `up` and `down`, under one `join!`.  A block runs its copy loop and then shuts
the loop's writer down, `shutdown` of a socket or `finish` of a stream, without a look at what the
loop returned.

* `endOfStream_kept` — the receiver of a direction is told that it has everything only if it has, as
  long as no error and no timeout cuts the loop of that direction short.  One that does is followed
  by the same shutdown, and the receiver takes what it has got for all there is.
-/

/-- `relay` with its timeout, and `relay_local`. -/
inductive RelayKind
  | relay (idleTimeout : ℕ)
  | relayLocal
deriving DecidableEq

/-- One block.  `io.r` is what its source has sent and the loop has not read, and `fin` there that
    the source has ended; `io.w` is what was written, and `fin` there that the receiver was told. -/
structure Block where
  io : PumpIo
  pc : PumpPc
  /-- `rx_counter` or `tx_counter`. -/
  counter : UInt64
  /-- The writer was shut down, or was to be. -/
  shut : Bool
  /-- What the source has sent. -/
  sent : List UInt8
deriving DecidableEq

inductive BlockAct
  /-- The source writes, and ends. -/
  | send (items : List UInt8)
  | finish
  | pump (ev : PumpEvent)
  /-- `shutdown` or `finish` of the writer; its error is dropped. -/
  | shutdown (ok : Bool)
deriving DecidableEq

namespace Block

def start : Block := ⟨⟨.empty, .empty⟩, .read, 0, false, []⟩

/-- One step of a block. -/
def next (kind : RelayKind) (b : Block) : BlockAct → Option Block
  | .send items =>
    if b.io.r.fin = false then
      some { b with io := { b.io with r := b.io.r.push items }, sent := b.sent ++ items }
    else none
  | .finish =>
    if b.io.r.fin = false then some { b with io := { b.io with r := b.io.r.close } } else none
  | .pump ev =>
    match kind with
    | .relay idleTimeout =>
      (pumpNext idleTimeout b.io b.pc ev).map fun r => { b with pc := r.1, io := r.2 }
    | .relayLocal =>
      (pumpCountedNext 0 b.io (b.pc, b.counter) ev).map fun r =>
        { b with pc := r.1.1, counter := r.1.2, io := r.2 }
  | .shutdown ok =>
    -- whatever the loop has returned
    if b.pc.ended = true ∧ b.shut = false then
      some { b with shut := true, io := if ok then { b.io with w := b.io.w.close } else b.io }
    else none

/-- The end of the stream is not faked: if the receiver was told that there is no more, the source
    has ended and all it sent is written. -/
def EndsTrue (b : Block) : Prop :=
  b.io.w.fin = true → b.io.r.fin = true ∧ b.io.w.queue = b.sent

end Block

/-- The two blocks of a relay. -/
inductive Lane
  | up
  | down
deriving DecidableEq

structure RelayRun where
  up : Block
  down : Block
  /-- The `join!` is through. -/
  returned : Bool
deriving DecidableEq

inductive RelayRunAct
  | block (lane : Lane) (a : BlockAct)
  | join
deriving DecidableEq

namespace RelayRun

def start : RelayRun := ⟨.start, .start, false⟩

def lane (s : RelayRun) : Lane → Block
  | .up => s.up
  | .down => s.down

def setLane (s : RelayRun) : Lane → Block → RelayRun
  | .up, b => { s with up := b }
  | .down, b => { s with down := b }

/-- One step of a relay. -/
def next (kind : RelayKind) (s : RelayRun) : RelayRunAct → Option RelayRun
  | .block lane a => ((s.lane lane).next kind a).map (s.setLane lane)
  | .join =>
    if s.up.shut = true ∧ s.down.shut = true ∧ s.returned = false then
      some { s with returned := true }
    else none

@[simp] theorem lane_setLane_self (s : RelayRun) (l : Lane) (b : Block) :
    (s.setLane l b).lane l = b := by
  cases l <;> rfl

theorem lane_setLane_ne (s : RelayRun) {l l' : Lane} (b : Block) (h : l' ≠ l) :
    (s.setLane l b).lane l' = s.lane l' := by
  cases l <;> cases l' <;> first | rfl | exact absurd rfl h

end RelayRun

def relayRun (kind : RelayKind) : System RelayRun RelayRunAct where
  init s := s = .start
  next := RelayRun.next kind

/-! ### What cuts a loop short -/

/-- A read error or a reset, the idle timeout, a write error. -/
def PumpEvent.cuts : PumpEvent → Bool
  | readFailed _ => true
  | idle => true
  | writeFailed _ => true
  | flushFailed _ => true
  | _ => false

/-- Nothing is left: the source has ended, and all of it is written. -/
def Block.through (b : Block) : Bool :=
  b.io.r.fin && b.io.r.queue.isEmpty && b.pc.pending.isEmpty

theorem Block.through_iff {b : Block} : b.through = true ↔
    b.io.r.fin = true ∧ b.io.r.queue = [] ∧ b.pc.pending = [] := by
  simp [Block.through, and_assoc]

/-- Errors and timeouts of a lane come when nothing is left there. -/
def NotCutShort (lane : Lane) (s : RelayRun) : RelayRunAct → Prop
  | .block l (.pump ev) => l = lane → ev.cuts = true → (s.lane lane).through = true
  | _ => True

instance (lane : Lane) (s : RelayRun) (a : RelayRunAct) : Decidable (NotCutShort lane s a) :=
  match a with
  | .block l (.pump ev) =>
    inferInstanceAs (Decidable (l = lane → ev.cuts = true → (s.lane lane).through = true))
  | .block _ (.send _) | .block _ .finish | .block _ (.shutdown _) | .join =>
    inferInstanceAs (Decidable True)

section Step

variable {kind : RelayKind} {b b' : Block}

/-- A loop's step, in either relay, is one of `pump`. -/
theorem Block.next_pump {ev : PumpEvent} (h : b.next kind (.pump ev) = some b') :
    ∃ idleTimeout pc io, pumpNext idleTimeout b.io b.pc ev = some (pc, io) ∧ b'.pc = pc ∧
      b'.io = io ∧ b'.sent = b.sent ∧ b'.shut = b.shut := by
  cases kind with
  | relay idleTimeout =>
    obtain ⟨⟨pc, io⟩, hpump, rfl⟩ := Option.map_eq_some_iff.mp h
    exact ⟨idleTimeout, pc, io, hpump, rfl, rfl, rfl, rfl⟩
  | relayLocal =>
    simp only [Block.next, pumpCountedNext_eq, Option.map_map] at h
    obtain ⟨⟨pc, io⟩, hpump, rfl⟩ := Option.map_eq_some_iff.mp h
    exact ⟨0, pc, io, hpump, rfl, rfl, rfl, rfl⟩

/-- A step that does not cut the loop short is one without errors and timeouts. -/
theorem pumpNext_of_not_cuts (idleTimeout : ℕ) (io : PumpIo) (pc : PumpPc) {ev : PumpEvent}
    (h : ev.cuts = false) :
    ev.faultless = true ∧ pumpNext idleTimeout io pc ev = pumpNext 0 io pc ev := by
  cases ev with
  | readFailed e => exact absurd h (by simp [PumpEvent.cuts])
  | idle => exact absurd h (by simp [PumpEvent.cuts])
  | writeFailed e => exact absurd h (by simp [PumpEvent.cuts])
  | flushFailed e => exact absurd h (by simp [PumpEvent.cuts])
  | _ => cases pc <;> exact ⟨rfl, rfl⟩

/-- And one that does leaves everything where it is, but for the buffer. -/
theorem pumpNext_of_cuts {idleTimeout : ℕ} {io io' : PumpIo} {pc pc' : PumpPc} {ev : PumpEvent}
    (hev : ev.cuts = true) (h : pumpNext idleTimeout io pc ev = some (pc', io')) :
    io' = io ∧ pc'.ended = true ∧ pc'.pending = [] ∧ pc.ended = false := by
  unfold pumpNext at h
  split at h
  · exact absurd hev (by simp [PumpEvent.cuts])
  · exact absurd hev (by simp [PumpEvent.cuts])
  · cases h
    exact ⟨rfl, rfl, rfl, rfl⟩
  · split at h
    · exact absurd h (by simp)
    · cases h
      exact ⟨rfl, rfl, rfl, rfl⟩
  · exact absurd hev (by simp [PumpEvent.cuts])
  · cases h
    exact ⟨rfl, rfl, rfl, rfl⟩
  · exact absurd hev (by simp [PumpEvent.cuts])
  · cases h
    exact ⟨rfl, rfl, rfl, rfl⟩
  · exact absurd h (by simp)

end Step

/-! ### What a block keeps -/

/-- The invariant of a block whose loop is not cut short. -/
structure BlockInv (b : Block) : Prop where
  text : b.io.w.queue ++ b.pc.pending ++ b.io.r.queue = b.sent
  ended : b.pc.ended = true → b.io.r.fin = true ∧ b.io.r.queue = []
  shut : b.shut = true → b.pc.ended = true
  fin : b.io.w.fin = true → b.shut = true

theorem blockInv_start : BlockInv .start where
  text := rfl
  ended h := absurd h (by simp [Block.start, PumpPc.ended])
  shut h := absurd h (by simp [Block.start])
  fin h := absurd h (by simp [Block.start, Chan.empty])

theorem PumpPc.pending_of_ended {pc : PumpPc} (h : pc.ended = true) : pc.pending = [] := by
  cases pc <;> first | rfl | exact absurd h (by simp [PumpPc.ended])

/-- While the loop is on, its writer is open. -/
theorem BlockInv.not_shut {b : Block} (h : BlockInv b) (hrunning : b.pc.ended = false) :
    b.shut = false := by
  by_contra hshut
  rw [Bool.not_eq_false] at hshut
  rw [h.shut hshut] at hrunning
  exact absurd hrunning (by simp)

/-- The end of the stream comes after the end of the source. -/
theorem BlockInv.endsTrue {b : Block} (h : BlockInv b) : b.EndsTrue := by
  intro hfin
  have hended := h.shut (h.fin hfin)
  obtain ⟨hr, hqueue⟩ := h.ended hended
  have htext := h.text
  rw [PumpPc.pending_of_ended hended, hqueue, List.append_nil, List.append_nil] at htext
  exact ⟨hr, htext⟩

section Inv

variable {kind : RelayKind} {b b' : Block}

theorem BlockInv.pump (h : BlockInv b) {ev : PumpEvent}
    (hcut : ev.cuts = true → b.through = true) (hb' : b.next kind (.pump ev) = some b') :
    BlockInv b' := by
  obtain ⟨idleTimeout, pc, io, hpump, rfl, rfl, hsent, hshut⟩ := Block.next_pump hb'
  by_cases hev : ev.cuts = true
  · -- nothing is left to lose
    obtain ⟨hio, hended, hpending, hrunning⟩ := pumpNext_of_cuts hev hpump
    obtain ⟨hfin, hqueue, hbuf⟩ := Block.through_iff.mp (hcut hev)
    have htext := h.text
    rw [hbuf] at htext
    refine ⟨?_, fun _ => ?_, fun _ => hended, fun hw => ?_⟩
    · rw [hio, hpending, hsent]
      exact htext
    · rw [hio]
      exact ⟨hfin, hqueue⟩
    · rw [hshut]
      rw [hio] at hw
      exact h.fin hw
  · rw [Bool.not_eq_true] at hev
    obtain ⟨hfault, hzero⟩ := pumpNext_of_not_cuts idleTimeout b.io b.pc hev
    rw [hzero] at hpump
    obtain ⟨htext, -, hwfin, hrunning, hended⟩ := pumpNext_spec hfault hpump
    refine ⟨?_, fun hend => ?_, fun hs => ?_, fun hw => ?_⟩
    · rw [htext, hsent]
      exact h.text
    · exact ⟨(hended hend).2, (hended hend).1⟩
    · rw [hshut, h.not_shut hrunning] at hs
      exact absurd hs (by simp)
    · rw [hwfin] at hw
      rw [hshut]
      exact h.fin hw

/-- **One step of a block** that does not cut its loop short. -/
theorem BlockInv.step (h : BlockInv b) {a : BlockAct}
    (hcut : ∀ ev, a = .pump ev → ev.cuts = true → b.through = true)
    (hb' : b.next kind a = some b') : BlockInv b' := by
  cases a with
  | send items =>
    simp only [Block.next] at hb'
    split at hb'
    · rename_i hopen
      cases hb'
      refine ⟨?_, fun hend => ?_, h.shut, h.fin⟩
      · show b.io.w.queue ++ b.pc.pending ++ (b.io.r.queue ++ items) = b.sent ++ items
        rw [← h.text]
        simp only [List.append_assoc]
      · have hfin := (h.ended hend).1
        rw [hopen] at hfin
        exact absurd hfin (by simp)
    · exact absurd hb' (by simp)
  | finish =>
    simp only [Block.next] at hb'
    split at hb'
    · cases hb'
      exact ⟨h.text, fun hend => ⟨rfl, (h.ended hend).2⟩, h.shut, h.fin⟩
    · exact absurd hb' (by simp)
  | pump ev => exact h.pump (hcut ev rfl) hb'
  | shutdown ok =>
    simp only [Block.next] at hb'
    split at hb'
    · rename_i hend
      cases hb'
      refine ⟨?_, fun hended => ?_, fun _ => hend.1, fun _ => rfl⟩
      · cases ok <;> exact h.text
      · cases ok <;> exact h.ended hended
    · exact absurd hb' (by simp)

end Inv

/-! ### Whole runs -/

section Run

variable {kind : RelayKind} {s s' : RelayRun} {lane : Lane}

theorem blockInv_lane (h : Reach (relayRun kind) (NotCutShort lane) s) :
    BlockInv (s.lane lane) := by
  refine h.invariant (I := fun s => BlockInv (s.lane lane)) ?_ ?_
  · rintro _ rfl
    cases lane <;> exact blockInv_start
  · intro s a s' _ hinv hguard hs'
    cases a with
    | join =>
      simp only [relayRun, RelayRun.next] at hs'
      split at hs'
      · cases hs'
        cases lane <;> exact hinv
      · exact absurd hs' (by simp)
    | block l a =>
      obtain ⟨b', hb', rfl⟩ := Option.map_eq_some_iff.mp hs'
      by_cases hl : lane = l
      · subst hl
        rw [RelayRun.lane_setLane_self]
        refine hinv.step (fun ev ha hcut => ?_) hb'
        subst ha
        exact hguard rfl hcut
      · rw [RelayRun.lane_setLane_ne s b' hl]
        exact hinv

/-- A loop that is cut short with something left is followed by a shutdown that fakes the end. -/
theorem faked_of_cut (h : BlockInv (s.lane lane)) {ev : PumpEvent} (hev : ev.cuts = true)
    (hs' : s.next kind (.block lane (.pump ev)) = some s') :
    (s.lane lane).through = true ↔
      ∀ s'', s'.next kind (.block lane (.shutdown true)) = some s'' → (s''.lane lane).EndsTrue := by
  obtain ⟨b', hb', rfl⟩ := Option.map_eq_some_iff.mp hs'
  obtain ⟨idleTimeout, pc, io, hpump, hpc, hio, hsent, hshut⟩ := Block.next_pump hb'
  obtain ⟨rfl, hended, -, hrunning⟩ := pumpNext_of_cuts hev hpump
  -- the shutdown that comes next
  have hnext : (s.setLane lane b').next kind (.block lane (.shutdown true)) =
      some ((s.setLane lane b').setLane lane
        { b' with shut := true, io := { b'.io with w := b'.io.w.close } }) := by
    show (((s.setLane lane b').lane lane).next kind (.shutdown true)).map _ = _
    rw [RelayRun.lane_setLane_self, Block.next,
      if_pos ⟨by rw [hpc]; exact hended, hshut.trans (h.not_shut hrunning)⟩]
    rfl
  have htext := h.text
  rw [hnext]
  constructor
  · intro hthrough s'' hs''
    cases hs''
    obtain ⟨hfin, hqueue, hbuf⟩ := Block.through_iff.mp hthrough
    rw [hqueue, hbuf, List.append_nil, List.append_nil] at htext
    rw [RelayRun.lane_setLane_self]
    intro _
    show b'.io.r.fin = true ∧ b'.io.w.queue = b'.sent
    rw [hio, hsent]
    exact ⟨hfin, htext⟩
  · intro hall
    have htrue := hall _ rfl
    rw [RelayRun.lane_setLane_self] at htrue
    have hkept : b'.io.r.fin = true ∧ b'.io.w.queue = b'.sent := htrue rfl
    rw [hio, hsent] at hkept
    -- all that was sent is written, so nothing is in the buffer or behind it
    have hlen := congrArg List.length htext
    rw [hkept.2, List.length_append, List.length_append] at hlen
    have hbuf : (s.lane lane).pc.pending = [] := List.eq_nil_of_length_eq_zero (by omega)
    have hqueue : (s.lane lane).io.r.queue = [] := List.eq_nil_of_length_eq_zero (by omega)
    exact Block.through_iff.mpr ⟨hkept.1, hqueue, hbuf⟩

/-- **No end is faked** in a lane of either relay, in every run in which the errors and timeouts of
    that lane come when nothing is left there; and the first of them that comes before is followed
    by a shutdown that fakes it. -/
theorem endOfStream_kept (h : Reach (relayRun kind) (NotCutShort lane) s) :
    (s.lane lane).EndsTrue ∧
    ∀ ev s', ev.cuts = true → s.next kind (.block lane (.pump ev)) = some s' →
      (NotCutShort lane s (.block lane (.pump ev)) ↔
        ∀ s'', s'.next kind (.block lane (.shutdown true)) = some s'' →
          (s''.lane lane).EndsTrue) := by
  have hinv := blockInv_lane h
  refine ⟨hinv.endsTrue, fun ev s' hev hs' => ?_⟩
  rw [← faked_of_cut hinv hev hs']
  exact ⟨fun hguard => hguard rfl hev, fun hthrough _ _ => hthrough⟩

end Run

/-- The first of two bytes is relayed. -/
def oneOfTwo : List RelayRunAct :=
  [.block .up (.send [7, 8]), .block .up (.pump (.read 1)), .block .up (.pump (.wrote 1)),
    .block .up (.pump .flushed)]

/-- The rest of them, the end of the source, and the end of the stream. -/
def theOther : List RelayRunAct :=
  [.block .up (.pump (.read 1)), .block .up (.pump (.wrote 1)), .block .up (.pump .flushed),
    .block .up .finish, .block .up (.pump .readEof), .block .up (.shutdown true)]

theorem endOfStream_kept_two : ∃ s, Reach (relayRun (.relay 0)) (NotCutShort .up) s ∧
    s.up.io.w = ⟨[7, 8], true⟩ ∧ s.up.io.r.fin = true ∧ s.up.io.w.queue = s.up.sent := by
  have hrun : (exec (relayRun (.relay 0)) (fun s a => decide (NotCutShort .up s a)) .start
      (oneOfTwo ++ theOther)).map (fun s => s.up.io.w) = some ⟨[7, 8], true⟩ := by
    decide +kernel
  obtain ⟨s, hs, hw⟩ := reach_of_exec_map (fun _ _ => of_decide_eq_true) hrun (.init rfl)
  have htrue := (endOfStream_kept hs).1 (congrArg Chan.fin hw)
  exact ⟨s, hs, hw, htrue.1, htrue.2⟩

/-- The stream is reset after the first byte: the target is told that this was all. -/
theorem endOfStream_faked : ¬ ∀ (kind : RelayKind) (lane : Lane) (s : RelayRun),
    Reach (relayRun kind) anyStep s → (s.lane lane).EndsTrue := by
  intro hall
  have hrun : (exec (relayRun (.relay 0)) (fun _ _ => true) .start
      (oneOfTwo ++ [.block .up (.pump (.readFailed "reset by peer")),
        .block .up (.shutdown true)])).map (fun s => (s.up.io.w, s.up.io.r.fin)) =
      some (⟨[7], true⟩, false) := by
    decide +kernel
  obtain ⟨s, hs, hview⟩ := reach_of_exec_map (C := anyStep) (fun _ _ _ => trivial) hrun (.init rfl)
  obtain ⟨hw, hfin⟩ := Prod.mk.inj hview
  have htrue := hall (.relay 0) .up s hs (congrArg Chan.fin hw)
  exact absurd htrue.1 (by
    show ¬ s.up.io.r.fin = true
    rw [hfin]
    simp)

end Tmite.Relay
