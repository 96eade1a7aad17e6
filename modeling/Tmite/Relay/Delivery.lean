import Tmite.Relay.Duplex

namespace Tmite.Relay

open Fifo Transition

/-!
# Every byte arrives

`relay_delivers` says what an end has seen at any moment.  Here is what it sees in the end: once the
other end has half-closed, every step of the direction leaves less to do (`dirNext_left`), and as
long as the end of the stream has not been seen there is a step to take (`DirInv.enabled`).  So
wherever a run stands, all that was sent can still arrive, and the end of the stream after it.

* `Direction.left` — what is left to do: each byte weighs more, the further it has to go.
* `all_deliverable` — from every reachable state with a half-closed end.
-/

/-! ### One pump -/

namespace PumpPc

/-- What a pump has left to do, where a byte it has written weighs `c`. -/
def left (c : ℕ) : PumpPc → ℕ
  | read => 1
  | write buf => 1 + (c + 2) * buf.length
  | flush => 2
  | returned _ => 0

/-- `write_all` is not left with nothing to write. -/
def WriteSome (pc : PumpPc) : Prop := pc ≠ write []

end PumpPc

section Pump

variable {io io' : PumpIo} {pc pc' : PumpPc} {ev : PumpEvent}

/-- **Every step of a pump leaves less to do**, with its reader's and its writer's bytes. -/
theorem pumpNext_left (hev : ev.faultless = true) (h : pumpNext 0 io pc ev = some (pc', io'))
    (c : ℕ) :
    (c + 3) * io'.r.queue.length + pc'.left c + c * io'.w.queue.length <
      (c + 3) * io.r.queue.length + pc.left c + c * io.w.queue.length := by
  unfold pumpNext at h
  split at h
  · -- what is read weighs less by one, byte for byte
    rename_i n
    split at h
    · rename_i hn
      cases h
      obtain ⟨k, hk⟩ := Nat.exists_eq_add_of_le hn.2.2
      have htake : (io.r.queue.take n).length = n := by
        rw [List.length_take, Nat.min_eq_left hn.2.2]
      have hdrop : (io.r.drop n).queue.length = k := by
        rw [Chan.drop_queue, List.length_drop, hk, Nat.add_sub_cancel_left]
      simp only [PumpPc.left, htake, hdrop, hk, Nat.mul_add, Nat.add_mul]
      omega
    · exact absurd h (by simp)
  · split at h
    · cases h
      simp only [PumpPc.left]
      omega
    · exact absurd h (by simp)
  · exact absurd hev (by simp [PumpEvent.faultless])
  · exact absurd h (by simp)
  · -- and what is written by two, which pays for the flush
    rename_i buf n
    split at h
    · rename_i hn
      cases h
      obtain ⟨k, hk⟩ := Nat.exists_eq_add_of_le hn.2
      have htake : (buf.take n).length = n := by
        rw [List.length_take, Nat.min_eq_left hn.2]
      have hpush : (io.w.push (buf.take n)).queue.length = io.w.queue.length + n := by
        rw [Chan.push_queue, List.length_append, htake]
      split
      · rename_i hall
        simp only [PumpPc.left, hpush, ← hall, Nat.mul_add, Nat.add_mul]
        omega
      · have hdrop : (buf.drop n).length = k := by
          rw [List.length_drop, hk, Nat.add_sub_cancel_left]
        simp only [PumpPc.left, hpush, hdrop, hk, Nat.mul_add, Nat.add_mul]
        omega
    · exact absurd h (by simp)
  · exact absurd hev (by simp [PumpEvent.faultless])
  · cases h
    simp only [PumpPc.left]
    omega
  · exact absurd hev (by simp [PumpEvent.faultless])
  · exact absurd h (by simp)

theorem pumpNext_writeSome (h : pumpNext 0 io pc ev = some (pc', io')) : pc'.WriteSome := by
  intro habs
  subst habs
  unfold pumpNext at h
  split at h
  · split at h
    · rename_i n hn
      simp only [Option.some.injEq, Prod.mk.injEq, PumpPc.write.injEq, List.take_eq_nil_iff] at h
      obtain ⟨hzero | hnil, -⟩ := h
      · omega
      · simp only [hnil, List.length_nil] at hn
        omega
    · exact absurd h (by simp)
  · split at h <;> exact absurd h (by simp)
  · exact absurd h (by simp)
  · split at h <;> exact absurd h (by simp)
  · split at h
    · rename_i buf n hn
      simp only [Option.some.injEq, Prod.mk.injEq] at h
      obtain ⟨hpc, -⟩ := h
      split at hpc
      · exact absurd hpc (by simp)
      · -- a last piece would have been all of it
        have hrest := List.drop_eq_nil_iff.mp (PumpPc.write.inj hpc)
        omega
    · exact absurd h (by simp)
  · exact absurd h (by simp)
  · exact absurd h (by simp)
  · exact absurd h (by simp)
  · exact absurd h (by simp)

/-- A pump waits for nothing but its reader. -/
theorem pumpNext_enabled (hsome : pc.WriteSome) (hrun : pc.ended = false)
    (hready : pc = .read → io.r.queue ≠ [] ∨ io.r.fin = true) :
    ∃ ev pc' io', ev.faultless = true ∧ pumpNext 0 io pc ev = some (pc', io') := by
  cases pc with
  | read =>
    cases hqueue : io.r.queue with
    | nil =>
      have hfin : io.r.fin = true := (hready rfl).resolve_left (fun hne => hne hqueue)
      exact ⟨.readEof, _, _, rfl, if_pos ⟨hqueue, hfin⟩⟩
    | cons b rest =>
      exact ⟨.read 1, _, _, rfl, if_pos ⟨Nat.one_pos, by decide, by simp [hqueue]⟩⟩
  | write buf =>
    have hpos : 0 < buf.length := by
      rw [List.length_pos_iff]
      rintro rfl
      exact hsome rfl
    exact ⟨.wrote buf.length, _, _, rfl, if_pos ⟨hpos, Nat.le_refl _⟩⟩
  | flush => exact ⟨.flushed, _, _, rfl, rfl⟩
  | returned r => exact absurd hrun (by simp [PumpPc.ended])

end Pump

/-! ### One direction -/

/-- What a direction has left to do until the far end has seen all of it. -/
def Direction.left (d : Direction) : ℕ :=
  7 * d.src.queue.length + d.first.pc.left 4 + 4 * d.mid.queue.length + d.second.pc.left 1 +
    d.dst.queue.length + (!d.first.closed).toNat + (!d.second.closed).toNat + (!d.sawEof).toNat

section Direction

variable {way : Way} {d d' : Direction} {a : DirAct}

/-- **Every step leaves less to do**, once nothing more is sent. -/
theorem dirNext_left (hfin : d.src.fin = true) (hsaw : d.sawEof = false) (ha : a.faultless = true)
    (h : dirNext 0 way d a = some d') :
    d'.left < d.left ∧ d'.src.fin = true ∧ d'.sent = d.sent := by
  cases a with
  | send items => exact absurd h (by simp [dirNext, hfin])
  | halfClose => exact absurd h (by simp [dirNext, hfin])
  | receive n =>
    simp only [dirNext] at h
    split at h
    · rename_i hn
      cases h
      refine ⟨?_, hfin, rfl⟩
      have hdrop : (d.dst.drop n).queue.length = d.dst.queue.length - n := by
        rw [Chan.drop_queue, List.length_drop]
      simp only [Direction.left, hdrop]
      omega
    · exact absurd h (by simp)
  | receiveEof =>
    simp only [dirNext] at h
    split at h
    · cases h
      refine ⟨?_, hfin, rfl⟩
      simp [Direction.left, hsaw]
    · exact absurd h (by simp)
  | pump hop ev =>
    obtain ⟨pc, io, hpump, rfl⟩ := dirNext_pump h
    have hrfin := (pumpNext_spec ha hpump).2.1
    cases hop with
    | first =>
      have hleft := pumpNext_left ha hpump 4
      refine ⟨?_, hrfin.trans hfin, rfl⟩
      simp only [Direction.io, Direction.stage] at hleft
      simp only [Direction.left, Direction.setPump]
      omega
    | second =>
      have hleft := pumpNext_left ha hpump 1
      refine ⟨?_, hfin, rfl⟩
      simp only [Direction.io, Direction.stage] at hleft
      simp only [Direction.left, Direction.setPump]
      omega
  | close hop =>
    simp only [dirNext] at h
    split at h
    · rename_i hend
      cases h
      cases hop with
      | first =>
        have hopen : d.first.closed = false := hend.2
        refine ⟨?_, hfin, rfl⟩
        simp [Direction.left, Direction.shut, hopen]
      | second =>
        have hopen : d.second.closed = false := hend.2
        refine ⟨?_, hfin, rfl⟩
        simp [Direction.left, Direction.shut, hopen]
    · exact absurd h (by simp)

theorem dirNext_writeSome (hsome : ∀ hop, (d.stage hop).pc.WriteSome)
    (h : dirNext 0 way d a = some d') (hop : Hop) : (d'.stage hop).pc.WriteSome := by
  cases a with
  | pump hop' ev =>
    obtain ⟨pc, io, hpump, rfl⟩ := dirNext_pump h
    have hpc := pumpNext_writeSome hpump
    -- the other loop is where it was
    cases hop <;> cases hop' <;> first | exact hpc | exact hsome .first | exact hsome .second
  | close hop' =>
    simp only [dirNext] at h
    split at h
    · cases h
      cases hop <;> cases hop' <;> first | exact hsome .first | exact hsome .second
    · exact absurd h (by simp)
  | _ =>
    simp only [dirNext] at h
    split at h
    · cases h
      cases hop with
      | first => exact hsome .first
      | second => exact hsome .second
    · exact absurd h (by simp)

/-- A loop that can go on, or is through and can be shut down. -/
theorem stage_enabled (way : Way) (hop : Hop) (hsome : (d.stage hop).pc.WriteSome)
    (hopen : (d.stage hop).closed = false)
    (hready : (d.stage hop).pc = .read → (d.io hop).r.queue ≠ [] ∨ (d.io hop).r.fin = true) :
    ∃ a d', a.faultless = true ∧ dirNext 0 way d a = some d' := by
  cases hend : (d.stage hop).pc.ended with
  | true => exact ⟨.close hop, _, rfl, if_pos ⟨hend, hopen⟩⟩
  | false =>
    obtain ⟨ev, pc, io, hev, hpump⟩ := pumpNext_enabled hsome hend hready
    refine ⟨.pump hop ev, ?_⟩
    simp only [dirNext]
    cases way.side hop with
    | client => exact ⟨_, hev, by rw [pumpCountedNext_eq, hpump]; rfl⟩
    | daemon => exact ⟨_, hev, by rw [hpump]; rfl⟩

/-- **There is always a step to take**, until the far end has seen the end. -/
theorem DirInv.enabled (h : DirInv way d) (hsome : ∀ hop, (d.stage hop).pc.WriteSome)
    (hfin : d.src.fin = true) (hsaw : d.sawEof = false) :
    ∃ a d', a.faultless = true ∧ dirNext 0 way d a = some d' := by
  -- from the far end back to the near one, somebody has something to do
  by_cases hdst : d.dst.queue = []
  · cases hdstfin : d.dst.fin with
    | true => exact ⟨.receiveEof, _, rfl, if_pos ⟨hdst, hdstfin⟩⟩
    | false =>
      have hsecond : d.second.closed = false := by
        rw [← Bool.not_eq_true]
        exact fun hc => absurd (h.second_closed hc) (by simp [hdstfin])
      by_cases hmid : d.mid.queue = [] ∧ d.mid.fin = false
      · have hfirst : d.first.closed = false := by
          rw [← Bool.not_eq_true]
          exact fun hc => absurd (h.first_closed hc) (by simp [hmid.2])
        exact stage_enabled way .first (hsome .first) hfirst fun _ => .inr hfin
      · refine stage_enabled way .second (hsome .second) hsecond fun _ => ?_
        rw [not_and_or, Bool.not_eq_false] at hmid
        exact hmid
  · refine ⟨.receive 1, _, rfl, if_pos ⟨Nat.one_pos, ?_, hsaw⟩⟩
    exact List.length_pos_iff.mpr hdst

end Direction

/-! ### Both directions -/

section Relay

variable {s : Relays}

theorem writeSome_of_reach (h : Reach (relays 0) Faultless s) (way : Way) (hop : Hop) :
    ((s.dir way).stage hop).pc.WriteSome := by
  refine h.invariant (I := fun s => ∀ way hop, ((s.dir way).stage hop).pc.WriteSome) ?_ ?_ way hop
  · rintro _ rfl way hop
    cases way <;> cases hop <;> exact fun habs => by cases habs
  · intro s a s' hr hsome ha hs' way' hop
    cases a with
    | on way a =>
      obtain ⟨d', hd', rfl⟩ := relayNext_on hs'
      obtain rfl | rfl := Way.eq_or_other way way'
      · rw [Relays.dir_setDir_same]
        exact dirNext_writeSome (hsome way') hd' hop
      · rw [Relays.dir_setDir_other]
        exact hsome way.other hop
    | join side =>
      rw [((relayInv hr).join hs').1]
      exact hsome way' hop

/-- **Every byte arrives.**  Wherever a run without transport errors stands, if one end has
    half-closed then the other can still get all that was sent, and see the end after it. -/
theorem all_deliverable (h : Reach (relays 0) Faultless s) {way : Way}
    (hfin : (s.dir way).src.fin = true) :
    ((s.dir way).sent, true) ∈ Deliverable (fun _ => True) s way := by
  rw [deliverable_eq _ (relayInv h)]
  obtain ⟨d', hreach, ⟨hinv, -, -, hsent⟩, hsaw⟩ := Reach.progress (M := direction way (s.dir way))
    (C := fun _ a => a.faultless = true ∧ True)
    (I := fun d => DirInv way d ∧ (∀ hop, (d.stage hop).pc.WriteSome) ∧ d.src.fin = true ∧
      d.sent = (s.dir way).sent)
    (G := fun d => d.sawEof = true) Direction.left
    (by
      rintro d ⟨hinv, hsome, hfin, hsent⟩ hsaw
      rw [Bool.not_eq_true] at hsaw
      obtain ⟨a, d', ha, hd'⟩ := hinv.enabled hsome hfin hsaw
      obtain ⟨hleft, hfin', hsent'⟩ := dirNext_left hfin hsaw ha hd'
      exact ⟨a, d', ⟨ha, trivial⟩, hd', ⟨hinv.step ha hd', dirNext_writeSome hsome hd', hfin',
        hsent'.trans hsent⟩, hleft⟩)
    (.init rfl) ⟨(relayInv h).dir way, writeSome_of_reach h way, hfin, rfl⟩
  exact ⟨d', hreach, by rw [(hinv.all_got hsaw).2, hsent, hsaw]⟩

end Relay

end Tmite.Relay
