import Mathlib.Data.UInt
import Tmite.Lib.Fifo
import Tmite.Lib.Transition

namespace Tmite.Relay

open Fifo Transition

/-!
# The copy loops (`pump` and `pump_counted` of `daemon/main_ep.rs`)

Both read up to 8192 bytes, write them all, flush, and start over; on end of file they return.
`pump_counted` is a copy of `pump` with a counter, a `u64` that wraps around.  A step ends at an
`await`: `write_all` may take its bytes in any number of pieces.  What the transports do is the
environment's (`PumpEvent`); the timeout on reads is off where `idleTimeout` is zero.

`pumpNext_spec` is what the rest relies on: no byte is lost, repeated or reordered by a step
without errors, and a loop ends only with its source at its end.
-/

/-- The buffer of a pump. -/
def pumpBuf : ℕ := 8192

/-- What a pump returns with, other than `Ok(())`. -/
inductive PumpError
  | io (e : String)
  /-- `ErrorKind::TimedOut`, "idle timeout". -/
  | idleTimeout
deriving DecidableEq

/-- Where a pump stands. -/
inductive PumpPc
  | read
  /-- In `write_all`, with what is left to write. -/
  | write (buf : List UInt8)
  | flush
  | returned (r : Except PumpError Unit)
deriving DecidableEq

/-- How the `await` a pump is in ends. -/
inductive PumpEvent
  /-- The read returns the next `n` bytes. -/
  | read (n : ℕ)
  /-- The read returns 0. -/
  | readEof
  | readFailed (e : String)
  /-- The timeout around the read fires. -/
  | idle
  /-- The writer takes the next `n` bytes. -/
  | wrote (n : ℕ)
  | writeFailed (e : String)
  | flushed
  | flushFailed (e : String)
deriving DecidableEq

/-- The reader and the writer a pump is called with. -/
structure PumpIo where
  r : Chan UInt8
  w : Chan UInt8
deriving DecidableEq

/-- One step of `pump`. -/
def pumpNext (idleTimeout : ℕ) (io : PumpIo) : PumpPc → PumpEvent → Option (PumpPc × PumpIo)
  | .read, .read n =>
    if 0 < n ∧ n ≤ pumpBuf ∧ n ≤ io.r.queue.length then
      some (.write (io.r.queue.take n), { io with r := io.r.drop n })
    else none
  | .read, .readEof =>
    if io.r.queue = [] ∧ io.r.fin = true then some (.returned (.ok ()), io) else none
  | .read, .readFailed e => some (.returned (.error (.io e)), io)
  | .read, .idle =>
    if idleTimeout = 0 then none else some (.returned (.error .idleTimeout), io)
  | .write buf, .wrote n =>
    if 0 < n ∧ n ≤ buf.length then
      some (if n = buf.length then .flush else .write (buf.drop n),
        { io with w := io.w.push (buf.take n) })
    else none
  | .write _, .writeFailed e => some (.returned (.error (.io e)), io)
  | .flush, .flushed => some (.read, io)
  | .flush, .flushFailed e => some (.returned (.error (.io e)), io)
  | _, _ => none

/-- One step of `pump_counted`. -/
def pumpCountedNext (idleTimeout : ℕ) (io : PumpIo) :
    PumpPc × UInt64 → PumpEvent → Option ((PumpPc × UInt64) × PumpIo)
  | (.read, counter), .read n =>
    if 0 < n ∧ n ≤ pumpBuf ∧ n ≤ io.r.queue.length then
      -- `fetch_add`, before anything is written
      some ((.write (io.r.queue.take n), counter + UInt64.ofNat n), { io with r := io.r.drop n })
    else none
  | (.read, counter), .readEof =>
    if io.r.queue = [] ∧ io.r.fin = true then some ((.returned (.ok ()), counter), io) else none
  | (.read, counter), .readFailed e => some ((.returned (.error (.io e)), counter), io)
  | (.read, counter), .idle =>
    if idleTimeout = 0 then none else some ((.returned (.error .idleTimeout), counter), io)
  | (.write buf, counter), .wrote n =>
    if 0 < n ∧ n ≤ buf.length then
      some ((if n = buf.length then .flush else .write (buf.drop n), counter),
        { io with w := io.w.push (buf.take n) })
    else none
  | (.write _, counter), .writeFailed e => some ((.returned (.error (.io e)), counter), io)
  | (.flush, counter), .flushed => some ((.read, counter), io)
  | (.flush, counter), .flushFailed e => some ((.returned (.error (.io e)), counter), io)
  | (_, _), _ => none

/-! ### What a step does -/

namespace PumpPc

/-- Read and not yet written. -/
def pending : PumpPc → List UInt8
  | write buf => buf
  | _ => []

def ended : PumpPc → Bool
  | returned _ => true
  | _ => false

end PumpPc

namespace PumpEvent

/-- The transports do not fail. -/
def faultless : PumpEvent → Bool
  | readFailed _ => false
  | writeFailed _ => false
  | flushFailed _ => false
  | _ => true

/-- The bytes that are read. -/
def bytesRead : PumpEvent → ℕ
  | read n => n
  | _ => 0

end PumpEvent

section Step

variable {io io' : PumpIo} {pc pc' : PumpPc} {ev : PumpEvent}

/-- **One step of a pump**, where nothing fails and the idle timeout is off: what is queued
    behind it, in its buffer and ahead of it stays the same text; it ends only at the end of
    its source. -/
theorem pumpNext_spec (hev : ev.faultless = true) (h : pumpNext 0 io pc ev = some (pc', io')) :
    io'.w.queue ++ pc'.pending ++ io'.r.queue = io.w.queue ++ pc.pending ++ io.r.queue ∧
      io'.r.fin = io.r.fin ∧ io'.w.fin = io.w.fin ∧ pc.ended = false ∧
      (pc'.ended = true → io'.r.queue = [] ∧ io'.r.fin = true) := by
  unfold pumpNext at h
  split at h
  · -- a read
    rename_i n
    split at h
    · cases h
      refine ⟨?_, rfl, rfl, rfl, fun habs => absurd habs (by simp [PumpPc.ended])⟩
      simp only [PumpPc.pending, Chan.drop_queue, List.append_nil, List.append_assoc,
        List.take_append_drop]
    · exact absurd h (by simp)
  · -- end of file
    split at h
    · rename_i heof
      cases h
      exact ⟨rfl, rfl, rfl, rfl, fun _ => heof⟩
    · exact absurd h (by simp)
  · exact absurd hev (by simp [PumpEvent.faultless])
  · exact absurd h (by simp)
  · -- a piece of `write_all`, the last one or not
    rename_i buf n
    split at h
    · rename_i hn
      cases h
      refine ⟨?_, rfl, rfl, rfl, fun habs => ?_⟩
      · by_cases hall : n = buf.length
        · simp [hall, PumpPc.pending]
        · simp [hall, PumpPc.pending]
      · by_cases hall : n = buf.length
        · simp [hall, PumpPc.ended] at habs
        · simp [hall, PumpPc.ended] at habs
    · exact absurd h (by simp)
  · exact absurd hev (by simp [PumpEvent.faultless])
  · cases h
    exact ⟨rfl, rfl, rfl, rfl, fun habs => absurd habs (by simp [PumpPc.ended])⟩
  · exact absurd hev (by simp [PumpEvent.faultless])
  · exact absurd h (by simp)

/-- A step takes from its reader the bytes it reads. -/
theorem pumpNext_bytesRead {idleTimeout : ℕ} (h : pumpNext idleTimeout io pc ev = some (pc', io')) :
    io'.r.queue.length + ev.bytesRead = io.r.queue.length := by
  unfold pumpNext at h
  split at h
  · -- a read
    rename_i n
    split at h
    · rename_i hn
      cases h
      show (io.r.queue.drop n).length + n = io.r.queue.length
      rw [List.length_drop]
      omega
    · exact absurd h (by simp)
  -- no other step touches the reader
  all_goals first | (split at h <;> cases h <;> rfl) | (cases h <;> rfl)

/-- `pump_counted` takes the steps of `pump`, and counts what it reads. -/
theorem pumpCountedNext_eq (idleTimeout : ℕ) (io : PumpIo) (pc : PumpPc) (counter : UInt64)
    (ev : PumpEvent) :
    pumpCountedNext idleTimeout io (pc, counter) ev =
      (pumpNext idleTimeout io pc ev).map
        (fun s => ((s.1, counter + UInt64.ofNat ev.bytesRead), s.2)) := by
  have hzero : counter + UInt64.ofNat 0 = counter := by simp
  cases pc with
  | read =>
    cases ev with
    | read n =>
      simp only [pumpCountedNext, pumpNext, PumpEvent.bytesRead]
      split <;> rfl
    | readEof =>
      simp only [pumpCountedNext, pumpNext, PumpEvent.bytesRead, hzero]
      split <;> rfl
    | idle =>
      simp only [pumpCountedNext, pumpNext, PumpEvent.bytesRead, hzero]
      split <;> rfl
    | _ => simp [pumpCountedNext, pumpNext, PumpEvent.bytesRead]
  | write buf =>
    cases ev with
    | wrote n =>
      simp only [pumpCountedNext, pumpNext, PumpEvent.bytesRead, hzero]
      split <;> rfl
    | _ => simp [pumpCountedNext, pumpNext, PumpEvent.bytesRead]
  | flush => cases ev <;> simp [pumpCountedNext, pumpNext, PumpEvent.bytesRead]
  | returned r => cases ev <;> simp [pumpCountedNext, pumpNext]

end Step

/-! ### Whole runs -/

/-- A step of a pump, or anything that happens to its reader and writer meanwhile. -/
inductive PumpAct
  | pump (ev : PumpEvent)
  | env (io : PumpIo)

/-- The bytes a run reads. -/
def bytesRead : List PumpAct → ℕ
  | [] => 0
  | .pump ev :: acts => ev.bytesRead + bytesRead acts
  | .env _ :: acts => bytesRead acts

/-- A pump by itself. -/
def pump (idleTimeout : ℕ) : System (PumpPc × PumpIo) PumpAct where
  init s := s.1 = .read
  next s
    | .pump ev => pumpNext idleTimeout s.2 s.1 ev
    | .env io => some (s.1, io)

/-- A counting pump by itself. -/
def pumpCounted (idleTimeout : ℕ) : System ((PumpPc × UInt64) × PumpIo) PumpAct where
  init s := s.1.1 = .read
  next s
    | .pump ev => pumpCountedNext idleTimeout s.2 s.1 ev
    | .env io => some (s.1, io)

/-- Whatever its surroundings do, `pump_counted` runs as `pump` does, with the same reads and
    the same writes, and its counter has gone up by the bytes read. -/
theorem exec_pumpCounted (idleTimeout : ℕ) (pc : PumpPc) (counter : UInt64) (io : PumpIo)
    (acts : List PumpAct) :
    exec (pumpCounted idleTimeout) (fun _ _ => true) ((pc, counter), io) acts =
      (exec (pump idleTimeout) (fun _ _ => true) (pc, io) acts).map
        (fun s => ((s.1, counter + UInt64.ofNat (bytesRead acts)), s.2)) := by
  induction acts generalizing pc counter io with
  | nil => simp [exec, bytesRead]
  | cons a acts ih =>
    cases a with
    | env io' =>
      simp only [exec, pumpCounted, pump, if_true, Option.bind_some] at ih ⊢
      exact ih pc counter io'
    | pump ev =>
      simp only [exec, if_true]
      show ((pumpCountedNext idleTimeout io (pc, counter) ev).bind fun s' =>
          exec (pumpCounted idleTimeout) (fun _ _ => true) s' acts) =
        ((pumpNext idleTimeout io pc ev).bind fun s' =>
          exec (pump idleTimeout) (fun _ _ => true) s' acts).map _
      rw [pumpCountedNext_eq]
      cases pumpNext idleTimeout io pc ev with
      | none => rfl
      | some s =>
        simp only [Option.map_some, Option.bind_some]
        rw [ih, bytesRead, UInt64.ofNat_add, UInt64.add_assoc]

end Tmite.Relay
