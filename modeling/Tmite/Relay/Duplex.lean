import Tmite.Relay.Pump

namespace Tmite.Relay

open Fifo Transition

/-!
# Two relays in a row (`relay_local` of `client/connect.rs`, `relay` of `daemon/main_ep.rs`)

A forwarded connection is a local app, the client's `relay_local`, the daemon's `relay` and the
target.  Each relay runs two `async` blocks under one `join!`, a copy loop each and after it the
shutdown of the loop's writer; so a byte passes two loops each way.

* `Direction` — one way through both relays: three channels, two loops, and what its two ends
  have sent and seen.  `DirInv` says where every byte is.
* `exchange` — the direction as a `Fifo.Exchange`; `dirNext_exchange` says that each step of it is
  a step of that.
* `Relays` — both directions, with the two `join!`s; `deliverable_eq` says that what one direction
  can deliver is a matter of that direction alone.
-/

inductive Side
  | client
  | daemon
deriving DecidableEq

/-- The two directions. -/
inductive Way
  /-- From the local app to the target. -/
  | out
  | back
deriving DecidableEq

/-- The two copy loops of a direction, in the order bytes pass them. -/
inductive Hop
  | first
  | second
deriving DecidableEq

def Way.other : Way → Way
  | .out => .back
  | .back => .out

/-- The relay a loop belongs to. -/
def Way.side : Way → Hop → Side
  | .out, .first => .client
  | .out, .second => .daemon
  | .back, .first => .daemon
  | .back, .second => .client

/-- One `async` block of a relay: a copy loop, and whether its writer has been shut down. -/
structure Stage where
  pc : PumpPc
  closed : Bool
deriving DecidableEq

structure Direction where
  src : Chan UInt8
  first : Stage
  mid : Chan UInt8
  second : Stage
  dst : Chan UInt8
  /-- `tx_counter` on the way out, `rx_counter` on the way back. -/
  counter : UInt64
  /-- What the one end has sent, -/
  sent : List UInt8
  /-- and what the other has received. -/
  got : List UInt8
  /-- The other end has read the end of the stream. -/
  sawEof : Bool
deriving DecidableEq

namespace Direction

def start : Direction where
  src := .empty
  first := ⟨.read, false⟩
  mid := .empty
  second := ⟨.read, false⟩
  dst := .empty
  counter := 0
  sent := []
  got := []
  sawEof := false

def stage (d : Direction) : Hop → Stage
  | .first => d.first
  | .second => d.second

/-- The reader and the writer of a loop. -/
def io (d : Direction) : Hop → PumpIo
  | .first => ⟨d.src, d.mid⟩
  | .second => ⟨d.mid, d.dst⟩

def setPump (d : Direction) (hop : Hop) (pc : PumpPc) (io : PumpIo) : Direction :=
  match hop with
  | .first => { d with first := { d.first with pc := pc }, src := io.r, mid := io.w }
  | .second => { d with second := { d.second with pc := pc }, mid := io.r, dst := io.w }

/-- `shutdown` or `finish` of a loop's writer. -/
def shut (d : Direction) (hop : Hop) : Direction :=
  match hop with
  | .first => { d with first := { d.first with closed := true }, mid := d.mid.close }
  | .second => { d with second := { d.second with closed := true }, dst := d.dst.close }

/-- The halves a relay holds of this direction go out of scope: what its reader still has is
    thrown away, its writer is closed. -/
def dropHop (d : Direction) (hop : Hop) : Direction :=
  match hop with
  | .first => { d with src := { d.src with queue := [] }, mid := d.mid.close }
  | .second => { d with mid := { d.mid with queue := [] }, dst := d.dst.close }

/-- The bytes the client's loop has read: in the outward direction what has left `src`, in the
    other what has left `mid`. -/
def read (d : Direction) : Way → ℕ
  | .out => (d.got ++ d.dst.queue ++ d.second.pc.pending ++ d.mid.queue ++
      d.first.pc.pending).length
  | .back => (d.got ++ d.dst.queue ++ d.second.pc.pending).length

end Direction

/-- What can happen in a direction. -/
inductive DirAct
  /-- The sending end writes. -/
  | send (items : List UInt8)
  | halfClose
  /-- The receiving end reads `n` bytes. -/
  | receive (n : ℕ)
  | receiveEof
  | pump (hop : Hop) (ev : PumpEvent)
  /-- A relay shuts a loop's writer down. -/
  | close (hop : Hop)
deriving DecidableEq

/-- One step of a direction.  The client's loops count and have no timeout; the daemon's have the
    configured one. -/
def dirNext (idleTimeout : ℕ) (way : Way) (d : Direction) : DirAct → Option Direction
  | .send items =>
    if d.src.fin = false then
      some { d with src := d.src.push items, sent := d.sent ++ items }
    else none
  | .halfClose => if d.src.fin = false then some { d with src := d.src.close } else none
  | .receive n =>
    if 0 < n ∧ n ≤ d.dst.queue.length ∧ d.sawEof = false then
      some { d with got := d.got ++ d.dst.queue.take n, dst := d.dst.drop n }
    else none
  | .receiveEof =>
    if d.dst.queue = [] ∧ d.dst.fin = true then some { d with sawEof := true } else none
  | .pump hop ev =>
    match way.side hop with
    | .client =>
      (pumpCountedNext 0 (d.io hop) ((d.stage hop).pc, d.counter) ev).map
        fun r => { d.setPump hop r.1.1 r.2 with counter := r.1.2 }
    | .daemon =>
      (pumpNext idleTimeout (d.io hop) (d.stage hop).pc ev).map fun r => d.setPump hop r.1 r.2
  | .close hop =>
    if (d.stage hop).pc.ended = true ∧ (d.stage hop).closed = false then some (d.shut hop)
    else none

/-- No transport error occurs. -/
def DirAct.faultless : DirAct → Bool
  | .pump _ ev => ev.faultless
  | _ => true

/-- The bytes the client's loop reads in a step. -/
def DirAct.counted (way : Way) : DirAct → ℕ
  | .pump hop ev => if way.side hop = .client then ev.bytesRead else 0
  | _ => 0

/-- Without a timeout, a loop's step is one of `pump`, counted on the client. -/
theorem dirNext_pump {way : Way} {d d' : Direction} {hop : Hop} {ev : PumpEvent}
    (h : dirNext 0 way d (.pump hop ev) = some d') :
    ∃ pc io, pumpNext 0 (d.io hop) (d.stage hop).pc ev = some (pc, io) ∧
      d' = { d.setPump hop pc io with
        counter := d.counter + UInt64.ofNat (DirAct.counted way (.pump hop ev)) } := by
  unfold dirNext DirAct.counted at *
  cases hside : way.side hop with
  | client =>
    simp only [hside, pumpCountedNext_eq, Option.map_map, Option.map_eq_some_iff] at h
    obtain ⟨⟨pc, io⟩, hpump, rfl⟩ := h
    exact ⟨pc, io, hpump, by simp [hside]⟩
  | daemon =>
    simp only [hside, Option.map_eq_some_iff] at h
    obtain ⟨⟨pc, io⟩, hpump, rfl⟩ := h
    refine ⟨pc, io, hpump, ?_⟩
    cases hop <;> simp [Direction.setPump, hside]

/-! ### Where every byte is -/

/-- The invariant of a direction. -/
structure DirInv (way : Way) (d : Direction) : Prop where
  /-- From the far end back to the near one, the bytes under way are what was sent. -/
  text : d.got ++ d.dst.queue ++ d.second.pc.pending ++ d.mid.queue ++ d.first.pc.pending ++
    d.src.queue = d.sent
  /-- A loop ends with its reader at its end, -/
  first_ended : d.first.pc.ended = true → d.src.queue = [] ∧ d.src.fin = true
  second_ended : d.second.pc.ended = true → d.mid.queue = [] ∧ d.mid.fin = true
  /-- and its writer is closed after that. -/
  mid_fin : d.mid.fin = true → d.first.pc.ended = true
  dst_fin : d.dst.fin = true → d.second.pc.ended = true
  first_closed : d.first.closed = true → d.mid.fin = true
  second_closed : d.second.closed = true → d.dst.fin = true
  saw_eof : d.sawEof = true → d.dst.queue = [] ∧ d.dst.fin = true
  counter : d.counter = UInt64.ofNat (d.read way)

theorem dirInv_start (way : Way) : DirInv way .start := by
  cases way <;> constructor <;>
    simp [Direction.start, Chan.empty, PumpPc.pending, PumpPc.ended, Direction.read]

section Step

variable {way : Way} {d d' : Direction}

/-- The sending end only adds at the near end of an open direction. -/
theorem DirInv.near (h : DirInv way d) (hopen : d.src.fin = false) (items : List UInt8)
    (fin : Bool) :
    DirInv way { d with src := ⟨d.src.queue ++ items, fin⟩, sent := d.sent ++ items } where
  text := by
    simp only [← h.text, List.append_assoc]
  first_ended hend := by
    -- the first loop ends only at the end of `src`, which is open
    have hfin := (h.first_ended hend).2
    rw [hopen] at hfin
    exact absurd hfin (by simp)
  second_ended := h.second_ended
  mid_fin := h.mid_fin
  dst_fin := h.dst_fin
  first_closed := h.first_closed
  second_closed := h.second_closed
  saw_eof := h.saw_eof
  counter := by
    rw [h.counter]
    cases way <;> rfl

/-- The receiving end only takes from the far end. -/
theorem DirInv.receive (h : DirInv way d) (n : ℕ) (heof : d.sawEof = false) :
    DirInv way { d with got := d.got ++ d.dst.queue.take n, dst := d.dst.drop n } := by
  have hfar : d.got ++ d.dst.queue.take n ++ d.dst.queue.drop n = d.got ++ d.dst.queue := by
    rw [List.append_assoc, List.take_append_drop]
  refine ⟨?_, h.first_ended, h.second_ended, h.mid_fin, h.dst_fin, h.first_closed,
    h.second_closed, fun hsaw => ?_, ?_⟩
  · simp only [Chan.drop_queue, hfar]
    exact h.text
  · simp [heof] at hsaw
  · rw [h.counter]
    cases way <;> simp only [Direction.read, Chan.drop_queue, hfar]

theorem DirInv.receiveEof (h : DirInv way d) (heof : d.dst.queue = [] ∧ d.dst.fin = true) :
    DirInv way { d with sawEof := true } :=
  ⟨h.text, h.first_ended, h.second_ended, h.mid_fin, h.dst_fin, h.first_closed, h.second_closed,
    fun _ => heof, by rw [h.counter]; cases way <;> rfl⟩

/-- Closing a writer comes after its loop. -/
theorem DirInv.shut (h : DirInv way d) {hop : Hop} (hend : (d.stage hop).pc.ended = true) :
    DirInv way (d.shut hop) := by
  have hread : (d.shut hop).read way = d.read way := by
    cases way <;> cases hop <;> rfl
  have hcounter : (d.shut hop).counter = UInt64.ofNat ((d.shut hop).read way) := by
    rw [hread, ← h.counter]
    cases hop <;> rfl
  cases hop with
  | first =>
    exact ⟨h.text, h.first_ended, fun hend' => ⟨(h.second_ended hend').1, rfl⟩, fun _ => hend,
      h.dst_fin, fun _ => rfl, h.second_closed, h.saw_eof, hcounter⟩
  | second =>
    exact ⟨h.text, h.first_ended, h.second_ended, h.mid_fin, fun _ => hend, h.first_closed,
      fun _ => rfl, fun hsaw => ⟨(h.saw_eof hsaw).1, rfl⟩, hcounter⟩

private theorem false_of_imp {a b : Bool} (h : a = true → b = true) (hb : b = false) :
    a = false := by
  cases a with
  | false => rfl
  | true => rw [h rfl] at hb; exact absurd hb (by simp)

/-- A loop's step moves bytes along. -/
theorem DirInv.pump (h : DirInv way d) {hop : Hop} {ev : PumpEvent} (hev : ev.faultless = true)
    (hd' : dirNext 0 way d (.pump hop ev) = some d') : DirInv way d' := by
  obtain ⟨pc, io, hpump, rfl⟩ := dirNext_pump hd'
  obtain ⟨htext, hrfin, hwfin, hrun, hend⟩ := pumpNext_spec hev hpump
  have hreads := pumpNext_bytesRead hpump
  cases hop with
  | first =>
    simp only [Direction.io, Direction.stage] at htext hrfin hwfin hrun hreads
    -- the writer is open, so the next loop is still on
    have hmid : d.mid.fin = false := false_of_imp h.mid_fin hrun
    have hsecond : d.second.pc.ended = false :=
      false_of_imp (fun hend' => (h.second_ended hend').2) hmid
    have hfirst : d.first.closed = false := false_of_imp h.first_closed hmid
    refine ⟨?_, hend, ?_, ?_, h.dst_fin, ?_, h.second_closed, h.saw_eof, ?_⟩
    · have htext' := h.text
      simp only [List.append_assoc] at htext htext'
      simp only [Direction.setPump, List.append_assoc, htext, htext']
    · simp [Direction.setPump, hsecond]
    · simp [Direction.setPump, hwfin, hmid]
    · simp [Direction.setPump, hfirst]
    · rw [h.counter, ← UInt64.ofNat_add]
      have hlen := congrArg List.length htext
      simp only [List.length_append] at hlen
      -- the first loop is the client's on the way out only, and only that one counts
      cases way with
      | out =>
        apply congrArg UInt64.ofNat
        simp only [Direction.read, Direction.setPump, DirAct.counted, Way.side, if_true,
          List.length_append]
        omega
      | back => simp [Direction.read, Direction.setPump, DirAct.counted, Way.side]
  | second =>
    simp only [Direction.io, Direction.stage] at htext hrfin hwfin hrun hreads
    -- the last writer is open, so the far end has not seen the end
    have hdst : d.dst.fin = false := false_of_imp h.dst_fin hrun
    have heof : d.sawEof = false := false_of_imp (fun hsaw => (h.saw_eof hsaw).2) hdst
    have hsecond : d.second.closed = false := false_of_imp h.second_closed hdst
    refine ⟨?_, h.first_ended, hend, ?_, ?_, ?_, ?_, ?_, ?_⟩
    · have htext' := h.text
      rw [List.append_assoc d.got, List.append_assoc d.got] at htext'
      simp only [Direction.setPump]
      rw [List.append_assoc d.got, List.append_assoc d.got, htext, htext']
    · simp only [Direction.setPump, hrfin]
      exact h.mid_fin
    · simp [Direction.setPump, hwfin, hdst]
    · simp only [Direction.setPump, hrfin]
      exact h.first_closed
    · simp [Direction.setPump, hsecond]
    · simp [Direction.setPump, heof]
    · rw [h.counter, ← UInt64.ofNat_add]
      have hlen := congrArg List.length htext
      simp only [List.length_append] at hlen
      apply congrArg UInt64.ofNat
      cases way with
      | out =>
        simp only [Direction.read, Direction.setPump, DirAct.counted, Way.side, List.length_append]
        simp
        omega
      | back =>
        simp only [Direction.read, Direction.setPump, DirAct.counted, Way.side, if_true,
          List.length_append]
        omega

/-- **One step of a direction** without a transport error keeps its invariant. -/
theorem DirInv.step (h : DirInv way d) {a : DirAct} (ha : a.faultless = true)
    (hd' : dirNext 0 way d a = some d') : DirInv way d' := by
  cases a with
  | send items =>
    simp only [dirNext] at hd'
    split at hd'
    · rename_i hopen
      cases hd'
      exact h.near hopen items d.src.fin
    · exact absurd hd' (by simp)
  | halfClose =>
    simp only [dirNext] at hd'
    split at hd'
    · rename_i hopen
      cases hd'
      have hnear := h.near hopen [] true
      simp only [List.append_nil] at hnear
      exact hnear
    · exact absurd hd' (by simp)
  | receive n =>
    simp only [dirNext] at hd'
    split at hd'
    · rename_i hn
      cases hd'
      exact h.receive n hn.2.2
    · exact absurd hd' (by simp)
  | receiveEof =>
    simp only [dirNext] at hd'
    split at hd'
    · rename_i heof
      cases hd'
      exact h.receiveEof heof
    · exact absurd hd' (by simp)
  | pump hop ev => exact h.pump ha hd'
  | close hop =>
    simp only [dirNext] at hd'
    split at hd'
    · rename_i hend
      cases hd'
      exact h.shut hend.1
    · exact absurd hd' (by simp)

/-- What a relay leaves behind when it returns is nothing. -/
theorem DirInv.dropHop_eq (h : DirInv way d) {hop : Hop} (hclosed : (d.stage hop).closed = true) :
    d.dropHop hop = d := by
  cases hop with
  | first =>
    have hfin := h.first_closed hclosed
    have hsrc := (h.first_ended (h.mid_fin hfin)).1
    simp only [Direction.dropHop, Chan.close_of_fin hfin, ← hsrc]
  | second =>
    have hfin := h.second_closed hclosed
    have hmid := (h.second_ended (h.dst_fin hfin)).1
    simp only [Direction.dropHop, Chan.close_of_fin hfin, ← hmid]

end Step

/-! ### A direction is a stream -/

section Exchange

variable {way : Way} {d d' : Direction}

/-- After the end, nothing is under way. -/
theorem DirInv.all_got (h : DirInv way d) (hsaw : d.sawEof = true) :
    d.src.fin = true ∧ d.got = d.sent := by
  -- back from the far end: each end of stream was passed on by a loop that had drained its reader
  have hdst := h.saw_eof hsaw
  have hsecond := h.dst_fin hdst.2
  have hmid := h.second_ended hsecond
  have hfirst := h.mid_fin hmid.2
  have hsrc := h.first_ended hfirst
  refine ⟨hsrc.2, ?_⟩
  have hpend : ∀ pc : PumpPc, pc.ended = true → pc.pending = [] := by
    intro pc hpc
    cases pc <;> simp_all [PumpPc.ended, PumpPc.pending]
  simp only [← h.text, hdst.1, hmid.1, hsrc.1, hpend _ hfirst, hpend _ hsecond, List.append_nil]

/-- A direction, to its two ends. -/
def exchange (d : Direction) (h : DirInv way d) : Exchange UInt8 where
  sent := d.sent
  received := d.got
  closed := d.src.fin
  ended := d.sawEof
  received_begins := by
    refine ⟨d.dst.queue ++ d.second.pc.pending ++ d.mid.queue ++ d.first.pc.pending ++
      d.src.queue, ?_⟩
    simp only [← h.text, List.append_assoc]
  ended_all := h.all_got

/-- **Refinement.** Each step of the two loops and the two ends is a step of a stream, or none. -/
theorem dirNext_exchange (h : DirInv way d) {a : DirAct} (ha : a.faultless = true)
    (hd' : dirNext 0 way d a = some d') :
    Exchange.Step (exchange d h) (exchange d' (h.step ha hd')) := by
  cases a with
  | send items =>
    simp only [dirNext] at hd'
    split at hd'
    · rename_i hopen
      cases hd'
      exact .send items hopen rfl rfl hopen rfl
    · exact absurd hd' (by simp)
  | halfClose =>
    simp only [dirNext] at hd'
    split at hd'
    · cases hd'
      exact .close rfl rfl rfl rfl
    · exact absurd hd' (by simp)
  | receive n =>
    simp only [dirNext] at hd'
    split at hd'
    · rename_i hn
      cases hd'
      exact .receive (d.dst.queue.take n) hn.2.2 rfl rfl rfl hn.2.2
    · exact absurd hd' (by simp)
  | receiveEof =>
    simp only [dirNext] at hd'
    split at hd'
    · cases hd'
      exact .finish rfl rfl rfl rfl
    · exact absurd hd' (by simp)
  | pump hop ev =>
    obtain ⟨pc, io, hpump, rfl⟩ := dirNext_pump hd'
    obtain ⟨-, hrfin, -, -, -⟩ := pumpNext_spec ha hpump
    cases hop with
    | first => exact .idle rfl rfl hrfin rfl
    | second => exact .idle rfl rfl rfl rfl
  | close hop =>
    simp only [dirNext] at hd'
    split at hd'
    · cases hd'
      cases hop with
      | first => exact .idle rfl rfl rfl rfl
      | second => exact .idle rfl rfl rfl rfl
    · exact absurd hd' (by simp)

end Exchange

/-! ### Both directions -/

/-- A forwarded connection: both directions, and which of the relays have returned. -/
structure Relays where
  out : Direction
  back : Direction
  clientReturned : Bool
  daemonReturned : Bool
deriving DecidableEq

namespace Relays

def start : Relays := ⟨.start, .start, false, false⟩

def dir (s : Relays) : Way → Direction
  | .out => s.out
  | .back => s.back

def setDir (s : Relays) (way : Way) (d : Direction) : Relays :=
  match way with
  | .out => { s with out := d }
  | .back => { s with back := d }

def returned (s : Relays) : Side → Bool
  | .client => s.clientReturned
  | .daemon => s.daemonReturned

@[simp] theorem dir_setDir_same (s : Relays) (way : Way) (d : Direction) :
    (s.setDir way d).dir way = d := by
  cases way <;> rfl

@[simp] theorem dir_setDir_other (s : Relays) (way : Way) (d : Direction) :
    (s.setDir way d).dir way.other = s.dir way.other := by
  cases way <;> rfl

@[simp] theorem returned_setDir (s : Relays) (way : Way) (d : Direction) (side : Side) :
    (s.setDir way d).returned side = s.returned side := by
  cases way <;> cases side <;> rfl

end Relays

inductive RelayAct
  | on (way : Way) (a : DirAct)
  /-- A relay's `join!` is done. -/
  | join (side : Side)
deriving DecidableEq

/-- The relay that takes a step, where one does. -/
def DirAct.side (way : Way) : DirAct → Option Side
  | .pump hop _ => some (way.side hop)
  | .close hop => some (way.side hop)
  | _ => none

/-- The loop a relay runs in a direction. -/
def Side.hop : Side → Way → Hop
  | .client, .out => .first
  | .client, .back => .second
  | .daemon, .out => .second
  | .daemon, .back => .first

/-- One step of the chained relays. -/
def relayNext (idleTimeout : ℕ) (s : Relays) : RelayAct → Option Relays
  | .on way a =>
    if (a.side way).any s.returned then none
    else (dirNext idleTimeout way (s.dir way) a).map (s.setDir way)
  | .join side =>
    if (s.out.stage (side.hop .out)).closed = true ∧ (s.back.stage (side.hop .back)).closed = true ∧
        s.returned side = false then
      some
        { out := s.out.dropHop (side.hop .out)
          back := s.back.dropHop (side.hop .back)
          clientReturned := s.clientReturned || side == .client
          daemonReturned := s.daemonReturned || side == .daemon }
    else none

def relays (idleTimeout : ℕ) : System Relays RelayAct where
  init s := s = .start
  next := relayNext idleTimeout

/-- No transport error occurs. -/
def Faultless (_ : Relays) : RelayAct → Prop
  | .on _ a => a.faultless = true
  | .join _ => True

instance (s : Relays) (a : RelayAct) : Decidable (Faultless s a) :=
  match a with
  | .on _ a => inferInstanceAs (Decidable (a.faultless = true))
  | .join _ => inferInstanceAs (Decidable True)

/-- The invariant of both directions: a relay returns when its two blocks are through. -/
structure RelayInv (s : Relays) : Prop where
  dir : ∀ way, DirInv way (s.dir way)
  returned : ∀ side, s.returned side = true → ∀ way, ((s.dir way).stage (side.hop way)).closed = true

theorem relayInv_start : RelayInv .start where
  dir way := by
    cases way <;> exact dirInv_start _
  returned side h := by
    cases side <;> exact absurd h (by simp [Relays.returned, Relays.start])

/-- Nothing is closed twice, or reopened. -/
theorem dirNext_closed {way : Way} {d d' : Direction} {a : DirAct}
    (hd' : dirNext 0 way d a = some d') {hop : Hop} (h : (d.stage hop).closed = true) :
    (d'.stage hop).closed = true := by
  cases a with
  | pump hop' ev =>
    obtain ⟨pc, io, hpump, rfl⟩ := dirNext_pump hd'
    cases hop <;> cases hop' <;> exact h
  | close hop' =>
    simp only [dirNext] at hd'
    split at hd'
    · cases hd'
      cases hop <;> cases hop' <;> first | exact h | rfl
    · exact absurd hd' (by simp)
  | _ =>
    simp only [dirNext] at hd'
    split at hd'
    · cases hd'
      cases hop <;> exact h
    · exact absurd hd' (by simp)

theorem Way.eq_or_other (way way' : Way) : way' = way ∨ way' = way.other := by
  cases way <;> cases way' <;> simp [Way.other]

section Relay

variable {s s' : Relays}

/-- A step in a direction is one of that direction, and leaves the other alone. -/
theorem relayNext_on {way : Way} {a : DirAct} (h : relayNext 0 s (.on way a) = some s') :
    ∃ d', dirNext 0 way (s.dir way) a = some d' ∧ s' = s.setDir way d' := by
  simp only [relayNext] at h
  split at h
  · exact absurd h (by simp)
  · obtain ⟨d', hd', rfl⟩ := Option.map_eq_some_iff.mp h
    exact ⟨d', hd', rfl⟩

/-- When a relay returns, both directions are through it, and nothing happens to them. -/
theorem RelayInv.join (h : RelayInv s) {side : Side} (hs' : relayNext 0 s (.join side) = some s') :
    (∀ way, s'.dir way = s.dir way) ∧
      (∀ way, ((s.dir way).stage (side.hop way)).closed = true) ∧
      ∀ side', s'.returned side' = true → s.returned side' = true ∨ side' = side := by
  simp only [relayNext] at hs'
  split at hs'
  · rename_i hjoin
    obtain ⟨hout, hback, -⟩ := hjoin
    cases hs'
    refine ⟨fun way => ?_, fun way => ?_, fun side' hret => ?_⟩
    · cases way with
      | out => exact (h.dir .out).dropHop_eq hout
      | back => exact (h.dir .back).dropHop_eq hback
    · cases way with
      | out => exact hout
      | back => exact hback
    · cases side <;> cases side' <;> simp_all [Relays.returned]
  · exact absurd hs' (by simp)

theorem RelayInv.step {a : RelayAct} (h : RelayInv s) (ha : Faultless s a)
    (hs' : relayNext 0 s a = some s') : RelayInv s' := by
  cases a with
  | on way a =>
    obtain ⟨d', hd', rfl⟩ := relayNext_on hs'
    refine ⟨fun way' => ?_, fun side hret way' => ?_⟩
    · obtain rfl | rfl := Way.eq_or_other way way'
      · rw [Relays.dir_setDir_same]
        exact (h.dir way').step ha hd'
      · rw [Relays.dir_setDir_other]
        exact h.dir way.other
    · rw [Relays.returned_setDir] at hret
      have hclosed := h.returned side hret way'
      obtain rfl | rfl := Way.eq_or_other way way'
      · rw [Relays.dir_setDir_same]
        exact dirNext_closed hd' hclosed
      · rw [Relays.dir_setDir_other]
        exact hclosed
  | join side =>
    obtain ⟨hdir, hclosed, hret⟩ := h.join hs'
    refine ⟨fun way => ?_, fun side' hret' way => ?_⟩
    · rw [hdir]
      exact h.dir way
    · rw [hdir]
      obtain hold | rfl := hret side' hret'
      · exact h.returned side' hold way
      · exact hclosed way

theorem relayInv (h : Reach (relays 0) Faultless s) : RelayInv s := by
  refine h.invariant ?_ ?_
  · rintro _ rfl
    exact relayInv_start
  · intro s a s' _ hinv ha hs'
    exact hinv.step ha hs'

/-- A relay that has returned has no step left to take. -/
theorem RelayInv.not_returned {way : Way} {a : DirAct} {d' : Direction} (h : RelayInv s)
    (ha : a.faultless = true) (hd' : dirNext 0 way (s.dir way) a = some d') :
    (a.side way).any s.returned = false := by
  have hhop : ∀ hop, s.returned (way.side hop) = true → ((s.dir way).stage hop).closed = true ∧
      ((s.dir way).stage hop).pc.ended = true := by
    intro hop hret
    have hclosed := h.returned _ hret way
    have hinv := h.dir way
    -- a relay has one loop each way, so its side tells which
    have hsame : (way.side hop).hop way = hop := by
      cases way <;> cases hop <;> rfl
    rw [hsame] at hclosed
    refine ⟨hclosed, ?_⟩
    cases hop with
    | first => exact hinv.mid_fin (hinv.first_closed hclosed)
    | second => exact hinv.dst_fin (hinv.second_closed hclosed)
  cases a with
  | pump hop ev =>
    obtain ⟨pc, io, hpump, -⟩ := dirNext_pump hd'
    obtain ⟨-, -, -, hrun, -⟩ := pumpNext_spec ha hpump
    show s.returned (way.side hop) = false
    exact false_of_imp (fun hret => (hhop hop hret).2) hrun
  | close hop =>
    simp only [dirNext] at hd'
    split at hd'
    · rename_i hend
      show s.returned (way.side hop) = false
      exact false_of_imp (fun hret => (hhop hop hret).1) hend.2
    · exact absurd hd' (by simp)
  | _ => rfl

/-! ### What a direction can still deliver -/

/-- The runs that go on from a state. -/
def goingOn (s : Relays) : System Relays RelayAct where
  init s' := s' = s
  next := relayNext 0

/-- What the receiving end of a direction can still have seen, where in that direction `C`
    happens only (nothing more is sent, say), and in the other anything does. -/
def Deliverable (C : DirAct → Prop) (s : Relays) (way : Way) : Set (List UInt8 × Bool) :=
  {seen | ∃ s', Reach (goingOn s) (fun s a => Faultless s a ∧ ∀ b, a = .on way b → C b) s' ∧
    ((s'.dir way).got, (s'.dir way).sawEof) = seen}

/-- A direction by itself. -/
def direction (way : Way) (d : Direction) : System Direction DirAct where
  init d' := d' = d
  next := dirNext 0 way

/-- What it can still deliver by itself. -/
def dirDeliverable (C : DirAct → Prop) (way : Way) (d : Direction) : Set (List UInt8 × Bool) :=
  {seen | ∃ d', Reach (direction way d) (fun _ a => a.faultless = true ∧ C a) d' ∧
    (d'.got, d'.sawEof) = seen}

/-- A run of both directions is one of each. -/
theorem reach_direction {C : DirAct → Prop} {way : Way} (h : RelayInv s)
    (hs' : Reach (goingOn s) (fun s a => Faultless s a ∧ ∀ b, a = .on way b → C b) s') :
    RelayInv s' ∧
      Reach (direction way (s.dir way)) (fun _ a => a.faultless = true ∧ C a) (s'.dir way) := by
  refine hs'.invariant (I := fun s' => RelayInv s' ∧ Reach (direction way (s.dir way))
    (fun _ a => a.faultless = true ∧ C a) (s'.dir way)) ?_ ?_
  · rintro _ rfl
    exact ⟨h, .init rfl⟩
  · rintro s₁ a s₂ - ⟨hinv, hreach⟩ ⟨ha, hC⟩ hstep
    refine ⟨hinv.step ha hstep, ?_⟩
    cases a with
    | on way' b =>
      obtain ⟨d', hd', rfl⟩ := relayNext_on hstep
      obtain rfl | rfl := Way.eq_or_other way' way
      · rw [Relays.dir_setDir_same]
        exact .step hreach ⟨ha, hC b rfl⟩ hd'
      · rw [Relays.dir_setDir_other]
        exact hreach
    | join side =>
      rw [(hinv.join hstep).1]
      exact hreach

/-- A run of one direction is a run of both. -/
theorem reach_goingOn {C : DirAct → Prop} {way : Way} {d' : Direction} (h : RelayInv s)
    (hd' : Reach (direction way (s.dir way)) (fun _ a => a.faultless = true ∧ C a) d') :
    ∃ s', Reach (goingOn s) (fun s a => Faultless s a ∧ ∀ b, a = .on way b → C b) s' ∧
      RelayInv s' ∧ s'.dir way = d' := by
  refine hd'.invariant (I := fun d' => ∃ s', Reach (goingOn s)
    (fun s a => Faultless s a ∧ ∀ b, a = .on way b → C b) s' ∧ RelayInv s' ∧ s'.dir way = d') ?_ ?_
  · rintro _ rfl
    exact ⟨s, .init rfl, h, rfl⟩
  · rintro d₁ a d₂ - ⟨s₁, hreach, hinv, rfl⟩ ⟨ha, hC⟩ hstep
    -- the other direction stands still; only a `join!` could be in the way, and it is not
    have hon : relayNext 0 s₁ (.on way a) = some (s₁.setDir way d₂) := by
      have hstep' : dirNext 0 way (s₁.dir way) a = some d₂ := hstep
      simp only [relayNext, hinv.not_returned ha hstep', hstep']
      simp
    have ha' : Faultless s₁ (.on way a) := ha
    refine ⟨s₁.setDir way d₂, .step hreach ⟨ha', ?_⟩ hon, hinv.step ha' hon,
      Relays.dir_setDir_same _ _ _⟩
    intro b hb
    cases hb
    exact hC

/-- **Independence.** What a direction can still deliver is a matter of that direction alone. -/
theorem deliverable_eq (C : DirAct → Prop) (h : RelayInv s) (way : Way) :
    Deliverable C s way = dirDeliverable C way (s.dir way) := by
  ext seen
  constructor
  · rintro ⟨s', hreach, hseen⟩
    exact ⟨s'.dir way, (reach_direction h hreach).2, hseen⟩
  · rintro ⟨d', hreach, hseen⟩
    obtain ⟨s', hs', -, rfl⟩ := reach_goingOn h hreach
    exact ⟨s', hs', hseen⟩

/-- **The chained relays are a faithful duplex stream.** In every run without transport errors
    and with no idle timeout: either end has received a prefix of what the other sent; it sees
    the end only when the other has half-closed and all of it has arrived; a half-close, and its
    propagation by either relay, changes nothing of what the opposite direction can still deliver;
    and the client's counters are the bytes its loops have read.  By themselves, with any timeout
    and in any surroundings, the counting loop does what the plain one does. -/
theorem relay_delivers (h : Reach (relays 0) Faultless s) :
    (∀ way,
      (s.dir way).got <+: (s.dir way).sent ∧
      ((s.dir way).sawEof = true →
        (s.dir way).src.fin = true ∧ (s.dir way).got = (s.dir way).sent) ∧
      (∀ a s', a = .halfClose ∨ (∃ hop, a = .close hop) →
        relayNext 0 s (.on way a) = some s' →
        ∀ C, Deliverable C s' way.other = Deliverable C s way.other) ∧
      (s.dir way).counter = UInt64.ofNat ((s.dir way).read way)) ∧
    ∀ (idleTimeout : ℕ) (pc : PumpPc) (counter : UInt64) (io : PumpIo) (acts : List PumpAct),
      exec (pumpCounted idleTimeout) (fun _ _ => true) ((pc, counter), io) acts =
        (exec (pump idleTimeout) (fun _ _ => true) (pc, io) acts).map
          (fun r => ((r.1, counter + UInt64.ofNat (bytesRead acts)), r.2)) := by
  have hinv := relayInv h
  refine ⟨fun way => ⟨?_, ?_, ?_, (hinv.dir way).counter⟩, exec_pumpCounted⟩
  · exact (exchange (s.dir way) (hinv.dir way)).received_begins
  · exact (exchange (s.dir way) (hinv.dir way)).ended_all
  · intro a s' hclose hs' C
    have ha : Faultless s (.on way a) := by
      obtain rfl | ⟨hop, rfl⟩ := hclose <;> rfl
    have hinv' := hinv.step ha hs'
    obtain ⟨d', -, rfl⟩ := relayNext_on hs'
    -- both sides are about the other direction, which the step does not touch
    rw [deliverable_eq C hinv', deliverable_eq C hinv, Relays.dir_setDir_other]

/-- A local app sends two bytes and half-closes; the target gets them one by one and sees the
    end, and still answers. -/
def halfClosedRun : List RelayAct :=
  [.on .out (.send [7, 8]), .on .out .halfClose,
    .on .out (.pump .first (.read 2)), .on .out (.pump .first (.wrote 2)),
    .on .out (.pump .first .flushed), .on .out (.pump .first .readEof), .on .out (.close .first),
    .on .out (.pump .second (.read 1)), .on .out (.pump .second (.wrote 1)),
    .on .out (.pump .second .flushed), .on .out (.pump .second (.read 1)),
    .on .out (.pump .second (.wrote 1)), .on .out (.receive 2),
    .on .out (.pump .second .flushed), .on .out (.pump .second .readEof),
    .on .out (.close .second), .on .out .receiveEof,
    .on .back (.send [9]), .on .back (.pump .first (.read 1))]

theorem relay_delivers_half_closed : ∃ s : Relays, Reach (relays 0) Faultless s ∧
    (s.out.got, s.out.sawEof, s.out.counter, s.back.first.pc) =
      ([7, 8], true, 2, PumpPc.write [9]) ∧
    (s.dir .out).src.fin = true ∧ (s.dir .out).got = (s.dir .out).sent := by
  have hrun : (exec (relays 0) (fun s a => decide (Faultless s a)) .start halfClosedRun).map
      (fun s => (s.out.got, s.out.sawEof, s.out.counter, s.back.first.pc)) =
        some ([7, 8], true, 2, .write [9]) := by decide +kernel
  obtain ⟨s, hs, hview⟩ := reach_of_exec_map (fun _ _ => of_decide_eq_true) hrun (.init rfl)
  have hsaw : (s.dir .out).sawEof = true := congrArg (fun v => v.2.1) hview
  exact ⟨s, hs, hview, ((relay_delivers hs).1 .out).2.1 hsaw⟩

end Relay

end Tmite.Relay
