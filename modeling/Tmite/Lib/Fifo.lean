import Mathlib.Data.List.Infix

namespace Fifo

/-!
# Byte pipes and what they are for

`Chan` is one hop of a stream: the items written and not yet read, and whether the writing side
is shut down.  `Exchange` is what a stream is to its two ends, however many hops it has: the
items sent and received so far, the first always a continuation of the second, and an end that
is only seen after all of them.  `Exchange.Step` is what may happen to it.
-/

universe u
variable {α : Type u}

/-! ### One hop -/

structure Chan (α : Type u) where
  queue : List α
  fin : Bool
deriving DecidableEq

namespace Chan

/-- Nothing written, and open. -/
def empty : Chan α := ⟨[], false⟩

def push (c : Chan α) (items : List α) : Chan α := { c with queue := c.queue ++ items }

def drop (c : Chan α) (n : ℕ) : Chan α := { c with queue := c.queue.drop n }

def close (c : Chan α) : Chan α := { c with fin := true }

@[simp] theorem push_queue (c : Chan α) (items : List α) :
    (c.push items).queue = c.queue ++ items := rfl

@[simp] theorem push_fin (c : Chan α) (items : List α) : (c.push items).fin = c.fin := rfl

@[simp] theorem drop_queue (c : Chan α) (n : ℕ) : (c.drop n).queue = c.queue.drop n := rfl

@[simp] theorem drop_fin (c : Chan α) (n : ℕ) : (c.drop n).fin = c.fin := rfl

@[simp] theorem close_queue (c : Chan α) : c.close.queue = c.queue := rfl

@[simp] theorem close_fin (c : Chan α) : c.close.fin = true := rfl

theorem close_of_fin {c : Chan α} (h : c.fin = true) : c.close = c := by
  cases c
  cases h
  rfl

end Chan

/-! ### End to end -/

/-- A stream as its two ends know it. -/
structure Exchange (α : Type u) where
  sent : List α
  received : List α
  /-- The sender has half-closed. -/
  closed : Bool
  /-- The receiver has seen the end. -/
  ended : Bool
  received_begins : received <+: sent
  ended_all : ended = true → closed = true ∧ received = sent

/-- What may happen to it. -/
inductive Exchange.Step : Exchange α → Exchange α → Prop
  | idle {x y : Exchange α} : y.sent = x.sent → y.received = x.received → y.closed = x.closed →
      y.ended = x.ended → Step x y
  | send {x y : Exchange α} (items : List α) : x.closed = false → y.sent = x.sent ++ items →
      y.received = x.received → y.closed = false → y.ended = x.ended → Step x y
  | close {x y : Exchange α} : y.sent = x.sent → y.received = x.received → y.closed = true →
      y.ended = x.ended → Step x y
  | receive {x y : Exchange α} (items : List α) : x.ended = false → y.sent = x.sent →
      y.received = x.received ++ items → y.closed = x.closed → y.ended = false → Step x y
  | finish {x y : Exchange α} : y.sent = x.sent → y.received = x.received →
      y.closed = x.closed → y.ended = true → Step x y

end Fifo
