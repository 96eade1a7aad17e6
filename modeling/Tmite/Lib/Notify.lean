import Mathlib.Data.List.Basic

/-!
# Broadcast without a memory

`Notify` as tokio documents it for `notify_waiters`: a `notified()` future is woken by the first
call after the future was made, polled or not, and a call leaves nothing behind for the futures
that are made after it.
-/

/-- The futures that were made, and which of them are woken. -/
structure Notify where
  futures : List Bool
deriving DecidableEq, Repr

namespace Notify

def new : Notify := ⟨[]⟩

/-- `notified()`, with the future it returns. -/
def notified (n : Notify) : Notify × ℕ := (⟨n.futures ++ [false]⟩, n.futures.length)

/-- `notify_waiters()`. -/
def notifyWaiters (n : Notify) : Notify := ⟨n.futures.map fun _ => true⟩

/-- The future was made. -/
def Made (n : Notify) (f : ℕ) : Prop := f < n.futures.length

def woken (n : Notify) (f : ℕ) : Bool := n.futures[f]?.getD false

variable {n : Notify} {f : ℕ}

theorem made_notified_self (n : Notify) : n.notified.1.Made n.notified.2 := by
  simp [Made, notified]

/-- A new future is not woken, whatever was signalled before. -/
@[simp] theorem woken_notified_self (n : Notify) : n.notified.1.woken n.notified.2 = false := by
  simp [woken, notified]

theorem Made.notified (h : n.Made f) : n.notified.1.Made f := by
  simp only [Made, Notify.notified, List.length_append] at h ⊢
  omega

/-- A new future changes nothing for the others. -/
theorem Made.woken_notified (h : n.Made f) : n.notified.1.woken f = n.woken f := by
  simp only [woken, Notify.notified]
  rw [List.getElem?_append_left h]

@[simp] theorem made_notifyWaiters : n.notifyWaiters.Made f ↔ n.Made f := by
  simp [Made, notifyWaiters]

/-- Everyone who waits is woken. -/
theorem Made.woken_notifyWaiters (h : n.Made f) : n.notifyWaiters.woken f = true := by
  have hlt : f < n.futures.length := h
  simp [woken, notifyWaiters, hlt]

end Notify
