import Tmite.Proto.Limits

namespace Tmite.Core

open Tmite.Proto

/-!
# The reject delay (`RejectDelay`, `net.rs`)

What an endpoint sleeps before it deals with the next connection: 500 ms, doubled by every
rejected attempt up to 8 s, back to 500 ms after a success.
-/

/-- `RejectDelay`, in milliseconds. -/
structure RejectDelay where
  current : ℕ
deriving DecidableEq, Repr

namespace RejectDelay

/-- `RejectDelay::new`. -/
def new : RejectDelay := ⟨rejectDelayInitial⟩

/-- `RejectDelay::delay`. -/
def delay (d : RejectDelay) : ℕ := d.current

/-- `RejectDelay::escalate`. -/
def escalate (d : RejectDelay) : RejectDelay := ⟨min (d.current * 2) rejectDelayMax⟩

/-- `RejectDelay::reset`. -/
def reset (_ : RejectDelay) : RejectDelay := ⟨rejectDelayInitial⟩

end RejectDelay

end Tmite.Core
