import Mathlib.Algebra.Order.Group.Nat

namespace Timed

/-!
# Futures and deadlines

As far as time goes, a future is when it becomes ready and with what.  `timeout` bounds one by a
duration and is over by then (`timeout_fst_le`), so of nested deadlines the earlier one decides:
around a future that is over in time, an outer deadline does nothing (`timeout_of_le`).
-/

universe u
variable {α : Type u}

/-- `some (t, a)` is ready at `t` with `a`; `none` never is. -/
abbrev Future (α : Type u) := Option (ℕ × α)

/-- The future under a deadline: when it is over, and its value if it was ready by then.  A value
    that is ready at the deadline counts. -/
def timeout (d : ℕ) : Future α → ℕ × Option α
  | some (t, a) => if t ≤ d then (t, some a) else (d, none)
  | none => (d, none)

theorem timeout_of_le {d t : ℕ} (h : t ≤ d) (a : α) : timeout d (some (t, a)) = (t, some a) :=
  if_pos h

theorem timeout_of_lt {d t : ℕ} (h : d < t) (a : α) : timeout d (some (t, a)) = (d, none) :=
  if_neg (Nat.not_le.mpr h)

theorem timeout_fst_le (d : ℕ) (f : Future α) : (timeout d f).1 ≤ d := by
  match f with
  | none => exact Nat.le_refl d
  | some (t, a) =>
    by_cases ht : t ≤ d
    · rw [timeout_of_le ht]
      exact ht
    · rw [timeout_of_lt (Nat.not_le.mp ht)]

end Timed
