import Mathlib.Data.List.Nodup

namespace FifoLock

/-!
# A lock that is handed on in order

A lock with a queue: the first in it has the lock, or is the one to get it, and the others wait.
Tasks join at the end and leave from the front (`Turn`), so whoever has joined behind some tasks
stays behind what is left of them, and nobody comes in between (`Behind`).
-/

universe u
variable {ι : Type u} {q q' : List ι} {i : ι}

/-- What one step may do to the queue. -/
inductive Turn : List ι → List ι → Prop
  | stay (q : List ι) : Turn q q
  | join {q : List ι} {i : ι} : i ∉ q → Turn q (q ++ [i])
  | leave (i : ι) (q : List ι) : Turn (i :: q) q

/-- Nobody queues twice. -/
theorem Turn.nodup (h : Turn q q') (hq : q.Nodup) : q'.Nodup := by
  cases h with
  | stay => exact hq
  | join hi => exact List.nodup_append_comm.mp (List.nodup_cons.mpr ⟨hi, hq⟩)
  | leave i => exact (List.nodup_cons.mp hq).2

/-- `i` has joined behind `ahead`: of those the last are still before it, and nobody else. -/
def Behind (i : ι) (ahead q : List ι) : Prop := ∃ k later, q = ahead.drop k ++ i :: later

theorem behind_join (i : ι) (q : List ι) : Behind i q (q ++ [i]) := ⟨0, [], rfl⟩

/-- **Nobody overtakes.**  As long as it has not left, it is behind the last of the same tasks. -/
theorem Turn.behind (h : Turn q q') (hq : q.Nodup) {ahead : List ι} (hb : Behind i ahead q)
    (hi : i ∈ q') : Behind i ahead q' := by
  cases h with
  | stay => exact hb
  | @join _ j hj =>
    obtain ⟨k, later, rfl⟩ := hb
    exact ⟨k, later ++ [j], by rw [List.append_assoc, List.cons_append]⟩
  | leave j =>
    obtain ⟨k, later, hsplit⟩ := hb
    cases hdrop : ahead.drop k with
    | nil =>
      -- it was its own turn, and it does not queue twice
      rw [hdrop, List.nil_append] at hsplit
      obtain ⟨rfl, rfl⟩ := List.cons.inj hsplit
      exact absurd hi (List.nodup_cons.mp hq).1
    | cons x rest =>
      rw [hdrop, List.cons_append] at hsplit
      obtain ⟨-, rfl⟩ := List.cons.inj hsplit
      refine ⟨k + 1, later, ?_⟩
      rw [← List.tail_drop, hdrop, List.tail_cons]

end FifoLock
