import Mathlib.Data.List.Basic

namespace Keyed

/-!
# Folds over a map, key by key

A step that reads and writes its own key only, `Local`, leaves under each key what the entries
with that key leave there, whatever comes in between.
-/

universe u v w
variable {κ : Type u} {α : Type v} {β : Type w}

/-- The step changes the map under the entry's key, and changes it by `one`. -/
structure Local (key : α → κ) (step : (κ → β) → α → κ → β) (one : β → α → β) : Prop where
  own : ∀ m a, step m a (key a) = one (m (key a)) a
  other : ∀ m a k, k ≠ key a → step m a k = m k

variable [DecidableEq κ] {key : α → κ} {step : (κ → β) → α → κ → β} {one : β → α → β}

/-- **Key by key.** What a fold leaves under a key is what the entries with that key do to it. -/
theorem Local.foldl_apply (h : Local key step one) (m : κ → β) (l : List α) (k : κ) :
    l.foldl step m k = (l.filter (fun a => key a = k)).foldl one (m k) := by
  induction l generalizing m with
  | nil => rfl
  | cons a l ih =>
    rw [List.foldl_cons, ih]
    by_cases hk : key a = k
    · subst hk
      rw [List.filter_cons_of_pos (by simp), List.foldl_cons, h.own]
    · rw [List.filter_cons_of_neg (by simpa using hk), h.other m a k (Ne.symm hk)]

end Keyed
