import Mathlib.Data.List.Basic

namespace TaskList

/-!
# Lists of tasks

A system that spawns tasks keeps them in a list: a task keeps its index, a move replaces one
entry (`set`) and a spawn appends one.  These lemmas say where an entry of the new list comes
from and how the number of tasks in some position changes; `OneHolder` is a lock, or a slot, that
one task holds while a flag is set.
-/

universe u
variable {α : Type u} {l : List α} {i j : ℕ} {a b x : α}

/-! ### Where an entry comes from -/

/-- After task `i` moved, an entry is the moved one or an old one elsewhere. -/
theorem getElem?_set_cases (h : (l.set i b)[j]? = some x) :
    i = j ∧ x = b ∨ i ≠ j ∧ l[j]? = some x := by
  by_cases hij : i = j
  · subst hij
    obtain ⟨hlt, hx⟩ := List.getElem?_eq_some_iff.mp h
    rw [List.getElem_set_self] at hx
    exact .inl ⟨rfl, hx.symm⟩
  · rw [List.getElem?_set_ne hij] at h
    exact .inr ⟨hij, h⟩

/-- After a spawn, an entry is an old one or the new one. -/
theorem getElem?_concat_cases (h : (l ++ [b])[i]? = some x) :
    l[i]? = some x ∨ i = l.length ∧ x = b := by
  rw [List.getElem?_append] at h
  split at h
  · exact .inl h
  · rw [List.getElem?_singleton] at h
    split at h
    · exact .inr ⟨by omega, (Option.some.inj h).symm⟩
    · exact absurd h (by simp)

/-- A spawn leaves the old entries where they are. -/
theorem getElem?_concat_of_some (h : l[i]? = some x) : (l ++ [b])[i]? = some x := by
  obtain ⟨hi, -⟩ := List.getElem?_eq_some_iff.mp h
  rw [List.getElem?_append_left hi]
  exact h

/-! ### Who is in the list -/

/-- Someone in the list is task `i`, or someone else. -/
theorem exists_mem_split {P : α → Prop} (h : l[i]? = some a) :
    (∃ x ∈ l, P x) ↔ P a ∨ ∃ j x, i ≠ j ∧ l[j]? = some x ∧ P x := by
  constructor
  · rintro ⟨x, hx, hP⟩
    obtain ⟨j, hj⟩ := List.mem_iff_getElem?.mp hx
    by_cases hij : i = j
    · subst hij
      rw [h] at hj
      cases hj
      exact .inl hP
    · exact .inr ⟨j, x, hij, hj, hP⟩
  · rintro (hP | ⟨j, x, -, hj, hP⟩)
    · exact ⟨a, List.mem_of_getElem? h, hP⟩
    · exact ⟨x, List.mem_of_getElem? hj, hP⟩

/-- The same after task `i` moved. -/
theorem exists_mem_set {P : α → Prop} (h : l[i]? = some a) :
    (∃ x ∈ l.set i b, P x) ↔ P b ∨ ∃ j x, i ≠ j ∧ l[j]? = some x ∧ P x := by
  have hset : (l.set i b)[i]? = some b := by
    rw [List.getElem?_set_self (List.getElem?_eq_some_iff.mp h).1]
  rw [exists_mem_split hset]
  refine or_congr_right ⟨?_, ?_⟩
  · rintro ⟨j, x, hij, hj, hP⟩
    rw [List.getElem?_set_ne hij] at hj
    exact ⟨j, x, hij, hj, hP⟩
  · rintro ⟨j, x, hij, hj, hP⟩
    exact ⟨j, x, hij, by rw [List.getElem?_set_ne hij]; exact hj, hP⟩

/-- A task of the old list is in the new one, or is the one that moved. -/
theorem mem_set_or_eq (h : l[i]? = some a) (hx : x ∈ l) : x ∈ l.set i b ∨ x = a := by
  obtain ⟨j, hj⟩ := List.mem_iff_getElem?.mp hx
  by_cases hij : i = j
  · subst hij
    rw [h] at hj
    exact .inr (Option.some.inj hj).symm
  · refine .inl (List.mem_of_getElem? (i := j) ?_)
    rw [List.getElem?_set_ne hij]
    exact hj

/-- What a move leaves alone, it leaves alone all over the list. -/
theorem map_set_of_eq {β : Type*} {f : α → β} (h : l[i]? = some a) (hf : f b = f a) :
    (l.set i b).map f = l.map f := by
  obtain ⟨hi, rfl⟩ := List.getElem?_eq_some_iff.mp h
  rw [List.map_set, hf, ← List.map_set, List.set_getElem_self]

/-! ### Counting -/

/-- A move changes a count by what the task gains and what it loses. -/
theorem countP_set_add (p : α → Bool) (h : l[i]? = some a) :
    (l.set i b).countP p + (if p a then 1 else 0) = l.countP p + (if p b then 1 else 0) := by
  obtain ⟨hi, rfl⟩ := List.getElem?_eq_some_iff.mp h
  rw [List.countP_set hi]
  by_cases hp : p l[i] = true
  · have hpos : 0 < l.countP p := List.countP_pos_iff.mpr ⟨l[i], List.getElem_mem hi, hp⟩
    simp only [hp, if_true]
    omega
  · simp only [hp, Bool.false_eq_true, if_false]
    omega

/-- If at most one task is in some position, two indices of such tasks coincide. -/
theorem index_unique {p : α → Bool} :
    ∀ {l : List α}, l.countP p ≤ 1 → ∀ {i j : ℕ} {a b : α}, l[i]? = some a → l[j]? = some b →
      p a = true → p b = true → i = j
  | [], _, i, _, _, _, hi, _, _, _ => by simp at hi
  | x :: l, hle, i, j, a, b, hi, hj, ha, hb => by
    rw [List.countP_cons] at hle
    cases i with
    | zero =>
      cases j with
      | zero => rfl
      | succ j =>
        have hx : p x = true := by
          simp only [List.getElem?_cons_zero, Option.some.injEq] at hi
          rw [hi]; exact ha
        have hpos : 0 < l.countP p :=
          List.countP_pos_iff.mpr ⟨b, List.mem_of_getElem? (by simpa using hj), hb⟩
        rw [if_pos hx] at hle
        omega
    | succ i =>
      cases j with
      | zero =>
        have hx : p x = true := by
          simp only [List.getElem?_cons_zero, Option.some.injEq] at hj
          rw [hj]; exact hb
        have hpos : 0 < l.countP p :=
          List.countP_pos_iff.mpr ⟨a, List.mem_of_getElem? (by simpa using hi), ha⟩
        rw [if_pos hx] at hle
        omega
      | succ j =>
        have hrec := index_unique (l := l) (by omega) (by simpa using hi) (by simpa using hj)
          ha hb
        rw [hrec]

/-! ### One holder -/

/-- What the flag `held` is for has one holder if it is set, and none if it is not. -/
def OneHolder (p : α → Bool) (l : List α) (held : Bool) : Prop :=
  l.countP p = if held then 1 else 0

namespace OneHolder

variable {p : α → Bool} {held : Bool}

theorem held_of_holds (h : OneHolder p l held) (hi : l[i]? = some a) (ha : p a = true) :
    held = true := by
  have hpos : 0 < l.countP p := List.countP_pos_iff.mpr ⟨a, List.mem_of_getElem? hi, ha⟩
  by_contra hfree
  rw [OneHolder, if_neg hfree] at h
  omega

theorem unique (h : OneHolder p l held) (hi : l[i]? = some a) (hj : l[j]? = some b)
    (ha : p a = true) (hb : p b = true) : i = j := by
  refine index_unique ?_ hi hj ha hb
  rw [OneHolder] at h
  split at h <;> omega

/-- A move that does not bear on it. -/
theorem keep (h : OneHolder p l held) (hi : l[i]? = some a) (hab : p b = p a) :
    OneHolder p (l.set i b) held := by
  have hset := countP_set_add (b := b) p hi
  rw [hab] at hset
  show (l.set i b).countP p = if held then 1 else 0
  rw [← h]
  omega

/-- A task takes what nobody holds. -/
theorem take (h : OneHolder p l false) (hi : l[i]? = some a) (ha : p a = false)
    (hb : p b = true) : OneHolder p (l.set i b) true := by
  have hset := countP_set_add (b := b) p hi
  have hnone : l.countP p = 0 := h
  rw [if_neg (by simp [ha]), if_pos hb] at hset
  show (l.set i b).countP p = 1
  omega

/-- The holder lets go. -/
theorem drop (h : OneHolder p l held) (hi : l[i]? = some a) (ha : p a = true)
    (hb : p b = false) : OneHolder p (l.set i b) false := by
  have hset := countP_set_add (b := b) p hi
  have hheld := h.held_of_holds hi ha
  rw [OneHolder, if_pos hheld] at h
  rw [if_pos ha, if_neg (by simp [hb])] at hset
  show (l.set i b).countP p = 0
  omega

/-- A task is spawned that does not hold it. -/
theorem concat (h : OneHolder p l held) (hb : p b = false) : OneHolder p (l ++ [b]) held := by
  show (l ++ [b]).countP p = if held then 1 else 0
  rw [List.countP_append, h]
  simp [hb]

end OneHolder

end TaskList
