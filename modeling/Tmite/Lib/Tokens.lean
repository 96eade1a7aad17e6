import Mathlib.Data.List.Basic

namespace Tokens

/-!
# Tokens of a list

The maximal non-empty runs of a list without separators, as a `split` that drops empty pieces
finds them.  The lemmas peel a list from the left: separators are skipped, and a run that a
separator or the end follows is the next token.
-/

universe u
variable {α : Type u} {sep : α → Bool}

/-- The non-empty pieces between separators. -/
def tokens (sep : α → Bool) (l : List α) : List (List α) :=
  (l.splitOnP sep).filter (fun w => !w.isEmpty)

@[simp] theorem tokens_nil : tokens sep ([] : List α) = [] := by
  simp [tokens]

theorem tokens_cons_sep {a : α} (ha : sep a = true) (l : List α) :
    tokens sep (a :: l) = tokens sep l := by
  have hsplit := List.splitOnP_append_cons (p := sep) [] l ha
  rw [List.nil_append] at hsplit
  rw [tokens, hsplit, List.filter_append, List.splitOnP_nil]
  simp [tokens]

/-- Separators in front are skipped. -/
theorem tokens_append_of_seps {s : List α} (hs : ∀ x ∈ s, sep x = true) (l : List α) :
    tokens sep (s ++ l) = tokens sep l := by
  induction s with
  | nil => rfl
  | cons a s ih =>
    rw [List.cons_append, tokens_cons_sep (hs a List.mem_cons_self)]
    exact ih (fun x hx => hs x (List.mem_cons_of_mem a hx))

theorem tokens_of_seps {s : List α} (hs : ∀ x ∈ s, sep x = true) : tokens sep s = [] := by
  have h := tokens_append_of_seps hs []
  rwa [List.append_nil, tokens_nil] at h

/-- A run that a separator or the end follows is a token. -/
theorem tokens_append_word {w rest : List α} (hne : w ≠ []) (hw : ∀ x ∈ w, sep x = false)
    (hrest : ∀ a ∈ rest.head?, sep a = true) :
    tokens sep (w ++ rest) = w :: tokens sep rest := by
  have hkeep : w.isEmpty = false := by simpa using hne
  cases rest with
  | nil =>
    rw [List.append_nil, tokens, List.splitOnP_eq_singleton hw]
    simp [hkeep]
  | cons a rest =>
    have ha : sep a = true := hrest a rfl
    rw [tokens_cons_sep ha, tokens, List.splitOnP_append_cons_of_forall_mem hw a ha,
      List.filter_cons_of_pos (by simp [hkeep])]
    rfl

theorem ne_nil_of_mem_tokens {l w : List α} (h : w ∈ tokens sep l) : w ≠ [] := by
  have hkeep := (List.mem_filter.mp h).2
  simpa using hkeep

/-! ### Joined words -/

/-- Words that a separator can part: not empty, and without separators. -/
def Word (sep : α → Bool) (w : List α) : Prop := w ≠ [] ∧ ∀ x ∈ w, sep x = false

/-- Words joined by a separator are the tokens of what they are joined to. -/
theorem tokens_intercalate {a : α} (ha : sep a = true) {ws : List (List α)}
    (hws : ∀ w ∈ ws, Word sep w) {rest : List α} (hrest : ∀ x ∈ rest.head?, sep x = true) :
    tokens sep ([a].intercalate ws ++ rest) = ws ++ tokens sep rest := by
  induction ws with
  | nil => rfl
  | cons w ws ih =>
    obtain ⟨hne, hw⟩ := hws w List.mem_cons_self
    cases ws with
    | nil =>
      rw [List.intercalate_singleton, tokens_append_word hne hw hrest]
      rfl
    | cons w' ws =>
      have hrec := ih (fun v hv => hws v (List.mem_cons_of_mem w hv))
      have hjoin : [a].intercalate (w :: w' :: ws) ++ rest =
          w ++ a :: ([a].intercalate (w' :: ws) ++ rest) := by
        simp [List.intercalate]
      rw [hjoin, tokens_append_word hne hw (by simp [ha]), tokens_cons_sep ha, hrec]
      rfl

end Tokens
