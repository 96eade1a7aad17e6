import Mathlib.Data.List.Induction
import Mathlib.Data.Set.Insert

namespace GrantHistory

/-!
# Access as a history of grants

What an exact-match access list is for, over arbitrary principals and targets: a set of pairs
that grows by grants and shrinks by revocations and by dropping a principal.  `mem_granted_iff`
reads membership off the history: granted at some point and not taken back since.
-/

universe u v
variable {P : Type u} {T : Type v}

/-- One entry of the history; `other` is anything with no bearing on access. -/
inductive Event (P : Type u) (T : Type v)
  | grant (p : P) (t : T)
  | revoke (p : P) (t : T)
  | drop (p : P)
  | other

/-- The event takes `(p, t)` away. -/
def Event.Removes (p : P) (t : T) : Event P T → Prop
  | .revoke p' t' => p' = p ∧ t' = t
  | .drop p' => p' = p
  | _ => False

/-- The access list after one event. -/
def apply (acl : Set (P × T)) : Event P T → Set (P × T)
  | .grant p t => insert (p, t) acl
  | .revoke p t => { x ∈ acl | x ≠ (p, t) }
  | .drop p => { x ∈ acl | x.1 ≠ p }
  | .other => acl

/-- The access list a history leads to, from the empty one. -/
def granted (evs : List (Event P T)) : Set (P × T) := evs.foldl apply ∅

@[simp] theorem granted_nil : granted ([] : List (Event P T)) = ∅ := rfl

@[simp] theorem granted_concat (evs : List (Event P T)) (e : Event P T) :
    granted (evs ++ [e]) = apply (granted evs) e := by
  simp [granted, List.foldl_append]

/-- What one event makes of one pair. -/
theorem mem_apply_iff (acl : Set (P × T)) (e : Event P T) (p : P) (t : T) :
    (p, t) ∈ apply acl e ↔ e = .grant p t ∨ (p, t) ∈ acl ∧ ¬ e.Removes p t := by
  cases e with
  | grant p' t' =>
    simp only [apply, Set.mem_insert_iff, Prod.mk.injEq, Event.grant.injEq, Event.Removes,
      not_false_eq_true, and_true]
    rw [eq_comm (a := p), eq_comm (a := t)]
  | revoke p' t' =>
    simp only [apply, Set.mem_ofPred_eq, ne_eq, Prod.mk.injEq, reduceCtorEq, Event.Removes,
      false_or]
    rw [eq_comm (a := p), eq_comm (a := t)]
  | drop p' =>
    simp only [apply, Set.mem_ofPred_eq, ne_eq, reduceCtorEq, Event.Removes, false_or]
    rw [eq_comm (a := p)]
  | other => simp [apply, Event.Removes]

/-- **History rule.** A pair has access exactly when it was granted and nothing after the
    grant took it away. -/
theorem mem_granted_iff (evs : List (Event P T)) (p : P) (t : T) :
    (p, t) ∈ granted evs ↔
      ∃ pre post, evs = pre ++ .grant p t :: post ∧ ∀ e ∈ post, ¬ e.Removes p t := by
  induction evs using List.reverseRecOn with
  | nil => simp
  | append_singleton evs e ih =>
    rw [granted_concat, mem_apply_iff, ih]
    constructor
    · rintro (rfl | ⟨⟨pre, post, rfl, hpost⟩, he⟩)
      · exact ⟨evs, [], rfl, by simp⟩
      · refine ⟨pre, post ++ [e], by simp, fun e' he' => ?_⟩
        rcases List.mem_append.mp he' with he' | he'
        · exact hpost e' he'
        · rw [List.mem_singleton.mp he']; exact he
    · rintro ⟨pre, post, hsplit, hpost⟩
      -- the grant is the last event, or it stands before it
      rcases List.eq_nil_or_concat post with rfl | ⟨post, e', rfl⟩
      · exact .inl (List.cons.inj (List.append_inj' hsplit rfl).2).1
      · rw [List.concat_eq_append, ← List.cons_append, ← List.append_assoc] at hsplit
        obtain ⟨hpre, he⟩ := List.append_inj' hsplit rfl
        rw [List.cons.injEq] at he
        refine .inr ⟨⟨pre, post, hpre, fun e'' he'' => hpost e'' (by simp [he''])⟩, ?_⟩
        rw [he.1]
        exact hpost e' (by simp)

end GrantHistory
