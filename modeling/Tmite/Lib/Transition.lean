import Mathlib.Data.List.Induction
import Mathlib.Order.Basic

namespace Transition

/-!
# Runs, guarded reachability and invariants

Two kinds of state machine, over arbitrary state, label and output types:

* `Machine` — total and deterministic, with an output per step; `run` and `trace` fold it
  over a list of inputs.
* `System` — partial labelled steps (`none` where a label is not enabled), for tasks that
  interleave.  `Reach M C` is what its runs reach when every step taken meets the guard `C`;
  the guard carries assumptions on the environment, or the condition a result holds under.

`Machine.run_invariant` and `Reach.invariant` turn a step lemma into a run lemma, `Reach.progress`
one about what is left to do into an end that is reached;
`reach_of_exec` turns an evaluated schedule into a reachable state, with a guard tested as it goes.
-/

universe u v w
variable {σ : Type u} {α : Type v} {β : Type w}

/-! ### Deterministic machines with outputs -/

/-- A machine that answers every input in every state. -/
structure Machine (σ : Type u) (α : Type v) (β : Type w) where
  step : σ → α → σ × β

namespace Machine

variable (M : Machine σ α β)

/-- The state after a list of inputs. -/
def run (s : σ) (as : List α) : σ := as.foldl (fun s a => (M.step s a).1) s

/-- The inputs with the outputs they got, in order. -/
def trace : σ → List α → List (α × β)
  | _, [] => []
  | s, a :: as => (a, (M.step s a).2) :: trace (M.step s a).1 as

@[simp] theorem run_nil (s : σ) : M.run s [] = s := rfl

@[simp] theorem run_cons (s : σ) (a : α) (as : List α) :
    M.run s (a :: as) = M.run (M.step s a).1 as := rfl

@[simp] theorem run_append (s : σ) (as bs : List α) :
    M.run s (as ++ bs) = M.run (M.run s as) bs := by
  simp [run, List.foldl_append]

/-- The last input of a run is answered in the state the others lead to. -/
theorem trace_append (s : σ) (as bs : List α) :
    M.trace s (as ++ bs) = M.trace s as ++ M.trace (M.run s as) bs := by
  induction as generalizing s with
  | nil => rfl
  | cons a as ih => simp only [List.cons_append, trace, run_cons, ih]

/-- **Run rule.** What every admissible step keeps, every run of admissible steps keeps.
    The guard may look at the state the step starts from. -/
theorem run_invariant {I : σ → Prop} {C : σ → α → Prop}
    (hstep : ∀ s a, I s → C s a → I (M.step s a).1) {s : σ} (hs : I s) :
    ∀ as : List α, (∀ pre a post, as = pre ++ a :: post → C (M.run s pre) a) →
      I (M.run s as) := by
  intro as
  induction as using List.reverseRecOn with
  | nil => intro _; exact hs
  | append_singleton as a ih =>
    intro hC
    rw [run_append, run_cons, run_nil]
    refine hstep _ _ (ih ?_) (hC as a [] rfl)
    intro pre b post hsplit
    exact hC pre b (post ++ [a]) (by simp [hsplit])

/-- The run rule for a guard on the inputs alone. -/
theorem run_invariant_of_forall {I : σ → Prop} {P : α → Prop}
    (hstep : ∀ s a, I s → P a → I (M.step s a).1) {s : σ} (hs : I s) (as : List α)
    (hP : ∀ a ∈ as, P a) : I (M.run s as) :=
  M.run_invariant (C := fun _ a => P a) hstep hs as
    (fun pre a post hsplit => hP a (by simp [hsplit]))

end Machine

/-! ### Systems of interleaved steps -/

/-- A labelled transition system with partial steps. -/
structure System (σ : Type u) (α : Type v) where
  init : σ → Prop
  next : σ → α → Option σ

/-- The states `M` reaches when every step taken meets the guard `C`. -/
inductive Reach (M : System σ α) (C : σ → α → Prop) : σ → Prop
  | init {s : σ} : M.init s → Reach M C s
  | step {s s' : σ} {a : α} : Reach M C s → C s a → M.next s a = some s' → Reach M C s'

/-- No guard: every run. -/
def anyStep : σ → α → Prop := fun _ _ => True

variable {M : System σ α} {C : σ → α → Prop}

/-- **Invariant rule.** A property of the initial states that every guarded step keeps holds
    in every state reached; the step may use that its source is itself reached. -/
theorem Reach.invariant {I : σ → Prop} (hinit : ∀ s, M.init s → I s)
    (hstep : ∀ s a s', Reach M C s → I s → C s a → M.next s a = some s' → I s') {s : σ}
    (h : Reach M C s) : I s := by
  induction h with
  | init h0 => exact hinit _ h0
  | step hr hC hn ih => exact hstep _ _ _ hr ih hC hn

/-- **Progress rule.**  Where every state short of the goal has a step that leaves less to do and
    keeps what the next one needs, the goal is reached. -/
theorem Reach.progress {I G : σ → Prop} (left : σ → ℕ)
    (hstep : ∀ s, I s → ¬ G s →
      ∃ a s', C s a ∧ M.next s a = some s' ∧ I s' ∧ left s' < left s) {s : σ}
    (h : Reach M C s) (hs : I s) : ∃ s', Reach M C s' ∧ I s' ∧ G s' := by
  by_cases hgoal : G s
  · exact ⟨s, h, hs, hgoal⟩
  · obtain ⟨a, s', hC, hn, hs', hlt⟩ := hstep s hs hgoal
    exact Reach.progress left hstep (h.step hC hn) hs'
termination_by left s

/-- Runs a schedule, stopping with `none` at a label that is not enabled or that the guard
    refuses. -/
def exec (M : System σ α) (ok : σ → α → Bool) : σ → List α → Option σ
  | s, [] => some s
  | s, a :: as => if ok s a then (M.next s a).bind (fun s' => exec M ok s' as) else none

/-- A schedule in two parts. -/
theorem exec_append (M : System σ α) (ok : σ → α → Bool) (s : σ) (as bs : List α) :
    exec M ok s (as ++ bs) = (exec M ok s as).bind fun s' => exec M ok s' bs := by
  induction as generalizing s with
  | nil => rfl
  | cons a as ih =>
    simp only [List.cons_append, exec]
    split
    · cases M.next s a with
      | none => rfl
      | some s' => exact ih s'
    · rfl

/-- A schedule that runs to its end witnesses that its last state is reached. -/
theorem reach_of_exec {ok : σ → α → Bool} (hok : ∀ s a, ok s a = true → C s a) :
    ∀ {s s' : σ} {as : List α}, Reach M C s → exec M ok s as = some s' → Reach M C s' := by
  intro s s' as
  induction as generalizing s with
  | nil => intro hs h; cases h; exact hs
  | cons a as ih =>
    intro hs h
    simp only [exec] at h
    split at h
    · rename_i hg
      obtain ⟨s₁, hn, h⟩ := Option.bind_eq_some_iff.mp h
      exact ih (.step hs (hok s a hg) hn) h
    · exact absurd h (by simp)

/-- Evaluating what a schedule leaves in view gives a reached state that looks so. -/
theorem reach_of_exec_map {ok : σ → α → Bool} (hok : ∀ s a, ok s a = true → C s a)
    {view : σ → β} {seen : β} {s : σ} {as : List α} (h : (exec M ok s as).map view = some seen)
    (hs : Reach M C s) : ∃ s', Reach M C s' ∧ view s' = seen := by
  obtain ⟨s', hexec, hview⟩ := Option.map_eq_some_iff.mp h
  exact ⟨s', reach_of_exec hok hs hexec, hview⟩

/-- The runs that go on from `s`. -/
def System.goingOn (M : System σ α) (s : σ) : System σ α := ⟨fun s' => s' = s, M.next⟩

/-- What no step lowers, no schedule lowers. -/
theorem exec_mono [Preorder β] {ok : σ → α → Bool} (hok : ∀ s a, ok s a = true → C s a)
    {f : σ → β} (hstep : ∀ s a s', Reach M C s → M.next s a = some s' → f s ≤ f s') :
    ∀ {s s' : σ} {as : List α}, Reach M C s → exec M ok s as = some s' → f s ≤ f s' := by
  intro s s' as
  induction as generalizing s with
  | nil => intro _ h; cases h; exact le_refl _
  | cons a as ih =>
    intro hs h
    simp only [exec] at h
    split at h
    · rename_i hg
      obtain ⟨s₁, hn, h⟩ := Option.bind_eq_some_iff.mp h
      exact (hstep s a s₁ hs hn).trans (ih (.step hs (hok s a hg) hn) h)
    · exact absurd h (by simp)

/-! ### Deciding guards -/

/-- What a guard says of the contents of a value is decided by taking them out. -/
abbrev decidableOfGet {get : α → Option β} {mk : β → α} (hget : ∀ x b, get x = some b ↔ x = mk b)
    (x : α) (P : β → Prop) [DecidablePred P] : Decidable (∀ b, x = mk b → P b) :=
  decidable_of_iff (∀ b ∈ get x, P b) (forall_congr' fun b => imp_congr_left (hget x b))

end Transition
