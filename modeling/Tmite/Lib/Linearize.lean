import Tmite.Lib.Transition

namespace Linearize

/-!
# Calls on a shared object

Callers, told apart by numbers, make one call each of an object that serves one operation at a time.
What can be seen from outside is the history: who called, with what, and what was answered.  Inside
there is a log, the operations in the order the object served them; operations without a caller are
those of the object's other users.

`Linearizes` says that the log explains the history: each call is served at most once, as the
operation that was asked for; an answer is what its operation returned at its place; and a call that
was answered before another was made comes before it.  `invoke`, `serve`, `serveOther` and `respond`
are the four ways a run goes on.
-/

open Transition

universe u v w x y
variable {σ : Type u} {ω : Type v} {ρ : Type w} {κ : Type x} {β : Type y}

/-- What is seen from outside. -/
inductive Event (κ : Type x) (β : Type y)
  | invoke (caller : ℕ) (request : κ)
  | respond (caller : ℕ) (answer : β)

/-- An operation that was served, and for whom. -/
structure Served (ω : Type v) where
  caller : Option ℕ
  op : ω

/-- The operations of a log. -/
def ops (log : List (Served ω)) : List ω := log.map Served.op

/-- Caller `c` was served, and its operation returned `r`. -/
def Returned (M : Machine σ ω ρ) (s₀ : σ) (log : List (Served ω)) (c : ℕ) (r : ρ) : Prop :=
  ∃ pre op post, log = pre ++ ⟨some c, op⟩ :: post ∧ (M.step (M.run s₀ (ops pre)) op).2 = r

/-- Caller `c` is in the log, and before `d`. -/
def Before (log : List (Served ω)) (c d : ℕ) : Prop :=
  ∃ pre post, log = pre ++ post ∧ some c ∈ pre.map Served.caller ∧
    some d ∈ post.map Served.caller ∧ some d ∉ pre.map Served.caller

/-- The log explains the history.  `Asks` relates a request to the operations that serve it, and
    `view` is what a caller sees of a result. -/
structure Linearizes (M : Machine σ ω ρ) (Asks : κ → ω → Prop) (view : κ → ρ → β) (s₀ s : σ)
    (history : List (Event κ β)) (log : List (Served ω)) : Prop where
  state : M.run s₀ (ops log) = s
  once : (log.filterMap Served.caller).Nodup
  asked : ∀ c op, ⟨some c, op⟩ ∈ log → ∃ q, .invoke c q ∈ history ∧ Asks q op
  answered : ∀ c b, .respond c b ∈ history →
    ∃ q r, .invoke c q ∈ history ∧ Returned M s₀ log c r ∧ view q r = b
  order : ∀ pre mid post c b d q,
    history = pre ++ .respond c b :: (mid ++ .invoke d q :: post) →
      some d ∈ log.map Served.caller → Before log c d

variable {M : Machine σ ω ρ} {Asks : κ → ω → Prop} {view : κ → ρ → β} {s₀ s s' : σ}
  {history : List (Event κ β)} {log : List (Served ω)} {c d : ℕ} {r : ρ}

theorem Returned.mem (h : Returned M s₀ log c r) : some c ∈ log.map Served.caller := by
  obtain ⟨pre, op, post, rfl, -⟩ := h
  simp

/-- What was returned stays returned. -/
theorem Returned.concat (h : Returned M s₀ log c r) (e : Served ω) :
    Returned M s₀ (log ++ [e]) c r := by
  obtain ⟨pre, op, post, rfl, hr⟩ := h
  exact ⟨pre, op, post ++ [e], by simp, hr⟩

theorem Before.concat (h : Before log c d) (e : Served ω) : Before (log ++ [e]) c d := by
  obtain ⟨pre, post, rfl, hc, hd, hfirst⟩ := h
  refine ⟨pre, post ++ [e], by simp, hc, ?_, hfirst⟩
  rw [List.map_append]
  exact List.mem_append_left _ hd

theorem mem_callers {c : ℕ} :
    c ∈ log.filterMap Served.caller ↔ some c ∈ log.map Served.caller := by
  simp [List.mem_filterMap, List.mem_map]

/-- Where an event is after another, in a history that has grown by one. -/
theorem split_concat {α : Type*} {l pre mid post : List α} {a b e : α}
    (h : l ++ [e] = pre ++ a :: (mid ++ b :: post)) :
    b = e ∨ ∃ post', l = pre ++ a :: (mid ++ b :: post') := by
  rcases List.eq_nil_or_concat post with rfl | ⟨post, e', rfl⟩
  · have hlast : l ++ [e] = (pre ++ a :: mid) ++ [b] := by simpa using h
    obtain ⟨-, heq⟩ := List.append_inj' hlast rfl
    exact .inl (List.cons.inj heq).1.symm
  · have hlast : l ++ [e] = (pre ++ a :: (mid ++ b :: post)) ++ [e'] := by simpa using h
    exact .inr ⟨post, (List.append_inj' hlast rfl).1⟩

namespace Linearizes

/-- Nobody has called or been served. -/
theorem start (s₀ : σ) : Linearizes M Asks view s₀ s₀ [] [] where
  state := rfl
  once := List.nodup_nil
  asked := by simp
  answered := by simp
  order := by simp

/-- A call is made, by someone who has not been served. -/
theorem invoke (h : Linearizes M Asks view s₀ s history log) {q : κ}
    (hnew : some c ∉ log.map Served.caller) :
    Linearizes M Asks view s₀ s (history ++ [.invoke c q]) log where
  state := h.state
  once := h.once
  asked := by
    intro c' op hmem
    obtain ⟨q', hq', hasks⟩ := h.asked c' op hmem
    exact ⟨q', List.mem_append_left _ hq', hasks⟩
  answered := by
    intro c' b hmem
    have hmem : Event.respond c' b ∈ history := by simpa using hmem
    obtain ⟨q', r, hq', hret, hview⟩ := h.answered c' b hmem
    exact ⟨q', r, List.mem_append_left _ hq', hret, hview⟩
  order := by
    intro pre mid post c' b d q' heq hd
    -- the call after the answer is an old one, or the new one, which has not been served
    rcases split_concat heq with hlast | ⟨post', hsplit⟩
    · cases hlast
      exact absurd hd hnew
    · exact h.order pre mid post' c' b d q' hsplit hd

/-- A call is served. -/
theorem serve (h : Linearizes M Asks view s₀ s history log) {q : κ} {op : ω}
    (hasked : .invoke c q ∈ history) (hasks : Asks q op)
    (hnew : some c ∉ log.map Served.caller) (hs' : (M.step s op).1 = s') :
    Linearizes M Asks view s₀ s' history (log ++ [⟨some c, op⟩]) where
  state := by
    rw [ops, List.map_append, Machine.run_append, ← ops, h.state]
    exact hs'
  once := by
    rw [List.filterMap_append, List.nodup_append]
    refine ⟨h.once, by simp, ?_⟩
    intro a ha b hb hab
    have hb : b = c := by simpa using hb
    subst hb hab
    exact hnew (mem_callers.mp ha)
  asked := by
    intro c' op' hmem
    rcases List.mem_append.mp hmem with hmem | hmem
    · exact h.asked c' op' hmem
    · have heq : c' = c ∧ op' = op := by simpa using hmem
      obtain ⟨rfl, rfl⟩ := heq
      exact ⟨q, hasked, hasks⟩
  answered := by
    intro c' b hmem
    obtain ⟨q', r, hq', hret, hview⟩ := h.answered c' b hmem
    exact ⟨q', r, hq', hret.concat _, hview⟩
  order := by
    intro pre mid post c' b d q' heq hd
    by_cases hold : some d ∈ log.map Served.caller
    · exact (h.order pre mid post c' b d q' heq hold).concat _
    · -- the caller just served comes after all that were answered
      obtain ⟨q'', r, -, hret, -⟩ := h.answered c' b (by rw [heq]; simp)
      have hd : some d ∈ [Served.mk (some c) op].map Served.caller := by
        rw [List.map_append, List.mem_append] at hd
        exact hd.resolve_left hold
      exact ⟨log, [⟨some c, op⟩], rfl, hret.mem, hd, hold⟩

/-- Someone else's operation is served. -/
theorem serveOther (h : Linearizes M Asks view s₀ s history log) {op : ω}
    (hs' : (M.step s op).1 = s') :
    Linearizes M Asks view s₀ s' history (log ++ [⟨none, op⟩]) where
  state := by
    rw [ops, List.map_append, Machine.run_append, ← ops, h.state]
    exact hs'
  once := by
    rw [List.filterMap_append]
    simpa using h.once
  asked := by
    intro c' op' hmem
    refine h.asked c' op' ?_
    simpa using hmem
  answered := by
    intro c' b hmem
    obtain ⟨q', r, hq', hret, hview⟩ := h.answered c' b hmem
    exact ⟨q', r, hq', hret.concat _, hview⟩
  order := by
    intro pre mid post c' b d q' heq hd
    refine (h.order pre mid post c' b d q' heq ?_).concat _
    simpa using hd

/-- A caller gets the answer of its operation. -/
theorem respond (h : Linearizes M Asks view s₀ s history log) {q : κ}
    (hasked : .invoke c q ∈ history) (hret : Returned M s₀ log c r) :
    Linearizes M Asks view s₀ s (history ++ [.respond c (view q r)]) log where
  state := h.state
  once := h.once
  asked := by
    intro c' op hmem
    obtain ⟨q', hq', hasks⟩ := h.asked c' op hmem
    exact ⟨q', List.mem_append_left _ hq', hasks⟩
  answered := by
    intro c' b hmem
    rcases List.mem_append.mp hmem with hmem | hmem
    · obtain ⟨q', r', hq', hret', hview⟩ := h.answered c' b hmem
      exact ⟨q', r', List.mem_append_left _ hq', hret', hview⟩
    · have heq : c' = c ∧ b = view q r := by simpa using hmem
      obtain ⟨rfl, rfl⟩ := heq
      exact ⟨q, r, List.mem_append_left _ hasked, hret, rfl⟩
  order := by
    intro pre mid post c' b d q' heq hd
    -- the last event is an answer, so the call is an old one
    rcases split_concat heq with hlast | ⟨post', hsplit⟩
    · exact absurd hlast (by simp)
    · exact h.order pre mid post' c' b d q' hsplit hd

end Linearizes

end Linearize
