import Tmite.Daemon.StoreInv

namespace Tmite.Daemon

open Tmite.Core Tmite.Proto

/-!
# Granting a rule twice (`State::add_rule`)

`add_rule` checks three things before it appends: that the peer exists, that the list is below
`MAX_RULES`, and that the rule is not there yet.  The last check acknowledges a repeated grant
with the index of the rule that is there.  But the cap is looked at first, so a full list
refuses the repetition as well (`add_peer` looks for the name before it looks at its cap).

`AddRuleIdempotent` is what a repeated grant should see, `addRule_idempotent_iff` when it does.
-/

universe v
variable {Text : Type v}

/-! ### The branches of `add_rule` for an existing peer -/

section Branches

variable (T : Toml PersistedState Text) {s : State Text} (fault : Option (WriteFault Text))
  {peer target : String} (now : String)

/-- Below the cap, a rule that is there is acknowledged with its index. -/
theorem addRule_existing (hpeer : s.inner.hasPeer peer = true)
    (hcap : s.inner.rules.length < maxRules) (hrule : s.inner.hasRule peer target = true) :
    ∃ i r, s.addRule T fault peer target now = (s, .ok i) ∧ s.inner.rules[i]? = some r ∧
      r.peer = peer ∧ r.target = target := by
  cases hidx : s.inner.rules.findIdx? (fun r => r.peer == peer && r.target == target) with
  | none =>
    rw [List.findIdx?_eq_none_iff] at hidx
    obtain ⟨r, hr, hmatch⟩ := List.any_eq_true.mp hrule
    exact absurd hmatch (by rw [hidx r hr]; simp)
  | some i =>
    obtain ⟨hi, hmatch, -⟩ := List.findIdx?_eq_some_iff_getElem.mp hidx
    simp only [Bool.and_eq_true, beq_iff_eq] at hmatch
    refine ⟨i, s.inner.rules[i], ?_, List.getElem?_eq_getElem hi, hmatch⟩
    simp only [PersistedState.hasPeer] at hpeer
    simp only [State.addRule, hpeer, if_neg (Nat.not_le.mpr hcap), hidx, Bool.not_true,
      Bool.false_eq_true, if_false]

/-- A full list refuses every rule, also one it holds. -/
theorem addRule_full (hpeer : s.inner.hasPeer peer = true)
    (hcap : maxRules ≤ s.inner.rules.length) :
    s.addRule T fault peer target now = (s, .error .ruleCap) := by
  simp only [PersistedState.hasPeer] at hpeer
  simp only [State.addRule, hpeer, if_pos hcap, Bool.not_true, Bool.false_eq_true, if_false]

/-- Below the cap a new rule is appended, whether or not the save then goes through. -/
theorem addRule_absent (hpeer : s.inner.hasPeer peer = true)
    (hcap : s.inner.rules.length < maxRules) (hrule : s.inner.hasRule peer target = false) :
    (s.addRule T fault peer target now).1.inner =
        { s.inner with rules := s.inner.rules ++ [⟨peer, target, now⟩] } ∧
      ((s.addRule T fault peer target now).2 = .ok s.inner.rules.length ∨
        ∃ e, (s.addRule T fault peer target now).2 = .error (.ofSave e)) := by
  have hw : writes s.inner (.addRule peer target now) = true := by
    simp only [writes, hpeer, hrule, decide_eq_true hcap, Bool.not_false, Bool.and_self]
  rw [addRule_of_writes hw]
  refine ⟨rfl, ?_⟩
  -- the save decides only between the index and its own error
  simp only [State.persistLocked]
  cases fault with
  | none =>
    rw [writeAndRename_none]
    exact .inl rfl
  | some f =>
    obtain ⟨e, he⟩ := (writeAndRename_some T f
      (mutate s.inner (.addRule peer target now)) s.disk).2
    rw [he]
    exact .inr ⟨e, rfl⟩

end Branches

/-! ### Idempotence -/

/-- What a grant of `target` to `peer` is to find in state `s`: a rule that is there is
    acknowledged and nothing changes; a new one is appended while there is room, and a save that
    goes through makes the call succeed; only a new rule runs into the cap. -/
structure AddRuleIdempotent (T : Toml PersistedState Text) (s : State Text)
    (peer target : String) : Prop where
  present : s.inner.hasRule peer target = true → ∀ fault now, ∃ i r,
    s.addRule T fault peer target now = (s, .ok i) ∧ s.inner.rules[i]? = some r ∧
      r.peer = peer ∧ r.target = target
  absent : s.inner.hasRule peer target = false → s.inner.rules.length < maxRules →
    ∀ fault now i, (s.addRule T fault peer target now).2 = .ok i →
      (s.addRule T fault peer target now).1.inner =
          { s.inner with rules := s.inner.rules ++ [⟨peer, target, now⟩] } ∧
        i = s.inner.rules.length
  saved : s.inner.hasRule peer target = false → s.inner.rules.length < maxRules →
    ∀ now, (s.addRule T none peer target now).2.isOk = true
  capped : ∀ fault now, (s.addRule T fault peer target now).2 = .error .ruleCap →
    s.inner.hasRule peer target = false ∧ maxRules ≤ s.inner.rules.length

/-- The error of a failed save is not the cap's. -/
theorem ofSave_ne_ruleCap (e : SaveError) : StateError.ofSave e ≠ .ruleCap := by
  cases e with
  | serialize e => simp [StateError.ofSave]
  | io e => simp [StateError.ofSave]

/-- **Repeated grants.** For an existing peer, `add_rule` is idempotent in a state exactly when
    the rule is new there or the list is below the cap. -/
theorem addRule_idempotent_iff (T : Toml PersistedState Text) (s : State Text)
    (peer target : String) (hpeer : s.inner.hasPeer peer = true) :
    AddRuleIdempotent T s peer target ↔
      (s.inner.hasRule peer target = true → s.inner.rules.length < maxRules) := by
  constructor
  · -- a full list answers `RuleCap` to the rule it holds
    intro h hrule
    by_contra hcap
    obtain ⟨i, r, hadd, -⟩ := h.present hrule none ""
    rw [addRule_full T none "" hpeer (Nat.not_lt.mp hcap)] at hadd
    exact absurd hadd (by simp)
  · intro hroom
    refine ⟨fun hrule fault now => addRule_existing T fault now hpeer (hroom hrule) hrule, ?_, ?_, ?_⟩
    · intro hrule hcap fault now i hi
      obtain ⟨hinner, hok | ⟨e, he⟩⟩ :=
        addRule_absent T fault now hpeer hcap hrule
      · rw [hok] at hi
        exact ⟨hinner, (Except.ok.inj hi).symm⟩
      · rw [he] at hi
        exact absurd hi (by simp)
    · intro hrule hcap now
      have hw : writes s.inner (.addRule peer target now) = true := by
        simp only [writes, hpeer, hrule, decide_eq_true hcap, Bool.not_false, Bool.and_self]
      rw [addRule_of_writes hw]
      rfl
    · intro fault now hfull
      by_cases hcap : s.inner.rules.length < maxRules
      · -- below the cap nothing answers `RuleCap`
        cases hrule : s.inner.hasRule peer target with
        | true =>
          obtain ⟨i, r, hadd, -⟩ :=
            addRule_existing T fault now hpeer hcap hrule
          rw [hadd] at hfull
          exact absurd hfull (by simp)
        | false =>
          obtain ⟨-, hok | ⟨e, he⟩⟩ :=
            addRule_absent T fault now hpeer hcap hrule
          · rw [hok] at hfull
            exact absurd hfull (by simp)
          · rw [he] at hfull
            exact absurd (Except.error.inj hfull) (ofSave_ne_ruleCap e)
      · refine ⟨?_, Nat.not_lt.mp hcap⟩
        exact Bool.eq_false_iff.mpr (fun hrule => hcap (hroom hrule))

/-! ### A full list -/

/-- One peer with rules for `h:1` to `h:n`. -/
def grantedLaptop (n : ℕ) : PersistedState where
  version := 1
  peers := [⟨"laptop", "aa11", "t", "t"⟩]
  rules := (List.range n).map (fun i => ⟨"laptop", "h:" ++ toString (i + 1), "t"⟩)

/-- The calls that build it. -/
def grantCalls (n : ℕ) : List (Call PersistedState) :=
  ⟨.addPeer ⟨"laptop", "aa11", "t", "t"⟩, none⟩ ::
    (List.range n).map (fun i => ⟨.addRule "laptop" ("h:" ++ toString (i + 1)) "t", none⟩)

theorem targetText_inj {i j : ℕ} (h : "h:" ++ toString i = "h:" ++ toString j) : i = j := by
  have hlist := congrArg String.toList h
  simp only [String.toList_append, Nat.toString_eq_repr, Nat.toList_repr,
    List.append_cancel_left_eq] at hlist
  have hval := congrArg (fun cs => Nat.ofDigitChars 10 cs 0) hlist
  simpa only [Nat.ofDigitChars_ten_toDigits] using hval

theorem grantedLaptop_hasRule (n i : ℕ) :
    (grantedLaptop n).hasRule "laptop" ("h:" ++ toString (i + 1)) = true ↔ i < n := by
  rw [hasRule_iff]
  simp only [grantedLaptop, List.map_map, List.mem_map, List.mem_range, Function.comp_apply,
    Prod.mk.injEq, true_and]
  constructor
  · rintro ⟨j, hj, htext⟩
    have hji := targetText_inj htext
    omega
  · intro hi
    exact ⟨i, hi, rfl⟩

/-- Up to the cap every grant of the run is a new rule, and its save goes through. -/
theorem after_grantCalls (n : ℕ) (hn : n ≤ maxRules) :
    State.after (.self PersistedState) (grantCalls n) =
      ⟨grantedLaptop n, ⟨some (grantedLaptop n), none⟩⟩ := by
  induction n with
  | zero => rfl
  | succ n ih =>
    have hsplit : grantCalls (n + 1) = grantCalls n ++
        [⟨.addRule "laptop" ("h:" ++ toString (n + 1)) "t", none⟩] := by
      simp only [grantCalls, List.range_succ, List.map_append, List.map_cons, List.map_nil,
        List.cons_append]
    have hnew : (grantedLaptop n).hasRule "laptop" ("h:" ++ toString (n + 1)) = false := by
      rw [Bool.eq_false_iff, Ne, grantedLaptop_hasRule]
      omega
    have hw : writes (grantedLaptop n)
        (.addRule "laptop" ("h:" ++ toString (n + 1)) "t") = true := by
      have hlen : (grantedLaptop n).rules.length < maxRules := by
        simp only [grantedLaptop, List.length_map, List.length_range]
        omega
      simp only [writes, hnew, decide_eq_true hlen, Bool.not_false, Bool.and_true]
      rfl
    have hmut : mutate (grantedLaptop n) (.addRule "laptop" ("h:" ++ toString (n + 1)) "t") =
        grantedLaptop (n + 1) := by
      simp only [mutate, grantedLaptop, List.range_succ, List.map_append, List.map_cons,
        List.map_nil]
    simp only [State.after] at ih ⊢
    rw [hsplit, Transition.Machine.run_append, ih (by omega)]
    show (State.call (.self PersistedState) _ _).1 = _
    simp only [State.call]
    rw [addRule_of_writes hw, hmut]
    rfl

/-- With 1024 rules in the list, granting the first of them again is refused. -/
theorem addRule_refused_at_cap :
    ∃ calls : List (Call PersistedState),
      (State.after (.self PersistedState) calls).inner.hasPeer "laptop" = true ∧
      (State.after (.self PersistedState) calls).inner.hasRule "laptop" "h:1" = true ∧
      ((State.after (.self PersistedState) calls).addRule (.self PersistedState) none
        "laptop" "h:1" "t").2 = .error .ruleCap ∧
      ¬ AddRuleIdempotent (.self PersistedState)
        (State.after (.self PersistedState) calls) "laptop" "h:1" := by
  have hrun := after_grantCalls maxRules (Nat.le_refl _)
  have hrule : (grantedLaptop maxRules).hasRule "laptop" "h:1" = true :=
    (grantedLaptop_hasRule maxRules 0).mpr (by decide)
  have hfull : maxRules ≤ (grantedLaptop maxRules).rules.length := by
    simp only [grantedLaptop, List.length_map, List.length_range, Nat.le_refl]
  refine ⟨grantCalls maxRules, ?_⟩
  rw [hrun]
  have hcap : ∀ now, State.addRule (.self PersistedState) none
      ⟨grantedLaptop maxRules, ⟨some (grantedLaptop maxRules), none⟩⟩ "laptop" "h:1" now =
        (⟨grantedLaptop maxRules, ⟨some (grantedLaptop maxRules), none⟩⟩, .error .ruleCap) :=
    fun now => addRule_full _ none now rfl hfull
  refine ⟨rfl, hrule, by rw [hcap], fun h => ?_⟩
  obtain ⟨i, r, hadd, -⟩ := h.present hrule none "t"
  rw [hcap] at hadd
  exact absurd hadd (by simp)

/-- A grant repeated while there is room. -/
theorem addRule_idempotent_repeated :
    AddRuleIdempotent (.self PersistedState)
      (⟨grantedLaptop 2, .empty⟩ : State PersistedState) "laptop" "h:1" :=
  (addRule_idempotent_iff (.self PersistedState)
    (⟨grantedLaptop 2, .empty⟩ : State PersistedState) "laptop" "h:1" rfl).mpr
    (fun _ => by decide)

end Tmite.Daemon
