import Mathlib.Data.List.Pairwise
import Tmite.Daemon.Cooldown
import Tmite.Lib.Transition

namespace Tmite.Daemon

open Transition

/-!
# How far apart notifications are (`Cooldown::admit` and `drain` of `daemon/notify.rs`)

`admit` compares with the time it has recorded, and records a time only where it answers yes.  So
the calls it lets through are a window apart, and those it holds back leave no trace.

* `cooldown_spacing` — a call is let through exactly if no call of its kind and key was let through
  less than a window before.
* `drain_drop_iff` — `drain` asks the cooldown before it reads `ntfy.toml`, so an event that opens a
  window while notifications are off uses that window up: one that comes within it, with
  notifications back on, is lost with nothing sent in its place.
-/

/-! ### Calls of `admit` -/

/-- A call of `Cooldown::admit`, with the time it reads. -/
structure AdmitCall where
  now : ℕ
  kind : Kind
  key : String
deriving DecidableEq, Repr

def AdmitCall.bucket (a : AdmitCall) : Kind × String := (a.kind, a.key)

/-- The cooldown, call after call. -/
def admitMachine : Machine Cooldown AdmitCall Bool where
  step c a := c.admitEvent a.now a.kind a.key

/-- What a new cooldown answers to `a`, after the calls `before`. -/
def admits (window : ℕ) (before : List AdmitCall) (a : AdmitCall) : Bool :=
  (admitMachine.step (admitMachine.run (.new window) before) a).2

/-- The calls that returned `true`, in order. -/
def letThrough (window : ℕ) (calls : List AdmitCall) : List AdmitCall :=
  ((admitMachine.trace (.new window) calls).filter (·.2)).map (·.1)

section Spacing

variable (window : ℕ)

theorem letThrough_concat (before : List AdmitCall) (a : AdmitCall) :
    letThrough window (before ++ [a]) =
      letThrough window before ++ if admits window before a = true then [a] else [] := by
  rw [letThrough, Machine.trace_append, List.filter_append, List.map_append]
  show letThrough window before ++ ([(a, admits window before a)].filter (·.2)).map (·.1) = _
  by_cases hadmits : admits window before a = true
  · simp [hadmits]
  · simp [hadmits]

/-- Every call let through is one of the calls. -/
theorem letThrough_sublist (calls : List AdmitCall) : (letThrough window calls).Sublist calls := by
  induction calls using List.reverseRecOn with
  | nil => exact List.Sublist.refl _
  | append_singleton calls a ih =>
    rw [letThrough_concat]
    refine ih.append ?_
    split
    · exact List.Sublist.refl _
    · exact List.nil_sublist _

@[simp] theorem cooldown_run_window (calls : List AdmitCall) :
    (admitMachine.run (.new window) calls).window = window := by
  induction calls using List.reverseRecOn with
  | nil => rfl
  | append_singleton calls a ih =>
    rw [Machine.run_append, Machine.run_cons, Machine.run_nil]
    show (Cooldown.admitEvent _ a.now a.kind a.key).1.window = window
    rw [Cooldown.admitEvent_window, ih]

/-- The answer rests on the time recorded for the call's kind and key. -/
theorem admits_eq (before : List AdmitCall) (a : AdmitCall) :
    admits window before a =
      outside window ((admitMachine.run (.new window) before).last a.bucket) a.now := by
  show (Cooldown.admitEvent _ a.now a.kind a.key).2 = _
  rw [Cooldown.admitEvent_snd, cooldown_run_window]
  rfl

/-- **What is recorded.**  For each kind and key, the time of the last call let through. -/
theorem cooldown_run_last (calls : List AdmitCall) (b : Kind × String) :
    (admitMachine.run (.new window) calls).last b =
      ((letThrough window calls).filter (fun e => e.bucket = b)).getLast?.map (·.now) := by
  induction calls using List.reverseRecOn with
  | nil => rfl
  | append_singleton calls a ih =>
    rw [letThrough_concat, Machine.run_append, Machine.run_cons, Machine.run_nil]
    show (Cooldown.admitEvent _ a.now a.kind a.key).1.last b = _
    by_cases hb : b = a.bucket
    · subst hb
      rw [show a.bucket = (a.kind, a.key) from rfl, Cooldown.admitEvent_last_own,
        cooldown_run_window]
      rw [admits_eq, List.filter_append]
      show recordAt window ((admitMachine.run (.new window) calls).last a.bucket) a.now = _
      -- the time is replaced exactly where the answer is yes
      cases hlast : (admitMachine.run (.new window) calls).last a.bucket with
      | none => simp [recordAt, outside, AdmitCall.bucket]
      | some t =>
        by_cases hwithin : a.now - t < window
        · rw [ih] at hlast
          simpa [recordAt, outside, hwithin, AdmitCall.bucket] using hlast.symm
        · simp [recordAt, outside, hwithin, AdmitCall.bucket]
    · rw [Cooldown.admitEvent_last_other _ _ _ _ hb, ih, List.filter_append]
      have hnone : (if admits window calls a = true then [a] else []).filter
          (fun e => decide (e.bucket = b)) = [] := by
        split
        · simp [Ne.symm hb]
        · rfl
      rw [hnone, List.append_nil]

/-- In order of time the last call let through is the latest one. -/
theorem admits_iff {before : List AdmitCall} {a : AdmitCall}
    (hmono : (before ++ [a]).Pairwise (fun e a => e.now ≤ a.now)) :
    admits window before a = true ↔
      ¬ ∃ e ∈ letThrough window before, e.bucket = a.bucket ∧ a.now - e.now < window := by
  rw [admits_eq, cooldown_run_last]
  -- the calls of the bucket that were let through, in order of time
  have hsorted : ((letThrough window before).filter (fun e => e.bucket = a.bucket)).Pairwise
      (fun e a => e.now ≤ a.now) :=
    ((List.pairwise_append.mp hmono).1.sublist (letThrough_sublist window before)).filter _
  have hmem : ∀ e, e ∈ (letThrough window before).filter (fun e => e.bucket = a.bucket) ↔
      e ∈ letThrough window before ∧ e.bucket = a.bucket := by
    intro e
    simp
  generalize (letThrough window before).filter (fun e => e.bucket = a.bucket) = own at hsorted hmem
  rcases List.eq_nil_or_concat own with rfl | ⟨own, l, rfl⟩
  · refine iff_of_true rfl ?_
    rintro ⟨e, he, hbucket, -⟩
    exact absurd ((hmem e).mpr ⟨he, hbucket⟩) (by simp)
  · rw [List.concat_eq_append] at hsorted hmem ⊢
    rw [List.getLast?_concat, Option.map_some]
    have hlatest : ∀ e ∈ own ++ [l], e.now ≤ l.now := by
      intro e he
      rcases List.mem_append.mp he with he | he
      · exact (List.pairwise_append.mp hsorted).2.2 e he l (by simp)
      · rw [List.mem_singleton.mp he]
    show (!decide (a.now - l.now < window)) = true ↔ _
    rw [Bool.not_eq_true', decide_eq_false_iff_not]
    refine not_congr ⟨fun hwithin => ?_, ?_⟩
    · obtain ⟨hl, hbucket⟩ := (hmem l).mp (by simp)
      exact ⟨l, hl, hbucket, hwithin⟩
    · rintro ⟨e, he, hbucket, hwithin⟩
      have hle := hlatest e ((hmem e).mpr ⟨he, hbucket⟩)
      omega

/-- Calls let through under one key are a window apart. -/
theorem letThrough_spaced {calls : List AdmitCall}
    (hmono : calls.Pairwise (fun e a => e.now ≤ a.now)) :
    (letThrough window calls).Pairwise
      (fun e a => e.bucket = a.bucket → e.now + window ≤ a.now) := by
  induction calls using List.reverseRecOn with
  | nil => exact List.Pairwise.nil
  | append_singleton calls a ih =>
    have hcalls := (List.pairwise_append.mp hmono).1
    rw [letThrough_concat, List.pairwise_append]
    refine ⟨ih hcalls, by split <;> simp, fun e he a' ha' hbucket => ?_⟩
    split at ha'
    · rename_i hadmits
      rw [List.mem_singleton.mp ha'] at hbucket ⊢
      have hfar := (admits_iff window hmono).mp hadmits
      have hle : e.now ≤ a.now := (List.pairwise_append.mp hmono).2.2 e
        ((letThrough_sublist window calls).mem he) a (by simp)
      by_contra hnear
      exact hfar ⟨e, he, hbucket, by omega⟩
    · exact absurd ha' (by simp)

/-- Calls that are all held back change no later answer. -/
theorem admits_after_held {before held : List AdmitCall}
    (h : letThrough window (before ++ held) = letThrough window before) (a : AdmitCall) :
    admits window (before ++ held) a = admits window before a := by
  rw [admits_eq, admits_eq, cooldown_run_last, cooldown_run_last, h]

/-- **Spacing.**  Whatever the window, and whatever calls come in, in order of time: a call is let
    through exactly if none of its kind and key was let through less than the window before; those
    let through are a window apart; and a stream of calls that are held back changes nothing for
    those that come after it. -/
theorem cooldown_spacing (calls : List AdmitCall)
    (hmono : calls.Pairwise (fun e a => e.now ≤ a.now)) :
    (∀ before a after, calls = before ++ a :: after →
      (admits window before a = true ↔
        ¬ ∃ e ∈ letThrough window before, e.bucket = a.bucket ∧ a.now - e.now < window)) ∧
    (letThrough window calls).Pairwise
      (fun e a => e.bucket = a.bucket → e.now + window ≤ a.now) ∧
    ∀ before held after a, calls = before ++ held ++ a :: after →
      letThrough window (before ++ held) = letThrough window before →
      admits window (before ++ held) a = admits window before a := by
  refine ⟨fun before a after hcalls => ?_, letThrough_spaced window hmono,
    fun before held after a _ hheld => admits_after_held window hheld a⟩
  refine admits_iff window ?_
  rw [hcalls, List.append_cons] at hmono
  exact (List.pairwise_append.mp hmono).1

end Spacing

/-- A peer that reconnects all the time: let through, held back twice, and let through again. -/
def reconnects : List AdmitCall :=
  [0, 20, 29, 30].map fun now => ⟨now, .peerConnected, "laptop"⟩

theorem cooldown_spacing_reconnects :
    letThrough 30 reconnects = [⟨0, .peerConnected, "laptop"⟩, ⟨30, .peerConnected, "laptop"⟩] ∧
    (letThrough 30 reconnects).Pairwise
      (fun e a => e.bucket = a.bucket → e.now + 30 ≤ a.now) := by
  refine ⟨by decide +kernel, ?_⟩
  exact (cooldown_spacing 30 reconnects (by decide)).2.1

/-! ### The drain task -/

/-- `drain`, event after event. -/
def drainMachine : Machine Cooldown Drained DrainOutcome where
  step := drainOne

/-- `NtfyConfig::load` finds a configuration. -/
def Drained.enabled (d : Drained) : Bool :=
  match d.config with
  | .ok (some _) => true
  | _ => false

def DrainOutcome.handed : DrainOutcome → Bool
  | posted _ _ => true
  | _ => false

/-- What becomes of `d` after the events `before`. -/
def outcome (before : List Drained) (d : Drained) : DrainOutcome :=
  (drainOne (drain (.new cooldown) before) d).2

/-- The events that were handed to the sink. -/
def handedOver (events : List Drained) : List Drained :=
  ((drainMachine.trace (.new cooldown) events).filter (·.2.handed)).map (·.1)

/-- `d` is handed to the sink, or held back by one of its kind and key that was, less than a minute
    before. -/
def DroppedForReason (before : List Drained) (d : Drained) : Prop :=
  (outcome before d).handed = true ∨
    ∃ e ∈ handedOver before, e.bucket = d.bucket ∧ d.now - e.now < cooldown

/-- Whether `d` opens a window, those opened so far being `opened`. -/
def opensWindow (opened : List Drained) (d : Drained) : Bool :=
  opened.all fun e => e.bucket != d.bucket || decide (cooldown ≤ d.now - e.now)

/-- The events that open a window: the first of a kind and key, the next one that comes a minute or
    more after it, and so on, whatever the configuration is. -/
def windows (events : List Drained) : List Drained :=
  events.foldl (fun opened d => if opensWindow opened d then opened ++ [d] else opened) []

/-- The window that `d` falls into was opened with notifications on. -/
def WindowEnabled (before : List Drained) (d : Drained) : Prop :=
  ∀ e ∈ windows before, e.bucket = d.bucket → d.now - e.now < cooldown → e.enabled = true

/-- An event as a call of `admit`. -/
def Drained.call (d : Drained) : AdmitCall := ⟨d.now, d.notification.kind, d.notification.key⟩

section Drain

variable {before : List Drained} {d : Drained}

theorem drain_run (c : Cooldown) (events : List Drained) :
    drain c events = admitMachine.run c (events.map Drained.call) := by
  induction events generalizing c with
  | nil => rfl
  | cons d events ih =>
    rw [List.map_cons, Machine.run_cons, ← ih]
    show drain (drainOne c d).1 events = _
    rw [drainOne_fst]
    rfl

/-- What the cooldown lets through is handed over if there is a configuration. -/
theorem outcome_handed (before : List Drained) (d : Drained) :
    (outcome before d).handed =
      (admits cooldown (before.map Drained.call) d.call && d.enabled) := by
  rw [outcome, drain_run]
  show (drainOne _ d).2.handed = ((Cooldown.admitEvent _ _ _ _).2 && d.enabled)
  generalize admitMachine.run (.new cooldown) (before.map Drained.call) = c
  unfold drainOne Drained.enabled
  show _ = ((c.admitEvent d.now d.notification.kind d.notification.key).2 && _)
  cases hadmit : c.admitEvent d.now d.notification.kind d.notification.key with
  | mk c' ok =>
    cases ok with
    | false => rfl
    | true =>
      rcases d.config with e | _ | config
      · rfl
      · rfl
      · rfl

theorem handedOver_concat (before : List Drained) (d : Drained) :
    handedOver (before ++ [d]) =
      handedOver before ++ if (outcome before d).handed = true then [d] else [] := by
  rw [handedOver, Machine.trace_append, List.filter_append, List.map_append]
  show handedOver before ++ ([(d, outcome before d)].filter (·.2.handed)).map (·.1) = _
  by_cases hhanded : (outcome before d).handed = true
  · simp [hhanded]
  · simp [hhanded]

theorem windows_concat (before : List Drained) (d : Drained) :
    windows (before ++ [d]) =
      windows before ++ if opensWindow (windows before) d = true then [d] else [] := by
  rw [windows, List.foldl_append]
  show (if opensWindow (windows before) d = true then windows before ++ [d] else windows before) = _
  split
  · rfl
  · rw [List.append_nil]

theorem opensWindow_iff (opened : List Drained) (d : Drained) :
    opensWindow opened d = true ↔
      ¬ ∃ e ∈ opened, e.bucket = d.bucket ∧ d.now - e.now < cooldown := by
  rw [opensWindow, List.all_eq_true]
  push Not
  refine forall₂_congr fun e _ => ?_
  rw [Bool.or_eq_true, bne_iff_ne, decide_eq_true_iff]
  exact Decidable.imp_iff_not_or.symm

theorem call_mono {events : List Drained} (hmono : events.Pairwise (fun e d => e.now ≤ d.now)) :
    (events.map Drained.call).Pairwise (fun e a => e.now ≤ a.now) := by
  rw [List.pairwise_map]
  exact hmono

/-- The cooldown's answer, once what it let through before is known. -/
theorem admits_call_iff (hmono : (before ++ [d]).Pairwise (fun e d => e.now ≤ d.now))
    (hbefore : letThrough cooldown (before.map Drained.call) = (windows before).map Drained.call) :
    admits cooldown (before.map Drained.call) d.call = true ↔
      opensWindow (windows before) d = true := by
  have hcalls := call_mono hmono
  rw [List.map_append] at hcalls
  rw [opensWindow_iff]
  refine (admits_iff cooldown hcalls).trans (not_congr ?_)
  rw [hbefore]
  simp only [List.mem_map, exists_exists_and_eq_and]
  rfl

/-- **Who opens a window** is who the cooldown lets through. -/
theorem letThrough_call (hmono : before.Pairwise (fun e d => e.now ≤ d.now)) :
    letThrough cooldown (before.map Drained.call) = (windows before).map Drained.call := by
  induction before using List.reverseRecOn with
  | nil => rfl
  | append_singleton before d ih =>
    have hbefore := ih (List.pairwise_append.mp hmono).1
    have hopens := admits_call_iff hmono hbefore
    rw [List.map_append]
    show letThrough cooldown (before.map Drained.call ++ [d.call]) = _
    rw [letThrough_concat, windows_concat, List.map_append, hbefore]
    by_cases hopen : opensWindow (windows before) d = true
    · rw [if_pos (hopens.mpr hopen), if_pos hopen]
      rfl
    · rw [if_neg (fun hadmits => hopen (hopens.mp hadmits)), if_neg hopen]
      rfl

theorem outcome_handed_iff (hmono : (before ++ [d]).Pairwise (fun e d => e.now ≤ d.now)) :
    (outcome before d).handed = true ↔
      opensWindow (windows before) d = true ∧ d.enabled = true := by
  rw [outcome_handed, Bool.and_eq_true,
    admits_call_iff hmono (letThrough_call (List.pairwise_append.mp hmono).1)]

/-- Of the events that open a window, those with notifications on are handed over. -/
theorem handedOver_eq (hmono : before.Pairwise (fun e d => e.now ≤ d.now)) :
    handedOver before = (windows before).filter Drained.enabled := by
  induction before using List.reverseRecOn with
  | nil => rfl
  | append_singleton before d ih =>
    have hhanded := outcome_handed_iff hmono
    rw [handedOver_concat, windows_concat, List.filter_append,
      ih (List.pairwise_append.mp hmono).1]
    by_cases hopen : opensWindow (windows before) d = true
    · by_cases hon : d.enabled = true
      · rw [if_pos (hhanded.mpr ⟨hopen, hon⟩), if_pos hopen, List.filter_cons_of_pos hon]
        rfl
      · rw [if_neg (fun h => hon (hhanded.mp h).2), if_pos hopen, List.filter_cons_of_neg hon]
        rfl
    · rw [if_neg (fun h => hopen (hhanded.mp h).1), if_neg hopen]
      rfl

/-- Two events that open a window less than a minute before `d` are one. -/
theorem windows_unique (hmono : (before ++ [d]).Pairwise (fun e d => e.now ≤ d.now))
    {e e' : Drained} (he : e ∈ windows before) (he' : e' ∈ windows before)
    (hbucket : e.bucket = e'.bucket) (hnear : d.now - e.now < cooldown)
    (hnear' : d.now - e'.now < cooldown) : e = e' := by
  have hbefore := (List.pairwise_append.mp hmono).1
  have hspaced := letThrough_spaced cooldown (call_mono hbefore)
  rw [letThrough_call hbefore, List.pairwise_map] at hspaced
  have hle : ∀ x ∈ windows before, x.now ≤ d.now := by
    intro x hx
    have hcall : x.call ∈ letThrough cooldown (before.map Drained.call) := by
      rw [letThrough_call hbefore]
      exact List.mem_map_of_mem hx
    obtain ⟨y, hy, hxy⟩ := List.mem_map.mp ((letThrough_sublist _ _).mem hcall)
    have hnow : y.now = x.now := congrArg AdmitCall.now hxy
    rw [← hnow]
    exact (List.pairwise_append.mp hmono).2.2 y hy d (by simp)
  have hapart : (windows before).Pairwise fun x y => x.bucket = y.bucket →
      x.now + cooldown ≤ y.now ∨ y.now + cooldown ≤ x.now :=
    hspaced.imp fun h hxy => .inl (h hxy)
  have hsymm : Std.Symm fun x y : Drained => x.bucket = y.bucket →
      x.now + cooldown ≤ y.now ∨ y.now + cooldown ≤ x.now :=
    ⟨fun x y h hxy => (h hxy.symm).symm⟩
  by_contra hne
  have hfar := hapart.forall he he' hne hbucket
  have h₁ := hle e he
  have h₂ := hle e' he'
  omega

/-- **What is dropped.**  Of events that come in order of time, one that finds a configuration is
    handed to the sink, or held back by one that was, exactly if the window it falls into was
    opened with a configuration there. -/
theorem drain_drop_iff (before : List Drained) (d : Drained)
    (hmono : (before ++ [d]).Pairwise (fun e d => e.now ≤ d.now)) (hon : d.enabled = true) :
    DroppedForReason before d ↔ WindowEnabled before d := by
  have hhanded := outcome_handed_iff hmono
  have hover := handedOver_eq (List.pairwise_append.mp hmono).1
  constructor
  · rintro (hsent | ⟨e', he', hbucket', hnear'⟩) e he hbucket hnear
    · -- it opens a window itself, so it falls into none
      exact absurd ⟨e, he, hbucket, hnear⟩ ((opensWindow_iff _ _).mp (hhanded.mp hsent).1)
    · rw [hover, List.mem_filter] at he'
      rw [windows_unique hmono he he'.1 (hbucket.trans hbucket'.symm) hnear hnear']
      exact he'.2
  · intro hwindow
    by_cases hopen : opensWindow (windows before) d = true
    · exact .inl (hhanded.mpr ⟨hopen, hon⟩)
    · rw [opensWindow_iff, not_not] at hopen
      obtain ⟨e, he, hbucket, hnear⟩ := hopen
      refine .inr ⟨e, ?_, hbucket, hnear⟩
      rw [hover, List.mem_filter]
      exact ⟨he, hwindow e he hbucket hnear⟩

/-- A peer connects, at some time and with some configuration there. -/
def laptopConnects (now : ℕ) (config : Option NtfyConfig) : Drained :=
  ⟨.peerConnected "laptop" "aa", now, .ok config⟩

/-- Notifications are on: the second event is held back by the first, which was sent. -/
theorem drain_drop_enabled :
    DroppedForReason [laptopConnects 0 (some ⟨"t", none⟩)]
      (laptopConnects 1000 (some ⟨"t", none⟩)) := by
  refine (drain_drop_iff _ _ (by decide) rfl).mpr fun e he _ _ => ?_
  have hwindows : windows [laptopConnects 0 (some ⟨"t", none⟩)] =
      [laptopConnects 0 (some ⟨"t", none⟩)] := rfl
  rw [hwindows, List.mem_singleton] at he
  rw [he]
  rfl

/-- Notifications are switched on between the two: nothing was sent, and nothing is. -/
theorem dropped_without_reason : ¬ ∀ (before : List Drained) (d : Drained),
    (before ++ [d]).Pairwise (fun e d => e.now ≤ d.now) → d.enabled = true →
    DroppedForReason before d := by
  intro hall
  have hdrop := hall [laptopConnects 0 none] (laptopConnects 1000 (some ⟨"t", none⟩))
    (by decide) rfl
  have hheld : (outcome [laptopConnects 0 none] (laptopConnects 1000 (some ⟨"t", none⟩))).handed
      = false := by
    decide +kernel
  have hnone : handedOver [laptopConnects 0 none] = [] := rfl
  obtain hsent | ⟨e, he, -⟩ := hdrop
  · rw [hheld] at hsent
    exact Bool.false_ne_true hsent
  · rw [hnone] at he
    exact absurd he (by simp)

end Drain

end Tmite.Daemon
