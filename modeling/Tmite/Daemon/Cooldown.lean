import Mathlib.Data.Set.Insert
import Tmite.Lib.Keyed
import Tmite.Daemon.Dispatch

namespace Tmite.Daemon

open Tmite.Core Serde

/-!
# Whose notifications the cooldown holds back (`Cooldown::admit` and `drain` of `daemon/notify.rs`)

The cooldown keeps a time per kind and key, and nothing under one key depends on what comes in under
others.  The key of a rule is its peer and its target around a slash, and both may have slashes of
their own: `key_eq_iff` says which subjects share a key.
-/

/-! ### Subjects -/

/-- What a notification is about. -/
inductive Subject
  | peer (name : String)
  | node (nodeId : String)
  | invite (inviteId : String)
  | rule (peer target : String)
deriving DecidableEq, Repr

def Notification.subject : Notification → Subject
  | peerConnected name _ => .peer name
  | pairRequested name _ => .peer name
  | peerRegistered name _ => .peer name
  | peerRejected nodeId => .node nodeId
  | inviteCreated _ inviteId _ => .invite inviteId
  | inviteExpired inviteId => .invite inviteId
  | ruleAdded peer target => .rule peer target
  | ruleRevoked peer target => .rule peer target

/-- Two rule notifications of one kind whose peers and targets run into each other: the peer of the
    one goes on, after a slash, with the start of the other's target. -/
def Overlaps (n n' : Notification) : Prop :=
  n.kind = n'.kind ∧ ∃ p x t : String, n.subject = .rule p (x ++ "/" ++ t) ∧
    n'.subject = .rule (p ++ "/" ++ x) t

/-- Two texts around a separator: the same two, or one runs into the other. -/
private theorem append_cons_eq {α : Type} {c : α} {p t p' t' : List α}
    (h : p ++ c :: t = p' ++ c :: t') :
    (p = p' ∧ t = t') ∨ (∃ x, p' = p ++ c :: x ∧ t = x ++ c :: t') ∨
      ∃ x, p = p' ++ c :: x ∧ t' = x ++ c :: t := by
  -- one of `p` and `p'` begins the other; what is left of the longer one starts with the separator
  obtain ⟨d, hp, ht⟩ | ⟨d, hp, ht⟩ := List.append_eq_append_iff.mp h
  · cases d with
    | nil =>
      rw [List.nil_append, List.cons.injEq] at ht
      exact .inl ⟨by rw [hp, List.append_nil], ht.2⟩
    | cons e x =>
      rw [List.cons_append, List.cons.injEq] at ht
      obtain ⟨rfl, ht⟩ := ht
      exact .inr (.inl ⟨x, hp, ht⟩)
  · cases d with
    | nil =>
      rw [List.nil_append, List.cons.injEq] at ht
      exact .inl ⟨by rw [hp, List.append_nil], ht.2.symm⟩
    | cons e x =>
      rw [List.cons_append, List.cons.injEq] at ht
      obtain ⟨rfl, ht⟩ := ht
      exact .inr (.inr ⟨x, hp, ht⟩)

private theorem toList_slash (p t : String) : (p ++ "/" ++ t).toList = p.toList ++ '/' :: t.toList := by
  simp

theorem slash_eq {p t p' t' : String} (h : p ++ "/" ++ t = p' ++ "/" ++ t') :
    (p = p' ∧ t = t') ∨ (∃ x, p' = p ++ "/" ++ x ∧ t = x ++ "/" ++ t') ∨
      ∃ x, p = p' ++ "/" ++ x ∧ t' = x ++ "/" ++ t := by
  have hlist := congrArg String.toList h
  rw [toList_slash, toList_slash] at hlist
  obtain ⟨hp, ht⟩ | ⟨x, hp, ht⟩ | ⟨x, hp, ht⟩ := append_cons_eq hlist
  · exact .inl ⟨String.toList_inj.mp hp, String.toList_inj.mp ht⟩
  · refine .inr (.inl ⟨String.ofList x, String.toList_inj.mp ?_, String.toList_inj.mp ?_⟩)
    · rw [toList_slash, String.toList_ofList, hp]
    · rw [toList_slash, String.toList_ofList, ht]
  · refine .inr (.inr ⟨String.ofList x, String.toList_inj.mp ?_, String.toList_inj.mp ?_⟩)
    · rw [toList_slash, String.toList_ofList, hp]
    · rw [toList_slash, String.toList_ofList, ht]

/-- A peer and a target do not determine each other's ends. -/
theorem Overlaps.key_eq {n n' : Notification} (h : Overlaps n n') : n.key = n'.key := by
  obtain ⟨hkind, p, x, t, hn, hn'⟩ := h
  have hjoin : p ++ "/" ++ (x ++ "/" ++ t) = (p ++ "/" ++ x) ++ "/" ++ t := by
    simp only [String.append_assoc]
  cases n <;> cases n' <;>
    simp only [Notification.kind, Notification.subject, Notification.key, reduceCtorEq,
      Subject.rule.injEq] at hkind hn hn' ⊢
  all_goals rw [hn.1, hn.2, hn'.1, hn'.2, hjoin]

theorem Overlaps.subject_ne {n n' : Notification} (h : Overlaps n n') :
    n.subject ≠ n'.subject := by
  obtain ⟨-, p, x, t, hn, hn'⟩ := h
  rw [hn, hn']
  intro heq
  simp only [Subject.rule.injEq] at heq
  -- the second peer is longer than the first
  have hlen := congrArg (fun s : String => s.toList.length) heq.1
  simp at hlen

/-- Rules with one key are the same, or overlap. -/
theorem rule_cases {n n' : Notification} {p t p' t' : String} (hkind : n.kind = n'.kind)
    (hn : n.subject = .rule p t) (hn' : n'.subject = .rule p' t')
    (hkey : p ++ "/" ++ t = p' ++ "/" ++ t') :
    n.subject = n'.subject ∨ Overlaps n n' ∨ Overlaps n' n := by
  obtain ⟨rfl, rfl⟩ | ⟨x, rfl, rfl⟩ | ⟨x, rfl, rfl⟩ := slash_eq hkey
  · exact .inl (hn.trans hn'.symm)
  · exact .inr (.inl ⟨hkind, p, x, t', hn, hn'⟩)
  · exact .inr (.inr ⟨hkind.symm, p', x, t, hn', hn⟩)

/-- **Who shares a key.**  Notifications of one kind do so if they are about the same, or overlap,
    one way or the other. -/
theorem key_eq_iff {n n' : Notification} (hkind : n.kind = n'.kind) :
    n.key = n'.key ↔ n.subject = n'.subject ∨ Overlaps n n' ∨ Overlaps n' n := by
  constructor
  · intro hkey
    cases n <;> cases n' <;> simp only [Notification.kind, reduceCtorEq] at hkind
    case ruleAdded.ruleAdded p t p' t' => exact rule_cases rfl rfl rfl hkey
    case ruleRevoked.ruleRevoked p t p' t' => exact rule_cases rfl rfl rfl hkey
    -- the other kinds have the subject itself for a key
    all_goals
      simp only [Notification.key] at hkey
      exact .inl (by rw [Notification.subject, Notification.subject, hkey])
  · rintro (hsubject | hover | hover)
    · cases n <;> cases n' <;> simp only [Notification.kind, reduceCtorEq] at hkind <;>
        simp only [Notification.subject, Subject.peer.injEq, Subject.node.injEq,
          Subject.invite.injEq, Subject.rule.injEq] at hsubject <;>
        simp only [Notification.key, hsubject]
    · exact hover.key_eq
    · exact hover.key_eq.symm

/-! ### The drain task, key by key -/

/-- What an event's key has recorded after it. -/
def recordAt (window : ℕ) (last : Option ℕ) (now : ℕ) : Option ℕ :=
  match last with
  | some t => if now - t < window then some t else some now
  | none => some now

/-- Whether an event comes in outside the window. -/
def outside (window : ℕ) (last : Option ℕ) (now : ℕ) : Bool :=
  match last with
  | some t => !decide (now - t < window)
  | none => true

namespace Cooldown

variable (c : Cooldown) (now : ℕ) (kind : Kind) (key : String)

@[simp] theorem admitEvent_snd : (c.admitEvent now kind key).2 = outside c.window (c.last (kind, key)) now := by
  unfold admitEvent outside
  cases c.last (kind, key) with
  | none => rfl
  | some t =>
    dsimp only
    split <;> simp_all

@[simp] theorem admitEvent_window : (c.admitEvent now kind key).1.window = c.window := by
  unfold admitEvent
  split
  · split <;> rfl
  · rfl

theorem admitEvent_last_own :
    (c.admitEvent now kind key).1.last (kind, key) = recordAt c.window (c.last (kind, key)) now := by
  unfold admitEvent recordAt
  cases hlast : c.last (kind, key) with
  | none => simp
  | some t =>
    dsimp only
    split
    · exact hlast
    · simp

theorem admitEvent_last_other {k : Kind × String} (hk : k ≠ (kind, key)) :
    (c.admitEvent now kind key).1.last k = c.last k := by
  unfold admitEvent
  split
  · split
    · rfl
    · exact Function.update_of_ne hk _ _
  · exact Function.update_of_ne hk _ _

end Cooldown

theorem drainOne_fst (c : Cooldown) (d : Drained) :
    (drainOne c d).1 = (c.admitEvent d.now d.notification.kind d.notification.key).1 := by
  unfold drainOne
  split <;> rename_i hadmitted
  · rw [hadmitted]
  · rw [hadmitted]
    split <;> rfl

/-- Where the cooldown keeps an event's time. -/
def Drained.bucket (d : Drained) : Kind × String := (d.notification.kind, d.notification.key)

/-- One turn of `drain`, on the recorded times alone. -/
def recordOne (window : ℕ) (last : Kind × String → Option ℕ) (d : Drained) :
    Kind × String → Option ℕ :=
  (drainOne ⟨window, last⟩ d).1.last

theorem recordOne_local (window : ℕ) :
    Keyed.Local Drained.bucket (recordOne window) (fun last d => recordAt window last d.now) where
  own last d := by rw [recordOne, drainOne_fst, Drained.bucket, Cooldown.admitEvent_last_own]
  other last d k hk := by rw [recordOne, drainOne_fst, Cooldown.admitEvent_last_other _ _ _ _ hk]

theorem drain_eq (c : Cooldown) (events : List Drained) :
    drain c events = ⟨c.window, events.foldl (recordOne c.window) c.last⟩ := by
  induction events generalizing c with
  | nil => rfl
  | cons d events ih =>
    have hwindow : (drainOne c d).1.window = c.window := by rw [drainOne_fst, Cooldown.admitEvent_window]
    rw [drain, List.foldl_cons, ← drain, ih, hwindow]
    rfl

/-! ### What a decision rests on -/

/-- Whether the event `d` is let through after the events before it. -/
def admitted (before : List Drained) (d : Drained) : Bool :=
  ((drain (.new cooldown) before).admitEvent d.now d.notification.kind d.notification.key).2

/-- When the earlier events of `d`'s kind and about `d`'s subject came in. -/
def ownTimes (before : List Drained) (d : Drained) : List ℕ :=
  (before.filter (fun e => e.notification.kind = d.notification.kind ∧
    e.notification.subject = d.notification.subject)).map (·.now)

/-- Among notifications of `N`, an event's own times decide whether it is let through. -/
def OwnTimesDecide (N : Set Notification) : Prop :=
  ∀ (before before' : List Drained) (d : Drained), d.notification ∈ N →
    (∀ e ∈ before, e.notification ∈ N) → (∀ e ∈ before', e.notification ∈ N) →
    ownTimes before d = ownTimes before' d → admitted before d = admitted before' d

/-- An event's bucket decides. -/
theorem admitted_eq (before : List Drained) (d : Drained) :
    admitted before d = outside cooldown
      (((before.filter (fun e => e.bucket = d.bucket)).map (·.now)).foldl (recordAt cooldown) none)
      d.now := by
  have hlast : (drain (.new cooldown) before).last d.bucket =
      ((before.filter (fun e => e.bucket = d.bucket)).map (·.now)).foldl (recordAt cooldown) none := by
    rw [drain_eq, List.foldl_map]
    exact (recordOne_local cooldown).foldl_apply _ before d.bucket
  rw [admitted, Cooldown.admitEvent_snd, ← hlast, drain_eq]
  rfl

theorem bucket_eq_iff {d e : Drained} (h : ¬ Overlaps e.notification d.notification)
    (h' : ¬ Overlaps d.notification e.notification) : e.bucket = d.bucket ↔
      e.notification.kind = d.notification.kind ∧ e.notification.subject = d.notification.subject := by
  rw [Drained.bucket, Drained.bucket, Prod.mk.injEq]
  refine and_congr_right fun hkind => ?_
  rw [key_eq_iff hkind]
  simp [h, h']

/-- Without overlaps a bucket holds one subject. -/
theorem ownTimes_eq {before : List Drained} {d : Drained}
    (h : ∀ e ∈ before, ¬ Overlaps e.notification d.notification ∧
      ¬ Overlaps d.notification e.notification) :
    ownTimes before d = (before.filter (fun e => e.bucket = d.bucket)).map (·.now) := by
  have hfilter : before.filter (fun e => decide (e.notification.kind = d.notification.kind ∧
      e.notification.subject = d.notification.subject)) =
      before.filter (fun e => decide (e.bucket = d.bucket)) := by
    refine List.filter_congr fun e he => ?_
    rw [decide_eq_decide]
    exact (bucket_eq_iff (h e he).1 (h e he).2).symm
  rw [ownTimes, hfilter]

/-- An overlapping event holds the other one back. -/
theorem admitted_of_overlaps {n n' : Notification} (h : Overlaps n n') (now : ℕ) :
    admitted [⟨n', now, .ok none⟩] ⟨n, now, .ok none⟩ = false ∧
      ownTimes [⟨n', now, .ok none⟩] ⟨n, now, .ok none⟩ = [] := by
  have hbucket : Drained.bucket ⟨n', now, .ok none⟩ = Drained.bucket ⟨n, now, .ok none⟩ := by
    rw [Drained.bucket, Drained.bucket, h.1, h.key_eq]
  constructor
  · rw [admitted_eq, List.filter_cons_of_pos (by simpa using hbucket)]
    simp [recordAt, outside, cooldown]
  · rw [ownTimes, List.filter_cons_of_neg (by simpa using fun _ => h.subject_ne.symm)]
    rfl

/-- **Who holds whom back.**  A notification's fate rests on the times of its own subject, whatever
    the others are and whenever they come, so long as no two rules overlap, and only then. -/
theorem subjects_independent (N : Set Notification) :
    OwnTimesDecide N ↔ ∀ n ∈ N, ∀ n' ∈ N, ¬ Overlaps n n' := by
  constructor
  · intro hdecide n hn n' hn' hover
    -- the same own times, none, after the overlapping event and after nothing at all
    obtain ⟨hheld, hown⟩ := admitted_of_overlaps hover 0
    have heq := hdecide [⟨n', 0, .ok none⟩] [] ⟨n, 0, .ok none⟩ hn (by simpa using hn') (by simp) hown
    have hfirst : admitted [] ⟨n, 0, .ok none⟩ = true := rfl
    rw [hheld, hfirst] at heq
    exact Bool.false_ne_true heq
  · intro hnone before before' d hd hbefore hbefore' hown
    have hclear : ∀ es : List Drained, (∀ e ∈ es, e.notification ∈ N) → ∀ e ∈ es,
        ¬ Overlaps e.notification d.notification ∧ ¬ Overlaps d.notification e.notification :=
      fun es hes e he => ⟨hnone _ (hes e he) _ hd, hnone _ hd _ (hes e he)⟩
    rw [ownTimes_eq (hclear before hbefore), ownTimes_eq (hclear before' hbefore')] at hown
    rw [admitted_eq, admitted_eq, hown]

/-- A store with two peers, the name of one within the name of the other. -/
def nestedPeers : State PersistedState :=
  State.after (Toml.self PersistedState)
    [⟨.addPeer ⟨"a", "00", "", ""⟩, none⟩, ⟨.addPeer ⟨"a/b", "01", "", ""⟩, none⟩]

/-- The admin's first grant. -/
def grantFirst : Dispatched PersistedState ℕ :=
  dispatchAllow (Toml.self PersistedState) none (fun _ => "") nestedPeers
    (.obj [("peer", .str "a"), ("target", .str "b/c:1")]) ""

/-- And the second one, to the other peer. -/
def grantSecond : Dispatched PersistedState ℕ :=
  dispatchAllow (Toml.self PersistedState) none (fun _ => "") grantFirst.store
    (.obj [("peer", .str "a/b"), ("target", .str "c:1")]) ""

/-- Both grants are made and both are notified about, and within the minute the second
    notification is held back by the first. -/
theorem rules_collide :
    grantFirst.notified = some (.ruleAdded "a" "b/c:1") ∧
    grantSecond.notified = some (.ruleAdded "a/b" "c:1") ∧
    ownTimes [⟨.ruleAdded "a" "b/c:1", 0, .ok none⟩] ⟨.ruleAdded "a/b" "c:1", 0, .ok none⟩ = [] ∧
    admitted [⟨.ruleAdded "a" "b/c:1", 0, .ok none⟩] ⟨.ruleAdded "a/b" "c:1", 0, .ok none⟩ = false ∧
    ¬ OwnTimesDecide {.ruleAdded "a" "b/c:1", .ruleAdded "a/b" "c:1"} := by
  have hown : ownTimes [⟨.ruleAdded "a" "b/c:1", 0, .ok none⟩] ⟨.ruleAdded "a/b" "c:1", 0, .ok none⟩
      = [] := by
    decide +kernel
  have hheld : admitted [⟨.ruleAdded "a" "b/c:1", 0, .ok none⟩]
      ⟨.ruleAdded "a/b" "c:1", 0, .ok none⟩ = false := by
    decide +kernel
  refine ⟨by decide +kernel, by decide +kernel, hown, hheld, fun hdecide => ?_⟩
  have heq := hdecide _ [] _ (by simp) (by simp) (by simp) hown
  rw [hheld] at heq
  exact absurd heq (by decide +kernel)

end Tmite.Daemon
