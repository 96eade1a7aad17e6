import Tmite.Daemon.StateEffect
import Tmite.Lib.TaskList
import Tmite.Lib.Transition
import Tmite.Proto.PairingCode

namespace Tmite.Daemon

open Tmite.Core Tmite.Proto Transition TaskList

/-!
# Creating invites (`InviteManager` of `daemon/invite.rs`)

Each `peer.invite` request runs `create` in a task of its own.  A call looks at the peer table,
then at the number of entries, and inserts its own entry later, under the lock a second time; an
invite that ends takes its entry out.  Steps go from one lock to the next, so any number of
calls can stand between the check and the insertion: the entries and those calls together are
what has to stay within the cap (`CapInv`).

History variable: a call keeps the number of entries its cap check saw (`seen`).
-/

universe v
variable {Text : Type v}

/-! ### Data -/

/-- `InviteError`. -/
inductive InviteError
  | cap
  | nameTaken (name : String)
  | endpoint (e : String)
deriving DecidableEq

/-- The `#[error]` texts. -/
def InviteError.display : InviteError → String
  | cap => "too many pending invites (max " ++ toString maxPendingInvites ++ ")"
  | nameTaken name => "peer \"" ++ name ++ "\" already exists"
  | endpoint e => "invite endpoint setup failed: " ++ e

/-- `CreatedInvite`, less the channel its result will come on. -/
structure CreatedInvite where
  inviteId : String
  code : String
  ttlSecs : ℕ
deriving DecidableEq

/-- What `entries` maps an invite id to. -/
structure InviteEntry where
  inviteId : String
  name : String
  deadline : ℕ
deriving DecidableEq

/-- `HashMap::insert`. -/
def insertEntry (e : InviteEntry) (entries : List InviteEntry) : List InviteEntry :=
  entries.filter (fun e' => e'.inviteId ≠ e.inviteId) ++ [e]

/-- `HashMap::remove`. -/
def removeEntry (inviteId : String) (entries : List InviteEntry) : List InviteEntry :=
  entries.filter (fun e => e.inviteId ≠ inviteId)

/-- Where a call of `create` stands. -/
inductive CreatePc
  | checkName
  | checkCap
  /-- Past the cap check, before its entry is in. -/
  | insert
  | done (r : Except InviteError CreatedInvite)
deriving DecidableEq

/-- A call of `create`. -/
structure CreateCall where
  name : String
  ttl : Option ℕ
  pc : CreatePc
  /-- The number of entries its cap check saw. -/
  seen : ℕ
deriving DecidableEq

structure InviteManager (Text : Type v) where
  clock : ℕ
  state : State Text
  entries : List InviteEntry
  calls : List CreateCall
deriving DecidableEq

/-! ### Steps -/

/-- `ttl_secs`. -/
def ttlSecs (ttl : Option ℕ) : ℕ := min (ttl.getD defaultInviteTtl) maxInviteTtl

section Next

variable (T : Toml PersistedState Text) (M : Mnemonic) (sha256 : List UInt8 → Bytes32)

/-- One step of a call, with the random bytes it draws: the call and the entries after it.  The
    code is there in any case (`entropyToCode_isSome`). -/
def createNext (s : InviteManager Text) (entropy : Entropy) (idBytes : List UInt8)
    (c : CreateCall) : Option (CreateCall × List InviteEntry) :=
  match c.pc with
  | .checkName =>
    if s.state.isNameFree c.name then some ({ c with pc := .checkCap }, s.entries)
    else some ({ c with pc := .done (.error (.nameTaken c.name)) }, s.entries)
  | .checkCap =>
    if maxPendingInvites ≤ s.entries.length then
      some ({ c with pc := .done (.error .cap), seen := s.entries.length }, s.entries)
    else some ({ c with pc := .insert, seen := s.entries.length }, s.entries)
  | .insert =>
    let created : CreatedInvite :=
      ⟨hex idBytes, (entropyToCode M sha256 entropy).getD "", ttlSecs c.ttl⟩
    some ({ c with pc := .done (.ok created) },
      insertEntry ⟨created.inviteId, c.name, s.clock + created.ttlSecs * 1000⟩ s.entries)
  | .done _ => none

/-- The steps of the manager and of what surrounds it. -/
inductive ManagerAct (Text : Type v)
  | tick (ms : ℕ)
  /-- Another task uses the store. -/
  | store (c : Call Text)
  /-- A `peer.invite` request calls `create`. -/
  | create (name : String) (ttl : Option ℕ)
  /-- Call `k` goes on. -/
  | step (k : ℕ) (entropy : Entropy) (idBytes : List UInt8)
  /-- An invite ends (`InviteShared::finish`). -/
  | finish (inviteId : String)

/-- A step, where it is enabled. -/
def InviteManager.next (s : InviteManager Text) : ManagerAct Text → Option (InviteManager Text)
  | .tick ms => some { s with clock := s.clock + ms }
  | .store c =>
    if c.op = .restart then none else some { s with state := (s.state.call T c).1 }
  | .create name ttl => some { s with calls := s.calls ++ [⟨name, ttl, .checkName, 0⟩] }
  | .step k entropy idBytes =>
    s.calls[k]?.bind fun c => (createNext M sha256 s entropy idBytes c).map fun (c, entries) =>
      { s with entries := entries, calls := s.calls.set k c }
  | .finish inviteId => some { s with entries := removeEntry inviteId s.entries }

/-- A daemon that has started, on any store: no invites, no calls. -/
def InviteManager.system : Transition.System (InviteManager Text) (ManagerAct Text) :=
  ⟨fun s => s.entries = [] ∧ s.calls = [], InviteManager.next T M sha256⟩

end Next

/-! ### What a step does to the entries and the calls -/

section Step

variable {T : Toml PersistedState Text} {M : Mnemonic} {sha256 : List UInt8 → Bytes32}

/-- Between the cap check and the insertion. -/
def CreateCall.inserting (c : CreateCall) : Bool := c.pc = .insert

/-- The calls between their check and their insertion. -/
def InviteManager.inserting (s : InviteManager Text) : ℕ := s.calls.countP CreateCall.inserting

theorem length_insertEntry_le (e : InviteEntry) (entries : List InviteEntry) :
    (insertEntry e entries).length ≤ entries.length + 1 := by
  rw [insertEntry, List.length_append, List.length_singleton]
  exact Nat.add_le_add_right (List.length_filter_le _ _) 1

theorem length_removeEntry_le (inviteId : String) (entries : List InviteEntry) :
    (removeEntry inviteId entries).length ≤ entries.length :=
  List.length_filter_le _ _

/-- A step of a call moves it towards its insertion, inserts, or ends it; the cap stops it only
    where it is reached. -/
theorem createNext_cases {s : InviteManager Text} {entropy : Entropy} {idBytes : List UInt8}
    {c c' : CreateCall} {entries : List InviteEntry}
    (h : createNext M sha256 s entropy idBytes c = some (c', entries)) :
    (c.pc = .checkName ∧ c'.inserting = false ∧ c'.pc ≠ .done (.error .cap) ∧
        entries = s.entries) ∨
      (c.pc = .checkCap ∧ c'.pc = .done (.error .cap) ∧ c'.seen = s.entries.length ∧
        maxPendingInvites ≤ s.entries.length ∧ entries = s.entries) ∨
      (c.pc = .checkCap ∧ c'.inserting = true ∧ s.entries.length < maxPendingInvites ∧
        entries = s.entries) ∨
      (c.pc = .insert ∧ c'.inserting = false ∧ c'.pc ≠ .done (.error .cap) ∧
        entries.length ≤ s.entries.length + 1) := by
  unfold createNext at h
  split at h
  · -- the name is taken, or not
    rename_i hpc
    split at h
    · cases h
      exact .inl ⟨hpc, rfl, by simp, rfl⟩
    · cases h
      exact .inl ⟨hpc, rfl, by simp, rfl⟩
  · -- the cap is reached, or there is room
    rename_i hpc
    split at h
    · rename_i hcap
      cases h
      exact .inr (.inl ⟨hpc, rfl, rfl, hcap, rfl⟩)
    · rename_i hcap
      cases h
      exact .inr (.inr (.inl ⟨hpc, rfl, Nat.lt_of_not_le hcap, rfl⟩))
  · -- the insertion does not look at the cap again
    rename_i hpc
    cases h
    exact .inr (.inr (.inr ⟨hpc, rfl, by simp, length_insertEntry_le _ _⟩))
  · exact absurd h (by simp)

/-- A step of call `k`. -/
theorem next_step {s s' : InviteManager Text} {k : ℕ} {entropy : Entropy} {idBytes : List UInt8}
    (h : s.next T M sha256 (.step k entropy idBytes) = some s') :
    ∃ c c' entries, s.calls[k]? = some c ∧
      createNext M sha256 s entropy idBytes c = some (c', entries) ∧
      s' = { s with entries := entries, calls := s.calls.set k c' } := by
  obtain ⟨c, hc, h⟩ := Option.bind_eq_some_iff.mp h
  obtain ⟨⟨c', entries⟩, hstep, rfl⟩ := Option.map_eq_some_iff.mp h
  exact ⟨c, c', entries, hc, hstep, rfl⟩

/-! ### The cap -/

/-- A call passes its cap check only while the entries and the calls that have passed theirs are
    together below the cap. -/
def RoomForAll (s : InviteManager Text) : ManagerAct Text → Prop
  | .step k _ _ => ∀ c, s.calls[k]? = some c → c.pc = .checkCap →
      s.entries.length < maxPendingInvites → s.entries.length + s.inserting < maxPendingInvites
  | _ => True

instance (s : InviteManager Text) (a : ManagerAct Text) : Decidable (RoomForAll s a) :=
  match a with
  | .step k _ _ =>
    inferInstanceAs (Decidable (∀ c ∈ s.calls[k]?, c.pc = .checkCap →
      s.entries.length < maxPendingInvites → s.entries.length + s.inserting < maxPendingInvites))
  | .tick _ | .store _ | .create _ _ | .finish _ => inferInstanceAs (Decidable True)

/-- The entries, with those about to come, are within the cap. -/
def CapInv (s : InviteManager Text) : Prop := s.entries.length + s.inserting ≤ maxPendingInvites

/-- A call that was refused for the cap saw it reached. -/
def SeenInv (s : InviteManager Text) : Prop :=
  ∀ c ∈ s.calls, c.pc = .done (.error .cap) → maxPendingInvites ≤ c.seen

theorem CapInv.next {s s' : InviteManager Text} {a : ManagerAct Text} (h : CapInv s)
    (hC : RoomForAll s a) (hn : s.next T M sha256 a = some s') : CapInv s' := by
  unfold CapInv InviteManager.inserting at *
  cases a with
  | tick ms => cases hn; exact h
  | store c =>
    simp only [InviteManager.next] at hn
    split at hn
    · exact absurd hn (by simp)
    · cases hn; exact h
  | create name ttl =>
    -- a new call stands at its first check
    cases hn
    simpa [List.countP_append, CreateCall.inserting] using h
  | finish inviteId =>
    cases hn
    have hle := length_removeEntry_le inviteId s.entries
    simp only
    omega
  | step k entropy idBytes =>
    obtain ⟨c, c', entries, hc, hstep, rfl⟩ := next_step hn
    have hcount := countP_set_add (b := c') CreateCall.inserting hc
    simp only
    rcases createNext_cases hstep with ⟨hpc, hno, -, rfl⟩ | ⟨hpc, hdone, -, -, rfl⟩ |
      ⟨hpc, hyes, hlt, rfl⟩ | ⟨hpc, hno, -, hlen⟩
    · have hc0 : c.inserting = false := by simp [CreateCall.inserting, hpc]
      rw [hno, hc0] at hcount
      omega
    · have hc0 : c.inserting = false := by simp [CreateCall.inserting, hpc]
      have hc1 : c'.inserting = false := by simp [CreateCall.inserting, hdone]
      rw [hc1, hc0] at hcount
      omega
    · -- one more call is on its way to an entry: the guard leaves room for it
      have hc0 : c.inserting = false := by simp [CreateCall.inserting, hpc]
      have hroom := hC c hc hpc hlt
      unfold InviteManager.inserting at hroom
      rw [hyes, hc0] at hcount
      simp only [if_true, Bool.false_eq_true, if_false] at hcount
      omega
    · have hc1 : c.inserting = true := by simp [CreateCall.inserting, hpc]
      rw [hno, hc1] at hcount
      simp only [if_true, Bool.false_eq_true, if_false] at hcount
      omega

theorem SeenInv.next {s s' : InviteManager Text} {a : ManagerAct Text} (h : SeenInv s)
    (hn : s.next T M sha256 a = some s') : SeenInv s' := by
  cases a with
  | tick ms => cases hn; exact h
  | store c =>
    simp only [InviteManager.next] at hn
    split at hn
    · exact absurd hn (by simp)
    · cases hn; exact h
  | create name ttl =>
    cases hn
    intro c hc hdone
    rcases List.mem_append.mp hc with hold | hnew
    · exact h c hold hdone
    · rw [List.mem_singleton.mp hnew] at hdone
      exact absurd hdone (by simp)
  | finish inviteId => cases hn; exact h
  | step k entropy idBytes =>
    obtain ⟨c, c', entries, hc, hstep, rfl⟩ := next_step hn
    intro d hd hdone
    rcases List.mem_or_eq_of_mem_set hd with hold | rfl
    · exact h d hold hdone
    · -- only the cap check ends a call with `Cap`
      rcases createNext_cases hstep with ⟨-, -, hno, -⟩ | ⟨-, -, hseen, hcap, -⟩ |
        ⟨-, hyes, -, -⟩ | ⟨-, -, hno, -⟩
      · exact absurd hdone hno
      · rw [hseen]
        exact hcap
      · exact absurd hyes (by simp [CreateCall.inserting, hdone])
      · exact absurd hdone hno

/-- **The invite cap.** In every run in which calls pass their cap check only while there is
    room for all that have, the entries never exceed the cap; and in any run `create` returns
    `Cap` only where the cap was reached. -/
theorem invite_cap (T : Toml PersistedState Text) (M : Mnemonic)
    (sha256 : List UInt8 → Bytes32) :
    (∀ s, Reach (InviteManager.system T M sha256) RoomForAll s →
      s.entries.length ≤ maxPendingInvites) ∧
    ∀ s, Reach (InviteManager.system T M sha256) anyStep s →
      ∀ c ∈ s.calls, c.pc = .done (.error .cap) → maxPendingInvites ≤ c.seen := by
  refine ⟨?_, ?_⟩
  · intro s h
    have hinv : CapInv s := by
      refine h.invariant (fun s h0 => ?_) (fun _ _ _ _ hi hC hn => hi.next hC hn)
      obtain ⟨hentries, hcalls⟩ := h0
      simp [CapInv, InviteManager.inserting, hentries, hcalls]
    unfold CapInv at hinv
    omega
  · intro s h
    refine h.invariant (I := SeenInv) (fun s h0 => ?_) (fun _ _ _ _ hi _ hn => hi.next hn)
    obtain ⟨-, hcalls⟩ := h0
    simp [SeenInv, hcalls]

end Step

/-! ### Runs -/

/-- A daemon with no peers. -/
def freshManager : InviteManager PersistedState := ⟨0, .fresh, [], []⟩

/-- Call `k` takes a step; its invite id is made of sixteen times `k`. -/
def stepCall (k : ℕ) : ManagerAct PersistedState :=
  .step k ⟨[0, 0, 0, 0, 0], rfl⟩ (List.replicate 16 (UInt8.ofNat k))

/-- Calls `0` to `n - 1`, one after the other. -/
def oneByOne (n : ℕ) : List (ManagerAct PersistedState) :=
  (List.range n).flatMap (fun k => [.create "laptop" none, stepCall k, stepCall k, stepCall k])

/-- One after the other, eight calls succeed and the ninth is refused. -/
theorem invite_cap_ninth : ∃ s,
    Reach (InviteManager.system (.self PersistedState) sampleMnemonic sampleSha256) RoomForAll s ∧
      s.entries.length = maxPendingInvites ∧ s.entries.length ≤ maxPendingInvites ∧
      ∃ c ∈ s.calls, c.pc = .done (.error .cap) := by
  have hrun : (exec (InviteManager.system (.self PersistedState) sampleMnemonic sampleSha256)
      (fun s a => decide (RoomForAll s a)) freshManager
      (oneByOne 8 ++ [.create "laptop" none, stepCall 8, stepCall 8])).map
        (fun s => (s.entries.length, s.calls[8]?)) =
      some (8, some ⟨"laptop", none, .done (.error .cap), 8⟩) := by
    decide +kernel
  obtain ⟨s, hr, hs⟩ := reach_of_exec_map (fun _ _ => of_decide_eq_true) hrun (.init ⟨rfl, rfl⟩)
  obtain ⟨hlen, hcall⟩ := Prod.mk.inj hs
  exact ⟨s, hr, hlen, (invite_cap (.self PersistedState) sampleMnemonic sampleSha256).1 s hr, _,
    List.mem_of_getElem? hcall, rfl⟩

/-- Nine calls pass their checks before any of them inserts. -/
def allAtOnce : List (ManagerAct PersistedState) :=
  (List.range 9).flatMap (fun k => [.create "laptop" none, stepCall k, stepCall k]) ++
    (List.range 9).map stepCall

/-- Nine entries are pending. -/
theorem cap_exceeded : ∃ s,
    Reach (InviteManager.system (.self PersistedState) sampleMnemonic sampleSha256) anyStep s ∧
      maxPendingInvites < s.entries.length := by
  have hrun : (exec (InviteManager.system (.self PersistedState) sampleMnemonic sampleSha256)
      (fun _ _ => true) freshManager allAtOnce).map (fun s => s.entries.length) = some 9 := by
    decide +kernel
  obtain ⟨s, hr, hlen⟩ := reach_of_exec_map (fun _ _ _ => trivial) hrun (.init ⟨rfl, rfl⟩)
  refine ⟨s, hr, ?_⟩
  rw [hlen]
  decide

end Tmite.Daemon
