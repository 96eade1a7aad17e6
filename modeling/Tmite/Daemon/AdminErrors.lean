import Tmite.Daemon.AddRule
import Tmite.Daemon.InviteManager
import Tmite.Daemon.IpcReplies

namespace Tmite.Daemon

open Tmite.Core Tmite.Proto Serde Transition

/-!
# The error codes of admin requests (`daemon/ipc.rs`, with the errors of `invite.rs` and `state.rs`)

A request that is refused is answered with one of a few stable codes.  On its way there the refusal
is an `InviteError`, a `DecideError` or a `StateError`, and each has a mapping of its own.

* `admin_codes_iff` — the replies carry the documented codes, but for one: `InviteError::error_code`
  has no arm for a taken name, which its wildcard turns into `internal`.
-/

universe v
variable {Text : Type v}

/-! ### The errors of invites -/

/-- `InviteError::error_code`. -/
def InviteError.errorCode : InviteError → ErrorCode
  | cap => .inviteCap
  | _ => .internal

/-- An `InviteError` as a reply. -/
def DispatchError.ofInvite (e : InviteError) : DispatchError := ⟨e.errorCode, e.display⟩

/-- `DecideError`. -/
inductive DecideError
  | notFound
  | expired
deriving DecidableEq, Repr

/-- The `#[error]` texts. -/
def DecideError.display : DecideError → String
  | notFound => "invite not found"
  | expired => "invite already expired"

/-- A `DecideError` as a reply. -/
def DispatchError.ofDecide (e : DecideError) : DispatchError :=
  match e with
  | .notFound => ⟨.notFound, e.display⟩
  | .expired => ⟨.inviteExpired, e.display⟩

/-! ### The requests -/

/-- `DecideParams`. -/
structure DecideParams where
  inviteId : String
  accept : Bool
deriving DecidableEq, Repr

/-- `bool`. -/
def asBool : Value → Option Bool
  | .bool b => some b
  | _ => none

def DecideParams.fromValue (v : Value) : Option DecideParams := do
  let [inviteId, accept] ← v.structFields ["invite_id", "accept"] | none
  return ⟨← inviteId.asStr, ← asBool accept⟩

/-- `RmParams`; `force` may be missing. -/
structure RmParams where
  peer : String
  force : Bool
deriving DecidableEq, Repr

def RmParams.fromValue : Value → Option RmParams
  | .obj members => do
    let peer ← (Value.member "peer" members).bind Value.asStr
    let force ← match members.filter (fun m => m.1 = "force") with
      | [] => some false
      | [m] => asBool m.2
      | _ => none
    return ⟨peer, force⟩
  | .arr [peer] => do return ⟨← peer.asStr, false⟩
  | .arr [peer, force] => do return ⟨← peer.asStr, ← asBool force⟩
  | _ => none

/-- The checks of `InviteManager::create`.  The entries are looked at under a lock of their own,
    after the name: by then the daemon may be in another state. -/
def createChecks (s s' : InviteManager Text) (name : String) : Except InviteError Unit :=
  if !s.state.isNameFree name then .error (.nameTaken name)
  else if maxPendingInvites ≤ s'.entries.length then .error .cap
  else .ok ()

/-- `InviteManager::decide`.  The command is sent after the lock is released: the invite may be
    `gone` then, with the receiver of its commands. -/
def InviteManager.decide (s : InviteManager Text) (inviteId : String) (gone : Bool) :
    Except DecideError Unit :=
  match s.entries.find? (fun e => e.inviteId == inviteId) with
  | none => .error .notFound
  | some _ => if gone then .error .expired else .ok ()

section Requests

variable (T : Toml PersistedState Text) (paramsError : Value → String)

/-- `dispatch_invite` up to the invite's creation; what comes then is the invite's result. -/
def dispatchInvite (s s' : InviteManager Text) (params : Value) : Except DispatchError Unit :=
  match inviteName paramsError params with
  | .error e => .error e
  | .ok name => (createChecks s s' name).mapError .ofInvite

/-- `dispatch_decide`. -/
def dispatchDecide (s : InviteManager Text) (gone : Bool) (params : Value) :
    Except DispatchError Value :=
  match DecideParams.fromValue params with
  | none => .error ⟨.badRequest, paramsError params⟩
  | some p =>
    match s.decide p.inviteId gone with
    | .error e => .error (.ofDecide e)
    | .ok () => .ok (.obj [("status", .str (if p.accept then "accepted" else "rejected"))])

/-- `dispatch_rm`. -/
def dispatchRm (fault : Option (WriteFault Text)) (s : State Text) (params : Value) :
    State Text × Except DispatchError Bool :=
  match RmParams.fromValue params with
  | none => (s, .error ⟨.badRequest, paramsError params⟩)
  | some p =>
    match s.removePeer T fault p.peer p.force with
    | (s, .error e) => (s, .error (.ofState e))
    | (s, .ok removed) => (s, .ok removed)

/-- The error in a result. -/
def errorOf {ε : Type} {α : Type} : Except ε α → Option ε
  | .error e => some e
  | .ok _ => none

/-- The error that a request of the five is refused with, where no save fails. -/
def adminError (s s' : InviteManager Text) (gone : Bool) (now : String) (params : Value) :
    Method → Option DispatchError
  | .peerInvite => errorOf (dispatchInvite paramsError s s' params)
  | .peerInviteDecide => errorOf (dispatchDecide paramsError s gone params)
  | .peerAllow => errorOf (dispatchAllow T none paramsError s.state params now).reply
  | .peerRevoke => errorOf (dispatchRevoke T none paramsError s.state params).reply
  | .peerRm => errorOf (dispatchRm T paramsError none s.state params).2
  | _ => none

end Requests

/-! ### What is documented -/

/-- An invite with a name in it, and the name as it is taken. -/
def InviteFor (params : Value) (name : String) : Prop :=
  ∃ p, InviteParams.fromValue params = some p ∧ trim p.name = name ∧ name ≠ ""

/-- When a request is to be refused with a code, of those that say what is wrong with it. -/
def Documented (s s' : InviteManager Text) (params : Value) : Method → ErrorCode → Prop
  | .peerInvite, .nameTaken => ∃ name, InviteFor params name ∧ s.state.inner.hasPeer name = true
  | .peerInvite, .inviteCap => ∃ name, InviteFor params name ∧
      s.state.inner.hasPeer name = false ∧ maxPendingInvites ≤ s'.entries.length
  | .peerInviteDecide, .notFound => ∃ p, DecideParams.fromValue params = some p ∧
      ∀ e ∈ s.entries, e.inviteId ≠ p.inviteId
  | .peerAllow, .notFound => ∃ p, AllowParams.fromValue params = some p ∧
      validTarget p.target = true ∧ s.state.inner.hasPeer p.peer = false
  | .peerRevoke, .notFound => ∃ p, AllowParams.fromValue params = some p ∧
      s.state.inner.hasPeer p.peer = false
  | .peerRm, .peerHasRules => ∃ p, RmParams.fromValue params = some p ∧ p.force = false ∧
      s.state.inner.hasPeer p.peer = true ∧ ∃ r ∈ s.state.inner.rules, r.peer = p.peer
  | _, _ => False

/-- The codes that say what is wrong with a request. -/
def adminCodes : List ErrorCode := [.nameTaken, .inviteCap, .notFound, .peerHasRules]

/-! ### The store's errors -/

section Store

variable (T : Toml PersistedState Text) (s : State Text)

/-- `add_rule` fails for an unknown peer, and for a full list. -/
theorem addRule_errorOf (peer target now : String) :
    errorOf (s.addRule T none peer target now).2 =
      if s.inner.hasPeer peer = false then some (.notFound peer)
      else if maxRules ≤ s.inner.rules.length then some .ruleCap else none := by
  by_cases hpeer : s.inner.hasPeer peer = true
  · rw [if_neg (by simp [hpeer])]
    by_cases hcap : maxRules ≤ s.inner.rules.length
    · rw [if_pos hcap, addRule_full T none now hpeer hcap]
      rfl
    · rw [if_neg hcap]
      by_cases hrule : s.inner.hasRule peer target = true
      · obtain ⟨i, r, hadd, -⟩ := addRule_existing T none now hpeer (Nat.not_le.mp hcap) hrule
        rw [hadd]
        rfl
      · rw [Bool.not_eq_true] at hrule
        have hw : writes s.inner (.addRule peer target now) = true := by
          simp [writes, hpeer, hrule, Nat.not_le.mp hcap]
        rw [addRule_of_writes hw]
        rfl
  · rw [Bool.not_eq_true] at hpeer
    rw [if_pos hpeer]
    rw [PersistedState.hasPeer] at hpeer
    unfold State.addRule
    rw [hpeer]
    rfl

/-- `remove_rule` fails for an unknown peer. -/
theorem removeRule_errorOf (peer target : String) :
    errorOf (s.removeRule T none peer target).2 =
      if s.inner.hasPeer peer = false then some (.notFound peer) else none := by
  by_cases hw : writes s.inner (.removeRule peer target) = true
  · rw [removeRule_of_writes hw]
    simp only [writes, Bool.and_eq_true] at hw
    rw [if_neg (by simp [hw.1])]
    rfl
  · rw [removeRule_of_not_writes (Bool.eq_false_iff.mpr hw)]
    cases s.inner.hasPeer peer <;> rfl

/-- `remove_peer` fails for a peer with rules, without force. -/
theorem removePeer_errorOf (name : String) (force : Bool) :
    errorOf (s.removePeer T none name force).2 =
      if s.inner.hasPeer name = true ∧ s.inner.rules.any (fun r => r.peer == name) = true ∧
          force = false then
        some (.peerHasRules name)
      else none := by
  by_cases hw : writes s.inner (.removePeer name force) = true
  · rw [removePeer_of_writes hw]
    simp only [writes, Bool.and_eq_true, Bool.or_eq_true, Bool.not_eq_true'] at hw
    rw [if_neg]
    · rfl
    · rintro ⟨-, hrules, hforce⟩
      rw [hrules, hforce] at hw
      exact absurd hw.2 (by simp)
  · rw [Bool.not_eq_true] at hw
    rw [removePeer_of_not_writes hw]
    simp only [writes] at hw
    by_cases hpeer : s.inner.hasPeer name = true
    · rw [hpeer, Bool.true_and, Bool.or_eq_false_iff, Bool.not_eq_false'] at hw
      rw [if_pos hpeer, if_pos ⟨hpeer, hw.1, hw.2⟩]
      rfl
    · rw [if_neg hpeer, if_neg (fun h => hpeer h.1)]
      rfl

end Store

/-! ### The codes -/

section Codes

variable {T : Toml PersistedState Text} {paramsError : Value → String}
  {s s' : InviteManager Text} {params : Value} {gone : Bool} {now : String} {code : ErrorCode}

/-- `createChecks` is what the manager's first two steps of a call decide. -/
theorem createNext_checks {M : Mnemonic} {sha256 : List UInt8 → Bytes32} {entropy : Entropy}
    {idBytes : List UInt8} {c : CreateCall} (hc : c.pc = .checkName) :
    ∃ c₁, createNext M sha256 s entropy idBytes c = some (c₁, s.entries) ∧
      (c₁.pc = .done (.error (.nameTaken c.name)) ∧
          createChecks s s' c.name = .error (.nameTaken c.name) ∨
        c₁.pc = .checkCap ∧
          ∃ c₂, createNext M sha256 s' entropy idBytes c₁ = some (c₂, s'.entries) ∧
            (c₂.pc = .done (.error .cap) ∧ createChecks s s' c.name = .error .cap ∨
              c₂.pc = .insert ∧ createChecks s s' c.name = .ok ())) := by
  unfold createNext createChecks
  rw [hc]
  by_cases hfree : s.state.isNameFree c.name = true
  · simp only [hfree, if_true, Bool.not_true, Bool.false_eq_true, if_false]
    refine ⟨_, rfl, .inr ⟨rfl, ?_⟩⟩
    by_cases hcap : maxPendingInvites ≤ s'.entries.length
    · simp only [hcap, if_true]
      exact ⟨_, rfl, .inl ⟨rfl, trivial⟩⟩
    · simp only [hcap, if_false]
      exact ⟨_, rfl, .inr ⟨rfl, trivial⟩⟩
  · rw [Bool.not_eq_true] at hfree
    simp only [hfree, Bool.false_eq_true, if_false, Bool.not_false, if_true]
    exact ⟨_, rfl, .inl ⟨rfl, trivial⟩⟩

theorem inviteName_ok_iff (paramsError : Value → String) (name : String) :
    inviteName paramsError params = .ok name ↔ InviteFor params name := by
  unfold inviteName InviteFor
  cases InviteParams.fromValue params with
  | none => simp
  | some p =>
    dsimp only
    by_cases hblank : (trim p.name).isEmpty = true
    · rw [if_pos hblank]
      rw [String.isEmpty_iff] at hblank
      refine iff_of_false (by simp) ?_
      rintro ⟨p', hp', rfl, hne⟩
      cases hp'
      exact hne hblank
    · rw [if_neg hblank]
      rw [String.isEmpty_iff] at hblank
      constructor
      · intro h
        cases h
        exact ⟨p, rfl, rfl, hblank⟩
      · rintro ⟨p', hp', rfl, -⟩
        cases hp'
        rfl

theorem inviteName_error {e : DispatchError} (h : inviteName paramsError params = .error e) :
    e.code = .badRequest := by
  unfold inviteName at h
  split at h
  · cases h
    rfl
  · split at h
    · cases h
      rfl
    · exact absurd h (by simp)

theorem isNameFree_eq (st : State Text) (name : String) :
    st.isNameFree name = !st.inner.hasPeer name := rfl

/-- A code that does not say what is wrong is none of those that do. -/
theorem ne_of_mem_adminCodes {c : ErrorCode} (hcode : code ∈ adminCodes) (hc : c ∉ adminCodes) :
    c ≠ code := by
  rintro rfl
  exact hc hcode

/-- The code an invite is refused with: none but `invite_cap` says why. -/
theorem invite_code (hcode : code ∈ adminCodes) :
    (errorOf (dispatchInvite paramsError s s' params)).map (·.code) = some code ↔
      code = .inviteCap ∧ Documented s s' params .peerInvite .inviteCap := by
  unfold dispatchInvite
  cases hname : inviteName paramsError params with
  | error e =>
    have hbad := inviteName_error hname
    refine iff_of_false ?_ ?_
    · intro h
      have hsame : e.code = code := Option.some.inj h
      rw [hbad] at hsame
      exact ne_of_mem_adminCodes hcode (by decide) hsame
    · rintro ⟨-, name, hinvite, -⟩
      rw [← inviteName_ok_iff paramsError, hname] at hinvite
      exact absurd hinvite (by simp)
  | ok name =>
    have hinvite := (inviteName_ok_iff paramsError name).mp hname
    have hunique : ∀ name', InviteFor params name' → name' = name := by
      intro name' h
      rw [← inviteName_ok_iff paramsError, hname] at h
      exact (Except.ok.inj h).symm
    dsimp only
    rw [createChecks, isNameFree_eq, Bool.not_not]
    by_cases hpeer : s.state.inner.hasPeer name = true
    · -- the wildcard
      rw [if_pos hpeer]
      refine iff_of_false ?_ ?_
      · intro h
        exact ne_of_mem_adminCodes hcode (c := .internal) (by decide) (Option.some.inj h)
      · rintro ⟨-, name', hinvite', hfree, -⟩
        rw [hunique name' hinvite', hpeer] at hfree
        exact absurd hfree (by simp)
    · rw [if_neg hpeer]
      rw [Bool.not_eq_true] at hpeer
      by_cases hcap : maxPendingInvites ≤ s'.entries.length
      · rw [if_pos hcap]
        refine ⟨fun h => ⟨(Option.some.inj h).symm, name, hinvite, hpeer, hcap⟩, ?_⟩
        rintro ⟨rfl, -⟩
        rfl
      · rw [if_neg hcap]
        refine iff_of_false (by simp [Except.mapError, errorOf]) ?_
        rintro ⟨-, -, -, -, hcap'⟩
        exact hcap hcap'

/-- A code that says what is wrong is given to requests that can be read. -/
theorem code_of_read {P : Type} {read : Option P} {message : String}
    {f : P → Option DispatchError} (hcode : code ∈ adminCodes) :
    (read.elim (some ⟨.badRequest, message⟩) f).map (·.code) = some code ↔
      ∃ p, read = some p ∧ (f p).map (·.code) = some code := by
  cases read with
  | none =>
    refine iff_of_false ?_ (by simp)
    intro h
    exact ne_of_mem_adminCodes hcode (c := .badRequest) (by decide) (Option.some.inj h)
  | some p => simp

theorem dispatchDecide_errorOf : errorOf (dispatchDecide paramsError s gone params) =
    (DecideParams.fromValue params).elim (some ⟨.badRequest, paramsError params⟩)
      fun p => (errorOf (s.decide p.inviteId gone)).map .ofDecide := by
  unfold dispatchDecide
  cases DecideParams.fromValue params with
  | none => rfl
  | some p =>
    dsimp only [Option.elim_some]
    cases s.decide p.inviteId gone <;> rfl

theorem dispatchAllow_errorOf {st : State Text} {fault : Option (WriteFault Text)} :
    errorOf (dispatchAllow T fault paramsError st params now).reply =
      (AllowParams.fromValue params).elim (some ⟨.badRequest, paramsError params⟩)
        fun p => if validTarget p.target then
            (errorOf (st.addRule T fault p.peer p.target now).2).map .ofState
          else some ⟨.badRequest, "target must be host:port"⟩ := by
  unfold dispatchAllow
  cases AllowParams.fromValue params with
  | none => rfl
  | some p =>
    dsimp only [Option.elim_some]
    cases validTarget p.target with
    | false => rfl
    | true =>
      rcases st.addRule T fault p.peer p.target now with ⟨st', e | index⟩
      · rfl
      · rfl

theorem dispatchRevoke_errorOf {st : State Text} {fault : Option (WriteFault Text)} :
    errorOf (dispatchRevoke T fault paramsError st params).reply =
      (AllowParams.fromValue params).elim (some ⟨.badRequest, paramsError params⟩)
        fun p => (errorOf (st.removeRule T fault p.peer p.target).2).map .ofState := by
  unfold dispatchRevoke
  cases AllowParams.fromValue params with
  | none => rfl
  | some p =>
    dsimp only [Option.elim_some]
    rcases st.removeRule T fault p.peer p.target with ⟨st', e | removed⟩
    · rfl
    · rfl

theorem dispatchRm_errorOf {st : State Text} {fault : Option (WriteFault Text)} :
    errorOf (dispatchRm T paramsError fault st params).2 =
      (RmParams.fromValue params).elim (some ⟨.badRequest, paramsError params⟩)
        fun p => (errorOf (st.removePeer T fault p.peer p.force).2).map .ofState := by
  unfold dispatchRm
  cases RmParams.fromValue params with
  | none => rfl
  | some p =>
    dsimp only [Option.elim_some]
    rcases st.removePeer T fault p.peer p.force with ⟨st', e | removed⟩
    · rfl
    · rfl

/-- A `StateError` keeps its code in a reply. -/
theorem code_ofState (e : Option StateError) :
    (e.map DispatchError.ofState).map (·.code) = e.map StateError.errorCode := by
  rw [Option.map_map]
  rfl

/-- An invite that is not there is not found; one that is just gone has expired. -/
theorem decide_code (hcode : code ∈ adminCodes) :
    (errorOf (dispatchDecide paramsError s gone params)).map (·.code) = some code ↔
      code = .notFound ∧ Documented s s' params .peerInviteDecide .notFound := by
  rw [dispatchDecide_errorOf, code_of_read hcode]
  have hp : ∀ p : DecideParams,
      ((errorOf (s.decide p.inviteId gone)).map DispatchError.ofDecide).map (·.code) = some code ↔
        code = .notFound ∧ ∀ e ∈ s.entries, e.inviteId ≠ p.inviteId := by
    intro p
    unfold InviteManager.decide
    cases hentry : s.entries.find? (fun e => e.inviteId == p.inviteId) with
    | none =>
      rw [List.find?_eq_none] at hentry
      refine ⟨fun h => ⟨(Option.some.inj h).symm, fun e he => by simpa using hentry e he⟩, ?_⟩
      rintro ⟨rfl, -⟩
      rfl
    | some e =>
      refine iff_of_false ?_ ?_
      · cases gone with
        | false => simp [errorOf]
        | true =>
          intro h
          exact ne_of_mem_adminCodes hcode (c := .inviteExpired) (by decide) (Option.some.inj h)
      · rintro ⟨-, hnone⟩
        exact hnone e (List.mem_of_find?_eq_some hentry) (by simpa using List.find?_some hentry)
  simp only [hp, Documented]
  exact ⟨fun ⟨p, hread, hnf, hnone⟩ => ⟨hnf, p, hread, hnone⟩,
    fun ⟨hnf, p, hread, hnone⟩ => ⟨p, hread, hnf, hnone⟩⟩

theorem allow_code (hcode : code ∈ adminCodes) :
    (errorOf (dispatchAllow T none paramsError s.state params now).reply).map (·.code) = some code ↔
      code = .notFound ∧ Documented s s' params .peerAllow .notFound := by
  have hinternal : ErrorCode.internal ≠ code := ne_of_mem_adminCodes hcode (by decide)
  have hbad : ErrorCode.badRequest ≠ code := ne_of_mem_adminCodes hcode (by decide)
  rw [dispatchAllow_errorOf, code_of_read hcode]
  constructor
  · rintro ⟨p, hread, hrefused⟩
    split at hrefused
    · rename_i htarget
      rw [addRule_errorOf, code_ofState] at hrefused
      split at hrefused
      · rename_i hpeer
        exact ⟨(Option.some.inj hrefused).symm, p, hread, htarget, hpeer⟩
      · split at hrefused
        · exact absurd (Option.some.inj hrefused) hinternal
        · exact absurd hrefused (by simp)
    · exact absurd (Option.some.inj hrefused) hbad
  · rintro ⟨rfl, p, hread, htarget, hpeer⟩
    refine ⟨p, hread, ?_⟩
    rw [if_pos htarget, addRule_errorOf, if_pos hpeer]
    rfl

theorem revoke_code (hcode : code ∈ adminCodes) :
    (errorOf (dispatchRevoke T none paramsError s.state params).reply).map (·.code) = some code ↔
      code = .notFound ∧ Documented s s' params .peerRevoke .notFound := by
  rw [dispatchRevoke_errorOf, code_of_read hcode]
  constructor
  · rintro ⟨p, hread, hrefused⟩
    rw [removeRule_errorOf, code_ofState] at hrefused
    split at hrefused
    · rename_i hpeer
      exact ⟨(Option.some.inj hrefused).symm, p, hread, hpeer⟩
    · exact absurd hrefused (by simp)
  · rintro ⟨rfl, p, hread, hpeer⟩
    refine ⟨p, hread, ?_⟩
    rw [removeRule_errorOf, if_pos hpeer]
    rfl

theorem rm_code (hcode : code ∈ adminCodes) :
    (errorOf (dispatchRm T paramsError none s.state params).2).map (·.code) = some code ↔
      code = .peerHasRules ∧ Documented s s' params .peerRm .peerHasRules := by
  have hrules : ∀ peer : String, s.state.inner.rules.any (fun r => r.peer == peer) = true ↔
      ∃ r ∈ s.state.inner.rules, r.peer = peer := by
    intro peer
    simp
  rw [dispatchRm_errorOf, code_of_read hcode]
  constructor
  · rintro ⟨p, hread, hrefused⟩
    rw [removePeer_errorOf, code_ofState] at hrefused
    split at hrefused
    · rename_i hkept
      obtain ⟨hpeer, hany, hforce⟩ := hkept
      exact ⟨(Option.some.inj hrefused).symm, p, hread, hforce, hpeer, (hrules p.peer).mp hany⟩
    · exact absurd hrefused (by simp)
  · rintro ⟨rfl, p, hread, hforce, hpeer, hany⟩
    refine ⟨p, hread, ?_⟩
    rw [removePeer_errorOf, if_pos ⟨hpeer, (hrules p.peer).mpr hany, hforce⟩]
    rfl

/-- The one code that a request is refused with, of those that say what is wrong. -/
def Method.refusal : Method → Option ErrorCode
  | peerInvite => some .inviteCap
  | peerInviteDecide => some .notFound
  | peerAllow => some .notFound
  | peerRevoke => some .notFound
  | peerRm => some .peerHasRules
  | _ => none

/-- **What a request is refused with.** -/
theorem refused_iff (m : Method) (hcode : code ∈ adminCodes) :
    (adminError T paramsError s s' gone now params m).map (·.code) = some code ↔
      m.refusal = some code ∧ Documented s s' params m code := by
  -- the code is the request's own, so what is documented of it is documented of `code`
  have hown : ∀ own : ErrorCode, m.refusal = some own →
      ((adminError T paramsError s s' gone now params m).map (·.code) = some code ↔
        code = own ∧ Documented s s' params m own) →
      ((adminError T paramsError s s' gone now params m).map (·.code) = some code ↔
        m.refusal = some code ∧ Documented s s' params m code) := by
    intro own hrefusal h
    rw [h, hrefusal]
    constructor
    · rintro ⟨rfl, hdoc⟩
      exact ⟨rfl, hdoc⟩
    · rintro ⟨hsame, hdoc⟩
      cases hsame
      exact ⟨rfl, hdoc⟩
  cases m with
  | peerInvite => exact hown _ rfl (invite_code hcode)
  | peerInviteDecide => exact hown _ rfl (decide_code hcode)
  | peerAllow => exact hown _ rfl (allow_code hcode)
  | peerRevoke => exact hown _ rfl (revoke_code hcode)
  | peerRm => exact hown _ rfl (rm_code hcode)
  | _ => exact iff_of_false (by simp [adminError]) (by simp [Method.refusal])

/-- Only `name_taken` is documented for a request and not among its refusals. -/
theorem documented_refusal {m : Method} (h : Documented s s' params m code) :
    code = .nameTaken ∨ m.refusal = some code := by
  cases m <;> cases code <;>
    first | exact .inl rfl | exact .inr rfl | exact absurd h (by simp [Documented])

/-- **The codes of admin errors.**  Whatever state a request finds the daemon in, and whatever state
    its cap check does: the error it is answered with, where no save fails, is the documented one,
    exactly if the request is not an invite under a name that is taken. -/
theorem admin_codes_iff (T : Toml PersistedState Text) (paramsError : Value → String)
    (s s' : InviteManager Text) (gone : Bool) (now : String) (params : Value) (m : Method) :
    (∀ code ∈ adminCodes,
      ((adminError T paramsError s s' gone now params m).map (·.code) = some code ↔
        Documented s s' params m code)) ↔ ¬ Documented s s' params m .nameTaken := by
  constructor
  · intro hall hdoc
    have hcode : ErrorCode.nameTaken ∈ adminCodes := by decide
    obtain ⟨hrefusal, -⟩ := (refused_iff m hcode).mp ((hall .nameTaken hcode).mpr hdoc)
    cases m <;> exact absurd hrefusal (by simp [Method.refusal])
  · intro hfree code hcode
    rw [refused_iff m hcode]
    constructor
    · exact fun h => h.2
    · intro hdoc
      obtain rfl | hrefusal := documented_refusal hdoc
      · exact absurd hdoc hfree
      · exact ⟨hrefusal, hdoc⟩

end Codes

/-- A daemon that has one peer, `laptop`. -/
def onePeer : InviteManager PersistedState :=
  ⟨0, State.after (.self PersistedState) [⟨.addPeer ⟨"laptop", "00", "", ""⟩, none⟩], [], []⟩

/-- An invite for a second `laptop`. -/
def inviteLaptop : Value := .obj [("name", .str "laptop")]

/-- It is refused, as `internal`. -/
theorem name_taken_internal :
    (∀ (M : Mnemonic) (sha256 : List UInt8 → Bytes32),
      Reach (InviteManager.system (.self PersistedState) M sha256) anyStep onePeer) ∧
    adminError (.self PersistedState) (fun _ => "") onePeer onePeer false "" inviteLaptop
      .peerInvite = some ⟨.internal, "peer \"laptop\" already exists"⟩ ∧
    Documented onePeer onePeer inviteLaptop .peerInvite .nameTaken ∧
    ¬ ∀ code ∈ adminCodes,
      ((adminError (.self PersistedState) (fun _ => "") onePeer onePeer false "" inviteLaptop
        .peerInvite).map (·.code) = some code ↔
        Documented onePeer onePeer inviteLaptop .peerInvite code) := by
  have herror : adminError (.self PersistedState) (fun _ => "") onePeer onePeer false ""
      inviteLaptop .peerInvite = some ⟨.internal, "peer \"laptop\" already exists"⟩ := by
    decide +kernel
  have hdoc : Documented onePeer onePeer inviteLaptop .peerInvite .nameTaken :=
    ⟨"laptop", ⟨⟨"laptop", none⟩, by decide +kernel, by decide +kernel, by decide⟩,
      by decide +kernel⟩
  refine ⟨fun M sha256 => .init ⟨rfl, rfl⟩, herror, hdoc, fun hall => ?_⟩
  have htaken := (hall .nameTaken (by decide)).mpr hdoc
  rw [herror] at htaken
  exact absurd htaken (by decide)

example : (adminError (.self PersistedState) (fun _ => "") onePeer onePeer false ""
    (.obj [("peer", .str "phone"), ("target", .str "db:5432")]) .peerAllow).map (·.code) =
      some .notFound := by
  decide +kernel

end Tmite.Daemon
