import Tmite.Lib.Serde
import Tmite.Daemon.Notify
import Tmite.Daemon.StateEffect

namespace Tmite.Daemon

open Tmite.Core Serde

/-!
# Granting and revoking (`dispatch_allow` and `dispatch_revoke` of `daemon/ipc.rs`)

The admin's requests that change the rules: parameters are read from the request's JSON value, the
target's shape is checked, the store is called, and the operator is notified.  The text of an
error of `serde_json::from_value` is the crate's, a parameter.
-/

universe v
variable {Text : Type v}

/-- `DispatchError`. -/
structure DispatchError where
  code : ErrorCode
  message : String
deriving DecidableEq, Repr

/-- A `StateError` as a reply. -/
def DispatchError.ofState (e : StateError) : DispatchError := ⟨e.errorCode, e.display⟩

/-- `AllowParams`, and `RevokeParams`, which has the same fields. -/
structure AllowParams where
  peer : String
  target : String
deriving DecidableEq, Repr

def AllowParams.fromValue (v : Value) : Option AllowParams := do
  let [peer, target] ← v.structFields ["peer", "target"] | none
  return ⟨← peer.asStr, ← target.asStr⟩

/-- What a request does: the store after it, what it notifies about, and its reply. -/
structure Dispatched (Text : Type v) (α : Type) where
  store : State Text
  notified : Option Notification
  reply : Except DispatchError α

section

variable (T : Toml PersistedState Text) (fault : Option (WriteFault Text))
  (paramsError : Value → String)

/-- `dispatch_allow`; the reply is the rule's index. -/
def dispatchAllow (s : State Text) (params : Value) (now : String) : Dispatched Text ℕ :=
  match AllowParams.fromValue params with
  | none => ⟨s, none, .error ⟨.badRequest, paramsError params⟩⟩
  | some p =>
    if !validTarget p.target then ⟨s, none, .error ⟨.badRequest, "target must be host:port"⟩⟩
    else
      match s.addRule T fault p.peer p.target now with
      | (s, .error e) => ⟨s, none, .error (.ofState e)⟩
      | (s, .ok index) => ⟨s, some (.ruleAdded p.peer p.target), .ok index⟩

/-- `dispatch_revoke`. -/
def dispatchRevoke (s : State Text) (params : Value) : Dispatched Text Bool :=
  match AllowParams.fromValue params with
  | none => ⟨s, none, .error ⟨.badRequest, paramsError params⟩⟩
  | some p =>
    match s.removeRule T fault p.peer p.target with
    | (s, .error e) => ⟨s, none, .error (.ofState e)⟩
    | (s, .ok removed) =>
      ⟨s, if removed then some (.ruleRevoked p.peer p.target) else none, .ok removed⟩

end

section

variable {T : Toml PersistedState Text} {fault : Option (WriteFault Text)}
  {paramsError : Value → String} {s : State Text} {params : Value} {now : String}

/-- What is granted has the shape of a target. -/
theorem dispatchAllow_ok {p : AllowParams} {index : ℕ} (hp : AllowParams.fromValue params = some p)
    (h : (dispatchAllow T fault paramsError s params now).reply = .ok index) :
    validTarget p.target = true := by
  by_contra hbad
  rw [Bool.not_eq_true] at hbad
  simp [dispatchAllow, hp, hbad] at h

end

end Tmite.Daemon
