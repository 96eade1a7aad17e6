import Tmite.Daemon.Dispatch
import Tmite.Daemon.InviteResult

namespace Tmite.Daemon

open Tmite.Core Tmite.Proto Transition TaskList Serde

/-!
# Replies on an IPC connection (`handle_conn`, `dispatch` and `dispatch_invite` of `daemon/ipc.rs`)

Each request line is dispatched in a task of its own, and every task sends its replies on the
connection's channel: one terminal reply per request and, before it, the events of `peer.invite`.
Those are sent by the invite, its loop and the handlers it spawned, with the request's id.  The
loop sends its events before the result `dispatch_invite` waits for; nothing makes a handler send
its `pair_request` before that.

An invite is an `Invite` with steps of its own; what else uses the store, and the clock, are steps
of that model, so invites share nothing here but the channel.  `sent` is all that was put on the
channel, of which the writer has written the first `written`.
-/

universe v
variable {Text : Type v}

/-! ### Requests and replies -/

inductive Method
  | peerInvite
  | peerInviteDecide
  | peerAllow
  | peerRevoke
  | peerLs
  | peerRm
  | daemonStatus
  | daemonSessions
  | daemonStop
  | ntfyEnable
  | ntfyDisable
  | ntfyStatus
  | ntfyTest
deriving DecidableEq, Repr

/-- `Method::parse`. -/
def Method.parse (s : String) : Option Method :=
  [("peer.invite", peerInvite), ("peer.invite.decide", peerInviteDecide),
    ("peer.allow", peerAllow), ("peer.revoke", peerRevoke), ("peer.ls", peerLs),
    ("peer.rm", peerRm), ("daemon.status", daemonStatus), ("daemon.sessions", daemonSessions),
    ("daemon.stop", daemonStop), ("ntfy.enable", ntfyEnable), ("ntfy.disable", ntfyDisable),
    ("ntfy.status", ntfyStatus), ("ntfy.test", ntfyTest)].lookup s

structure IpcRequest where
  id : ℕ
  method : String
  params : Value

/-- `Reply`: a result, an error or an event. -/
inductive IpcReply
  | result (id : ℕ) (value : Value)
  | error (id : ℕ) (code : ErrorCode) (message : String)
  | event (id : ℕ) (event : InviteEvent)

namespace IpcReply

def id : IpcReply → ℕ
  | result id _ => id
  | error id _ _ => id
  | event id _ => id

def isEvent : IpcReply → Bool
  | event _ _ => true
  | _ => false

/-- The reply `dispatch` ends with. -/
def terminal (id : ℕ) : Except DispatchError Value → IpcReply
  | .ok value => result id value
  | .error e => error id e.code e.message

@[simp] theorem terminal_id (id : ℕ) (r : Except DispatchError Value) :
    (terminal id r).id = id := by
  cases r <;> rfl

@[simp] theorem terminal_isEvent (id : ℕ) (r : Except DispatchError Value) :
    (terminal id r).isEvent = false := by
  cases r <;> rfl

end IpcReply

/-- `#[serde(tag = "status", rename_all = "snake_case")]`. -/
def InviteResult.toValue : InviteResult → Value
  | paired nodeId => .obj [("status", .str "paired"), ("node_id", .str nodeId)]
  | rejected => .obj [("status", .str "rejected")]
  | expired => .obj [("status", .str "expired")]

/-- `InviteParams`; a `ttl` may be missing or null. -/
structure InviteParams where
  name : String
  ttl : Option ℕ
deriving DecidableEq, Repr

/-- `Option<u64>`. -/
def asTtl : Value → Option (Option ℕ)
  | .null => some none
  | v => (v.asUnsigned (2 ^ 64)).map some

def InviteParams.fromValue : Value → Option InviteParams
  | .obj members => do
    let name ← (Value.member "name" members).bind Value.asStr
    let ttl ← match members.filter (fun m => m.1 = "ttl") with
      | [] => some none
      | [m] => asTtl m.2
      | _ => none
    return ⟨name, ttl⟩
  | .arr [name] => do return ⟨← name.asStr, none⟩
  | .arr [name, ttl] => do return ⟨← name.asStr, ← asTtl ttl⟩
  | _ => none

/-- `str::trim`. -/
def trim (s : String) : String :=
  String.ofList (((s.toList.dropWhile isWhitespace).reverse.dropWhile isWhitespace).reverse)

/-- The checks of `dispatch_invite` before `create`: the trimmed name. -/
def inviteName (paramsError : Value → String) (params : Value) : Except DispatchError String :=
  match InviteParams.fromValue params with
  | none => .error ⟨.badRequest, paramsError params⟩
  | some p =>
    if (trim p.name).isEmpty then .error ⟨.badRequest, "name must not be empty"⟩
    else .ok (trim p.name)

/-! ### The connection -/

/-- The `dispatch` task of a request, with the invite it created. -/
structure IpcTask (Text : Type v) where
  request : IpcRequest
  invite : Option (InviteCfg × Invite Text)
  /-- The terminal reply has been sent. -/
  replied : Bool

structure IpcSession (Text : Type v) where
  /-- `handle_conn` is in its read loop. -/
  reading : Bool
  tasks : List (IpcTask Text)
  sent : List IpcReply
  written : ℕ
  /-- The writer task runs. -/
  writing : Bool

/-- What `handle_conn` makes of a line. -/
inductive IpcInput
  | blank
  | request (r : IpcRequest)
  /-- `parse_request` fails with that text. -/
  | malformed (e : String)

inductive IpcAct (Text : Type v)
  | line (l : IpcInput)
  | eof
  /-- Task `k` ends without an invite; `outcome` is what its method, or `create`, returned. -/
  | dispatch (k : ℕ) (outcome : Except DispatchError Value)
  /-- Task `k` has created an invite. -/
  | create (k : ℕ) (cfg : InviteCfg) (state : State Text) (clock : ℕ)
  /-- The invite of task `k`, or what surrounds it, takes a step. -/
  | invite (k : ℕ) (a : InviteAct Text)
  /-- `created.result` arrives at task `k`. -/
  | reply (k : ℕ)
  | write (ok : Bool)

namespace IpcSession

def start : IpcSession Text := ⟨true, [], [], 0, true⟩

/-- What the writer has written. -/
def replies (s : IpcSession Text) : List IpcReply := s.sent.take s.written

/-- Task `k` moves on and sends `new`. -/
def advance (s : IpcSession Text) (k : ℕ) (t : IpcTask Text) (new : List IpcReply) :
    IpcSession Text :=
  { s with tasks := s.tasks.set k t, sent := s.sent ++ new }

/-- `dispatch` ends with a terminal reply. -/
def finish (s : IpcSession Text) (k : ℕ) (t : IpcTask Text) (r : Except DispatchError Value) :
    IpcSession Text :=
  s.advance k { t with replied := true } [.terminal t.request.id r]

variable (T : Toml PersistedState Text) (paramsError : Value → String)

/-- `dispatch` without an invite: the reply it ends with, if it does. -/
def dispatchReply (r : IpcRequest) (outcome : Except DispatchError Value) :
    Option (Except DispatchError Value) :=
  match Method.parse r.method with
  | none => some (.error ⟨.badRequest, "unknown method"⟩)
  | some .peerInvite =>
    match inviteName paramsError r.params, outcome with
    | .error e, _ => some (.error e)
    | .ok _, .error e => some (.error e)
    | .ok _, .ok _ => none
  | some _ => some outcome

/-- A step, where it is enabled. -/
def next (s : IpcSession Text) : IpcAct Text → Option (IpcSession Text)
  | .line .blank => if s.reading then some s else none
  | .line (.request r) =>
    if s.reading then some { s with tasks := s.tasks ++ [⟨r, none, false⟩] } else none
  | .line (.malformed e) =>
    if s.reading then
      some { s with reading := false, sent := s.sent ++ [.error 0 .badRequest e] }
    else none
  | .eof => if s.reading then some { s with reading := false } else none
  | .dispatch k outcome =>
    s.tasks[k]?.bind fun t =>
      if t.replied || t.invite.isSome then none
      else (dispatchReply paramsError t.request outcome).map (s.finish k t)
  | .create k cfg state clock =>
    s.tasks[k]?.bind fun t =>
      if t.replied = false ∧ t.invite.isNone ∧ Method.parse t.request.method = some .peerInvite ∧
          (inviteName paramsError t.request.params).toOption = some cfg.name then
        some (s.advance k { t with invite := some (cfg, .start state clock) } [])
      else none
  | .invite k a =>
    s.tasks[k]?.bind fun t => t.invite.bind fun i =>
      (i.2.next T i.1 a).map fun invite =>
        s.advance k { t with invite := some (i.1, invite) }
          ((invite.shared.events.drop i.2.shared.events.length).map (.event t.request.id))
  | .reply k =>
    s.tasks[k]?.bind fun t => t.invite.bind fun i =>
      if t.replied then none
      else i.2.results.head?.map fun r => s.finish k t (.ok r.toValue)
  | .write ok =>
    if s.writing ∧ s.written < s.sent.length then
      some (if ok then { s with written := s.written + 1 } else { s with writing := false })
    else none

end IpcSession

def ipcSystem (T : Toml PersistedState Text) (paramsError : Value → String) :
    System (IpcSession Text) (IpcAct Text) where
  init s := s = .start
  next := IpcSession.next T paramsError

/-- Lines are well-formed requests, with distinct ids. -/
def WellFormed (s : IpcSession Text) : IpcAct Text → Prop
  | .line (.request r) => (Method.parse r.method).isSome = true ∧
      ∀ t ∈ s.tasks, t.request.id ≠ r.id
  | .line (.malformed _) => False
  | _ => True

instance (s : IpcSession Text) (a : IpcAct Text) : Decidable (WellFormed s a) :=
  match a with
  | .line (.request r) =>
    inferInstanceAs (Decidable ((Method.parse r.method).isSome = true ∧
      ∀ t ∈ s.tasks, t.request.id ≠ r.id))
  | .line (.malformed _) => inferInstanceAs (Decidable False)
  | .line .blank | .eof | .dispatch _ _ | .create _ _ _ _ | .invite _ _ | .reply _ | .write _ =>
    inferInstanceAs (Decidable True)

/-- A handler sends its `pair_request` only while the task of its request has not replied. -/
def PromptsInTime (s : IpcSession Text) : IpcAct Text → Prop
  | .invite k (.conn i _) => ∀ t cfg invite, s.tasks[k]? = some t → t.replied = true →
      t.invite = some (cfg, invite) → ∀ c, invite.conns[i]? = some c → c.pc ≠ .emit
  | _ => True

instance (s : IpcSession Text) (a : IpcAct Text) : Decidable (PromptsInTime s a) :=
  match a with
  | .invite k (.conn i _) =>
    decidable_of_iff (∀ t ∈ s.tasks[k]?, t.replied = true → ∀ v ∈ t.invite,
        ∀ c ∈ v.2.conns[i]?, c.pc ≠ .emit)
      ⟨fun h t cfg invite ht hrep hinv => h t ht hrep (cfg, invite) hinv,
        fun h t ht hrep v hv => h t v.1 v.2 ht hrep hv⟩
  | .invite _ (.tick _) | .invite _ (.store _) | .invite _ (.request _) | .invite _ (.dispatch _)
  | .invite _ (.loop _) | .line _ | .eof | .dispatch _ _ | .create _ _ _ _ | .reply _
  | .write _ => inferInstanceAs (Decidable True)

/-- Nothing with an id comes after a terminal reply with that id. -/
def Bracketed (replies : List IpcReply) : Prop :=
  replies.Pairwise (fun a b => a.id = b.id → a.isEvent = true)

/-! ### The events of an invite -/

section Events

variable {T : Toml PersistedState Text} {cfg : InviteCfg} {inv inv' : Invite Text}

theorem HandlerMove.events {sh : InviteShared Text} {remote : PublicKey} {ev : HandlerEvent Text}
    {pc pc' : HandlerPc} {eff : Effect Text} (h : HandlerMove T cfg sh remote ev pc pc' eff)
    (i : ℕ) :
    (pc = .emit ∧ (sh.perform T cfg i remote eff).events =
        sh.events ++ [.pairRequest cfg.inviteId remote.display]) ∨
      (pc ≠ .emit ∧ (sh.perform T cfg i remote eff).events = sh.events) := by
  cases h with
  | emit => exact .inl ⟨rfl, rfl⟩
  | handshake hs => exact .inr ⟨by cases hs <;> simp, rfl⟩
  | refuse hr => exact .inr ⟨by cases hr <;> simp, rfl⟩
  | finish v =>
    obtain ⟨delay, outcomes, heq⟩ := perform_afterAck T cfg sh i remote v
    exact .inr ⟨by simp, by rw [heq]⟩
  | _ => exact .inr ⟨by simp, rfl⟩

/-- The loop sends no event once it has sent its result. -/
theorem LoopMove.events {pc : LoopPc} {eff : LoopEffect} (h : LoopMove cfg inv inv.loop pc eff) :
    ∃ new, (Invite.perform cfg { inv with loop := pc } eff).shared.events =
        inv.shared.events ++ new ∧ (inv.loop.sent = true → new = []) := by
  generalize inv.loop = pc₀ at h
  cases h with
  | built => exact ⟨_, rfl, fun hsent => absurd hsent (by simp [LoopPc.sent])⟩
  | close o => exact ⟨_, rfl, fun hsent => absurd hsent (by simp [LoopPc.sent])⟩
  | claim remote =>
    refine ⟨[], ?_, fun _ => rfl⟩
    simp only [Invite.perform, List.append_nil]
    split <;> rfl
  | finish o =>
    refine ⟨[], ?_, fun _ => rfl⟩
    simp only [Invite.perform, List.append_nil]
    split <;> rfl
  | _ => exact ⟨[], (List.append_nil _).symm, fun _ => rfl⟩

/-- **What a step of an invite sends.**  A handler at its prompt sends the `pair_request`;
    otherwise it is the loop, before its result. -/
theorem next_events {a : InviteAct Text} (h : inv.next T cfg a = some inv') :
    ∃ new, inv'.shared.events = inv.shared.events ++ new ∧
      ((∃ i ev c, a = .conn i ev ∧ inv.conns[i]? = some c ∧ c.pc = .emit ∧ new ≠ []) ∨
        (∀ i ev c, a = .conn i ev → inv.conns[i]? = some c → c.pc ≠ .emit) ∧
          (inv.loop.sent = true → new = [])) := by
  cases a with
  | loop ev =>
    obtain ⟨pc, eff, -, hmove, rfl⟩ := next_loop h
    obtain ⟨new, hnew, hsent⟩ := hmove.events
    exact ⟨new, hnew, .inr ⟨by simp, hsent⟩⟩
  | conn i ev =>
    obtain ⟨c, pc, eff, hc, hmove, rfl⟩ := next_conn h
    obtain ⟨hpc, hnew⟩ | ⟨hpc, hnew⟩ := hmove.events i
    · exact ⟨_, hnew, .inl ⟨i, ev, c, rfl, hc, hpc, by simp⟩⟩
    · refine ⟨[], by rw [List.append_nil]; exact hnew, .inr ⟨?_, fun _ => rfl⟩⟩
      intro i' ev' c' ha hc'
      cases ha
      rw [hc] at hc'
      cases hc'
      exact hpc
  | _ =>
    obtain ⟨_, _, _, _, _, rfl⟩ := next_other h (by simp) (by simp)
    exact ⟨[], (List.append_nil _).symm, .inr ⟨by simp, fun _ => rfl⟩⟩

/-- A loop that has sent its result stays so. -/
theorem sent_next {a : InviteAct Text} (h : inv.next T cfg a = some inv')
    (hsent : inv.loop.sent = true) : inv'.loop.sent = true := by
  cases a with
  | loop ev =>
    obtain ⟨pc, eff, -, hmove, rfl⟩ := next_loop h
    rw [perform_loop_pc]
    generalize inv.loop = pc₀ at hmove hsent
    cases hmove <;> first | rfl | exact absurd hsent (by simp [LoopPc.sent])
  | conn i ev =>
    obtain ⟨c, pc, eff, -, -, rfl⟩ := next_conn h
    exact hsent
  | _ =>
    obtain ⟨_, _, _, _, _, rfl⟩ := next_other h (by simp) (by simp)
    exact hsent

/-- A result is there once the loop has sent it. -/
theorem sent_of_result {C : Invite Text → InviteAct Text → Prop} {r : InviteResult}
    (h : Reach (Invite.system T cfg) C inv) (hr : inv.results.head? = some r) :
    inv.loop.sent = true := by
  have hlen := (resultInv h).length
  by_contra hsent
  rw [if_neg hsent] at hlen
  rw [List.length_eq_zero_iff.mp hlen] at hr
  exact absurd hr (by simp)

end Events

/-! ### What a step does -/

/-- A move of task `k`: what it becomes, and what it sends. -/
inductive DispatchMove (T : Toml PersistedState Text) (k : ℕ) (t : IpcTask Text) :
    IpcAct Text → IpcTask Text → List IpcReply → Prop
  | dispatch (outcome r : Except DispatchError Value) : t.replied = false → t.invite = none →
      DispatchMove T k t (.dispatch k outcome) { t with replied := true }
        [.terminal t.request.id r]
  | create (cfg : InviteCfg) (state : State Text) (clock : ℕ) : t.replied = false →
      Method.parse t.request.method = some .peerInvite →
      DispatchMove T k t (.create k cfg state clock)
        { t with invite := some (cfg, .start state clock) } []
  | invite (cfg : InviteCfg) (inv inv' : Invite Text) (a : InviteAct Text) :
      t.invite = some (cfg, inv) → inv.next T cfg a = some inv' →
      DispatchMove T k t (.invite k a) { t with invite := some (cfg, inv') }
        ((inv'.shared.events.drop inv.shared.events.length).map (.event t.request.id))
  | reply (cfg : InviteCfg) (inv : Invite Text) (r : InviteResult) : t.replied = false →
      t.invite = some (cfg, inv) → inv.results.head? = some r →
      DispatchMove T k t (.reply k) { t with replied := true }
        [.terminal t.request.id (.ok r.toValue)]

section Step

variable {T : Toml PersistedState Text} {paramsError : Value → String} {s s' : IpcSession Text}

/-- **The steps**: a line, the end of the lines, a move of a task, or a write. -/
theorem ipcSession_step {a : IpcAct Text} (h : s.next T paramsError a = some s') :
    (∃ l, a = .line l ∧ s.reading = true ∧ s' = match l with
      | .blank => s
      | .request r => { s with tasks := s.tasks ++ [⟨r, none, false⟩] }
      | .malformed e => { s with reading := false, sent := s.sent ++ [.error 0 .badRequest e] }) ∨
    (a = .eof ∧ s' = { s with reading := false }) ∨
    (∃ k t t' new, s.tasks[k]? = some t ∧ DispatchMove T k t a t' new ∧
      s' = s.advance k t' new) ∨
    ∃ ok, a = .write ok ∧ s.written < s.sent.length ∧
      s' = if ok then { s with written := s.written + 1 } else { s with writing := false } := by
  cases a with
  | line l =>
    refine .inl ⟨l, rfl, ?_⟩
    cases l with
    | blank =>
      simp only [IpcSession.next] at h
      split at h
      · rename_i hreading
        exact ⟨hreading, (Option.some.inj h).symm⟩
      · exact absurd h (by simp)
    | request r =>
      simp only [IpcSession.next] at h
      split at h
      · rename_i hreading
        exact ⟨hreading, (Option.some.inj h).symm⟩
      · exact absurd h (by simp)
    | malformed e =>
      simp only [IpcSession.next] at h
      split at h
      · rename_i hreading
        exact ⟨hreading, (Option.some.inj h).symm⟩
      · exact absurd h (by simp)
  | eof =>
    simp only [IpcSession.next] at h
    split at h
    · exact .inr (.inl ⟨rfl, (Option.some.inj h).symm⟩)
    · exact absurd h (by simp)
  | dispatch k outcome =>
    obtain ⟨t, ht, hrest⟩ := Option.bind_eq_some_iff.mp h
    split at hrest
    · exact absurd hrest (by simp)
    · rename_i hfree
      simp only [Bool.or_eq_true, not_or, Bool.not_eq_true, Option.isSome_eq_false_iff,
        Option.isNone_iff_eq_none] at hfree
      obtain ⟨r, -, rfl⟩ := Option.map_eq_some_iff.mp hrest
      exact .inr (.inr (.inl ⟨k, t, _, _, ht, .dispatch outcome r hfree.1 hfree.2, rfl⟩))
  | create k cfg state clock =>
    obtain ⟨t, ht, hrest⟩ := Option.bind_eq_some_iff.mp h
    split at hrest
    · rename_i hok
      cases hrest
      exact .inr (.inr (.inl ⟨k, t, _, _, ht, .create cfg state clock hok.1 hok.2.2.1, rfl⟩))
    · exact absurd hrest (by simp)
  | invite k a =>
    obtain ⟨t, ht, hrest⟩ := Option.bind_eq_some_iff.mp h
    obtain ⟨⟨cfg, inv⟩, hinv, hrest⟩ := Option.bind_eq_some_iff.mp hrest
    obtain ⟨inv', hn, rfl⟩ := Option.map_eq_some_iff.mp hrest
    exact .inr (.inr (.inl ⟨k, t, _, _, ht, .invite cfg inv inv' a hinv hn, rfl⟩))
  | reply k =>
    obtain ⟨t, ht, hrest⟩ := Option.bind_eq_some_iff.mp h
    obtain ⟨⟨cfg, inv⟩, hinv, hrest⟩ := Option.bind_eq_some_iff.mp hrest
    split at hrest
    · exact absurd hrest (by simp)
    · rename_i hrep
      obtain ⟨r, hr, rfl⟩ := Option.map_eq_some_iff.mp hrest
      exact .inr (.inr (.inl ⟨k, t, _, _, ht,
        .reply cfg inv r (by simpa using hrep) hinv hr, rfl⟩))
  | write ok =>
    simp only [IpcSession.next] at h
    split at h
    · rename_i hwrite
      exact .inr (.inr (.inr ⟨ok, rfl, hwrite.2, (Option.some.inj h).symm⟩))
    · exact absurd h (by simp)

end Step

/-- The invite of a task is a run of an invite, and has sent its result once the task has it. -/
def IpcTask.Valid (T : Toml PersistedState Text) (t : IpcTask Text) : Prop :=
  ∀ cfg inv, t.invite = some (cfg, inv) →
    Reach (Invite.system T cfg) anyStep inv ∧ (t.replied = true → inv.loop.sent = true)

theorem DispatchMove.valid {T : Toml PersistedState Text} {k : ℕ} {t t' : IpcTask Text}
    {a : IpcAct Text} {new : List IpcReply} (h : DispatchMove T k t a t' new)
    (hvalid : t.Valid T) : t'.Valid T := by
  intro cfg' inv₁ heq
  cases h with
  | dispatch outcome r hrep hnone =>
    have heq : t.invite = some (cfg', inv₁) := heq
    rw [hnone] at heq
    exact absurd heq (by simp)
  | create cfg state clock hrep =>
    simp only [Option.some.injEq, Prod.mk.injEq] at heq
    obtain ⟨rfl, rfl⟩ := heq
    refine ⟨.init ⟨state, clock, rfl⟩, fun hreplied => ?_⟩
    have hreplied : t.replied = true := hreplied
    rw [hrep] at hreplied
    exact absurd hreplied (by simp)
  | invite cfg inv inv' a hinv hn =>
    simp only [Option.some.injEq, Prod.mk.injEq] at heq
    obtain ⟨rfl, rfl⟩ := heq
    obtain ⟨hreach, hsent⟩ := hvalid cfg inv hinv
    exact ⟨.step hreach trivial hn, fun hrep => sent_next hn (hsent hrep)⟩
  | reply cfg inv r hrep hinv hr =>
    have heq : t.invite = some (cfg', inv₁) := heq
    rw [heq] at hinv
    cases hinv
    obtain ⟨hreach, -⟩ := hvalid _ _ heq
    exact ⟨hreach, fun _ => sent_of_result hreach hr⟩

/-! ### Brackets -/

/-- What a task sends when it moves from `t` to `t'`: events while it has not replied, or the
    reply. -/
inductive Sends (t t' : IpcTask Text) : List IpcReply → Prop
  | events (es : List InviteEvent) : t'.replied = t.replied →
      (es ≠ [] → t.replied = false ∧ Method.parse t.request.method = some .peerInvite) →
      Sends t t' (es.map (.event t.request.id))
  | terminal (r : Except DispatchError Value) : t.replied = false → t'.replied = true →
      Sends t t' [.terminal t.request.id r]

/-- The invariant of a connection. -/
structure ReplyInv (T : Toml PersistedState Text) (s : IpcSession Text) : Prop where
  ids : (s.tasks.map (fun t => t.request.id)).Nodup
  /-- Invites are those of `peer.invite`, and one that has been reported is over. -/
  invite : ∀ t ∈ s.tasks, ∀ cfg inv, t.invite = some (cfg, inv) →
    Method.parse t.request.method = some .peerInvite ∧
      Reach (Invite.system T cfg) anyStep inv ∧ (t.replied = true → inv.loop.sent = true)
  /-- What was sent answers a request; a terminal reply comes from a task that is through. -/
  sent : ∀ r ∈ s.sent, ∃ t ∈ s.tasks, t.request.id = r.id ∧
    (r.isEvent = true → Method.parse t.request.method = some .peerInvite) ∧
      (r.isEvent = false → t.replied = true)
  replied : ∀ t ∈ s.tasks, t.replied = true →
    ∃ r ∈ s.sent, r.id = t.request.id ∧ r.isEvent = false
  bracketed : Bracketed s.sent

section Inv

variable {T : Toml PersistedState Text} {s : IpcSession Text} {k : ℕ} {t t' : IpcTask Text}
  {new : List IpcReply}

/-- Tasks are told apart by their ids. -/
theorem ReplyInv.task_eq (h : ReplyInv T s) {t₁ t₂ : IpcTask Text} (h₁ : t₁ ∈ s.tasks)
    (h₂ : t₂ ∈ s.tasks) (hid : t₁.request.id = t₂.request.id) : t₁ = t₂ :=
  List.inj_on_of_nodup_map h.ids h₁ h₂ hid

theorem Sends.id_eq (h : Sends t t' new) {r : IpcReply} (hr : r ∈ new) :
    r.id = t.request.id := by
  cases h with
  | events es =>
    obtain ⟨e, -, rfl⟩ := List.mem_map.mp hr
    rfl
  | terminal r' =>
    rw [List.mem_singleton.mp hr]
    exact IpcReply.terminal_id _ _

/-- Whoever sends has not replied before. -/
theorem Sends.not_replied (h : Sends t t' new) {r : IpcReply} (hr : r ∈ new) :
    t.replied = false := by
  cases h with
  | events es hsame hes =>
    obtain ⟨e, he, -⟩ := List.mem_map.mp hr
    exact (hes (List.ne_nil_of_mem he)).1
  | terminal r' hfree => exact hfree

theorem Sends.bracketed (h : Sends t t' new) : Bracketed new := by
  cases h with
  | events es =>
    refine List.pairwise_map.mpr ?_
    exact List.Pairwise.imp (fun _ _ => rfl) (List.pairwise_of_forall (R := fun _ _ => True)
      (fun _ _ => trivial))
  | terminal r => exact List.pairwise_singleton _ _

/-- **A task that moves on keeps the invariant**, if it sends what it may. -/
theorem ReplyInv.advance (h : ReplyInv T s) (ht : s.tasks[k]? = some t)
    (hreq : t'.request = t.request)
    (hmethod : ∀ i, t'.invite = some i → Method.parse t.request.method = some .peerInvite)
    (hvalid : t'.Valid T) (hsends : Sends t t' new) : ReplyInv T (s.advance k t' new) := by
  have hmem := List.mem_of_getElem? ht
  have hlt := (List.getElem?_eq_some_iff.mp ht).1
  have hmem' : t' ∈ s.tasks.set k t' := List.mem_of_getElem? (List.getElem?_set_self hlt)
  have hreplied : t.replied = true → t'.replied = true := by
    intro hrep
    cases hsends with
    | events es hsame => rw [hsame, hrep]
    | terminal r hfree => rw [hfree] at hrep; exact absurd hrep (by simp)
  refine ⟨?_, fun t₁ h₁ cfg inv hinv => ?_, fun r hr => ?_, fun t₁ h₁ hrep => ?_, ?_⟩
  · show ((s.tasks.set k t').map (fun t => t.request.id)).Nodup
    rw [map_set_of_eq ht (by rw [hreq])]
    exact h.ids
  · obtain hold | rfl := List.mem_or_eq_of_mem_set h₁
    · exact h.invite t₁ hold cfg inv hinv
    · rw [hreq]
      exact ⟨hmethod _ hinv, hvalid cfg inv hinv⟩
  · obtain hold | hnew := List.mem_append.mp hr
    · obtain ⟨t₁, h₁, hid, hev, hterm⟩ := h.sent r hold
      obtain hin | rfl := mem_set_or_eq (b := t') ht h₁
      · exact ⟨t₁, hin, hid, hev, hterm⟩
      · exact ⟨t', hmem', by rw [hreq, hid], by rw [hreq]; exact hev,
          fun hr => hreplied (hterm hr)⟩
    · refine ⟨t', hmem', by rw [hreq, hsends.id_eq hnew], ?_, ?_⟩
      · intro hev
        rw [hreq]
        cases hsends with
        | events es hsame hes =>
          obtain ⟨e, he, -⟩ := List.mem_map.mp hnew
          exact (hes (List.ne_nil_of_mem he)).2
        | terminal r' =>
          rw [List.mem_singleton.mp hnew, IpcReply.terminal_isEvent] at hev
          exact absurd hev (by simp)
      · intro hterm
        cases hsends with
        | events es hsame hes =>
          obtain ⟨e, he, rfl⟩ := List.mem_map.mp hnew
          exact absurd hterm (by simp [IpcReply.isEvent])
        | terminal r' hfree hdone => exact hdone
  · obtain hold | rfl := List.mem_or_eq_of_mem_set h₁
    · obtain ⟨r, hr, hid, hterm⟩ := h.replied t₁ hold hrep
      exact ⟨r, List.mem_append_left _ hr, hid, hterm⟩
    · rw [hreq]
      cases hsends with
      | events es hsame =>
        obtain ⟨r, hr, hid, hterm⟩ := h.replied t hmem (by rw [← hsame, hrep])
        exact ⟨r, List.mem_append_left _ hr, hid, hterm⟩
      | terminal r =>
        exact ⟨_, List.mem_append_right _ (List.mem_singleton.mpr rfl), by simp, by simp⟩
  · refine List.pairwise_append.mpr ⟨h.bracketed, hsends.bracketed, fun a ha b hb hid => ?_⟩
    -- a terminal reply before would be that of this very task
    by_contra hterm
    rw [Bool.not_eq_true] at hterm
    obtain ⟨t₁, h₁, hid₁, -, hrep⟩ := h.sent a ha
    have heq : t₁ = t := h.task_eq h₁ hmem (by rw [hid₁, hid, hsends.id_eq hb])
    rw [heq, hsends.not_replied hb] at hrep
    exact absurd (hrep hterm) (by simp)

/-- A new request has sent nothing. -/
theorem ReplyInv.spawn (h : ReplyInv T s) {r : IpcRequest}
    (hfresh : ∀ t ∈ s.tasks, t.request.id ≠ r.id) :
    ReplyInv T { s with tasks := s.tasks ++ [⟨r, none, false⟩] } := by
  refine ⟨?_, fun t ht cfg inv hinv => ?_, fun r' hr' => ?_, fun t ht hrep => ?_, h.bracketed⟩
  · rw [List.map_append, List.nodup_append]
    refine ⟨h.ids, List.nodup_singleton _, fun a ha b hb => ?_⟩
    obtain ⟨t, ht, rfl⟩ := List.mem_map.mp ha
    rw [List.mem_singleton.mp hb]
    exact hfresh t ht
  · obtain hold | hnew := List.mem_append.mp ht
    · exact h.invite t hold cfg inv hinv
    · rw [List.mem_singleton.mp hnew] at hinv
      exact absurd hinv (by simp)
  · obtain ⟨t, ht, hrest⟩ := h.sent r' hr'
    exact ⟨t, List.mem_append_left _ ht, hrest⟩
  · obtain hold | hnew := List.mem_append.mp ht
    · exact h.replied t hold hrep
    · rw [List.mem_singleton.mp hnew] at hrep
      exact absurd hrep (by simp)

/-- The invite of a task is that of a `peer.invite`, and a run of an invite. -/
theorem ReplyInv.of_task (h : ReplyInv T s) (ht : s.tasks[k]? = some t) :
    (∀ i, t.invite = some i → Method.parse t.request.method = some .peerInvite) ∧ t.Valid T := by
  have hmem := List.mem_of_getElem? ht
  exact ⟨fun i hi => (h.invite t hmem i.1 i.2 hi).1,
    fun cfg inv hinv => (h.invite t hmem cfg inv hinv).2⟩

/-- A step of an invite that is not a handler's late prompt. -/
theorem ReplyInv.inviteStep (h : ReplyInv T s) {cfg : InviteCfg} {inv inv' : Invite Text}
    {a : InviteAct Text} (ht : s.tasks[k]? = some t) (hinv : t.invite = some (cfg, inv))
    (hn : inv.next T cfg a = some inv')
    (hintime : ∀ i ev c, a = .conn i ev → inv.conns[i]? = some c → c.pc = .emit →
      t.replied = false) :
    ReplyInv T (s.advance k { t with invite := some (cfg, inv') }
      ((inv'.shared.events.drop inv.shared.events.length).map (.event t.request.id))) := by
  obtain ⟨hmethod, hvalid⟩ := h.of_task ht
  have hvalid' := (DispatchMove.invite (k := k) cfg inv inv' a hinv hn).valid hvalid
  obtain ⟨new, hnew, hcases⟩ := next_events hn
  rw [hnew, List.drop_left]
  refine h.advance ht rfl (fun _ _ => hmethod _ hinv) hvalid'
    (.events new rfl fun hne => ⟨?_, hmethod _ hinv⟩)
  obtain ⟨i, ev, c, ha, hc, hpc, -⟩ | ⟨-, hquiet⟩ := hcases
  · exact hintime i ev c ha hc hpc
  · -- the loop sends nothing after its result
    by_contra hrep
    rw [Bool.not_eq_false] at hrep
    exact hne (hquiet ((hvalid cfg inv hinv).2 hrep))

/-- A handler's late prompt comes after the terminal reply. -/
theorem ReplyInv.late (h : ReplyInv T s) {cfg : InviteCfg} {inv inv' : Invite Text} {i : ℕ}
    {ev : HandlerEvent Text} {c : PairConn} (ht : s.tasks[k]? = some t)
    (hn : inv.next T cfg (.conn i ev) = some inv') (hrep : t.replied = true)
    (hc : inv.conns[i]? = some c) (hpc : c.pc = .emit) :
    ¬ Bracketed (s.sent ++
      (inv'.shared.events.drop inv.shared.events.length).map (.event t.request.id)) := by
  obtain ⟨r, hr, hid, hterm⟩ := h.replied t (List.mem_of_getElem? ht) hrep
  obtain ⟨new, hnew, ⟨_, _, _, _, _, _, hne⟩ | ⟨hnot, -⟩⟩ := next_events hn
  · rw [hnew, List.drop_left]
    intro hbr
    obtain ⟨e, he⟩ := List.exists_mem_of_ne_nil new hne
    have hevent := (List.pairwise_append.mp hbr).2.2 r hr (.event t.request.id e)
      (List.mem_map_of_mem he) hid
    rw [hterm] at hevent
    exact absurd hevent (by simp)
  · exact absurd hpc (hnot i ev c rfl hc)

/-- A task that moves keeps the replies bracketed exactly if it sends no late prompt. -/
theorem ReplyInv.task {a : IpcAct Text} (h : ReplyInv T s) (ht : s.tasks[k]? = some t)
    (hmove : DispatchMove T k t a t' new) :
    (PromptsInTime s a ∧ ReplyInv T (s.advance k t' new)) ∨
      (¬ PromptsInTime s a ∧ ¬ Bracketed (s.sent ++ new)) := by
  obtain ⟨hmethod, hvalid⟩ := h.of_task ht
  have hvalid' := hmove.valid hvalid
  cases hmove with
  | dispatch outcome r hrep =>
    exact .inl ⟨trivial, h.advance ht rfl hmethod hvalid' (.terminal r hrep rfl)⟩
  | create cfg state clock hrep hparse =>
    exact .inl ⟨trivial, h.advance ht rfl (fun _ _ => hparse) hvalid'
      (.events [] rfl (fun hne => absurd rfl hne))⟩
  | invite cfg inv inv' a hinv hn =>
    -- a prompt of a task that has replied, or not
    by_cases hlate : ∃ i ev c, a = .conn i ev ∧ inv.conns[i]? = some c ∧ c.pc = .emit ∧
        t.replied = true
    · obtain ⟨i, ev, c, rfl, hc, hpc, hrep⟩ := hlate
      refine .inr ⟨fun hintime => ?_, h.late ht hn hrep hc hpc⟩
      exact hintime t cfg inv ht hrep hinv c hc hpc
    · refine .inl ⟨?_, h.inviteStep ht hinv hn ?_⟩
      · cases a with
        | conn i ev =>
          intro t₁ cfg₁ inv₁ ht₁ hrep hinv₁ c hc hpc
          rw [ht] at ht₁
          cases ht₁
          rw [hinv] at hinv₁
          cases hinv₁
          exact hlate ⟨i, ev, c, rfl, hc, hpc, hrep⟩
        | _ => trivial
      · intro i ev c ha hc hpc
        by_contra hrep
        exact hlate ⟨i, ev, c, ha, hc, hpc, by simpa using hrep⟩
  | reply cfg inv r hrep =>
    exact .inl ⟨trivial, h.advance ht rfl hmethod hvalid' (.terminal _ hrep rfl)⟩

/-- **One step**: with a well-formed line, the replies stay bracketed exactly if no handler sends
    its prompt late. -/
theorem ipc_step {paramsError : Value → String} {s' : IpcSession Text} {a : IpcAct Text}
    (h : ReplyInv T s) (hwf : WellFormed s a) (hs' : s.next T paramsError a = some s') :
    (PromptsInTime s a ∧ ReplyInv T s') ∨ (¬ PromptsInTime s a ∧ ¬ Bracketed s'.sent) := by
  obtain ⟨l, rfl, -, rfl⟩ | ⟨rfl, rfl⟩ | ⟨k, t, t', new, ht, hmove, rfl⟩ | ⟨ok, rfl, -, rfl⟩ :=
    ipcSession_step hs'
  · refine .inl ⟨trivial, ?_⟩
    cases l with
    | blank => exact h
    | request r => exact h.spawn hwf.2
    | malformed e => exact absurd hwf (by simp [WellFormed])
  · exact .inl ⟨trivial, h.ids, h.invite, h.sent, h.replied, h.bracketed⟩
  · exact h.task ht hmove
  · refine .inl ⟨trivial, ?_⟩
    split <;> exact ⟨h.ids, h.invite, h.sent, h.replied, h.bracketed⟩

end Inv

/-! ### Every run -/

section Run

variable {T : Toml PersistedState Text} {paramsError : Value → String} {s : IpcSession Text}

theorem replyInv (h : Reach (ipcSystem T paramsError)
    (fun s a => WellFormed s a ∧ PromptsInTime s a) s) : ReplyInv T s := by
  refine h.invariant ?_ ?_
  · rintro _ rfl
    exact ⟨List.nodup_nil, by simp [IpcSession.start], by simp [IpcSession.start],
      by simp [IpcSession.start], List.Pairwise.nil⟩
  · rintro s a s' - hinv ⟨hwf, hintime⟩ hs'
    obtain ⟨-, hinv'⟩ | ⟨hlate, -⟩ := ipc_step hinv hwf hs'
    · exact hinv'
    · exact absurd hintime hlate

/-- Replies of one id in brackets: events, then at most one terminal reply. -/
theorem Bracketed.split {replies : List IpcReply} (h : Bracketed replies) (id : ℕ) :
    ∃ events last, replies.filter (fun r => r.id = id) = events ++ last ∧
      (∀ r ∈ events, r.isEvent = true) ∧ last.length ≤ 1 ∧ ∀ r ∈ last, r.isEvent = false := by
  have hsame : (replies.filter (fun r => r.id = id)).Pairwise (fun a _ => a.isEvent = true) := by
    refine (h.filter _).imp_of_mem (fun {a b} ha hb hab => hab ?_)
    have ha := (List.mem_filter.mp ha).2
    have hb := (List.mem_filter.mp hb).2
    simp only [decide_eq_true_eq] at ha hb
    rw [ha, hb]
  generalize replies.filter (fun r => r.id = id) = own at hsame
  induction own with
  | nil => exact ⟨[], [], rfl, by simp, by simp, by simp⟩
  | cons a own ih =>
    obtain ⟨hfirst, hrest⟩ := List.pairwise_cons.mp hsame
    cases hev : a.isEvent with
    | true =>
      obtain ⟨events, last, rfl, hevents, hlast⟩ := ih hrest
      refine ⟨a :: events, last, rfl, fun r hr => ?_, hlast⟩
      obtain rfl | hr := List.mem_cons.mp hr
      · exact hev
      · exact hevents r hr
    | false =>
      -- nothing follows a terminal reply
      cases own with
      | nil => exact ⟨[], [a], rfl, by simp, by simp, by simpa using hev⟩
      | cons b own =>
        rw [hfirst b List.mem_cons_self] at hev
        exact absurd hev (by simp)

/-- **Replies are bracketed.**  On a connection that carries well-formed requests with distinct
    ids, in every run in which no handler sends its prompt after the reply to its request: the
    replies written with an id are events and then at most one terminal reply, and events are
    those of `peer.invite`.  The first late prompt breaks the order on the channel. -/
theorem ipc_replies_bracketed (T : Toml PersistedState Text) (paramsError : Value → String)
    (h : Reach (ipcSystem T paramsError) (fun s a => WellFormed s a ∧ PromptsInTime s a) s) :
    Bracketed s.replies ∧
    (∀ id, ∃ events last, s.replies.filter (fun r => r.id = id) = events ++ last ∧
      (∀ r ∈ events, r.isEvent = true) ∧ last.length ≤ 1 ∧ ∀ r ∈ last, r.isEvent = false) ∧
    (∀ r ∈ s.replies, r.isEvent = true →
      ∃ t ∈ s.tasks, t.request.id = r.id ∧ Method.parse t.request.method = some .peerInvite) ∧
    ∀ a s', WellFormed s a → s.next T paramsError a = some s' →
      (PromptsInTime s a ↔ Bracketed s'.sent) := by
  have hinv := replyInv h
  have hbr : Bracketed s.replies := hinv.bracketed.sublist (List.take_sublist _ _)
  refine ⟨hbr, hbr.split, fun r hr hev => ?_, fun a s' hwf hs' => ?_⟩
  · obtain ⟨t, ht, hid, hmethod, -⟩ := hinv.sent r (List.mem_of_mem_take hr)
    exact ⟨t, ht, hid, hmethod hev⟩
  · obtain ⟨hintime, hinv'⟩ | ⟨hlate, hbad⟩ := ipc_step hinv hwf hs'
    · exact ⟨fun _ => hinv'.bracketed, fun _ => hintime⟩
    · exact ⟨fun hintime => absurd hintime hlate, fun hgood => absurd hgood hbad⟩

end Run

/-! ### An invite on a connection -/

/-- A client asks for an invite for `laptop`, and the invite takes these steps. -/
def invitedRun (as : List (InviteAct PersistedState)) : List (IpcAct PersistedState) :=
  .line (.request ⟨7, "peer.invite", .obj [("name", .str " laptop ")]⟩) ::
    .create 0 laptopInvite .fresh 0 :: as.map (.invite 0)

/-- What is seen of the replies: their ids, and which are events. -/
def IpcSession.outline (s : IpcSession Text) : List (ℕ × Bool) :=
  s.replies.map (fun r => (r.id, r.isEvent))

/-- `pairedRun` as its admin sees it: the code, the prompt, the result. -/
theorem ipc_replies_bracketed_paired : ∃ s : IpcSession PersistedState,
    Reach (ipcSystem (.self PersistedState) (fun _ => ""))
      (fun s a => WellFormed s a ∧ PromptsInTime s a) s ∧
    s.outline = [(7, true), (7, true), (7, false)] ∧ Bracketed s.replies := by
  have hrun : (exec (ipcSystem (.self PersistedState) (fun _ => ""))
      (fun s a => decide (WellFormed s a ∧ PromptsInTime s a)) .start
      (invitedRun (pairedRun ++ endPaired) ++
        [.reply 0, .write true, .write true, .write true])).map IpcSession.outline =
        some [(7, true), (7, true), (7, false)] := by
    decide +kernel
  obtain ⟨s, hs, hview⟩ := reach_of_exec_map (fun _ _ => of_decide_eq_true) hrun (.init rfl)
  exact ⟨s, hs, hview, (ipc_replies_bracketed (.self PersistedState) (fun _ => "") hs).1⟩

/-- The admin rejects the invite while a handler has told its client to wait and not yet sent the
    prompt; the invite is reported as rejected, and the handler goes on. -/
def latePromptRun : List (IpcAct PersistedState) :=
  invitedRun (.loop (.build true) :: takeConn vectorKey0 ++ (reachPrompt 0).take 5 ++
      answerPrompt 0 false ++ [.loop .go, .tick 300, .loop .go, .loop .go, .loop .go]) ++
    [.reply 0, .invite 0 (.conn 0 .go), .write true, .write true, .write true]

/-- The prompt is written after the result. -/
theorem late_prompt : ¬ ∀ s : IpcSession PersistedState,
    Reach (ipcSystem (.self PersistedState) (fun _ => "")) WellFormed s → Bracketed s.replies := by
  intro hall
  have hrun : (exec (ipcSystem (.self PersistedState) (fun _ => ""))
      (fun s a => decide (WellFormed s a)) .start latePromptRun).map IpcSession.outline =
        some [(7, true), (7, false), (7, true)] := by
    decide +kernel
  obtain ⟨s, hs, hview⟩ := reach_of_exec_map (fun _ _ => of_decide_eq_true) hrun (.init rfl)
  have hbr : s.outline.Pairwise (fun a b => a.1 = b.1 → a.2 = true) :=
    List.pairwise_map.mpr (hall s hs)
  rw [hview] at hbr
  exact absurd hbr (by decide)

end Tmite.Daemon
