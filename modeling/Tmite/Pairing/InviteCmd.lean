import Tmite.Daemon.IpcLine
import Tmite.Daemon.InviteApproval
import Tmite.Daemon.IpcConn
import Tmite.Pairing.Screens

namespace Tmite.Pairing

open Tmite.Core Tmite.Proto Tmite.Daemon Transition TaskList Serde

/-!
# The admin at work (`invite_cmd` of `tmite/src/main.rs`)

`tmite admin peers invite` sends `peer.invite` with the id 1 and reads replies until the invite is
over.  At each `pair_request` it shows the node id, asks, and sends `peer.invite.decide` with the
id 2 each time.  `InviteCmd.onReply` is the body of its loop.

Here the command runs against a connection of the daemon, with every interleaving of its tasks, the
invite's and the pair handlers'.  What the model of an invite says of its admin is then a fact about
the command:

* `inviteCmd_in_order` — the invite it started sees an admin that answers the n-th prompt with its
  n-th decision, and what it showed for that prompt is the key of that client.
-/

universe v
variable {Text : Type v}

/-! ### The command -/

/-- How `invite_cmd` ends. -/
inductive InviteEnd
  | done
  /-- `daemon error [code]: message` -/
  | daemonError (e : DispatchError)
  | cancelled
  | unexpectedResult (v : Value)
  /-- `daemon closed the IPC connection` -/
  | closed
  /-- `prompt_y_n` fails: there is no terminal. -/
  | noPrompt
  /-- `conn.send` fails. -/
  | sendFailed
  /-- `grouped_node_id` slices off the end of its text. -/
  | panicked

/-- The variables of the loop. -/
structure InviteCmd where
  decided : Bool
  inviteId : Option String
deriving DecidableEq, Repr

/-- What one reply leads to: the lines printed, the decision sent, and the variables or the end. -/
structure InviteStep where
  shown : List String
  sent : Option DecideParams
  next : Except InviteEnd InviteCmd

namespace InviteCmd

def start : InviteCmd := ⟨false, none⟩

/-- The `pair_request` arm; `answer` is what `prompt_y_n` returns, if it does. -/
def onPairRequest (yes : Bool) (answer : Option Bool) (c : InviteCmd) (data : Value) :
    InviteStep :=
  match groupedNodeId ((Value.getStr "node_id" data).getD "<unknown>") with
  | none => ⟨["Pairing request from client:"], none, .error .panicked⟩
  | some groups =>
    let shown := ["Pairing request from client:", "  " ++ groups]
    match if yes then some true else answer with
    | none => ⟨shown, none, .error .noPrompt⟩
    | some accept =>
      let inviteId := ((Value.getStr "invite_id" data).or c.inviteId).getD ""
      ⟨shown, some ⟨inviteId, accept⟩, .ok { c with decided := true }⟩

/-- The `match` on the event's name. -/
def onEvent (yes : Bool) (answer : Option Bool) (c : InviteCmd) (event : String) (data : Value) :
    InviteStep :=
  if event = "code" then
    let code := (Value.getStr "code" data).getD "<unknown>"
    let ttlSecs := ((Value.get "ttl_secs" data).bind asU64).getD 0
    ⟨["Invite code (valid for " ++ toString ttlSecs ++ "s):", "  " ++ code,
        "Read this code to the client operator."], none,
      .ok { c with inviteId := Value.getStr "invite_id" data }⟩
  else if event = "pair_request" then c.onPairRequest yes answer data
  else if event = "expired" ∧ !c.decided ∧ !yes then ⟨["Invite expired."], none, .ok c⟩
  else if event = "cancelled" then ⟨[], none, .error .cancelled⟩
  else ⟨[], none, .ok c⟩

/-- The result of `peer.invite`. -/
def onResult (v : Value) : List String × InviteEnd :=
  match (Value.getStr "status" v).getD "" with
  | "paired" =>
    (["Paired. Peer registered as:", "  " ++ (Value.getStr "node_id" v).getD "<unknown>"], .done)
  | "rejected" => (["Invite rejected; the code is now dead."], .done)
  | "expired" => (["Invite expired without a pairing."], .done)
  | _ => ([], .unexpectedResult v)

/-- The body of the loop. -/
def onReply (yes : Bool) (answer : Option Bool) (c : InviteCmd) (r : ReplyLine) : InviteStep :=
  if r.id ≠ 1 ∧ r.id ≠ 2 then ⟨[], none, .ok c⟩
  else
    match r.error with
    | some e => ⟨[], none, .error (.daemonError e)⟩
    | none =>
      let step : InviteStep := match r.event with
        | none => ⟨[], none, .ok c⟩
        | some event => c.onEvent yes answer event (r.data.getD .null)
      match step.next, r.result with
      | .ok _, some v =>
        if r.id ≠ 1 then step
        else { step with shown := step.shown ++ (onResult v).1, next := .error (onResult v).2 }
      | _, _ => step

end InviteCmd

/-! ### The command and the daemon -/

/-- A run of the command against its connection. -/
structure InviteRun (Text : Type v) where
  session : IpcSession Text
  /-- The lines the command has sent, and how many of them the daemon has read. -/
  lines : List IpcRequest
  delivered : ℕ
  /-- How many replies the command has read. -/
  read : ℕ
  cmd : Except InviteEnd InviteCmd
  /-- For each decision sent, what was shown with its prompt and the answer. -/
  answered : List (List String × Bool)

inductive InviteRunAct (Text : Type v)
  /-- The daemon reads the next line. -/
  | deliver
  | daemon (a : IpcAct Text)
  /-- The command reads the next reply; `answer` is what the admin types at a prompt. -/
  | reply (answer : Option Bool)
  /-- It reads the next reply, and the decision that asks for cannot be sent. -/
  | replyUnsent (answer : Option Bool)
  /-- `conn.reply` returns `None`, or an error. -/
  | closed

/-- What the daemon does by itself: the lines are the command's, and so are the decisions. -/
def ownStep : IpcAct Text → Bool
  | .line _ => false
  | .invite _ (.request _) => false
  | _ => true

/-- The node ids of the `pair_request` events among replies. -/
def promptsIn (replies : List IpcReply) : List String :=
  replies.filterMap fun
    | .event _ (.pairRequest _ nodeId) => some nodeId
    | _ => none

namespace InviteRun

variable (T : Toml PersistedState Text) (paramsError : Value → String) (yes : Bool)

def start (name : String) (ttl : Option ℕ) : InviteRun Text :=
  ⟨.start, [AdminRequest.toRequest 1 (.invite name ttl)], 0, 0, .ok .start, []⟩

/-- The decision is on its way to the invite it names, as the answer to the prompt just read; when
    it arrives is a step of the daemon. -/
def recordDecision (s : InviteRun Text) (p : DecideParams) : IpcSession Text :=
  match s.session.tasks[0]?.bind (·.invite) with
  | some (cfg, _) =>
    if cfg.inviteId = p.inviteId then
      let d : Decide := ⟨p.accept, (promptsIn (s.session.replies.take s.read)).length⟩
      (s.session.next T paramsError (.invite 0 (.request d))).getD s.session
    else s.session
  | none => s.session

/-- The command takes `step`. -/
def take (s : InviteRun Text) (step : InviteStep) : InviteRun Text :=
  match step.sent with
  | none => { s with read := s.read + 1, cmd := step.next }
  | some p =>
    { s with
      session := s.recordDecision T paramsError p
      lines := s.lines ++ [AdminRequest.toRequest 2 (.decide p.inviteId p.accept)]
      read := s.read + 1
      cmd := step.next
      answered := s.answered ++ [(step.shown, p.accept)] }

/-- A step, where it is enabled. -/
def next (s : InviteRun Text) : InviteRunAct Text → Option (InviteRun Text)
  | .deliver =>
    s.lines[s.delivered]?.bind fun r =>
      (s.session.next T paramsError (.line (.request r))).map fun session =>
        { s with session := session, delivered := s.delivered + 1 }
  | .daemon a =>
    if ownStep a then
      (s.session.next T paramsError a).map fun session => { s with session := session }
    else none
  | .reply answer =>
    match s.cmd, s.session.replies[s.read]? with
    | .ok c, some r => some (s.take T paramsError (c.onReply yes answer r.toLine))
    | _, _ => none
  | .replyUnsent answer =>
    match s.cmd, s.session.replies[s.read]? with
    | .ok c, some r =>
      if (c.onReply yes answer r.toLine).sent.isSome then
        some { s with read := s.read + 1, cmd := .error .sendFailed }
      else none
    | _, _ => none
  | .closed =>
    match s.cmd with
    | .ok _ => some { s with cmd := .error .closed }
    | .error _ => none

end InviteRun

/-- `invite_cmd` with a daemon, as a transition system. -/
def inviteCmdSystem (T : Toml PersistedState Text) (paramsError : Value → String) (yes : Bool) :
    System (InviteRun Text) (InviteRunAct Text) where
  init s := ∃ name ttl, s = InviteRun.start name ttl
  next := InviteRun.next T paramsError yes

/-! ### The invite -/

section Invite

variable {T : Toml PersistedState Text} {cfg : InviteCfg} {s s' : Invite Text}
  {a : InviteAct Text}

/-- Only an admin's request is counted. -/
theorem requested_eq (hn : s.next T cfg a = some s') (ha : ∀ d, a ≠ .request d) :
    s'.requested = s.requested := by
  cases a with
  | request d => exact absurd rfl (ha d)
  | loop ev =>
    obtain ⟨pc, eff, -, -, rfl⟩ := next_loop hn
    exact (perform_cmds cfg { s with loop := pc } eff).1
  | conn i ev =>
    obtain ⟨c, pc, eff, -, -, rfl⟩ := next_conn hn
    rfl
  | tick ms => cases hn; rfl
  | store c =>
    simp only [Invite.next] at hn
    split at hn
    · exact absurd hn (by simp)
    · cases hn; rfl
  | dispatch k =>
    obtain ⟨d, -, rfl⟩ := Option.map_eq_some_iff.mp hn
    rfl

/-- An event of that invite: a `pair_request` names it, and the key of a client. -/
def OwnEvent (inviteId : String) (e : InviteEvent) : Prop :=
  ∀ id n, e = .pairRequest id n → id = inviteId ∧ ∃ key : PublicKey, n = key.display

/-- What a step of the invite sends are events of it. -/
theorem next_ownEvents (hn : s.next T cfg a = some s') :
    ∃ new, s'.shared.events = s.shared.events ++ new ∧ ∀ e ∈ new, OwnEvent cfg.inviteId e := by
  cases a with
  | loop ev =>
    obtain ⟨pc, eff, -, -, rfl⟩ := next_loop hn
    cases eff with
    | emitCode =>
      refine ⟨_, rfl, fun e he => ?_⟩
      rw [List.mem_singleton.mp he]
      exact fun id n h => absurd h (by simp)
    | close expired =>
      refine ⟨_, rfl, fun e he id n h => ?_⟩
      rw [h] at he
      cases expired <;> simp at he
    | claimAndSpawn remote =>
      refine ⟨[], ?_, by simp⟩
      simp only [Invite.perform, List.append_nil]
      split <;> rfl
    | sendResult r =>
      refine ⟨[], ?_, by simp⟩
      simp only [Invite.perform, List.append_nil]
      split <;> rfl
    | _ => exact ⟨[], (List.append_nil _).symm, by simp⟩
  | conn i ev =>
    obtain ⟨c, pc, eff, -, hmove, rfl⟩ := next_conn hn
    rcases hmove.events i with ⟨-, hnew⟩ | ⟨-, hnew⟩
    · refine ⟨_, hnew, fun e he id n h => ?_⟩
      rw [List.mem_singleton.mp he] at h
      cases h
      exact ⟨rfl, c.remote, rfl⟩
    · exact ⟨[], by rw [List.append_nil]; exact hnew, by simp⟩
  | _ =>
    obtain ⟨_, _, _, _, _, rfl⟩ := next_other hn (by simp) (by simp)
    exact ⟨[], (List.append_nil _).symm, by simp⟩

/-- Every decision on its way, stored or acted on is one of the answers of the admin, by the number
    of its prompt. -/
structure Justified (answers : List Bool) (s : Invite Text) : Prop where
  requests : ∀ d ∈ s.requests, answers[d.answers]? = some d.accept
  cmds : ∀ d ∈ s.cmds, answers[d.answers]? = some d.accept
  loop : ∀ d, s.loop = .setDecision d → answers[d.answers]? = some d.accept
  decision : ∀ b, s.shared.decision = some b → answers[s.shared.decidedBy]? = some b
  record : ∀ c ∈ s.conns, ∀ k, c.pc = .record k → answers[k]? = some true
  adds : ∀ a ∈ s.shared.adds, answers[a.answers]? = some true

variable {answers : List Bool}

theorem justified_start (state : State Text) (clock : ℕ) : Justified answers (.start state clock) :=
  ⟨by simp [Invite.start], by simp [Invite.start], by simp [Invite.start], by simp [Invite.start],
    by simp [Invite.start], by simp [Invite.start]⟩

theorem Justified.mono (h : Justified answers s) {answers' : List Bool}
    (hpre : answers <+: answers') : Justified answers' s :=
  ⟨fun d hd => getElem?_of_prefix hpre (h.requests d hd),
    fun d hd => getElem?_of_prefix hpre (h.cmds d hd),
    fun d hd => getElem?_of_prefix hpre (h.loop d hd),
    fun b hb => getElem?_of_prefix hpre (h.decision b hb),
    fun c hc k hk => getElem?_of_prefix hpre (h.record c hc k hk),
    fun a ha => getElem?_of_prefix hpre (h.adds a ha)⟩

theorem perform_cmds_subset (cfg : InviteCfg) (s : Invite Text) (eff : LoopEffect) :
    (s.perform cfg eff).cmds ⊆ s.cmds := by
  cases eff with
  | popCmd => exact List.tail_subset _
  | claimAndSpawn remote => simp only [Invite.perform]; split <;> exact List.Subset.refl _
  | sendResult r => simp only [Invite.perform]; split <;> exact List.Subset.refl _
  | _ => exact List.Subset.refl _

theorem Justified.loopStep {ev : LoopEvent} (h : Justified answers s)
    (hn : s.next T cfg (.loop ev) = some s') : Justified answers s' := by
  obtain ⟨pc, eff, -, hmove, rfl⟩ := next_loop hn
  obtain ⟨-, hrequests, -⟩ := perform_cmds cfg { s with loop := pc } eff
  obtain ⟨hadds, -, -⟩ := perform_loop_shared cfg { s with loop := pc } eff
  refine ⟨by rw [hrequests]; exact h.requests, fun d hd => ?_, fun d hd => ?_, ?_,
    fun c hc k hk => ?_, by rw [hadds]; exact h.adds⟩
  · exact h.cmds d (perform_cmds_subset cfg { s with loop := pc } eff hd)
  · -- taken from the channel
    rw [perform_loop_pc] at hd
    subst hd
    obtain ⟨-, rest, hcmds⟩ := hmove.takes
    exact h.cmds d (by rw [hcmds]; exact List.mem_cons_self)
  · by_cases hset : ∃ d, eff = .setDecision d
    · obtain ⟨d, rfl⟩ := hset
      intro b hb
      simp only [Invite.perform, Option.some.injEq] at hb ⊢
      rw [← hb]
      exact h.loop d hmove.at_setDecision
    · obtain ⟨hdec, hby⟩ := perform_loop_decision cfg { s with loop := pc } eff
        (fun d heq => hset ⟨d, heq⟩)
      rw [hdec, hby]
      exact h.decision
  · obtain ⟨c', hc', -, hrec⟩ := perform_conns_old hc
      (p := fun pc => decide (pc = .record k)) (fun _ _ => by simp) (by simp) (by simp)
      (by simp [hk])
    exact h.record c' hc' k (of_decide_eq_true hrec)

theorem Justified.connStep {i : ℕ} {ev : HandlerEvent Text} (h : Justified answers s)
    (hn : s.next T cfg (.conn i ev) = some s') : Justified answers s' := by
  obtain ⟨c, pc, eff, hc, hmove, rfl⟩ := next_conn hn
  obtain ⟨hdec, hby⟩ := perform_decision T cfg s.shared i c.remote eff
  refine ⟨h.requests, h.cmds, h.loop, by rw [hdec, hby]; exact h.decision, fun d hd k hk => ?_,
    fun a ha => ?_⟩
  · rcases List.mem_or_eq_of_mem_set hd with hold | rfl
    · exact h.record d hold k hk
    · -- it has just read the decision
      obtain ⟨-, hacc, rfl⟩ := hmove.atRecord hk
      exact h.decision true hacc
  · rcases hmove.adds_new ha with hold | ⟨hpc, -⟩
    · exact h.adds a hold
    · exact h.record c (List.mem_of_getElem? hc) _ hpc

/-- No step but the admin's own brings in a decision. -/
theorem Justified.next (h : Justified answers s) (hn : s.next T cfg a = some s')
    (ha : ∀ d, a ≠ .request d) : Justified answers s' := by
  cases a with
  | request d => exact absurd rfl (ha d)
  | loop ev => exact h.loopStep hn
  | conn i ev => exact h.connStep hn
  | tick ms =>
    cases hn
    exact ⟨h.requests, h.cmds, h.loop, h.decision, h.record, h.adds⟩
  | store c =>
    simp only [Invite.next] at hn
    split at hn
    · exact absurd hn (by simp)
    · cases hn
      exact ⟨h.requests, h.cmds, h.loop, h.decision, h.record, h.adds⟩
  | dispatch k =>
    obtain ⟨d, hd, rfl⟩ := Option.map_eq_some_iff.mp hn
    refine ⟨fun d' hd' => h.requests d' (List.mem_of_mem_eraseIdx hd'), fun d' hd' => ?_, h.loop,
      h.decision, h.record, h.adds⟩
    dsimp only at hd'
    split at hd'
    · rcases List.mem_append.mp hd' with hold | hnew
      · exact h.cmds d' hold
      · rw [List.mem_singleton.mp hnew]
        exact h.requests d (List.mem_of_getElem? hd)
    · exact h.cmds d' hd'

end Invite

/-! ### One reply -/

/-- The events among replies. -/
def eventsOf (replies : List IpcReply) : List InviteEvent :=
  replies.filterMap fun
    | .event _ e => some e
    | _ => none

theorem promptsIn_eq (replies : List IpcReply) :
    promptsIn replies = (eventsOf replies).filterMap fun
      | .pairRequest _ nodeId => some nodeId
      | _ => none := by
  rw [promptsIn, eventsOf, List.filterMap_filterMap]
  refine List.filterMap_congr (fun r _ => ?_)
  cases r with
  | event id e => cases e <;> rfl
  | _ => rfl

theorem eventsOf_append (rs rs' : List IpcReply) :
    eventsOf (rs ++ rs') = eventsOf rs ++ eventsOf rs' := List.filterMap_append

theorem eventsOf_events (id : ℕ) (es : List InviteEvent) :
    eventsOf (es.map (.event id)) = es := by
  rw [eventsOf, List.filterMap_map]
  exact List.filterMap_some

/-- What is printed at the prompt for the client with that key. -/
def shownFor (key : PublicKey) : List String :=
  ["Pairing request from client:", "  " ++ groupedHex key.asBytes.1]

theorem onResult_ne_panicked (v : Value) : (InviteCmd.onResult v).2 ≠ .panicked := by
  unfold InviteCmd.onResult
  split <;> simp

/-- On an event with the id 1 the loop does what `on_event` does. -/
theorem onReply_event (yes : Bool) (answer : Option Bool) (c : InviteCmd) (e : InviteEvent) :
    c.onReply yes answer (IpcReply.event 1 e).toLine =
      c.onEvent yes answer e.toPair.1 e.toPair.2 := by
  simp only [InviteCmd.onReply, IpcReply.toLine, Option.getD_some, ne_eq, not_true_eq_false,
    false_and, if_false]
  split
  · simp_all
  · rfl

/-- At a `pair_request`. -/
theorem onEvent_pairRequest (yes : Bool) (answer : Option Bool) (c : InviteCmd) (inviteId : String)
    (key : PublicKey) :
    c.onEvent yes answer (InviteEvent.pairRequest inviteId key.display).toPair.1
        (InviteEvent.pairRequest inviteId key.display).toPair.2 =
      match if yes then some true else answer with
      | none => ⟨shownFor key, none, .error .noPrompt⟩
      | some accept => ⟨shownFor key, some ⟨inviteId, accept⟩, .ok { c with decided := true }⟩ := by
  have hnode : Value.getStr "node_id" (InviteEvent.pairRequest inviteId key.display).toPair.2 =
      some key.display := rfl
  have hid : Value.getStr "invite_id" (InviteEvent.pairRequest inviteId key.display).toPair.2 =
      some inviteId := rfl
  have hname : (InviteEvent.pairRequest inviteId key.display).toPair.1 = "pair_request" := rfl
  rw [hname, InviteCmd.onEvent, if_neg (by decide), if_pos rfl, InviteCmd.onPairRequest, hnode,
    Option.getD_some, groupedNodeId_display, hid]
  rfl

/-- **The body of the loop on a reply of the daemon.**  A `pair_request` is shown and answered, with
    the invite it names, or there is no terminal to ask on; nothing else sends a decision, and
    nothing panics. -/
theorem onReply_spec {inviteId : String} {r : IpcReply}
    (hown : ∀ id e, r = .event id e → id = 1 ∧ OwnEvent inviteId e) (yes : Bool)
    (answer : Option Bool) (c : InviteCmd) :
    (promptsIn [r] = [] ∧ (c.onReply yes answer r.toLine).sent = none ∧
      ∀ e, (c.onReply yes answer r.toLine).next = .error e → e ≠ .panicked) ∨
    (∃ key : PublicKey, promptsIn [r] = [key.display] ∧
      (((c.onReply yes answer r.toLine).sent = none ∧
        (c.onReply yes answer r.toLine).next = .error .noPrompt) ∨
      ∃ accept, (if yes then some true else answer) = some accept ∧
        (c.onReply yes answer r.toLine).sent = some ⟨inviteId, accept⟩ ∧
        (c.onReply yes answer r.toLine).shown = shownFor key ∧
        ∃ c', (c.onReply yes answer r.toLine).next = .ok c')) := by
  cases r with
  | result id v =>
    refine .inl ⟨rfl, ?_⟩
    unfold InviteCmd.onReply IpcReply.toLine
    by_cases hid : id ≠ 1 ∧ id ≠ 2
    · simp [hid]
    · by_cases hone : id = 1
      · simp only [hone, ne_eq, not_true_eq_false, false_and, if_false, true_and]
        rintro e he
        cases he
        exact onResult_ne_panicked v
      · simp [hone]
  | error id code message =>
    refine .inl ⟨rfl, ?_⟩
    unfold InviteCmd.onReply IpcReply.toLine
    by_cases hid : id ≠ 1 ∧ id ≠ 2
    · simp [hid]
    · simp only [hid, if_false, true_and]
      rintro e he
      cases he
      simp
  | event id e =>
    obtain ⟨rfl, he⟩ := hown id e rfl
    rw [onReply_event]
    cases e with
    | code id code name ttlSecs =>
      refine .inl ⟨rfl, ?_⟩
      simp [InviteCmd.onEvent, InviteEvent.toPair]
    | pairRequest id nodeId =>
      obtain ⟨rfl, key, rfl⟩ := he id nodeId rfl
      refine .inr ⟨key, rfl, ?_⟩
      rw [onEvent_pairRequest]
      cases hanswer : if yes then some true else answer with
      | none => exact .inl ⟨rfl, rfl⟩
      | some accept => exact .inr ⟨accept, rfl, rfl, rfl, _, rfl⟩
    | expired =>
      refine .inl ⟨rfl, ?_⟩
      simp only [InviteCmd.onEvent, InviteEvent.toPair, String.reduceEq, if_false, true_and]
      split <;> simp

/-! ### The invariant -/

/-- The invite of the run, once it is created. -/
def InviteRun.invite (s : InviteRun Text) : Option (InviteCfg × Invite Text) :=
  s.session.tasks[0]?.bind (·.invite)

/-- The requests on the connection are those of the command, in the order it sent them: the first is
    `peer.invite`, the others decide. -/
structure LinesInv (s : InviteRun Text) : Prop where
  first : ∃ name ttl, s.lines[0]? = some (AdminRequest.toRequest 1 (.invite name ttl))
  others : ∀ (k : ℕ) (r : IpcRequest), s.lines[k + 1]? = some r →
    ∃ inviteId accept, r = AdminRequest.toRequest 2 (.decide inviteId accept)
  delivered : s.delivered = s.session.tasks.length
  tasks : ∀ (k : ℕ) (t : IpcTask Text), s.session.tasks[k]? = some t →
    s.lines[k]? = some t.request
  alone : ∀ (k : ℕ) (t : IpcTask Text), s.session.tasks[k + 1]? = some t → t.invite = none

/-- The events on the connection are those of the invite, all with the id 1. -/
structure EventsInv (s : InviteRun Text) : Prop where
  ids : ∀ id e, .event id e ∈ s.session.sent → id = 1
  events : eventsOf s.session.sent = (s.invite.map (·.2.shared.events)).getD []
  own : ∀ cfg inv, s.invite = some (cfg, inv) → ∀ e ∈ inv.shared.events, OwnEvent cfg.inviteId e
  written : s.session.written ≤ s.session.sent.length

/-- The invariant of the command at work. -/
structure CmdInv (T : Toml PersistedState Text) (s : InviteRun Text) : Prop where
  lines : LinesInv s
  events : EventsInv s
  read : s.read ≤ s.session.written
  /-- Every prompt that was read was answered, as long as the command runs. -/
  asked : ∀ c, s.cmd = .ok c →
    (promptsIn (s.session.sent.take s.read)).length = s.answered.length
  calm : ∀ e, s.cmd = .error e → e ≠ .panicked
  invite : ∀ cfg inv, s.invite = some (cfg, inv) →
    Reach (Invite.system T cfg) InOrderAdmin inv ∧ inv.requested = s.answered.length ∧
      Justified (s.answered.map Prod.snd) inv ∧
      ∀ (k : ℕ) (a : List String × Bool), s.answered[k]? = some a →
        ∃ key : PublicKey, inv.shared.prompts[k]? = some key.display ∧ a.1 = shownFor key
  early : s.invite = none → s.answered = []

section Session

variable {T : Toml PersistedState Text} {paramsError : Value → String} {s : InviteRun Text}
  {session' : IpcSession Text} {a : IpcAct Text}

theorem LinesInv.parse (h : LinesInv s) {k : ℕ} {t : IpcTask Text}
    (ht : s.session.tasks[k]? = some t) :
    Method.parse t.request.method = some .peerInvite → k = 0 := by
  intro hparse
  cases k with
  | zero => rfl
  | succ k =>
    obtain ⟨inviteId, accept, hr⟩ := h.others k _ (h.tasks _ t ht)
    rw [hr] at hparse
    have hdecide : Method.parse (AdminRequest.toRequest 2 (.decide inviteId accept)).method =
        some .peerInviteDecide :=
      AdminRequest.parse_method (.decide inviteId accept)
    rw [hdecide] at hparse
    exact absurd hparse (by simp)

theorem LinesInv.id_first (h : LinesInv s) {t : IpcTask Text}
    (ht : s.session.tasks[0]? = some t) : t.request.id = 1 := by
  obtain ⟨name, ttl, hfirst⟩ := h.first
  have hreq := h.tasks 0 t ht
  rw [hfirst] at hreq
  rw [← Option.some.inj hreq]
  rfl

/-- A task that moves keeps its request, and brings in no invite but at the first request. -/
theorem LinesInv.advance (h : LinesInv s) {k : ℕ} {t t' : IpcTask Text} {new : List IpcReply}
    (ht : s.session.tasks[k]? = some t) (hreq : t'.request = t.request)
    (hinv : k ≠ 0 → t'.invite = none) :
    LinesInv { s with session := s.session.advance k t' new } := by
  have hget : ∀ (j : ℕ) (u : IpcTask Text), (s.session.tasks.set k t')[j]? = some u →
      (j = k ∧ u = t') ∨ s.session.tasks[j]? = some u := by
    intro j u hu
    rw [List.getElem?_set] at hu
    split at hu
    · rename_i hk
      split at hu
      · exact .inl ⟨hk.symm, (Option.some.inj hu).symm⟩
      · exact absurd hu (by simp)
    · exact .inr hu
  refine ⟨h.first, h.others, ?_, fun j u hu => ?_, fun j u hu => ?_⟩
  · show s.delivered = (s.session.tasks.set k t').length
    rw [List.length_set]
    exact h.delivered
  · rcases hget j u hu with ⟨rfl, rfl⟩ | hold
    · rw [hreq]
      exact h.tasks _ t ht
    · exact h.tasks j u hold
  · rcases hget _ u hu with ⟨rfl, rfl⟩ | hold
    · exact hinv (by simp)
    · exact h.alone j u hold

theorem create_none {k : ℕ} {cfg : InviteCfg} {state : State Text} {clock : ℕ}
    {session : IpcSession Text}
    (h : session.next T paramsError (.create k cfg state clock) = some session') :
    ∃ t, session.tasks[k]? = some t ∧ t.invite = none := by
  obtain ⟨t, ht, hrest⟩ := Option.bind_eq_some_iff.mp h
  split at hrest
  · rename_i hok
    exact ⟨t, ht, Option.isNone_iff_eq_none.mp hok.2.1⟩
  · exact absurd hrest (by simp)

theorem invite_advance_zero {t t' : IpcTask Text} {new : List IpcReply}
    (ht : s.session.tasks[0]? = some t) :
    InviteRun.invite { s with session := s.session.advance 0 t' new } = t'.invite := by
  show (s.session.tasks.set 0 t')[0]?.bind (·.invite) = t'.invite
  rw [List.getElem?_set_self (List.getElem?_eq_some_iff.mp ht).1]
  rfl

theorem invite_of_task {t : IpcTask Text} (ht : s.session.tasks[0]? = some t) :
    s.invite = t.invite := by
  rw [InviteRun.invite, ht]
  rfl

/-- A move that sends a terminal reply, or nothing, and leaves the invite alone. -/
theorem CmdInv.quiet (h : CmdInv T s) {session : IpcSession Text} {new : List IpcReply}
    (hlines : LinesInv { s with session := session }) (hsent : session.sent = s.session.sent ++ new)
    (hnew : ∀ id e, .event id e ∉ new)
    (hinv : InviteRun.invite { s with session := session } = s.invite)
    (hwritten : s.session.written ≤ session.written) (hbound : session.written ≤ session.sent.length) :
    CmdInv T { s with session := session } := by
  have hnone : eventsOf new = [] := by
    refine List.filterMap_eq_nil_iff.mpr (fun r hr => ?_)
    cases r with
    | event id e => exact absurd hr (hnew id e)
    | _ => rfl
  have hread : s.read ≤ s.session.sent.length := Nat.le_trans h.read h.events.written
  have htake : session.sent.take s.read = s.session.sent.take s.read := by
    rw [hsent, List.take_append_of_le_length hread]
  refine ⟨hlines, ⟨fun id e he => ?_, ?_, ?_, hbound⟩, Nat.le_trans h.read hwritten, ?_, h.calm,
    ?_, ?_⟩
  · rw [hsent] at he
    rcases List.mem_append.mp he with hold | hbad
    · exact h.events.ids id e hold
    · exact absurd hbad (hnew id e)
  · show eventsOf session.sent = _
    rw [hinv, hsent, eventsOf_append, hnone, List.append_nil]
    exact h.events.events
  · rw [hinv]
    exact h.events.own
  · show ∀ c, s.cmd = .ok c → (promptsIn (session.sent.take s.read)).length = s.answered.length
    rw [htake]
    exact h.asked
  · rw [hinv]
    exact h.invite
  · rw [hinv]
    exact h.early

/-- A step of the invite, its events put on the channel. -/
theorem CmdInv.inviteStep (h : CmdInv T s) {t : IpcTask Text} {cfg : InviteCfg}
    {inv inv' : Invite Text} {b : InviteAct Text} (ht : s.session.tasks[0]? = some t)
    (hinv : t.invite = some (cfg, inv)) (hn : inv.next T cfg b = some inv')
    (hb : ∀ d, b ≠ .request d) :
    CmdInv T { s with
      session := s.session.advance 0 { t with invite := some (cfg, inv') }
        ((inv'.shared.events.drop inv.shared.events.length).map (.event t.request.id)) } := by
  have hown : s.invite = some (cfg, inv) := (invite_of_task ht).trans hinv
  obtain ⟨hreach, hrequested, hjust, hshown⟩ := h.invite cfg inv hown
  obtain ⟨new, hnew, hnewOwn⟩ := next_ownEvents hn
  have hid := h.lines.id_first ht
  have hread : s.read ≤ s.session.sent.length := Nat.le_trans h.read h.events.written
  have hin : InOrderAdmin inv b := by
    cases b with
    | request d => exact absurd rfl (hb d)
    | _ => trivial
  have hprompts : inv.shared.prompts <+: inv'.shared.prompts := by
    rw [InviteShared.prompts, InviteShared.prompts, hnew, List.filterMap_append]
    exact List.prefix_append _ _
  rw [hnew, List.drop_left, hid]
  refine ⟨h.lines.advance ht rfl (fun hk => absurd rfl hk), ⟨fun id e he => ?_, ?_, ?_, ?_⟩, h.read,
    ?_, h.calm, ?_, ?_⟩
  · rcases List.mem_append.mp he with hold | hbad
    · exact h.events.ids id e hold
    · obtain ⟨e', -, heq⟩ := List.mem_map.mp hbad
      cases heq
      rfl
  · rw [invite_advance_zero ht]
    show eventsOf (s.session.sent ++ new.map (.event 1)) = inv'.shared.events
    rw [eventsOf_append, eventsOf_events, hnew, h.events.events, hown]
    rfl
  · rw [invite_advance_zero ht]
    intro cfg' inv₁ heq e he
    cases heq
    rw [hnew] at he
    rcases List.mem_append.mp he with hold | hnewMem
    · exact h.events.own _ _ hown e hold
    · exact hnewOwn e hnewMem
  · show s.session.written ≤ (s.session.sent ++ _).length
    rw [List.length_append]
    have hwritten := h.events.written
    omega
  · show ∀ c, s.cmd = .ok c →
      (promptsIn ((s.session.sent ++ _).take s.read)).length = s.answered.length
    rw [List.take_append_of_le_length hread]
    exact h.asked
  · rw [invite_advance_zero ht]
    intro cfg' inv₁ heq
    cases heq
    refine ⟨.step hreach hin hn, (requested_eq hn hb).trans hrequested, hjust.next hn hb, ?_⟩
    intro k a ha
    obtain ⟨key, hkey, hshow⟩ := hshown k a ha
    exact ⟨key, getElem?_of_prefix hprompts hkey, hshow⟩
  · rw [invite_advance_zero ht]
    intro hnone
    exact absurd hnone (by simp)

/-- The invite is created, for a request that has none. -/
theorem CmdInv.create (h : CmdInv T s) {t : IpcTask Text} {cfg : InviteCfg} {state : State Text}
    {clock : ℕ} (ht : s.session.tasks[0]? = some t) (hnone : t.invite = none) :
    CmdInv T { s with
      session := s.session.advance 0 { t with invite := some (cfg, .start state clock) } [] } := by
  have hearly : s.invite = none := (invite_of_task ht).trans hnone
  have hnew := @invite_advance_zero _ s t { t with invite := some (cfg, .start state clock) } [] ht
  have hsent : (s.session.advance 0 { t with invite := some (cfg, .start state clock) } []).sent =
      s.session.sent := List.append_nil _
  refine ⟨h.lines.advance ht rfl (fun hk => absurd rfl hk), ⟨?_, ?_, ?_, ?_⟩, h.read, ?_, h.calm,
    ?_, ?_⟩
  · rw [hsent]
    exact h.events.ids
  · rw [hnew, hsent, h.events.events, hearly]
    rfl
  · rw [hnew]
    intro cfg' inv heq e he
    cases heq
    exact absurd he (by simp [Invite.start])
  · rw [hsent]
    exact h.events.written
  · rw [hsent]
    exact h.asked
  · rw [hnew]
    intro cfg' inv heq
    cases heq
    have hlen : s.answered = [] := h.early hearly
    refine ⟨.init ⟨state, clock, rfl⟩, ?_, justified_start state clock, ?_⟩
    · show 0 = s.answered.length
      rw [hlen]
      rfl
    · intro k a ha
      have ha : s.answered[k]? = some a := ha
      rw [hlen] at ha
      exact absurd ha (by simp)
  · rw [hnew]
    intro hbad
    exact absurd hbad (by simp)

theorem invite_advance {k : ℕ} {t t' : IpcTask Text} {new : List IpcReply}
    (ht : s.session.tasks[k]? = some t) (hsame : t'.invite = t.invite) :
    InviteRun.invite { s with session := s.session.advance k t' new } = s.invite := by
  cases k with
  | zero => rw [invite_advance_zero ht, hsame, invite_of_task ht]
  | succ k =>
    show (s.session.tasks.set (k + 1) t')[0]?.bind (·.invite) = _
    rw [List.getElem?_set_ne (by simp)]
    rfl

/-- A task ends with its reply. -/
theorem CmdInv.reply (h : CmdInv T s) {k : ℕ} {t t' : IpcTask Text}
    {r : Except DispatchError Value} (ht : s.session.tasks[k]? = some t)
    (hreq : t'.request = t.request) (hsame : t'.invite = t.invite) :
    CmdInv T { s with session := s.session.advance k t' [.terminal t.request.id r] } := by
  have hwritten := h.events.written
  refine h.quiet (h.lines.advance ht hreq (fun hk => ?_)) rfl ?_ (invite_advance ht hsame)
    (Nat.le_refl _) ?_
  · obtain ⟨j, rfl⟩ := Nat.exists_eq_succ_of_ne_zero hk
    rw [hsame]
    exact h.lines.alone j t ht
  · intro id e he
    have hevent := congrArg IpcReply.isEvent (List.mem_singleton.mp he)
    rw [IpcReply.terminal_isEvent] at hevent
    exact absurd hevent (by simp [IpcReply.isEvent])
  · show s.session.written ≤ (s.session.sent ++ _).length
    rw [List.length_append]
    omega

/-- What the daemon does by itself. -/
theorem CmdInv.daemon (h : CmdInv T s) (hown : ownStep a = true)
    (hn : s.session.next T paramsError a = some session') :
    CmdInv T { s with session := session' } := by
  obtain ⟨l, rfl, -, -⟩ | ⟨rfl, rfl⟩ | ⟨k, t, t', new, ht, hmove, rfl⟩ |
    ⟨ok, rfl, hlt, rfl⟩ := ipcSession_step hn
  · exact absurd hown (by simp [ownStep])
  · refine h.quiet ⟨h.lines.first, h.lines.others, h.lines.delivered, h.lines.tasks, h.lines.alone⟩
      (List.append_nil _).symm (by simp) rfl (Nat.le_refl _) h.events.written
  · cases hmove with
    | dispatch outcome r hrep hnone => exact h.reply ht rfl rfl
    | create cfg state clock hrep hparse =>
      obtain rfl := h.lines.parse ht hparse
      obtain ⟨t₁, ht₁, hnone⟩ := create_none hn
      rw [ht] at ht₁
      cases ht₁
      exact h.create ht hnone
    | invite cfg inv inv' b hinv hstep =>
      cases k with
      | zero =>
        refine h.inviteStep ht hinv hstep (fun d hd => ?_)
        subst hd
        exact absurd hown (by simp [ownStep])
      | succ k =>
        rw [h.lines.alone k t ht] at hinv
        exact absurd hinv (by simp)
    | reply cfg inv r hrep hinv hr => exact h.reply ht rfl rfl
  · have hlines : ∀ session : IpcSession Text, session.tasks = s.session.tasks →
        LinesInv { s with session := session } := by
      intro session htasks
      refine ⟨h.lines.first, h.lines.others, ?_, ?_, ?_⟩
      · show s.delivered = session.tasks.length
        rw [htasks]
        exact h.lines.delivered
      · show ∀ (k : ℕ) (t : IpcTask Text), session.tasks[k]? = some t → s.lines[k]? = some t.request
        rw [htasks]
        exact h.lines.tasks
      · show ∀ (k : ℕ) (t : IpcTask Text), session.tasks[k + 1]? = some t → t.invite = none
        rw [htasks]
        exact h.lines.alone
    cases ok with
    | true =>
      exact h.quiet (hlines _ rfl) (List.append_nil _).symm (by simp) rfl (Nat.le_succ _) hlt
    | false =>
      exact h.quiet (hlines _ rfl) (List.append_nil _).symm (by simp) rfl (Nat.le_refl _)
        h.events.written

/-- The daemon reads the next line of the command. -/
theorem CmdInv.deliver (h : CmdInv T s) {r : IpcRequest} (hr : s.lines[s.delivered]? = some r)
    (hn : s.session.next T paramsError (.line (.request r)) = some session') :
    CmdInv T { s with session := session', delivered := s.delivered + 1 } := by
  have hsession : session' =
      { s.session with tasks := s.session.tasks ++ [⟨r, none, false⟩] } := by
    obtain ⟨l, hl, -, heq⟩ | ⟨hbad, -⟩ | ⟨_, _, _, _, _, hmove, -⟩ | ⟨_, hbad, -⟩ :=
      ipcSession_step hn
    · cases hl
      exact heq
    · exact absurd hbad (by simp)
    · cases hmove
    · exact absurd hbad (by simp)
  subst hsession
  have hget : ∀ (j : ℕ) (u : IpcTask Text),
      (s.session.tasks ++ [⟨r, none, false⟩])[j]? = some u →
      s.session.tasks[j]? = some u ∨ j = s.session.tasks.length ∧ u = ⟨r, none, false⟩ :=
    fun j u hu => getElem?_concat_cases hu
  have hinv : InviteRun.invite { s with
      session := { s.session with tasks := s.session.tasks ++ [⟨r, none, false⟩] }
      delivered := s.delivered + 1 } = s.invite := by
    show (s.session.tasks ++ [⟨r, none, false⟩])[0]?.bind (·.invite) =
      s.session.tasks[0]?.bind (·.invite)
    cases s.session.tasks <;> rfl
  refine ⟨⟨h.lines.first, h.lines.others, ?_, fun j u hu => ?_, fun j u hu => ?_⟩,
    ⟨h.events.ids, ?_, ?_, h.events.written⟩, h.read, h.asked, h.calm, ?_, ?_⟩
  · show s.delivered + 1 = (s.session.tasks ++ [_]).length
    rw [List.length_append, h.lines.delivered]
    rfl
  · rcases hget j u hu with hold | ⟨rfl, rfl⟩
    · exact h.lines.tasks j u hold
    · rw [← h.lines.delivered]
      exact hr
  · rcases hget _ u hu with hold | ⟨-, rfl⟩
    · exact h.lines.alone j u hold
    · rfl
  · rw [hinv]
    exact h.events.events
  · rw [hinv]
    exact h.events.own
  · rw [hinv]
    exact h.invite
  · rw [hinv]
    exact h.early

end Session

/-! ### The command reads a reply -/

section Reply

variable {T : Toml PersistedState Text} {paramsError : Value → String} {s : InviteRun Text}

theorem promptsIn_append (rs rs' : List IpcReply) :
    promptsIn (rs ++ rs') = promptsIn rs ++ promptsIn rs' := List.filterMap_append

/-- The prompts of the invite are those among the replies. -/
theorem EventsInv.prompts (h : EventsInv s) {cfg : InviteCfg} {inv : Invite Text}
    (hinv : s.invite = some (cfg, inv)) : promptsIn s.session.sent = inv.shared.prompts := by
  rw [promptsIn_eq, h.events, hinv]
  rfl

/-- The events among the replies are those of the invite, if there is one. -/
theorem EventsInv.of_mem (h : EventsInv s) {id : ℕ} {e : InviteEvent}
    (hmem : .event id e ∈ s.session.sent) :
    id = 1 ∧ ∃ cfg inv, s.invite = some (cfg, inv) ∧ OwnEvent cfg.inviteId e := by
  have he : e ∈ eventsOf s.session.sent := List.mem_filterMap.mpr ⟨_, hmem, rfl⟩
  rw [h.events] at he
  refine ⟨h.ids id e hmem, ?_⟩
  cases hinv : s.invite with
  | none =>
    rw [hinv] at he
    exact absurd he (by simp)
  | some i =>
    rw [hinv] at he
    exact ⟨i.1, i.2, rfl, h.own i.1 i.2 hinv e he⟩

/-- The command goes on, or ends, without sending a decision. -/
theorem CmdInv.skip (h : CmdInv T s) (hlt : s.read < s.session.written)
    {next : Except InviteEnd InviteCmd}
    (hasked : ∀ c, next = .ok c →
      (promptsIn (s.session.sent.take (s.read + 1))).length = s.answered.length)
    (hcalm : ∀ e, next = .error e → e ≠ .panicked) :
    CmdInv T { s with read := s.read + 1, cmd := next } :=
  ⟨⟨h.lines.first, h.lines.others, h.lines.delivered, h.lines.tasks, h.lines.alone⟩,
    ⟨h.events.ids, h.events.events, h.events.own, h.events.written⟩, hlt, hasked, hcalm, h.invite,
    h.early⟩

/-- The decision is the answer to the prompt just read. -/
theorem recordDecision_eq {t : IpcTask Text} {cfg : InviteCfg} {inv : Invite Text}
    (ht : s.session.tasks[0]? = some t) (hinv : t.invite = some (cfg, inv)) (accept : Bool) :
    s.recordDecision T paramsError ⟨cfg.inviteId, accept⟩ =
      s.session.advance 0 { t with invite := some (cfg, { inv with
        requested := inv.requested + 1
        requests := inv.requests ++
          [⟨accept, (promptsIn (s.session.replies.take s.read)).length⟩] }) } [] := by
  simp only [InviteRun.recordDecision, if_true, IpcSession.next, ht, Option.bind_some,
    hinv, Invite.next, Option.map_some, Option.getD_some, List.drop_length, List.map_nil]

/-- A decision is sent. -/
theorem CmdInv.decide (h : CmdInv T s) (hlt : s.read < s.session.written) {key : PublicKey}
    {cfg : InviteCfg} {inv : Invite Text} {c c' : InviteCmd} {accept : Bool} (hc : s.cmd = .ok c)
    (hinv : s.invite = some (cfg, inv))
    (hprompt : promptsIn (s.session.sent.take (s.read + 1)) =
      promptsIn (s.session.sent.take s.read) ++ [key.display]) :
    CmdInv T { s with
      session := s.recordDecision T paramsError ⟨cfg.inviteId, accept⟩
      lines := s.lines ++ [AdminRequest.toRequest 2 (.decide cfg.inviteId accept)]
      read := s.read + 1
      cmd := .ok c'
      answered := s.answered ++ [(shownFor key, accept)] } := by
  obtain ⟨t, ht, htinv⟩ := Option.bind_eq_some_iff.mp hinv
  have htake : s.session.replies.take s.read = s.session.sent.take s.read := by
    rw [IpcSession.replies, List.take_take, Nat.min_eq_left h.read]
  have hasked := h.asked c hc
  obtain ⟨hreach, hrequested, hjust, hshown⟩ := h.invite cfg inv hinv
  -- the prompt just read is the one the decision answers
  have hpre : promptsIn (s.session.sent.take s.read) ++ [key.display] <+: inv.shared.prompts := by
    rw [← h.events.prompts hinv, ← hprompt]
    exact List.IsPrefix.filterMap _ (List.take_prefix _ _)
  have hkey : inv.shared.prompts[s.answered.length]? = some key.display := by
    refine getElem?_of_prefix hpre ?_
    rw [← hasked, List.getElem?_concat_length]
  rw [recordDecision_eq ht htinv, htake, hasked]
  have hin : InOrderAdmin inv (.request ⟨accept, s.answered.length⟩) :=
    ⟨hrequested.symm, by rw [hrequested]; exact (List.getElem?_eq_some_iff.mp hkey).1⟩
  have hlines := @LinesInv.advance _ s h.lines 0 t { t with invite := some (cfg, { inv with
    requested := inv.requested + 1
    requests := inv.requests ++ [⟨accept, s.answered.length⟩] }) } [] ht rfl
    (fun hk => absurd rfl hk)
  have hnew := @invite_advance_zero _ s t { t with invite := some (cfg, { inv with
    requested := inv.requested + 1
    requests := inv.requests ++ [⟨accept, s.answered.length⟩] }) } [] ht
  have hadded : s.answered <+: s.answered ++ [(shownFor key, accept)] := List.prefix_append _ _
  refine ⟨⟨?_, fun k r hr => ?_, hlines.delivered, fun k u hu => ?_, hlines.alone⟩,
    ⟨?_, ?_, ?_, ?_⟩, hlt, ?_, by simp, ?_, ?_⟩
  · obtain ⟨name, ttl, hfirst⟩ := h.lines.first
    exact ⟨name, ttl, getElem?_of_prefix (List.prefix_append _ _) hfirst⟩
  · rcases getElem?_concat_cases hr with hold | ⟨-, rfl⟩
    · exact h.lines.others k r hold
    · exact ⟨cfg.inviteId, accept, rfl⟩
  · exact getElem?_of_prefix (List.prefix_append _ _) (hlines.tasks k u hu)
  · show ∀ id e, .event id e ∈ s.session.sent ++ [] → id = 1
    rw [List.append_nil]
    exact h.events.ids
  · show eventsOf (s.session.sent ++ []) = _
    rw [List.append_nil, h.events.events, hinv]
    show _ = (Option.map _ (InviteRun.invite { s with session := _ })).getD []
    rw [hnew]
    rfl
  · show ∀ cfg' inv', InviteRun.invite { s with session := _ } = some (cfg', inv') → _
    rw [hnew]
    intro cfg' inv' heq
    cases heq
    exact h.events.own cfg inv hinv
  · show s.session.written ≤ (s.session.sent ++ []).length
    rw [List.append_nil]
    exact h.events.written
  · intro c₁ _
    show (promptsIn ((s.session.sent ++ []).take (s.read + 1))).length = _
    rw [List.append_nil, hprompt, List.length_append, List.length_append, hasked]
    rfl
  · show ∀ cfg' inv', InviteRun.invite { s with session := _ } = some (cfg', inv') → _
    rw [hnew]
    intro cfg' inv' heq
    cases heq
    have hmono := hjust.mono (hadded.map Prod.snd)
    refine ⟨.step hreach hin rfl, ?_, ⟨fun d hd => ?_, hmono.cmds, hmono.loop, hmono.decision,
      hmono.record, hmono.adds⟩, fun k a ha => ?_⟩
    · show inv.requested + 1 = (s.answered ++ _).length
      rw [List.length_append, hrequested]
      rfl
    · rcases List.mem_append.mp hd with hold | hd
      · exact hmono.requests d hold
      · rw [List.mem_singleton.mp hd]
        show ((s.answered ++ [(shownFor key, accept)]).map Prod.snd)[s.answered.length]? = _
        rw [List.getElem?_map, List.getElem?_concat_length]
        rfl
    · rcases getElem?_concat_cases ha with hold | ⟨rfl, rfl⟩
      · exact hshown k a hold
      · exact ⟨key, hkey, rfl⟩
  · show InviteRun.invite { s with session := _ } = none → _
    rw [hnew]
    intro hbad
    exact absurd hbad (by simp)

/-- **The command reads a reply.** -/
theorem CmdInv.onReply (h : CmdInv T s) {c : InviteCmd} {r : IpcReply} (hc : s.cmd = .ok c)
    (hr : s.session.replies[s.read]? = some r) (yes : Bool) (answer : Option Bool) :
    CmdInv T (s.take T paramsError (c.onReply yes answer r.toLine)) := by
  obtain ⟨hlt, hget⟩ : s.read < s.session.written ∧ s.session.sent[s.read]? = some r := by
    rw [IpcSession.replies, List.getElem?_take] at hr
    split at hr
    · rename_i hlt
      exact ⟨hlt, hr⟩
    · exact absurd hr (by simp)
  have hmem := List.mem_of_getElem? hget
  have htake : promptsIn (s.session.sent.take (s.read + 1)) =
      promptsIn (s.session.sent.take s.read) ++ promptsIn [r] := by
    rw [List.take_add_one, hget, promptsIn_append]
    rfl
  have hown : ∀ id e, r = .event id e →
      id = 1 ∧ OwnEvent (((s.invite).map (·.1.inviteId)).getD "") e := by
    rintro id e rfl
    obtain ⟨hid, cfg, inv, hinv, hown⟩ := h.events.of_mem hmem
    rw [hinv]
    exact ⟨hid, hown⟩
  rcases onReply_spec hown yes answer c with ⟨hnone, hsent, hcalm⟩ |
    ⟨key, hkey, ⟨hsent, hnext⟩ | ⟨accept, -, hsent, hshown, c', hnext⟩⟩
  · -- nothing to answer
    rw [InviteRun.take, hsent]
    refine h.skip hlt (fun c₁ _ => ?_) hcalm
    rw [htake, hnone, List.append_nil]
    exact h.asked c hc
  · rw [InviteRun.take, hsent]
    refine h.skip hlt (fun c₁ hc₁ => ?_) (fun e he => ?_)
    · rw [hnext] at hc₁
      exact absurd hc₁ (by simp)
    · rw [hnext] at he
      cases he
      simp
  · -- a prompt, answered
    have hinv : ∃ cfg inv, s.invite = some (cfg, inv) := by
      cases r with
      | event id e =>
        obtain ⟨-, cfg, inv, hinv, -⟩ := h.events.of_mem hmem
        exact ⟨cfg, inv, hinv⟩
      | result id v => exact absurd hkey (by simp [promptsIn])
      | error id code message => exact absurd hkey (by simp [promptsIn])
    obtain ⟨cfg, inv, hinv⟩ := hinv
    rw [hinv] at hsent
    rw [InviteRun.take, hsent]
    simp only [hshown, hnext]
    exact h.decide hlt hc hinv (by rw [htake, hkey])

end Reply

/-! ### Every run -/

section Run

variable {T : Toml PersistedState Text} {paramsError : Value → String} {yes : Bool}
  {s s' : InviteRun Text}

/-- The command ends between two replies. -/
theorem CmdInv.stop (h : CmdInv T s) {read : ℕ} (hread : read ≤ s.session.written) {e : InviteEnd}
    (he : e ≠ .panicked) : CmdInv T { s with read := read, cmd := .error e } := by
  refine ⟨⟨h.lines.first, h.lines.others, h.lines.delivered, h.lines.tasks, h.lines.alone⟩,
    ⟨h.events.ids, h.events.events, h.events.own, h.events.written⟩, hread,
    fun c hc => absurd hc (by simp), fun e' he' => ?_, h.invite, h.early⟩
  cases he'
  exact he

theorem read_lt {r : IpcReply} (hr : s.session.replies[s.read]? = some r) :
    s.read < s.session.written := by
  have hlt := (List.getElem?_eq_some_iff.mp hr).1
  rw [IpcSession.replies, List.length_take] at hlt
  omega

/-- A step of the command or of the daemon. -/
theorem CmdInv.next (h : CmdInv T s) {a : InviteRunAct Text}
    (hn : s.next T paramsError yes a = some s') : CmdInv T s' := by
  cases a with
  | deliver =>
    obtain ⟨r, hr, hrest⟩ := Option.bind_eq_some_iff.mp hn
    obtain ⟨session, hsession, rfl⟩ := Option.map_eq_some_iff.mp hrest
    exact h.deliver hr hsession
  | daemon a =>
    simp only [InviteRun.next] at hn
    split at hn
    · rename_i hown
      obtain ⟨session, hsession, rfl⟩ := Option.map_eq_some_iff.mp hn
      exact h.daemon hown hsession
    · exact absurd hn (by simp)
  | reply answer =>
    simp only [InviteRun.next] at hn
    split at hn
    · rename_i c r hc hr
      cases hn
      exact h.onReply hc hr yes answer
    · exact absurd hn (by simp)
  | replyUnsent answer =>
    simp only [InviteRun.next] at hn
    split at hn
    · rename_i c r hc hr
      split at hn
      · cases hn
        exact h.stop (read_lt hr) (by simp)
      · exact absurd hn (by simp)
    · exact absurd hn (by simp)
  | closed =>
    simp only [InviteRun.next] at hn
    split at hn
    · cases hn
      exact h.stop h.read (by simp)
    · exact absurd hn (by simp)

theorem cmdInv_start (name : String) (ttl : Option ℕ) : CmdInv T (InviteRun.start name ttl) := by
  refine ⟨⟨⟨name, ttl, rfl⟩, ?_, rfl, ?_, ?_⟩, ⟨?_, rfl, ?_, ?_⟩, ?_, fun _ _ => rfl, ?_, ?_,
    fun _ => rfl⟩ <;> simp [InviteRun.start, IpcSession.start, InviteRun.invite]

/-- **The invariant holds in every run.** -/
theorem cmdInv {C : InviteRun Text → InviteRunAct Text → Prop}
    (h : Reach (inviteCmdSystem T paramsError yes) C s) : CmdInv T s := by
  refine h.invariant ?_ (fun _ _ _ _ hi _ hn => hi.next hn)
  rintro s ⟨name, ttl, rfl⟩
  exact cmdInv_start name ttl

end Run

/-- **`invite_cmd` is an admin that answers in order.**  Whatever the daemon's tasks, the clients
    and the person at the terminal do, the invite of the command is in a state that an in-order
    admin leads to; what was on the screen at the n-th answer is the key of the n-th prompt; and the
    command never panics. -/
theorem inviteCmd_in_order (T : Toml PersistedState Text) (paramsError : Value → String)
    (yes : Bool) {s : InviteRun Text} (h : Reach (inviteCmdSystem T paramsError yes) anyStep s) :
    (∀ e, s.cmd = .error e → e ≠ .panicked) ∧
      ∀ cfg inv, s.invite = some (cfg, inv) → Reach (Invite.system T cfg) InOrderAdmin inv ∧
        inv.requested = s.answered.length ∧
        ∀ (k : ℕ) (a : List String × Bool), s.answered[k]? = some a →
          ∃ key : PublicKey, inv.shared.prompts[k]? = some key.display ∧ a.1 = shownFor key := by
  have hinv := cmdInv h
  refine ⟨hinv.calm, fun cfg inv hi => ?_⟩
  obtain ⟨hreach, hrequested, -, hshown⟩ := hinv.invite cfg inv hi
  exact ⟨hreach, hrequested, hshown⟩

/-- Steps of the invite of the command. -/
def inviteSteps (acts : List (InviteAct PersistedState)) : List (InviteRunAct PersistedState) :=
  acts.map fun a => .daemon (.invite 0 a)

/-- The command invites a laptop, shows its key and sends the yes typed at the terminal, and the
    invite records it. -/
def laptopCmdRun : List (InviteRunAct PersistedState) :=
  [.deliver, .daemon (.create 0 laptopInvite .fresh 0)] ++
    inviteSteps (.loop (.build true) :: takeConn vectorKey0 ++ reachPrompt 0) ++
    [.daemon (.write true), .reply none, .daemon (.write true), .reply (some true), .deliver] ++
    inviteSteps ([.dispatch 0, .loop .go, .loop .go, .loop .go, .loop .go] ++ recordAndConfirm 0)

/-- The answer of `laptopCmdRun` was to the key on the screen. -/
theorem inviteCmd_in_order_laptop : ∃ (s : InviteRun PersistedState) (cfg : InviteCfg)
    (inv : Invite PersistedState) (key : PublicKey),
      Reach (inviteCmdSystem (.self PersistedState) (fun _ => "") false) anyStep s ∧
      s.invite = some (cfg, inv) ∧ s.answered.length = 1 ∧ Reach (Invite.system (.self PersistedState) cfg) InOrderAdmin inv ∧
      inv.shared.prompts[0]? = some key.display := by
  have hrun : (exec (inviteCmdSystem (.self PersistedState) (fun _ => "") false) (fun _ _ => true)
      (.start "laptop" none) laptopCmdRun).map (fun s => (s.invite.isSome, s.answered.length)) =
        some (true, 1) := by
    decide +kernel
  obtain ⟨s, hr, hview⟩ := reach_of_exec_map (C := anyStep) (fun _ _ _ => trivial) hrun
    (.init ⟨"laptop", none, rfl⟩)
  obtain ⟨hsome, hlen⟩ := Prod.mk.inj hview
  obtain ⟨⟨cfg, inv⟩, hinv⟩ := Option.isSome_iff_exists.mp hsome
  obtain ⟨hreach, -, hshown⟩ := (inviteCmd_in_order _ _ _ hr).2 cfg inv hinv
  obtain ⟨a, ha⟩ : ∃ a, s.answered[0]? = some a :=
    ⟨_, List.getElem?_eq_getElem (by omega)⟩
  obtain ⟨key, hkey, -⟩ := hshown 0 a ha
  exact ⟨s, cfg, inv, key, hr, hinv, hlen, hreach, hkey⟩

end Tmite.Pairing
