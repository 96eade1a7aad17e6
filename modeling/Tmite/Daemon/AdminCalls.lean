import Tmite.Lib.Linearize
import Tmite.Daemon.IpcLine

namespace Tmite.Daemon

open Tmite.Core Tmite.Proto Serde Lines Transition Linearize TaskList

/-!
# Admin commands, side by side (`ipc_call` and `peers_cmd` of `tmite/src/main.rs`, `daemon/ipc.rs`)

`tmite admin peers allow`, `revoke`, `ls` and `rm` each open a connection, send one request and read
replies until the one to it.  Many can run at once, next to the daemon's own use of the store: the
pairings and the clients that connect.  Here a command and its connection are followed byte for byte:
either stream can be cut anywhere, the command can be killed, a save can fail, and the daemon can be
restarted, which drops every connection.

* `commands_linearizable` — what the commands do and print is what they would do and print one after
  the other, in an order that keeps to the time they ran at; each takes effect at most once.
-/

universe v
variable {Text : Type v}

/-! ### The commands -/

/-- `tmite admin peers`, but for `invite`. -/
inductive PeersCmd
  | allow (peer target : String)
  | revoke (peer target : String)
  | ls
  | rm (peer : String) (force : Bool)
deriving DecidableEq, Repr

/-- The request of its `ipc_call`. -/
def PeersCmd.toAdmin : PeersCmd → AdminRequest
  | allow peer target => .allow peer target
  | revoke peer target => .revoke peer target
  | ls => .ls
  | rm peer force => .rm peer force

/-- What is printed. -/
inductive Shown
  /-- `rule added: {result}` -/
  | ruleAdded (result : Value)
  | ruleRemoved
  | noSuchRule
  /-- `{result:#}` -/
  | listing (result : Value)
  /-- `peer {peer:?} removed` -/
  | peerRemoved (peer : String)
  | noSuchPeer

/-- `result.get("removed").and_then(as_bool).unwrap_or(false)`. -/
def removedIn (result : Value) : Bool := ((Value.get "removed" result).bind asBool).getD false

/-- `peers_cmd`, from the result of `ipc_call` on. -/
def PeersCmd.print : PeersCmd → Value → Shown
  | allow _ _, result => .ruleAdded result
  | revoke _ _, result => if removedIn result then .ruleRemoved else .noSuchRule
  | ls, result => .listing result
  | rm peer _, result => if removedIn result then .peerRemoved peer else .noSuchPeer

/-! ### The daemon's side of them -/

/-- `InviteInfo`. -/
structure InviteInfo where
  inviteId : String
  name : String
deriving DecidableEq, Repr

def PeerInfo.toValue (p : Peer) : Value :=
  .obj [("last_seen", .str p.lastSeen), ("name", .str p.name), ("node_id", .str p.nodeId),
    ("paired_at", .str p.pairedAt)]

def RuleInfo.toValue (r : Rule) : Value :=
  .obj [("created_at", .str r.createdAt), ("peer", .str r.peer), ("target", .str r.target)]

def InviteInfo.toValue (i : InviteInfo) : Value :=
  .obj [("invite_id", .str i.inviteId), ("name", .str i.name)]

/-- `LsResult`. -/
def lsResult (m : PersistedState) (invites : List InviteInfo) : Value :=
  .obj [("invites", .arr (invites.map InviteInfo.toValue)),
    ("peers", .arr (m.peers.map PeerInfo.toValue)), ("rules", .arr (m.rules.map RuleInfo.toValue))]

/-- `AllowResult`. -/
def allowResult (index : ℕ) : Value := .obj [("rule_index", .int index)]

/-- `RevokeResult`, and `RmResult`, which has the same field. -/
def removedResult (removed : Bool) : Value := .obj [("removed", .bool removed)]

section Dispatch

variable (T : Toml PersistedState Text) (paramsError : Value → String)

/-- `dispatch`, for the methods of these commands: the store after it, and the result.  `invites` is
    what `InviteManager::list` returns, after the snapshot of the store. -/
def dispatchPeers (fault : Option (WriteFault Text)) (now : String) (invites : List InviteInfo)
    (s : State Text) (r : IpcRequest) : Option (State Text × Except DispatchError Value) :=
  match Method.parse r.method with
  | some .peerAllow =>
    let d := dispatchAllow T fault paramsError s r.params now
    some (d.store, d.reply.map allowResult)
  | some .peerRevoke =>
    let d := dispatchRevoke T fault paramsError s r.params
    some (d.store, d.reply.map removedResult)
  | some .peerLs => some (s, .ok (lsResult s.inner invites))
  | some .peerRm =>
    let d := dispatchRm T paramsError fault s r.params
    some (d.1, d.2.map removedResult)
  | _ => none

end Dispatch

/-- What a command is for: one operation on the store. -/
def PeersCmd.perform (T : Toml PersistedState Text) (fault : Option (WriteFault Text))
    (now : String) (invites : List InviteInfo) (s : State Text) :
    PeersCmd → State Text × Except DispatchError Value
  | allow peer target =>
    if validTarget target then
      let (s, r) := s.addRule T fault peer target now
      (s, (r.mapError .ofState).map allowResult)
    else (s, .error ⟨.badRequest, "target must be host:port"⟩)
  | revoke peer target =>
    let (s, r) := s.removeRule T fault peer target
    (s, (r.mapError .ofState).map removedResult)
  | ls => (s, .ok (lsResult s.inner invites))
  | rm peer force =>
    let (s, r) := s.removePeer T fault peer force
    (s, (r.mapError .ofState).map removedResult)

/-- An operation on the store: a command's, or a call of another part of the daemon. -/
inductive AdminOp (Text : Type v)
  | command (q : PeersCmd) (now : String) (fault : Option (WriteFault Text))
    (invites : List InviteInfo)
  | call (c : Call Text)

/-- The store, serving one operation at a time.  Nobody waits for the result of a call. -/
def adminMachine (T : Toml PersistedState Text) :
    Machine (State Text) (AdminOp Text) (Except DispatchError Value) where
  step s
    | .command q now fault invites => q.perform T fault now invites s
    | .call c => ((s.call T c).1, .ok .null)

/-- The operation is the command's. -/
def PeersCmd.Asks (q : PeersCmd) : AdminOp Text → Prop
  | .command q' _ _ _ => q' = q
  | .call _ => False

/-- What a command ends with: `daemon error [{code}]: {message}`, or what it prints. -/
def PeersCmd.view (q : PeersCmd) (r : Except DispatchError Value) : Except DispatchError Shown :=
  r.map q.print

/-! ### A command and its connection -/

/-- Where a command is. -/
inductive CommandPc
  | sending
  | waiting
  /-- The result, or the daemon's error. -/
  | answered (r : Except DispatchError Value)
  /-- Any other error. -/
  | failed (e : String)
  | killed

/-- Its end of the connection is closed. -/
def CommandPc.ended : CommandPc → Bool
  | sending => false
  | waiting => false
  | _ => true

structure AdminCall (Text : Type v) where
  command : PeersCmd
  pc : CommandPc
  /-- Written by the command, not yet read by the daemon. -/
  input : List UInt8
  session : IpcSession Text
  /-- The results of the tasks that have been to the store. -/
  performed : List (ℕ × Except DispatchError Value)
  /-- Written by the daemon, not yet read by the command. -/
  output : List UInt8
  outputEnd : Bool

namespace AdminCall

def begin (q : PeersCmd) : AdminCall Text := ⟨q, .sending, [], .start, [], [], false⟩

def request (c : AdminCall Text) : IpcRequest := c.command.toAdmin.toRequest 1

/-- What `IpcConn::send` writes. -/
def line (c : AdminCall Text) : List UInt8 := toStr c.request.toValue ++ [10]

/-- The daemon is gone. -/
def drop (c : AdminCall Text) : AdminCall Text :=
  { c with
    session := { c.session with reading := false, tasks := [], writing := false }
    performed := []
    outputEnd := true }

variable (S : SerdeJson)

/-- What `handle_conn` gets from `next_line`, and what is left. -/
def heard (c : AdminCall Text) : IpcAct Text × List UInt8 :=
  match c.input with
  | [] => (.eof, [])
  | _ =>
    let (l, rest) := splitLine 10 c.input
    match readInput S l with
    | .ok i => (.line i, rest)
    | .error (some e) => (.line (.malformed e), rest)
    | .error none => (.eof, rest)

/-- What `ipc_call` makes of a reply; `none` when it goes on reading. -/
def ofReply (r : ReplyLine) : Option (Except DispatchError Value) :=
  if r.id ≠ 1 then none
  else
    match r.error with
    | some e => some (.error e)
    | none => r.result.map .ok

/-- A turn of the loop of `ipc_call`, and its answer if that is the last. -/
def read (c : AdminCall Text) : AdminCall Text × Option (Except DispatchError Value) :=
  match c.output with
  | [] => ({ c with pc := .failed "daemon closed the IPC connection" }, none)
  | _ =>
    let (l, rest) := splitLine 10 c.output
    match readReply S l with
    | .error e => ({ c with pc := .failed e, output := rest }, none)
    | .ok r =>
      match ofReply r with
      | none => ({ c with output := rest }, none)
      | some answer => ({ c with pc := .answered answer, output := rest }, some answer)

end AdminCall

/-! ### All of them -/

structure AdminPlane (Text : Type v) where
  store : State Text
  calls : List (AdminCall Text)
  /-- What can be seen of the commands: when each was started, and what it ended with. -/
  history : List (Event PeersCmd (Except DispatchError Shown))
  /-- The operations on the store, in the order they got its lock. -/
  log : List (Served (AdminOp Text))

/-- A step of a command, or of its connection in the daemon. -/
inductive CallAct (Text : Type v)
  /-- The command gets to write `n` bytes of its line; it fails if that is not all. -/
  | send (n : ℕ)
  | kill
  /-- `handle_conn` reads a line, or the end of its input. -/
  | receive
  /-- Task `j` works on the store. -/
  | perform (j : ℕ) (now : String) (fault : Option (WriteFault Text)) (invites : List InviteInfo)
  /-- It sends its reply to the writer. -/
  | reply (j : ℕ)
  /-- The writer gets to write `n` bytes of the next reply. -/
  | write (n : ℕ)
  /-- The connection is closed, with its reader, its tasks and its writer done. -/
  | hangUp
  /-- `ipc_call` reads a reply, or the end of the connection. -/
  | read

inductive AdminAct (Text : Type v)
  | start (q : PeersCmd)
  /-- Command `k` or its connection takes a step. -/
  | command (k : ℕ) (a : CallAct Text)
  /-- Another part of the daemon calls the store. -/
  | other (c : Call Text)
  | restart

namespace AdminPlane

def start (store : State Text) : AdminPlane Text := ⟨store, [], [], []⟩

def setCall (p : AdminPlane Text) (k : ℕ) (c : AdminCall Text) : AdminPlane Text :=
  { p with calls := p.calls.set k c }

variable (T : Toml PersistedState Text) (paramsError : Value → String) (S : SerdeJson)

/-- A step of command `k` or of its connection, where it is enabled. -/
def callNext (p : AdminPlane Text) (k : ℕ) (c : AdminCall Text) :
    CallAct Text → Option (AdminPlane Text)
  | .send n =>
    match c.pc with
    | .sending =>
      some (p.setCall k { c with
        input := c.line.take n
        pc := if c.line.length ≤ n then .waiting else .failed "Broken pipe" })
    | _ => none
  | .kill => if c.pc.ended then none else some (p.setCall k { c with pc := .killed })
  | .receive =>
    if 10 ∈ c.input ∨ c.pc.ended then
      (c.session.next T paramsError (c.heard S).1).map fun session =>
        p.setCall k { c with session := session, input := (c.heard S).2 }
    else none
  | .perform j now fault invites =>
    c.session.tasks[j]?.bind fun t =>
      if (c.performed.lookup j).isSome then none
      else
        (dispatchPeers T paramsError fault now invites p.store t.request).map fun (store, r) =>
          { p with
            store := store
            calls := p.calls.set k { c with performed := (j, r) :: c.performed }
            log := p.log ++ [⟨some k, .command c.command now fault invites⟩] }
  | .reply j =>
    (c.performed.lookup j).bind fun r =>
      (c.session.next T paramsError (.dispatch j r)).map fun session =>
        p.setCall k { c with session := session }
  | .write n =>
    c.session.sent[c.session.written]?.bind fun r =>
      let line := toStr r.toLine.toValue ++ [10]
      (c.session.next T paramsError (.write (decide (line.length ≤ n)))).map fun session =>
        p.setCall k { c with
          session := session
          output := c.output ++ line.take n
          outputEnd := c.outputEnd || decide (n < line.length) }
  | .hangUp =>
    if !c.session.reading && c.session.tasks.all (fun t => t.replied) &&
        decide (c.session.sent.length ≤ c.session.written) then
      some (p.setCall k { c with outputEnd := true })
    else none
  | .read =>
    match c.pc with
    | .waiting =>
      if 10 ∈ c.output ∨ c.outputEnd = true then
        some { p with
          calls := p.calls.set k (c.read S).1
          history := p.history ++
            ((c.read S).2.map fun answer => .respond k (c.command.view answer)).toList }
      else none
    | _ => none

/-- A step, where it is enabled. -/
def next (p : AdminPlane Text) : AdminAct Text → Option (AdminPlane Text)
  | .start q =>
    some { p with
      calls := p.calls ++ [.begin q]
      history := p.history ++ [.invoke p.calls.length q] }
  | .command k a => p.calls[k]?.bind fun c => p.callNext T paramsError S k c a
  | .other c =>
    if c.op = .restart then none
    else some { p with
      store := (p.store.call T c).1
      log := p.log ++ [⟨none, .call c⟩] }
  | .restart =>
    some { p with
      store := (p.store.call T ⟨.restart, none⟩).1
      calls := p.calls.map .drop
      log := p.log ++ [⟨none, .call ⟨.restart, none⟩⟩] }

/-- The commands and the daemon, from a store on. -/
def system (store : State Text) : System (AdminPlane Text) (AdminAct Text) :=
  ⟨fun p => p = .start store, next T paramsError S⟩

end AdminPlane

/-- The crate reads what is written: the requests, and the replies to them. -/
def Legible (S : SerdeJson) (p : AdminPlane Text) : AdminAct Text → Prop
  | .start q => SerdeJson.Reads S (q.toAdmin.toRequest 1).toValue
  | .command k .receive => ∀ c e, p.calls[k]? = some c → (c.heard S).1 = .line (.malformed e) →
      SerdeJson.Reads S (IpcReply.error 0 .badRequest e).toLine.toValue
  | .command k (.reply j) => ∀ c r, p.calls[k]? = some c → c.performed.lookup j = some r →
      SerdeJson.Reads S (IpcReply.terminal 1 r).toLine.toValue
  | _ => True

/-! ### What the daemon makes of a command -/

section Results

variable (T : Toml PersistedState Text) (paramsError : Value → String)

/-- The daemon does what the command is for. -/
theorem dispatchPeers_eq (fault : Option (WriteFault Text)) (now : String)
    (invites : List InviteInfo) (s : State Text) (q : PeersCmd) :
    dispatchPeers T paramsError fault now invites s (q.toAdmin.toRequest 1) =
      some (q.perform T fault now invites s) := by
  cases q with
  | allow peer target =>
    have hparams : AllowParams.fromValue (AdminRequest.allow peer target).params =
        some ⟨peer, target⟩ := by
      simp [AdminRequest.params, AllowParams.fromValue, Value.structFields_two]
    have hmethod : Method.parse (AdminRequest.allow peer target).method = some .peerAllow := rfl
    simp only [dispatchPeers, PeersCmd.toAdmin, AdminRequest.toRequest, hmethod, dispatchAllow,
      hparams, PeersCmd.perform]
    cases hvalid : validTarget target with
    | false => rfl
    | true =>
      simp only [Bool.not_true, Bool.false_eq_true, if_false, if_true]
      cases hadd : s.addRule T fault peer target now with
      | mk s' r => cases r <;> rfl
  | revoke peer target =>
    have hparams : AllowParams.fromValue (AdminRequest.revoke peer target).params =
        some ⟨peer, target⟩ := by
      simp [AdminRequest.params, AllowParams.fromValue, Value.structFields_two]
    have hmethod : Method.parse (AdminRequest.revoke peer target).method = some .peerRevoke := rfl
    simp only [dispatchPeers, PeersCmd.toAdmin, AdminRequest.toRequest, hmethod, dispatchRevoke,
      hparams, PeersCmd.perform]
    cases hremove : s.removeRule T fault peer target with
    | mk s' r => cases r <;> rfl
  | ls => rfl
  | rm peer force =>
    have hparams : RmParams.fromValue (AdminRequest.rm peer force).params =
        some ⟨peer, force⟩ := by
      simp [AdminRequest.params, RmParams.fromValue, Value.member, asBool]
    have hmethod : Method.parse (AdminRequest.rm peer force).method = some .peerRm := rfl
    simp only [dispatchPeers, PeersCmd.toAdmin, AdminRequest.toRequest, hmethod, dispatchRm,
      hparams, PeersCmd.perform]
    cases hremove : s.removePeer T fault peer force with
    | mk s' r => cases r <;> rfl

theorem itemsNumerals_map {α : Type*} {f : α → Value} (h : ∀ a, numerals (f a) = true)
    (l : List α) : itemsNumerals (l.map f) = true := by
  induction l with
  | nil => rfl
  | cons a l ih => simp [itemsNumerals, h a, ih]

theorem numerals_lsResult (m : PersistedState) (invites : List InviteInfo) :
    numerals (lsResult m invites) = true := by
  have hinvites := itemsNumerals_map (f := InviteInfo.toValue) (fun _ => rfl) invites
  have hpeers := itemsNumerals_map (f := PeerInfo.toValue) (fun _ => rfl) m.peers
  have hrules := itemsNumerals_map (f := RuleInfo.toValue) (fun _ => rfl) m.rules
  simp [lsResult, numerals, membersNumerals, hinvites, hpeers, hrules]

theorem plain_map {α : Type} {r : Except DispatchError α} {f : α → Value}
    (h : ∀ a, f a ≠ .null ∧ numerals (f a) = true) : (IpcReply.terminal 1 (r.map f)).Plain := by
  have hone : 1 < UInt64.size := by decide
  cases r with
  | error e => exact hone
  | ok a => exact ⟨hone, h a⟩

/-- Its result can be sent. -/
theorem PeersCmd.perform_plain (fault : Option (WriteFault Text)) (now : String)
    (invites : List InviteInfo) (s : State Text) (q : PeersCmd) :
    (IpcReply.terminal 1 (q.perform T fault now invites s).2).Plain := by
  have hone : 1 < UInt64.size := by decide
  have hremoved : ∀ b, removedResult b ≠ .null ∧ numerals (removedResult b) = true :=
    fun b => ⟨by simp [removedResult], rfl⟩
  cases q with
  | allow peer target =>
    simp only [perform]
    split
    · exact plain_map fun i => ⟨by simp [allowResult], rfl⟩
    · exact hone
  | revoke peer target => exact plain_map hremoved
  | ls => exact ⟨hone, by simp [lsResult], numerals_lsResult s.inner invites⟩
  | rm peer force => exact plain_map hremoved

end Results

/-! ### One command -/

/-- A reply to command `k`: that its line is malformed, or what its operation returned. -/
def AnswersTo (T : Toml PersistedState Text) (s₀ : State Text) (log : List (Served (AdminOp Text)))
    (k : ℕ) (r : IpcReply) : Prop :=
  (∃ e, r = .error 0 .badRequest e) ∨
    ∃ result, r = .terminal 1 result ∧ Returned (adminMachine T) s₀ log k result

/-- The invariant of a command: its connection carries one request, has one task and sends one
    reply, and the command is in the log once the task has been to the store. -/
structure CallInv (T : Toml PersistedState Text) (S : SerdeJson) (s₀ : State Text)
    (log : List (Served (AdminOp Text))) (k : ℕ) (c : AdminCall Text) : Prop where
  legible : SerdeJson.Reads S c.request.toValue
  input : c.input <+: c.line
  unsent : c.pc = .sending → c.input = [] ∧ c.session.tasks = []
  unread : c.session.tasks ≠ [] → c.input = []
  tasks : ∀ t ∈ c.session.tasks, t.request = c.request
  one_task : c.session.tasks.length ≤ 1
  unserved : c.performed = [] → c.session.reading = true ∨ c.session.tasks ≠ [] →
    some k ∉ log.map Served.caller
  performed : ∀ x ∈ c.performed, x.1 < c.session.tasks.length ∧
    Returned (adminMachine T) s₀ log k x.2 ∧ (IpcReply.terminal 1 x.2).Plain
  one_reply : c.session.sent.length ≤ 1
  replied : c.session.sent ≠ [] → (c.session.reading = true → c.session.tasks ≠ []) ∧
    ∀ t ∈ c.session.tasks, t.replied = true
  replies : ∀ r ∈ c.session.sent, AnswersTo T s₀ log k r ∧ r.toLine.Read S
  unwritten : c.session.written = 0 → c.session.writing = true → c.output = []
  output : c.output ≠ [] → ∃ r ∈ c.session.sent, c.output <+: toStr r.toLine.toValue ++ [10]

section Call

variable {T : Toml PersistedState Text} {paramsError : Value → String} {S : SerdeJson}
  {s₀ : State Text} {log : List (Served (AdminOp Text))} {k : ℕ} {c : AdminCall Text}

theorem CallInv.begin {q : PeersCmd} (hS : SerdeJson.Reads S (q.toAdmin.toRequest 1).toValue)
    (hnew : some k ∉ log.map Served.caller) : CallInv T S s₀ log k (.begin q) where
  legible := hS
  input := List.nil_prefix
  unsent := fun _ => ⟨rfl, rfl⟩
  unread := fun _ => rfl
  tasks := by simp [AdminCall.begin, IpcSession.start]
  one_task := by simp [AdminCall.begin, IpcSession.start]
  unserved := fun _ _ => hnew
  performed := by simp [AdminCall.begin]
  one_reply := by simp [AdminCall.begin, IpcSession.start]
  replied := by simp [AdminCall.begin, IpcSession.start]
  replies := by simp [AdminCall.begin, IpcSession.start]
  unwritten := fun _ _ => rfl
  output := fun h => absurd rfl h

theorem AnswersTo.concat {r : IpcReply} (h : AnswersTo T s₀ log k r) (e : Served (AdminOp Text)) :
    AnswersTo T s₀ (log ++ [e]) k r := by
  refine h.imp id ?_
  rintro ⟨result, rfl, hret⟩
  exact ⟨result, rfl, hret.concat e⟩

/-- Somebody else is served. -/
theorem CallInv.concat (h : CallInv T S s₀ log k c) {e : Served (AdminOp Text)}
    (he : e.caller ≠ some k) : CallInv T S s₀ (log ++ [e]) k c :=
  { h with
    unserved := by
      intro hnone hlive hmem
      rw [List.map_append, List.mem_append] at hmem
      rcases hmem with hmem | hmem
      · exact h.unserved hnone hlive hmem
      · exact he (List.mem_singleton.mp hmem).symm
    performed := fun x hx =>
      ⟨(h.performed x hx).1, (h.performed x hx).2.1.concat e, (h.performed x hx).2.2⟩
    replies := fun r hr => ⟨(h.replies r hr).1.concat e, (h.replies r hr).2⟩ }

/-- The daemon is restarted. -/
theorem CallInv.drop (h : CallInv T S s₀ log k c) : CallInv T S s₀ log k c.drop :=
  { h with
    unsent := fun hpc => ⟨(h.unsent hpc).1, rfl⟩
    unread := fun hne => absurd rfl hne
    tasks := by simp [AdminCall.drop]
    one_task := Nat.zero_le 1
    unserved := by simp [AdminCall.drop]
    performed := by simp [AdminCall.drop]
    replied := by simp [AdminCall.drop]
    unwritten := by simp [AdminCall.drop] }

/-- The command leaves the place where it sends, or was never there. -/
theorem CallInv.setPc (h : CallInv T S s₀ log k c) {pc : CommandPc} (hpc : pc ≠ .sending) :
    CallInv T S s₀ log k { c with pc := pc } :=
  { h with unsent := fun heq => absurd heq hpc }

theorem CallInv.send (h : CallInv T S s₀ log k c) (hpc : c.pc = .sending) (n : ℕ) {pc : CommandPc}
    (hsent : pc ≠ .sending) : CallInv T S s₀ log k { c with input := c.line.take n, pc := pc } :=
  { h with
    input := List.take_prefix n _
    unsent := fun heq => absurd heq hsent
    unread := fun hne => absurd (h.unsent hpc).2 hne }

/-! #### The daemon reads -/

theorem request_read (hS : SerdeJson.Reads S c.request.toValue) : c.request.Read S where
  id := by
    show 1 < UInt64.size
    decide
  method := by
    show (Method.parse c.command.toAdmin.method).isSome = true
    rw [AdminRequest.parse_method]
    rfl
  numerals := AdminRequest.numerals_params _
  crate := hS

/-- What the daemon can hear: the request, a part of it, or the end. -/
theorem CallInv.heard (h : CallInv T S s₀ log k c) : (c.heard S).2 = [] ∧
    ((c.heard S).1 = .eof ∨
      c.session.tasks = [] ∧ ((c.heard S).1 = .line (.request c.request) ∨
        ∃ e, (c.heard S).1 = .line (.malformed e))) := by
  have hagree := (request_read h.legible).agree
  by_cases hne : c.input = []
  · simp [AdminCall.heard, hne]
  · have htasks : c.session.tasks = [] := by
      by_contra hsome
      exact hne (h.unread hsome)
    simp only [AdminCall.heard, splitLine_part hagree.one_line h.input]
    rcases hagree.read_part h.input hne with hread | ⟨e, hread⟩
    · simp only [hread]
      exact ⟨trivial, .inr ⟨htasks, .inl trivial⟩⟩
    · cases e with
      | none => simp only [hread, true_or, and_self]
      | some e =>
        simp only [hread]
        exact ⟨trivial, .inr ⟨htasks, .inr ⟨e, rfl⟩⟩⟩

/-- `handle_conn` reads what it hears. -/
theorem CallInv.receive (h : CallInv T S s₀ log k c)
    (hS : ∀ e, (c.heard S).1 = .line (.malformed e) →
      SerdeJson.Reads S (IpcReply.error 0 .badRequest e).toLine.toValue)
    (hready : 10 ∈ c.input ∨ c.pc.ended = true) {session : IpcSession Text}
    (hn : c.session.next T paramsError (c.heard S).1 = some session) :
    CallInv T S s₀ log k { c with session := session, input := (c.heard S).2 } := by
  obtain ⟨hrest, hheard⟩ := h.heard
  have hsent : c.pc ≠ .sending := by
    intro hpc
    rw [(h.unsent hpc).1, hpc] at hready
    exact absurd hready (by simp [CommandPc.ended])
  rw [hrest]
  rcases hheard with heof | ⟨htasks, hreq | ⟨e, hbad⟩⟩
  · rw [heof] at hn
    simp only [IpcSession.next] at hn
    split at hn
    · cases hn
      exact { h with
        input := List.nil_prefix
        unsent := fun hpc => absurd hpc hsent
        unread := fun _ => rfl
        unserved := fun hnone hlive => h.unserved hnone (.inr (hlive.resolve_left (by simp)))
        replied := fun hne => ⟨by simp, (h.replied hne).2⟩ }
    · exact absurd hn (by simp)
  · -- the request: its task is spawned, and nothing has been done for it
    rw [hreq] at hn
    simp only [IpcSession.next] at hn
    split at hn
    · rename_i hreading
      cases hn
      have hperformed : c.performed = [] := by
        refine List.eq_nil_iff_forall_not_mem.mpr (fun x hx => ?_)
        have hlt := (h.performed x hx).1
        rw [htasks] at hlt
        exact absurd hlt (by simp)
      have hnosent : c.session.sent = [] := by
        by_contra hne
        exact (h.replied hne).1 hreading htasks
      refine { h with
        input := List.nil_prefix
        unsent := fun hpc => absurd hpc hsent
        unread := fun _ => rfl
        tasks := ?_
        one_task := ?_
        unserved := fun hnone _ => h.unserved hnone (.inl hreading)
        performed := ?_
        replied := fun hne => absurd hnosent hne }
      · intro t ht
        have ht : t = ⟨c.request, none, false⟩ := by simpa [htasks] using ht
        rw [ht]
        rfl
      · simp [htasks]
      · simp [hperformed]
    · exact absurd hn (by simp)
  · -- a part of it: the connection is answered and closed
    rw [hbad] at hn
    simp only [IpcSession.next] at hn
    split at hn
    · rename_i hreading
      cases hn
      have hnosent : c.session.sent = [] := by
        by_contra hne
        exact (h.replied hne).1 hreading htasks
      have hzero : (0 : ℕ) < UInt64.size := by decide
      obtain ⟨hsend, hnum⟩ := IpcReply.Plain.sendable (r := .error 0 .badRequest e) hzero
      refine { h with
        input := List.nil_prefix
        unsent := fun hpc => absurd hpc hsent
        unread := fun _ => rfl
        unserved := fun _ hlive => absurd hlive (by simp [htasks])
        one_reply := ?_
        replied := fun _ => ⟨by simp, by simp [htasks]⟩
        replies := ?_
        output := ?_ }
      · simp [hnosent]
      · intro r hr
        have hr : r = .error 0 .badRequest e := by simpa [hnosent] using hr
        rw [hr]
        exact ⟨.inl ⟨e, rfl⟩, hsend, hnum, hS e hbad⟩
      · intro hne
        obtain ⟨r, hr, -⟩ := h.output hne
        rw [hnosent] at hr
        exact absurd hr (by simp)
    · exact absurd hn (by simp)

/-! #### Its task -/

theorem CallInv.only_task (h : CallInv T S s₀ log k c) {j : ℕ} {t : IpcTask Text}
    (ht : c.session.tasks[j]? = some t) : j = 0 ∧ c.session.tasks = [t] := by
  have hone := h.one_task
  obtain ⟨hlt, hget⟩ := List.getElem?_eq_some_iff.mp ht
  have hzero : j = 0 := by omega
  subst hzero
  obtain ⟨u, hu⟩ := List.length_eq_one_iff.mp (by omega : c.session.tasks.length = 1)
  have hut : u = t := by simpa [hu] using ht
  exact ⟨rfl, by rw [hu, hut]⟩

/-- The command of a task that can go to the store has not been served. -/
theorem CallInv.unperformed (h : CallInv T S s₀ log k c) {j : ℕ} {t : IpcTask Text}
    (ht : c.session.tasks[j]? = some t) (hj : (c.performed.lookup j).isSome = false) :
    some k ∉ log.map Served.caller := by
  obtain ⟨hzero, htasks⟩ := h.only_task ht
  refine h.unserved (List.eq_nil_iff_forall_not_mem.mpr fun x hx => ?_) (.inr (by simp [htasks]))
  have hx0 : x.1 = j := by
    have hlt := (h.performed x hx).1
    rw [htasks, List.length_singleton] at hlt
    omega
  rw [Option.isSome_eq_false_iff, Option.isNone_iff_eq_none, List.lookup_eq_none_iff] at hj
  exact absurd (hj x hx) (by simp [hx0])

/-- The task has been to the store. -/
theorem CallInv.perform (h : CallInv T S s₀ log k c) {j : ℕ} {t : IpcTask Text} {op : AdminOp Text}
    {r : Except DispatchError Value} (ht : c.session.tasks[j]? = some t)
    (hret : Returned (adminMachine T) s₀ (log ++ [⟨some k, op⟩]) k r)
    (hplain : (IpcReply.terminal 1 r).Plain) :
    CallInv T S s₀ (log ++ [⟨some k, op⟩]) k { c with performed := (j, r) :: c.performed } :=
  { h with
    unserved := by simp
    performed := by
      intro x hx
      rcases List.mem_cons.mp hx with rfl | hx
      · exact ⟨(List.getElem?_eq_some_iff.mp ht).1, hret, hplain⟩
      · exact ⟨(h.performed x hx).1, (h.performed x hx).2.1.concat _, (h.performed x hx).2.2⟩
    replies := fun r hr => ⟨(h.replies r hr).1.concat _, (h.replies r hr).2⟩ }

theorem dispatchReply_peers (q : PeersCmd) (r : Except DispatchError Value) :
    IpcSession.dispatchReply paramsError (q.toAdmin.toRequest 1) r = some r := by
  cases q <;> rfl

/-- The reply of a task: the only one, with what it got from the store. -/
theorem CallInv.next_dispatch (h : CallInv T S s₀ log k c) {j : ℕ}
    {r : Except DispatchError Value} {session : IpcSession Text}
    (hn : c.session.next T paramsError (.dispatch j r) = some session) :
    ∃ t, c.session.tasks = [t] ∧ t.replied = false ∧
      session = { c.session with
        tasks := [{ t with replied := true }]
        sent := c.session.sent ++ [.terminal 1 r] } := by
  obtain ⟨t, ht, hn⟩ := Option.bind_eq_some_iff.mp hn
  obtain ⟨rfl, htasks⟩ := h.only_task ht
  have hreq : t.request = c.command.toAdmin.toRequest 1 := h.tasks t (List.mem_of_getElem? ht)
  split at hn
  · exact absurd hn (by simp)
  · rename_i hfree
    rw [hreq, dispatchReply_peers, Option.map_some, Option.some.injEq] at hn
    simp only [Bool.or_eq_true, not_or, Bool.not_eq_true] at hfree
    refine ⟨t, htasks, hfree.1, ?_⟩
    rw [← hn, IpcSession.finish, IpcSession.advance, htasks, hreq]
    rfl

/-- The task replies. -/
theorem CallInv.reply (h : CallInv T S s₀ log k c) {j : ℕ} {r : Except DispatchError Value}
    (hr : c.performed.lookup j = some r)
    (hS : SerdeJson.Reads S (IpcReply.terminal 1 r).toLine.toValue) {session : IpcSession Text}
    (hn : c.session.next T paramsError (.dispatch j r) = some session) :
    CallInv T S s₀ log k { c with session := session } := by
  obtain ⟨t, htasks, hreplied, rfl⟩ := h.next_dispatch hn
  have hnosent : c.session.sent = [] := by
    by_contra hne
    have htrue := (h.replied hne).2 t (by rw [htasks]; exact List.mem_singleton_self t)
    rw [hreplied] at htrue
    exact absurd htrue (by simp)
  obtain ⟨pre, post, hlist, -⟩ := List.lookup_eq_some_iff.mp hr
  have hmem : (j, r) ∈ c.performed := by
    rw [hlist]
    simp
  obtain ⟨-, hret, hplain⟩ := h.performed (j, r) hmem
  obtain ⟨hsend, hnum⟩ := hplain.sendable
  refine { h with
    unsent := ?_
    unread := fun _ => h.unread (by simp [htasks])
    tasks := ?_
    one_task := Nat.le_refl 1
    unserved := fun hnone => absurd hmem (by simp [show c.performed = [] from hnone])
    performed := ?_
    one_reply := by simp [hnosent]
    replied := fun _ => ⟨by simp, by simp⟩
    replies := ?_
    output := ?_ }
  · intro hpc
    exact absurd (h.unsent hpc).2 (by simp [htasks])
  · intro u hu
    rw [List.mem_singleton.mp hu]
    exact h.tasks t (by simp [htasks])
  · intro x hx
    have hlt := (h.performed x hx).1
    rw [htasks] at hlt
    exact ⟨hlt, (h.performed x hx).2⟩
  · intro r' hr'
    have hr' : r' = .terminal 1 r := by simpa [hnosent] using hr'
    rw [hr']
    exact ⟨.inr ⟨r, rfl, hret⟩, hsend, hnum, hS⟩
  · intro houtput
    obtain ⟨r', hr', -⟩ := h.output houtput
    rw [hnosent] at hr'
    exact absurd hr' (by simp)

/-! #### Its reply -/

/-- The writer writes all of the reply, or a part of it and no more. -/
theorem CallInv.write (h : CallInv T S s₀ log k c) {r : IpcReply} {n : ℕ} {ended : Bool}
    (hr : c.session.sent[c.session.written]? = some r) {session : IpcSession Text}
    (hn : c.session.next T paramsError
      (.write (decide ((toStr r.toLine.toValue ++ [10]).length ≤ n))) = some session) :
    CallInv T S s₀ log k { c with
      session := session
      output := c.output ++ (toStr r.toLine.toValue ++ [10]).take n
      outputEnd := ended } := by
  simp only [IpcSession.next] at hn
  split at hn
  · rename_i hwriting
    have hfirst : c.session.written = 0 := by
      have hone := h.one_reply
      omega
    have hempty := h.unwritten hfirst hwriting.1
    have houtput : c.output ++ (toStr r.toLine.toValue ++ [10]).take n ≠ [] →
        ∃ r' ∈ c.session.sent, c.output ++ (toStr r.toLine.toValue ++ [10]).take n <+:
          toStr r'.toLine.toValue ++ [10] := by
      intro _
      rw [hempty, List.nil_append]
      exact ⟨r, List.mem_of_getElem? hr, List.take_prefix n _⟩
    split at hn
    · cases hn
      exact { h with
        unwritten := fun hzero => absurd hzero (by simp)
        output := houtput }
    · cases hn
      exact { h with
        unwritten := fun _ hwriting => absurd hwriting (by simp)
        output := houtput }
  · exact absurd hn (by simp)

theorem ofReply_terminal (result : Except DispatchError Value) :
    AdminCall.ofReply (IpcReply.terminal 1 result).toLine = some result := by
  cases result <;> rfl

/-- What `ipc_call` takes for its answer is what its operation returned. -/
theorem CallInv.read (h : CallInv T S s₀ log k c) (hpc : c.pc ≠ .sending) :
    CallInv T S s₀ log k (c.read S).1 ∧ (c.read S).1.command = c.command ∧
      ∀ answer, (c.read S).2 = some answer → Returned (adminMachine T) s₀ log k answer := by
  by_cases hempty : c.output = []
  · simp only [AdminCall.read, hempty]
    exact ⟨by simpa [hempty] using h.setPc (by simp), trivial, by simp⟩
  · obtain ⟨r, hr, hpre⟩ := h.output hempty
    obtain ⟨hanswers, hreads⟩ := h.replies r hr
    have hagree := hreads.agree
    have hrest : ∀ pc : CommandPc, pc ≠ .sending →
        CallInv T S s₀ log k { c with pc := pc, output := [] } := fun pc hpc =>
      { h with
        unsent := fun heq => absurd heq hpc
        unwritten := fun _ _ => rfl
        output := fun hne => absurd rfl hne }
    simp only [AdminCall.read, splitLine_part hagree.one_line hpre]
    rcases hagree.read_part hpre hempty with hread | ⟨e, hread⟩
    · simp only [hread]
      cases hof : AdminCall.ofReply r.toLine with
      | none => exact ⟨hrest c.pc hpc, rfl, by simp⟩
      | some answer =>
        refine ⟨hrest _ (by simp), rfl, ?_⟩
        intro answer' heq
        cases heq
        rcases hanswers with ⟨e, rfl⟩ | ⟨result, rfl, hret⟩
        · exact absurd hof (by simp [AdminCall.ofReply, IpcReply.toLine])
        · rw [ofReply_terminal] at hof
          cases hof
          exact hret
    · simp only [hread]
      exact ⟨hrest _ (by simp), trivial, by simp⟩

end Call

/-! ### All commands -/

/-- The log explains the history, and every command is where its connection is. -/
structure PlaneInv (T : Toml PersistedState Text) (S : SerdeJson) (s₀ : State Text)
    (p : AdminPlane Text) : Prop where
  lin : Linearizes (adminMachine T) PeersCmd.Asks PeersCmd.view s₀ p.store p.history p.log
  invoked : ∀ k q, .invoke k q ∈ p.history → k < p.calls.length
  calls : ∀ k c, p.calls[k]? = some c →
    CallInv T S s₀ p.log k c ∧ .invoke k c.command ∈ p.history

section Plane

variable {T : Toml PersistedState Text} {paramsError : Value → String} {S : SerdeJson}
  {s₀ : State Text} {p p' : AdminPlane Text} {k : ℕ} {c c' : AdminCall Text}

/-- A step of command `k` that neither the store nor the other commands see. -/
theorem PlaneInv.setCall (h : PlaneInv T S s₀ p) (hk : p.calls[k]? = some c)
    (hc' : CallInv T S s₀ p.log k c') (hcommand : c'.command = c.command) :
    PlaneInv T S s₀ (p.setCall k c') where
  lin := h.lin
  invoked := by
    intro i q hi
    rw [AdminPlane.setCall, List.length_set]
    exact h.invoked i q hi
  calls := by
    intro i d hd
    rcases getElem?_set_cases hd with ⟨rfl, rfl⟩ | ⟨-, hd⟩
    · rw [hcommand]
      exact ⟨hc', (h.calls k c hk).2⟩
    · exact h.calls i d hd

/-- The task of command `k` works on the store. -/
theorem PlaneInv.perform (h : PlaneInv T S s₀ p) (hk : p.calls[k]? = some c) {j : ℕ}
    {t : IpcTask Text} (ht : c.session.tasks[j]? = some t)
    (hj : (c.performed.lookup j).isSome = false) (now : String)
    (fault : Option (WriteFault Text)) (invites : List InviteInfo) :
    PlaneInv T S s₀ { p with
      store := (c.command.perform T fault now invites p.store).1
      calls := p.calls.set k { c with
        performed := (j, (c.command.perform T fault now invites p.store).2) :: c.performed }
      log := p.log ++ [⟨some k, .command c.command now fault invites⟩] } where
  lin := h.lin.serve (h.calls k c hk).2 rfl ((h.calls k c hk).1.unperformed ht hj) rfl
  invoked := by
    intro i q hi
    rw [List.length_set]
    exact h.invoked i q hi
  calls := by
    intro i d hd
    rcases getElem?_set_cases hd with ⟨rfl, rfl⟩ | ⟨hne, hd⟩
    · refine ⟨(h.calls k c hk).1.perform ht ⟨p.log, _, [], rfl, ?_⟩
        (c.command.perform_plain T fault now invites p.store), (h.calls k c hk).2⟩
      rw [h.lin.state]
      rfl
    · exact ⟨(h.calls i d hd).1.concat (by simpa using hne), (h.calls i d hd).2⟩

/-- Command `k` reads from its connection. -/
theorem PlaneInv.read (h : PlaneInv T S s₀ p) (hk : p.calls[k]? = some c)
    (hpc : c.pc ≠ .sending) : PlaneInv T S s₀ { p with
      calls := p.calls.set k (c.read S).1
      history := p.history ++
        ((c.read S).2.map fun answer => .respond k (c.command.view answer)).toList } := by
  obtain ⟨hinv, hasked⟩ := h.calls k c hk
  obtain ⟨hread, hcommand, hreturned⟩ := hinv.read hpc
  have hset := h.setCall hk hread hcommand
  cases hanswer : (c.read S).2 with
  | none =>
    simp only [Option.map_none, Option.toList_none, List.append_nil]
    exact hset
  | some answer =>
    exact
      { lin := h.lin.respond hasked (hreturned answer hanswer)
        invoked := by
          intro i q hi
          have hi : Event.invoke i q ∈ p.history := by simpa using hi
          exact hset.invoked i q hi
        calls := fun i d hd =>
          ⟨(hset.calls i d hd).1, List.mem_append_left _ (hset.calls i d hd).2⟩ }

/-- **The steps of a command.** -/
theorem PlaneInv.command (h : PlaneInv T S s₀ p) (hk : p.calls[k]? = some c) {a : CallAct Text}
    (hS : Legible S p (.command k a)) (hn : p.callNext T paramsError S k c a = some p') :
    PlaneInv T S s₀ p' := by
  have hinv := (h.calls k c hk).1
  cases a with
  | send n =>
    simp only [AdminPlane.callNext] at hn
    split at hn
    · rename_i hpc
      cases hn
      refine h.setCall hk (hinv.send hpc n ?_) rfl
      split <;> simp
    · exact absurd hn (by simp)
  | kill =>
    simp only [AdminPlane.callNext] at hn
    split at hn
    · exact absurd hn (by simp)
    · cases hn
      exact h.setCall hk (hinv.setPc (by simp)) rfl
  | receive =>
    simp only [AdminPlane.callNext] at hn
    split at hn
    · rename_i hready
      obtain ⟨session, hsession, rfl⟩ := Option.map_eq_some_iff.mp hn
      exact h.setCall hk (hinv.receive (fun e he => hS c e hk he) hready hsession) rfl
    · exact absurd hn (by simp)
  | perform j now fault invites =>
    obtain ⟨t, ht, hn⟩ := Option.bind_eq_some_iff.mp hn
    split at hn
    · exact absurd hn (by simp)
    · rename_i hj
      have hreq : t.request = c.command.toAdmin.toRequest 1 :=
        hinv.tasks t (List.mem_of_getElem? ht)
      rw [hreq, dispatchPeers_eq] at hn
      cases hn
      exact h.perform hk ht (Bool.eq_false_iff.mpr hj) now fault invites
  | reply j =>
    obtain ⟨r, hr, hn⟩ := Option.bind_eq_some_iff.mp hn
    obtain ⟨session, hsession, rfl⟩ := Option.map_eq_some_iff.mp hn
    exact h.setCall hk (hinv.reply hr (hS c r hk hr) hsession) rfl
  | write n =>
    obtain ⟨r, hr, hn⟩ := Option.bind_eq_some_iff.mp hn
    obtain ⟨session, hsession, rfl⟩ := Option.map_eq_some_iff.mp hn
    exact h.setCall hk (hinv.write hr hsession) rfl
  | hangUp =>
    simp only [AdminPlane.callNext] at hn
    split at hn
    · cases hn
      exact h.setCall hk { hinv with } rfl
    · exact absurd hn (by simp)
  | read =>
    simp only [AdminPlane.callNext] at hn
    split at hn
    · rename_i hpc
      split at hn
      · cases hn
        exact h.read hk (by simp [hpc])
      · exact absurd hn (by simp)
    · exact absurd hn (by simp)

theorem PlaneInv.next (h : PlaneInv T S s₀ p) {a : AdminAct Text} (hS : Legible S p a)
    (hn : p.next T paramsError S a = some p') : PlaneInv T S s₀ p' := by
  cases a with
  | start q =>
    cases hn
    have hnew : some p.calls.length ∉ p.log.map Served.caller := by
      intro hmem
      obtain ⟨e, he, hcaller⟩ := List.mem_map.mp hmem
      obtain ⟨caller, op⟩ := e
      cases hcaller
      obtain ⟨q', hq', -⟩ := h.lin.asked _ op he
      exact absurd (h.invoked _ q' hq') (Nat.lt_irrefl _)
    refine ⟨h.lin.invoke hnew, ?_, ?_⟩
    · intro i q' hi
      rw [List.length_append, List.length_singleton]
      rcases List.mem_append.mp hi with hi | hi
      · exact Nat.lt_succ_of_lt (h.invoked i q' hi)
      · cases List.mem_singleton.mp hi
        exact Nat.lt_succ_self _
    · intro i d hd
      rcases getElem?_concat_cases hd with hd | ⟨rfl, rfl⟩
      · exact ⟨(h.calls i d hd).1, List.mem_append_left _ (h.calls i d hd).2⟩
      · exact ⟨.begin hS hnew, List.mem_append_right _ (List.mem_singleton_self _)⟩
  | command k a =>
    obtain ⟨c, hk, hn⟩ := Option.bind_eq_some_iff.mp hn
    exact h.command hk hS hn
  | other c =>
    simp only [AdminPlane.next] at hn
    split at hn
    · exact absurd hn (by simp)
    · cases hn
      exact ⟨h.lin.serveOther rfl, h.invoked, fun i d hd =>
        ⟨(h.calls i d hd).1.concat (by simp), (h.calls i d hd).2⟩⟩
  | restart =>
    cases hn
    refine ⟨h.lin.serveOther rfl, ?_, ?_⟩
    · intro i q hi
      rw [List.length_map]
      exact h.invoked i q hi
    · intro i d hd
      rw [List.getElem?_map, Option.map_eq_some_iff] at hd
      obtain ⟨d, hd, rfl⟩ := hd
      exact ⟨((h.calls i d hd).1.concat (by simp)).drop, (h.calls i d hd).2⟩

end Plane

/-- **Admin commands are linearizable.**  In every run of any number of `allow`, `revoke`, `ls` and
    `rm` commands, next to pairings and connecting clients, with connections cut anywhere, commands
    killed, saves failing and the daemon restarted: the store is what the operations of a log make of
    it one after the other; each command is in the log at most once, as the operation it asks for; one
    that ended with a result or an error of the daemon is there, and that is what its operation
    returned at its place; and it is before every command that was started after it had ended. -/
theorem commands_linearizable (T : Toml PersistedState Text) (paramsError : Value → String)
    (S : SerdeJson) (store : State Text) {p : AdminPlane Text}
    (h : Reach (AdminPlane.system T paramsError S store) (Legible S) p) :
    ∃ log, Linearizes (adminMachine T) PeersCmd.Asks PeersCmd.view store p.store p.history log := by
  have hinv : PlaneInv T S store p := by
    refine h.invariant ?_ fun p a p' _ hinv hS hn => hinv.next hS hn
    rintro p rfl
    exact ⟨.start store, by simp [AdminPlane.start], by simp [AdminPlane.start]⟩
  exact ⟨p.log, hinv.lin⟩

/-! ### Two at once -/

/-- `serde_json` on the texts of these values. -/
def serdeOf (vs : List Value) : SerdeJson where
  toVec := toStr
  fromSlice bytes :=
    match (List.finRange vs.length).find? fun i => toStr vs[i] == bytes with
    | some i => .ok vs[i]
    | none => .error "expected value at line 1 column 1"
  dataError _ := "invalid value"

theorem reads_serdeOf {vs : List Value}
    (h : ∀ i j : Fin vs.length, toStr vs[j] <+: toStr vs[i] → j = i) (i : Fin vs.length) :
    SerdeJson.Reads (serdeOf vs) vs[i] where
  whole := by
    have hfind : (List.finRange vs.length).find? (fun j => toStr vs[j] == toStr vs[i]) = some i := by
      cases hj : (List.finRange vs.length).find? (fun j => toStr vs[j] == toStr vs[i]) with
      | none =>
        rw [List.find?_eq_none] at hj
        exact absurd (hj i (List.mem_finRange i)) (by simp)
      | some j =>
        have heq := List.find?_some hj
        rw [beq_iff_eq] at heq
        rw [h i j (by rw [heq])]
    simp only [serdeOf, hfind]
  part := by
    intro p hp hpart
    have hfind : (List.finRange vs.length).find? (fun j => toStr vs[j] == p) = none := by
      rw [List.find?_eq_none]
      intro j _ heq
      rw [beq_iff_eq] at heq
      rw [← heq] at hp hpart
      exact hpart (by rw [h i j hp])
    simp only [serdeOf, hfind]
    exact ⟨_, rfl⟩

def allowSsh : PeersCmd := .allow "laptop" "localhost:22"

def revokeSsh : PeersCmd := .revoke "laptop" "localhost:22"

/-- What is said: two requests, that the rule is the first, and that there was none to remove. -/
def sshTexts : List Value :=
  [(allowSsh.toAdmin.toRequest 1).toValue, (revokeSsh.toAdmin.toRequest 1).toValue,
    (IpcReply.result 1 (allowResult 0)).toLine.toValue,
    (IpcReply.result 1 (removedResult false)).toLine.toValue]

/-- Both are sent before either is served, and the one started last is served first. -/
def crossingRun : List (AdminAct PersistedState) :=
  [.start allowSsh, .start revokeSsh, .command 0 (.send 100), .command 1 (.send 100),
    .command 0 .receive, .command 1 .receive, .command 1 (.perform 0 "t" none []),
    .command 0 (.perform 0 "t" none []), .command 0 (.reply 0), .command 1 (.reply 0),
    .command 1 (.write 100), .command 1 .read, .command 0 (.write 100), .command 0 .read]

def sshStore : State PersistedState := ⟨⟨1, [⟨"laptop", "ab", "", ""⟩], []⟩, .empty⟩

def isAdded : Except DispatchError Value → Bool
  | .ok (.obj [(name, .int n)]) => name == "rule_index" && n == 0
  | _ => false

def isNotRemoved : Except DispatchError Value → Bool
  | .ok (.obj [(name, .bool b)]) => name == "removed" && !b
  | _ => false

theorem isAdded_eq {r : Except DispatchError Value} (h : isAdded r = true) :
    r = .ok (allowResult 0) := by
  unfold isAdded at h
  split at h
  · simp only [Bool.and_eq_true, beq_iff_eq] at h
    obtain ⟨rfl, rfl⟩ := h
    rfl
  · exact absurd h (by simp)

theorem isNotRemoved_eq {r : Except DispatchError Value} (h : isNotRemoved r = true) :
    r = .ok (removedResult false) := by
  unfold isNotRemoved at h
  split at h
  · simp only [Bool.and_eq_true, beq_iff_eq, Bool.not_eq_true'] at h
    obtain ⟨rfl, rfl⟩ := h
    rfl
  · exact absurd h (by simp)

/-- What is said in a step is one of these. -/
def sshLegible (p : AdminPlane PersistedState) : AdminAct PersistedState → Bool
  | .start q => decide (q = allowSsh ∨ q = revokeSsh)
  | .command k .receive => p.calls[k]?.all fun c =>
      match (c.heard (serdeOf sshTexts)).1 with
      | .line (.malformed _) => false
      | _ => true
  | .command k (.reply j) => p.calls[k]?.all fun c => (c.performed.lookup j).all fun r =>
      isAdded r || isNotRemoved r
  | _ => true

theorem sshLegible_sound (p : AdminPlane PersistedState) (a : AdminAct PersistedState)
    (h : sshLegible p a = true) : Legible (serdeOf sshTexts) p a := by
  have hreads := @reads_serdeOf sshTexts (by decide +kernel)
  cases a with
  | start q =>
    simp only [sshLegible, decide_eq_true_eq] at h
    rcases h with rfl | rfl
    · exact hreads ⟨0, by decide⟩
    · exact hreads ⟨1, by decide⟩
  | command k a =>
    cases a with
    | receive =>
      intro c e hk hheard
      simp [sshLegible, hk, hheard] at h
    | reply j =>
      intro c r hk hr
      have h : isAdded r = true ∨ isNotRemoved r = true := by simpa [sshLegible, hk, hr] using h
      rcases h with h | h
      · rw [isAdded_eq h]
        exact hreads ⟨2, by decide⟩
      · rw [isNotRemoved_eq h]
        exact hreads ⟨3, by decide⟩
    | _ => trivial
  | other c => trivial
  | restart => trivial

/-- Who was started and who ended, in order. -/
def AdminPlane.outline (p : AdminPlane Text) : List (ℕ × Bool) :=
  p.history.map fun
    | .invoke k _ => (k, true)
    | .respond k _ => (k, false)

theorem commands_linearizable_crossing : ∃ (p : AdminPlane PersistedState),
    Reach (AdminPlane.system (.self PersistedState) (fun _ => "") (serdeOf sshTexts) sshStore)
      (Legible (serdeOf sshTexts)) p ∧
    p.outline = [(0, true), (1, true), (1, false), (0, false)] ∧
    p.store.inner.rules = [⟨"laptop", "localhost:22", "t"⟩] ∧
    ∃ log, Linearizes (adminMachine (.self PersistedState)) PeersCmd.Asks PeersCmd.view sshStore
      p.store p.history log := by
  have hrun : (exec (AdminPlane.system (.self PersistedState) (fun _ => "")
      (serdeOf sshTexts) sshStore) sshLegible (.start sshStore) crossingRun).map
        (fun p => (p.outline, p.store.inner.rules)) =
      some ([(0, true), (1, true), (1, false), (0, false)],
        [⟨"laptop", "localhost:22", "t"⟩]) := by
    decide +kernel
  obtain ⟨p, hp, hview⟩ := reach_of_exec_map sshLegible_sound hrun (.init rfl)
  obtain ⟨houtline, hrules⟩ := Prod.mk.inj hview
  exact ⟨p, hp, houtline, hrules, commands_linearizable (.self PersistedState) (fun _ => "")
    (serdeOf sshTexts) sshStore hp⟩

end Tmite.Daemon
