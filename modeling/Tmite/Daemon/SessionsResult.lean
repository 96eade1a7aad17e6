import Tmite.Daemon.AdminCalls
import Tmite.Daemon.Sessions

namespace Tmite.Daemon

open Tmite.Proto Serde

/-!
# What `tmite admin status` is sent and prints (`tmite-proto/src/ipc.rs`, `tmite/src/main.rs`)

The result of `daemon.sessions` has a row for each peer of the table.  `SessionsResult` and what is
in it are the types of the protocol, with their JSON; `status_cmd` reads the one line of the reply
and prints the rows as a table.
-/

/-! ### The result -/

inductive PathKind
  | direct
  | relay
deriving DecidableEq, Repr

/-- `PathInfo`, as it is sent. -/
structure PathReport where
  kind : PathKind
  addr : Option String
  selected : Bool
  rttMs : Option ℕ
deriving DecidableEq, Repr

/-- `SessionInfo`, as it is sent. -/
structure SessionReport where
  connectedSecs : ℕ
  forwards : List ForwardInfo
  paths : List PathReport
deriving DecidableEq, Repr

structure PeerSessionInfo where
  name : String
  nodeId : String
  /-- There while the peer has a live connection. -/
  session : Option SessionReport
deriving DecidableEq, Repr

structure SessionsResult where
  peers : List PeerSessionInfo
deriving DecidableEq, Repr

/-! ### Its JSON -/

/-- `#[serde(rename_all = "snake_case")]`. -/
def PathKind.jsonName : PathKind → String
  | direct => "direct"
  | relay => "relay"

def PathKind.fromValue (v : Value) : Option PathKind := do
  let (name, content) ← v.externalTag
  let kind ← [PathKind.direct, .relay].find? (fun k => k.jsonName = name)
  Value.unitVariant content
  return kind

/-- A `u64`, or a `usize`. -/
def natValue (n : ℕ) : Value := .int n

def PathReport.members (p : PathReport) : List (String × Value) :=
  Value.someMember "addr" (p.addr.map .str) ++ [("kind", .str p.kind.jsonName)] ++
    Value.someMember "rtt_ms" (p.rttMs.map natValue) ++ [("selected", .bool p.selected)]

def PathReport.toValue (p : PathReport) : Value := .obj p.members

def PathReport.fromValue : Value → Option PathReport
  | .obj members => do
    let kind ← (Value.member "kind" members).bind PathKind.fromValue
    let addr ← Value.memberOr none (Value.optionOf Value.asStr) "addr" members
    let selected ← (Value.member "selected" members).bind asBool
    let rttMs ← Value.memberOr none (Value.optionOf asU64) "rtt_ms" members
    return ⟨kind, addr, selected, rttMs⟩
  | .arr [kind, addr, selected, rttMs] => do
    return ⟨← PathKind.fromValue kind, ← Value.optionOf Value.asStr addr, ← asBool selected,
      ← Value.optionOf asU64 rttMs⟩
  | _ => none

def ForwardInfo.toValue (f : ForwardInfo) : Value :=
  .obj [("live", natValue f.live), ("local", .str f.localAddr), ("target", .str f.target)]

def ForwardInfo.fromValue (v : Value) : Option ForwardInfo := do
  match ← v.structFields ["local", "target", "live"] with
  | [localAddr, target, live] => return ⟨← localAddr.asStr, ← target.asStr, ← asU64 live⟩
  | _ => none

def SessionReport.toValue (s : SessionReport) : Value :=
  .obj [("connected_secs", natValue s.connectedSecs),
    ("forwards", .arr (s.forwards.map ForwardInfo.toValue)),
    ("paths", .arr (s.paths.map PathReport.toValue))]

def SessionReport.fromValue (v : Value) : Option SessionReport := do
  match ← v.structFields ["connected_secs", "forwards", "paths"] with
  | [connectedSecs, forwards, paths] =>
    return ⟨← asU64 connectedSecs, ← forwards.readAll ForwardInfo.fromValue,
      ← paths.readAll PathReport.fromValue⟩
  | _ => none

def PeerSessionInfo.members (p : PeerSessionInfo) : List (String × Value) :=
  [("name", .str p.name), ("node_id", .str p.nodeId)] ++
    Value.someMember "session" (p.session.map SessionReport.toValue)

def PeerSessionInfo.toValue (p : PeerSessionInfo) : Value := .obj p.members

def PeerSessionInfo.fromValue : Value → Option PeerSessionInfo
  | .obj members => do
    let name ← (Value.member "name" members).bind Value.asStr
    let nodeId ← (Value.member "node_id" members).bind Value.asStr
    let session ← Value.memberOr none (Value.optionOf SessionReport.fromValue) "session" members
    return ⟨name, nodeId, session⟩
  | .arr [name, nodeId, session] => do
    return ⟨← name.asStr, ← nodeId.asStr, ← Value.optionOf SessionReport.fromValue session⟩
  | _ => none

def SessionsResult.toValue (r : SessionsResult) : Value :=
  .obj [("peers", .arr (r.peers.map PeerSessionInfo.toValue))]

def SessionsResult.fromValue (v : Value) : Option SessionsResult := do
  match ← v.structFields ["peers"] with
  | [peers] => return ⟨← peers.readAll PeerSessionInfo.fromValue⟩
  | _ => none

/-! ### It is read back -/

/-- The numbers are those of the types that hold them. -/
structure SessionReport.Fits (s : SessionReport) : Prop where
  connectedSecs : s.connectedSecs < UInt64.size
  live : ∀ f ∈ s.forwards, f.live < UInt64.size
  rtt : ∀ p ∈ s.paths, ∀ ms, p.rttMs = some ms → ms < UInt64.size

theorem asU64_natValue {n : ℕ} (h : n < UInt64.size) : asU64 (natValue n) = some n := by
  rw [natValue]
  exact asU64_int h

theorem PathKind.fromValue_jsonName (k : PathKind) : fromValue (.str k.jsonName) = some k := by
  cases k <;> decide

theorem PathReport.fromValue_toValue {p : PathReport}
    (h : ∀ ms, p.rttMs = some ms → ms < UInt64.size) : fromValue p.toValue = some p := by
  have hkind : Value.member "kind" p.members = some (.str p.kind.jsonName) := by
    simp [members, Value.member]
  have hselected : Value.member "selected" p.members = some (.bool p.selected) := by
    simp [members, Value.member]
  have haddr : Value.memberOr none (Value.optionOf Value.asStr) "addr" p.members = some p.addr :=
    @Value.memberOr_someMember _ _ Value.str _ _ _ (by simp [members]) (fun a _ => by simp)
  have hrtt : Value.memberOr none (Value.optionOf asU64) "rtt_ms" p.members = some p.rttMs :=
    @Value.memberOr_someMember _ _ natValue _ _ _ (by simp [members])
      (fun ms hms => ⟨by simp [natValue], asU64_natValue (h ms hms)⟩)
  simp only [toValue, fromValue, hkind, hselected, haddr, hrtt, Option.bind_some,
    PathKind.fromValue_jsonName, asBool]
  rfl

theorem ForwardInfo.fromValue_of_fields {v a b c : Value}
    (h : v.structFields ["local", "target", "live"] = some [a, b, c]) :
    fromValue v = a.asStr.bind fun localAddr => b.asStr.bind fun target =>
      (asU64 c).bind fun live => some ⟨localAddr, target, live⟩ := by
  rw [fromValue, h]
  rfl

theorem ForwardInfo.fromValue_toValue {f : ForwardInfo} (h : f.live < UInt64.size) :
    fromValue f.toValue = some f := by
  have hfields : f.toValue.structFields ["local", "target", "live"] =
      some [.str f.localAddr, .str f.target, natValue f.live] := by
    simp [Value.structFields, toValue, Value.member]
  rw [fromValue_of_fields hfields, asU64_natValue h]
  rfl

theorem SessionReport.fromValue_of_fields {v a b c : Value}
    (h : v.structFields ["connected_secs", "forwards", "paths"] = some [a, b, c]) :
    fromValue v = (asU64 a).bind fun connectedSecs =>
      (b.readAll ForwardInfo.fromValue).bind fun forwards =>
        (c.readAll PathReport.fromValue).bind fun paths =>
          some ⟨connectedSecs, forwards, paths⟩ := by
  rw [fromValue, h]
  rfl

theorem SessionReport.fromValue_toValue {s : SessionReport} (h : s.Fits) :
    fromValue s.toValue = some s := by
  have hfields : s.toValue.structFields ["connected_secs", "forwards", "paths"] =
      some [natValue s.connectedSecs, .arr (s.forwards.map ForwardInfo.toValue),
        .arr (s.paths.map PathReport.toValue)] := by
    simp [Value.structFields, toValue, Value.member]
  have hforwards := Value.readAll_map_of_mem fun f hf => ForwardInfo.fromValue_toValue (h.live f hf)
  have hpaths := Value.readAll_map_of_mem fun p hp => PathReport.fromValue_toValue (h.rtt p hp)
  rw [fromValue_of_fields hfields, asU64_natValue h.connectedSecs, hforwards, hpaths]
  rfl

theorem PeerSessionInfo.fromValue_toValue {p : PeerSessionInfo}
    (h : ∀ s, p.session = some s → s.Fits) : fromValue p.toValue = some p := by
  have hname : Value.member "name" p.members = some (.str p.name) := by
    simp [members, Value.member]
  have hnode : Value.member "node_id" p.members = some (.str p.nodeId) := by
    simp [members, Value.member]
  have hsession : Value.memberOr none (Value.optionOf SessionReport.fromValue) "session" p.members =
      some p.session :=
    @Value.memberOr_someMember _ _ SessionReport.toValue _ _ _ (by simp [members])
      (fun s hs => ⟨by simp [SessionReport.toValue], SessionReport.fromValue_toValue (h s hs)⟩)
  simp only [toValue, fromValue, hname, hnode, hsession, Option.bind_some, Value.asStr_str]
  rfl

/-- What the daemon sends as the result is what the command gets. -/
theorem SessionsResult.fromValue_toValue {r : SessionsResult}
    (h : ∀ p ∈ r.peers, ∀ s, p.session = some s → s.Fits) : fromValue r.toValue = some r := by
  have hpeers := Value.readAll_map_of_mem fun p hp => PeerSessionInfo.fromValue_toValue (h p hp)
  simp [fromValue, toValue, hpeers]

theorem PathReport.numerals_toValue (p : PathReport) : numerals p.toValue = true := by
  cases haddr : p.addr <;> cases hrtt : p.rttMs <;>
    simp [toValue, members, haddr, hrtt, Value.someMember, natValue, numerals, membersNumerals]

theorem SessionReport.numerals_toValue (s : SessionReport) : numerals s.toValue = true := by
  have hforwards := itemsNumerals_map (f := ForwardInfo.toValue) (fun _ => rfl) s.forwards
  have hpaths := itemsNumerals_map PathReport.numerals_toValue s.paths
  simp [toValue, numerals, membersNumerals, natValue, hforwards, hpaths]

theorem PeerSessionInfo.numerals_toValue (p : PeerSessionInfo) : numerals p.toValue = true := by
  cases hsession : p.session with
  | none => simp [toValue, members, hsession, Value.someMember, numerals, membersNumerals]
  | some s =>
    simp [toValue, members, hsession, Value.someMember, numerals, membersNumerals,
      SessionReport.numerals_toValue s]

theorem SessionsResult.numerals_toValue (r : SessionsResult) : numerals r.toValue = true := by
  have hpeers := itemsNumerals_map PeerSessionInfo.numerals_toValue r.peers
  simp [toValue, numerals, membersNumerals, hpeers]

/-! ### The table -/

/-- `short_node_id`. -/
def shortNodeId (nodeId : String) : String :=
  String.ofList (nodeId.toList.take 8) ++ if 8 < nodeId.length then "\u2026" else ""

/-- `StatusRow`: a peer, with the lines of its PROXIES and of its STATE. -/
structure StatusRow where
  name : String
  nodeId : String
  proxies : List String
  state : List String
deriving DecidableEq, Repr

def ForwardInfo.cell (f : ForwardInfo) : String :=
  f.localAddr ++ " \u2192 " ++ f.target ++
    if 0 < f.live then " (" ++ toString f.live ++ ")" else ""

def PathReport.cell (p : PathReport) : String :=
  let kind := match p.kind with
    | .direct => "direct"
    | .relay => "relay"
  let addr := match p.addr with
    | some addr => " " ++ addr
    | none => ""
  let rtt := match p.rttMs with
    | some ms => " (" ++ toString ms ++ "ms)"
    | none => ""
  (if p.selected then "\u25cf" else "\u25cb") ++ " " ++ kind ++ addr ++ rtt

/-- The cells of a column, or a dash. -/
def cellsOrDash (cells : List String) : List String := if cells.isEmpty then ["-"] else cells

def PeerSessionInfo.statusRow (p : PeerSessionInfo) : StatusRow where
  name := p.name
  nodeId := shortNodeId p.nodeId
  proxies := cellsOrDash ((p.session.elim [] SessionReport.forwards).map ForwardInfo.cell)
  state := cellsOrDash ((p.session.elim [] SessionReport.paths).map PathReport.cell)

/-- The width of a column; that of its head is in bytes. -/
def columnWidth (head : String) (cells : List String) : ℕ :=
  (cells.map String.length ++ [head.utf8ByteSize]).foldl max 0

/-- `pad`, and what a width in a format does. -/
def pad (text : String) (width : ℕ) : String :=
  if width ≤ text.length then text
  else text ++ String.ofList (List.replicate (width - text.length) ' ')

/-- A line of the table, from the widths of its first three columns and its cells. -/
def tableLine (nameW nodeW proxyW : ℕ) (name nodeId proxy state : String) : String :=
  pad name nameW ++ "  " ++ pad nodeId nodeW ++ "  " ++ pad proxy proxyW ++ "  " ++ state

/-- `print_sessions_table`, line by line. -/
def printSessionsTable (r : SessionsResult) : List String :=
  let rows := r.peers.map PeerSessionInfo.statusRow
  if rows.isEmpty then ["no peers paired"]
  else
    let nameW := columnWidth "NAME" (rows.map StatusRow.name)
    let nodeW := columnWidth "NODE ID" (rows.map StatusRow.nodeId)
    let proxyW := columnWidth "PROXIES" (rows.flatMap StatusRow.proxies)
    tableLine nameW nodeW proxyW "NAME" "NODE ID" "PROXIES" "STATE" ::
      rows.flatMap fun row =>
        (List.range (max row.proxies.length row.state.length)).map fun i =>
          tableLine nameW nodeW proxyW (if i = 0 then row.name else "")
            (if i = 0 then row.nodeId else "") (row.proxies.getD i "") (row.state.getD i "")

/-! ### The command -/

/-- The reply of `daemon.sessions`. -/
def SessionsResult.reply (r : SessionsResult) : ReplyLine := (IpcReply.result 1 r.toValue).toLine

/-- What the daemon writes for it. -/
def SessionsResult.line (r : SessionsResult) : List UInt8 := toStr r.reply.toValue ++ [10]

/-- `status_cmd`, once it has what there is of the reply's line; `resultError` is the text of an
    error of `from_value`. -/
def statusCmd (S : SerdeJson) (resultError : Value → String) (line : List UInt8) :
    Except String (List String) :=
  if line.isEmpty then .error "daemon closed the IPC connection"
  else
    match readReply S line with
    | .error e => .error e
    | .ok reply =>
      match AdminCall.ofReply reply with
      -- it reads on, and there is nothing more
      | none => .error "daemon closed the IPC connection"
      | some (.error e) => .error ("daemon error [" ++ e.code.jsonName ++ "]: " ++ e.message)
      | some (.ok v) =>
        match SessionsResult.fromValue v with
        | none => .error (resultError v)
        | some result => .ok (printSessionsTable result)

/-- A result the daemon can send, with a crate that reads its line. -/
structure SessionsResult.Read (S : SerdeJson) (r : SessionsResult) : Prop where
  fits : ∀ p ∈ r.peers, ∀ s, p.session = some s → s.Fits
  crate : SerdeJson.Reads S r.reply.toValue

section Line

variable {S : SerdeJson} {r : SessionsResult} (resultError : Value → String)

theorem SessionsResult.Read.agree (h : r.Read S) :
    Lines.Agree 10 (toStr r.reply.toValue) (readReply S) r.reply := by
  have hplain : (IpcReply.result 1 r.toValue).Plain :=
    ⟨by decide, by simp [toValue], r.numerals_toValue⟩
  exact ReplyLine.Read.agree ⟨hplain.sendable.1, hplain.sendable.2, h.crate⟩

theorem statusCmd_reply (h : r.Read S) {line : List UInt8} (hne : line ≠ [])
    (hread : readReply S line = .ok r.reply) :
    statusCmd S resultError line = .ok (printSessionsTable r) := by
  have hempty : line.isEmpty = false := by simpa using hne
  have hanswer : AdminCall.ofReply r.reply = some (.ok r.toValue) := rfl
  simp only [statusCmd, hempty, Bool.false_eq_true, if_false, hread, hanswer,
    SessionsResult.fromValue_toValue h.fits]

/-- The whole line is printed, with its newline or without. -/
theorem statusCmd_whole (h : r.Read S) {n : ℕ} (hn : r.line.length ≤ n + 1) :
    statusCmd S resultError (r.line.take n) = .ok (printSessionsTable r) := by
  have hagree := h.agree
  have hlen : r.line.length = (toStr r.reply.toValue).length + 1 := by simp [SessionsResult.line]
  have hne : toStr r.reply.toValue ≠ [] := by
    simp [toStr, ReplyLine.toValue, valueText, String.utf8EncodeChar]
  by_cases hall : r.line.length ≤ n
  · rw [List.take_of_length_le hall]
    exact statusCmd_reply resultError h (by simp [SessionsResult.line]) hagree.line
  · have htake : r.line.take n = toStr r.reply.toValue := by
      rw [show n = (toStr r.reply.toValue).length by omega, SessionsResult.line,
        List.take_left']
      rfl
    rw [htake]
    exact statusCmd_reply resultError h hne hagree.unended

/-- Nothing is printed of a part of it. -/
theorem statusCmd_part (h : r.Read S) {n : ℕ} (hn : n + 1 < r.line.length) :
    ∃ e, statusCmd S resultError (r.line.take n) = .error e := by
  have hlen : r.line.length = (toStr r.reply.toValue).length + 1 := by simp [SessionsResult.line]
  have htake : r.line.take n = (toStr r.reply.toValue).take n := by
    rw [SessionsResult.line, List.take_append_of_le_length (by omega)]
  by_cases hempty : (r.line.take n).isEmpty = true
  · exact ⟨_, by rw [statusCmd, if_pos hempty]⟩
  · have hshort : r.line.take n ≠ toStr r.reply.toValue := by
      intro heq
      have := congrArg List.length heq
      rw [List.length_take] at this
      omega
    obtain ⟨e, he⟩ := h.agree.part (r.line.take n) (htake ▸ List.take_prefix ..) hshort
      (by simpa using hempty)
    exact ⟨e, by rw [statusCmd, if_neg hempty, he]⟩

end Line

end Tmite.Daemon
