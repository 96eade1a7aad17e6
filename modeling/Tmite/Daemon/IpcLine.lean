import Tmite.Lib.Lines
import Tmite.Daemon.AdminErrors
import Tmite.Daemon.NtfyEnable
import Tmite.Proto.FrameSize

namespace Tmite.Daemon

open Tmite.Core Tmite.Proto Serde Lines

/-!
# The lines of an IPC connection (`tmite-proto/src/ipc.rs`, both ends)

Requests and replies are JSON objects, one to a line.  The writers print a value and a newline; the
readers take a line, trim it and parse what is left.  Nothing in that is checked by a length: that
a line is one message rests on the printer, which escapes the newlines of a text.

`Reply` leaves out what is none, and a null is read as none, so a reply whose result is null does not
come back; the daemon has none.

* `replies_read_back` — what `IpcConn::reply` gets of a stream of replies that was cut anywhere;
* `requests_read_back` — what `handle_conn` reads of the commands the admin client sends, and that
  each handler gets the arguments the command was given.
-/

/-! ### Replies -/

/-- `#[serde(rename_all = "snake_case")]`, and `Display`. -/
def ErrorCode.jsonName : ErrorCode → String
  | badRequest => "bad_request"
  | nameTaken => "name_taken"
  | notFound => "not_found"
  | inviteCap => "invite_cap"
  | inviteExpired => "invite_expired"
  | peerHasRules => "peer_has_rules"
  | internal => "internal"

/-- The code of that name. -/
def ErrorCode.ofName (name : String) : Option ErrorCode :=
  [badRequest, nameTaken, notFound, inviteCap, inviteExpired, peerHasRules, internal].find?
    (fun c => c.jsonName = name)

def ErrorCode.fromValue (v : Value) : Option ErrorCode := do
  let (name, content) ← v.externalTag
  let code ← ErrorCode.ofName name
  Value.unitVariant content
  return code

/-- `ErrorBody`; its fields are those of a `DispatchError`. -/
def DispatchError.toValue (e : DispatchError) : Value :=
  .obj [("code", .str e.code.jsonName), ("message", .str e.message)]

def DispatchError.fromValue : Value → Option DispatchError
  | .obj members => do
    let code ← (Value.member "code" members).bind ErrorCode.fromValue
    let message ← Value.memberOr "" Value.asStr "message" members
    return ⟨code, message⟩
  | .arr [code] => do return ⟨← ErrorCode.fromValue code, ""⟩
  | .arr [code, message] => do return ⟨← ErrorCode.fromValue code, ← message.asStr⟩
  | _ => none

/-- `Reply`, as it is on the wire. -/
structure ReplyLine where
  id : ℕ
  result : Option Value
  error : Option DispatchError
  event : Option String
  data : Option Value

/-- The members of a reply: what is left out is none. -/
def ReplyLine.members (r : ReplyLine) : List (String × Value) :=
  ("id", .int r.id) :: (Value.someMember "result" r.result ++
    Value.someMember "error" (r.error.map DispatchError.toValue) ++
    Value.someMember "event" (r.event.map .str) ++ Value.someMember "data" r.data)

def ReplyLine.toValue (r : ReplyLine) : Value := .obj r.members

/-- `u64`. -/
def asU64 (v : Value) : Option ℕ := v.asUnsigned UInt64.size

/-- A field of type `serde_json::Value`. -/
def asAny (v : Value) : Option Value := some v

def ReplyLine.fromValue : Value → Option ReplyLine
  | .obj members => do
    let id ← (Value.member "id" members).bind asU64
    let result ← Value.memberOr none (Value.optionOf asAny) "result" members
    let error ← Value.memberOr none (Value.optionOf DispatchError.fromValue) "error" members
    let event ← Value.memberOr none (Value.optionOf Value.asStr) "event" members
    let data ← Value.memberOr none (Value.optionOf asAny) "data" members
    return ⟨id, result, error, event, data⟩
  | .arr [id, result, error, event, data] => do
    return ⟨← asU64 id, ← Value.optionOf asAny result,
      ← Value.optionOf DispatchError.fromValue error, ← Value.optionOf Value.asStr event,
      ← Value.optionOf asAny data⟩
  | _ => none

/-- The name of an event and the data it carries. -/
def InviteEvent.toPair : InviteEvent → String × Value
  | code inviteId words name ttlSecs =>
    ("code", .obj [("code", .str words), ("invite_id", .str inviteId), ("name", .str name),
      ("ttl_secs", .int ttlSecs)])
  | pairRequest inviteId nodeId =>
    ("pair_request", .obj [("invite_id", .str inviteId), ("node_id", .str nodeId)])
  | expired => ("expired", .obj [])

/-- `Reply::result`, `Reply::error` and `Reply::event`. -/
def IpcReply.toLine : IpcReply → ReplyLine
  | result id value => ⟨id, some value, none, none, none⟩
  | error id code message => ⟨id, none, some ⟨code, message⟩, none, none⟩
  | event id e => ⟨id, none, none, some e.toPair.1, some e.toPair.2⟩

/-! ### Requests -/

/-- `Request`; `params` may be missing. -/
def IpcRequest.fromValue : Value → Option IpcRequest
  | .obj members => do
    let id ← (Value.member "id" members).bind asU64
    let method ← (Value.member "method" members).bind Value.asStr
    let params ← Value.memberOr .null asAny "params" members
    return ⟨id, method, params⟩
  | .arr [id, method] => do return ⟨← asU64 id, ← method.asStr, .null⟩
  | .arr [id, method, params] => do return ⟨← asU64 id, ← method.asStr, params⟩
  | _ => none

/-- The value `ipc_request` prints. -/
def IpcRequest.toValue (r : IpcRequest) : Value :=
  .obj [("id", .int r.id), ("method", .str r.method), ("params", r.params)]

/-- `NtfyTestParams`, whose one field, `message`, may be missing or null. -/
def ntfyTestParams : Value → Option (Option String)
  | .obj members => Value.memberOr none (Value.optionOf Value.asStr) "message" members
  | .arr [] => some none
  | .arr [message] => Value.optionOf Value.asStr message
  | _ => none

/-- The requests the admin client sends (`peers_cmd`, `invite_cmd`, `status_cmd` and `ntfy_cmd` of
    `tmite/src/main.rs`). -/
inductive AdminRequest
  | invite (name : String) (ttl : Option ℕ)
  | decide (inviteId : String) (accept : Bool)
  | allow (peer target : String)
  | revoke (peer target : String)
  | ls
  | rm (peer : String) (force : Bool)
  | sessions
  | ntfyEnable (server : Option String)
  | ntfyDisable
  | ntfyStatus
  | ntfyTest (message : Option String)
deriving DecidableEq, Repr

def AdminRequest.method : AdminRequest → String
  | invite _ _ => "peer.invite"
  | decide _ _ => "peer.invite.decide"
  | allow _ _ => "peer.allow"
  | revoke _ _ => "peer.revoke"
  | ls => "peer.ls"
  | rm _ _ => "peer.rm"
  | sessions => "daemon.sessions"
  | ntfyEnable _ => "ntfy.enable"
  | ntfyDisable => "ntfy.disable"
  | ntfyStatus => "ntfy.status"
  | ntfyTest _ => "ntfy.test"

/-- A text that may be none, in `json!`. -/
def strOrNull : Option String → Value
  | none => .null
  | some s => .str s

/-- The `json!` of a request; an object has its members in the order of their names. -/
def AdminRequest.params : AdminRequest → Value
  | invite name none => .obj [("name", .str name), ("ttl", .null)]
  | invite name (some ttl) => .obj [("name", .str name), ("ttl", .int ttl)]
  | decide inviteId accept => .obj [("accept", .bool accept), ("invite_id", .str inviteId)]
  | allow peer target => .obj [("peer", .str peer), ("target", .str target)]
  | revoke peer target => .obj [("peer", .str peer), ("target", .str target)]
  | rm peer force => .obj [("force", .bool force), ("peer", .str peer)]
  | ntfyEnable server => .obj [("server", strOrNull server)]
  | ntfyTest message => .obj [("message", strOrNull message)]
  | ls | sessions | ntfyDisable | ntfyStatus => .obj []

/-- `ipc_request`. -/
def AdminRequest.toRequest (id : ℕ) (r : AdminRequest) : IpcRequest := ⟨id, r.method, r.params⟩

/-- The arguments a handler of the daemon takes from a request's parameters; `peer.ls` and the like
    take none.  No command of the client sends the last two methods. -/
def AdminRequest.received (params : Value) : Method → Option AdminRequest
  | .peerInvite => (InviteParams.fromValue params).map fun p => invite p.name p.ttl
  | .peerInviteDecide => (DecideParams.fromValue params).map fun p => decide p.inviteId p.accept
  | .peerAllow => (AllowParams.fromValue params).map fun p => allow p.peer p.target
  | .peerRevoke => (AllowParams.fromValue params).map fun p => revoke p.peer p.target
  | .peerLs => some ls
  | .peerRm => (RmParams.fromValue params).map fun p => rm p.peer p.force
  | .daemonSessions => some sessions
  | .ntfyEnable => (ntfyEnableParams params).map ntfyEnable
  | .ntfyDisable => some ntfyDisable
  | .ntfyStatus => some ntfyStatus
  | .ntfyTest => (ntfyTestParams params).map ntfyTest
  | .daemonStatus | .daemonStop => none

/-- A time to live is a `u64`. -/
def AdminRequest.Sendable : AdminRequest → Prop
  | invite _ (some ttl) => ttl < UInt64.size
  | _ => True

/-! ### Lines -/

/-- `serde_json::to_string`. -/
def toStr (v : Value) : List UInt8 := utf8 (valueText v)

/-- The text of a line, as `read_line` and `next_line` return it. -/
def fromUtf8 (line : List UInt8) : Option String := String.fromUTF8? line.toByteArray

/-- The bytes `serde_json::from_str` gets. -/
def trimmed (text : String) : List UInt8 := utf8 (trim text).toList

/-- `serde_json::from_str`, at a type with the reader `fromValue`. -/
def fromStr {F : Type} (S : SerdeJson) (fromValue : Value → Option F) (bytes : List UInt8) :
    Except String F :=
  match S.fromSlice bytes with
  | .error e => .error e
  | .ok v =>
    match fromValue v with
    | none => .error (S.dataError bytes)
    | some f => .ok f

/-- `IpcConn::reply`, on a line. -/
def readReply (S : SerdeJson) (line : List UInt8) : Except String ReplyLine :=
  match fromUtf8 line with
  | none => .error "stream did not contain valid UTF-8"
  | some text => fromStr S ReplyLine.fromValue (trimmed text)

/-- `parse_request`, with the text of its error. -/
def parseRequest (S : SerdeJson) (text : String) : Except String IpcRequest :=
  match fromStr S IpcRequest.fromValue (trimmed text) with
  | .error e => .error ("ipc parse error: " ++ e)
  | .ok r =>
    if (Method.parse r.method).isNone then
      .error ("ipc parse error: unknown method " ++ r.method)
    else .ok r

/-- What `handle_conn` makes of a line: a blank line or a request, or what ends its loop.  That is
    an error of `next_line`, or a malformed line. -/
def readInput (S : SerdeJson) (line : List UInt8) : Except (Option String) IpcInput :=
  match fromUtf8 line with
  | none => .error none
  | some text =>
    if (trim text).isEmpty then .ok .blank
    else
      match parseRequest S text with
      | .error e => .error (some e)
      | .ok r => .ok (.request r)

/-- The crate reads `v` back from its compact text, and fails on less than the whole of it. -/
structure SerdeJson.Reads (S : SerdeJson) (v : Value) : Prop where
  whole : S.fromSlice (toStr v) = .ok v
  part : ∀ p, p <+: toStr v → p ≠ toStr v → ∃ e, S.fromSlice p = .error e

/-! ### Values -/

theorem ErrorCode.fromValue_jsonName (c : ErrorCode) : fromValue (.str c.jsonName) = some c := by
  cases c <;> decide

theorem DispatchError.fromValue_toValue (e : DispatchError) : fromValue e.toValue = some e := by
  have hcode : Value.member "code" [("code", .str e.code.jsonName), ("message", .str e.message)] =
      some (.str e.code.jsonName) :=
    Value.member_cons_self (by simp)
  simp [fromValue, toValue, hcode, ErrorCode.fromValue_jsonName, Value.memberOr]

theorem asU64_int {n : ℕ} (h : n < UInt64.size) : asU64 (.int n) = some n := Value.asUnsigned_int h

/-- What a reply has to be for its line to be read as it: an id of 64 bits, and no null where there
    is a value. -/
structure ReplyLine.Sendable (r : ReplyLine) : Prop where
  id : r.id < UInt64.size
  result : r.result ≠ some .null
  data : r.data ≠ some .null

theorem asAny_of_ne_null {o : Option Value} (h : o ≠ some .null) (v : Value) (hv : o = some v) :
    v ≠ .null ∧ asAny v = some v :=
  ⟨fun hnull => h (hv.trans (congrArg some hnull)), rfl⟩

theorem ReplyLine.fromValue_toValue {r : ReplyLine} (h : r.Sendable) :
    fromValue r.toValue = some r := by
  have hid : Value.member "id" r.members = some (.int r.id) := by simp [members, Value.member]
  have hresult : Value.memberOr none (Value.optionOf asAny) "result" r.members = some r.result :=
    @Value.memberOr_someMember _ asAny (fun v => v) _ _ _ (by simp [members])
      (asAny_of_ne_null h.result)
  have herror : Value.memberOr none (Value.optionOf DispatchError.fromValue) "error" r.members =
      some r.error :=
    @Value.memberOr_someMember _ _ DispatchError.toValue _ _ _ (by simp [members])
      (fun e _ => ⟨by simp [DispatchError.toValue], DispatchError.fromValue_toValue e⟩)
  have hevent : Value.memberOr none (Value.optionOf Value.asStr) "event" r.members =
      some r.event :=
    @Value.memberOr_someMember _ _ Value.str _ _ _ (by simp [members]) (fun e _ => by simp)
  have hdata : Value.memberOr none (Value.optionOf asAny) "data" r.members = some r.data :=
    @Value.memberOr_someMember _ asAny (fun v => v) _ _ _ (by simp [members])
      (asAny_of_ne_null h.data)
  have hid64 := asU64_int h.id
  rw [toValue, fromValue, hid, hresult, herror, hevent, hdata, Option.bind_some, hid64]
  rfl

theorem IpcRequest.fromValue_toValue {r : IpcRequest} (h : r.id < UInt64.size) :
    fromValue r.toValue = some r := by
  have hid : Value.member "id" [("id", .int r.id), ("method", .str r.method),
      ("params", r.params)] = some (.int r.id) :=
    Value.member_cons_self (by simp)
  have hmethod : Value.member "method" [("id", .int r.id), ("method", .str r.method),
      ("params", r.params)] = some (.str r.method) := by
    simp [Value.member]
  have hparams : Value.memberOr .null asAny "params" [("id", .int r.id), ("method", .str r.method),
      ("params", r.params)] = some r.params := by
    simp [Value.memberOr, asAny]
  rw [toValue, fromValue, hid, hmethod, hparams, Option.bind_some, Option.bind_some, asU64_int h]
  rfl

/-! ### One line -/

mutual

/-- Numbers that are not integers are written as JSON writes them. -/
def numerals : Value → Bool
  | .float text => text.toList.all (fun c => "0123456789+-.eE".toList.contains c)
  | .arr items => itemsNumerals items
  | .obj members => membersNumerals members
  | _ => true

def itemsNumerals : List Value → Bool
  | [] => true
  | v :: items => numerals v && itemsNumerals items

def membersNumerals : List (String × Value) → Bool
  | [] => true
  | (_, v) :: members => numerals v && membersNumerals members

end

theorem newline_notMem_jsonStr (s : String) : '\n' ∉ jsonStr s := by
  have hhex : ∀ n < 16, hexDigit n ≠ '\n' := by decide
  have hchar : ∀ c, '\n' ∉ jsonChar c := by
    intro c hc
    unfold jsonChar at hc
    split at hc
    · simp at hc
    split at hc
    · simp at hc
    iterate 5
      split at hc
      · simp at hc
    split at hc
    · rename_i hlt
      simp only [List.mem_cons, List.not_mem_nil, or_false] at hc
      have h₁ := hhex (c.toNat / 16) (by omega)
      have h₂ := hhex (c.toNat % 16) (by omega)
      rcases hc with hc | hc | hc | hc | hc | hc
      all_goals first | exact absurd hc (by decide) | exact h₁ hc.symm | exact h₂ hc.symm
    · rename_i hnewline _ _ _
      rw [List.mem_singleton] at hc
      subst hc
      exact hnewline rfl
  intro hmem
  simp only [jsonStr, List.mem_cons, List.cons_append, List.mem_append, List.mem_flatMap,
    List.not_mem_nil, or_false] at hmem
  rcases hmem with hq | ⟨c, -, hc⟩ | hq
  · exact absurd hq (by decide)
  · exact hchar c hc
  · exact absurd hq (by decide)

theorem newline_notMem_jsonNat (n : ℕ) : '\n' ∉ jsonNat n := by
  intro hmem
  exact absurd (Nat.isDigit_of_mem_toDigits (by decide) (by decide) hmem) (by decide)

mutual

/-- The text of a value is one line: a newline in a string is escaped. -/
theorem newline_notMem_valueText (v : Value) (h : numerals v = true) : '\n' ∉ valueText v := by
  match v with
  | .null => decide
  | .bool b => cases b <;> decide
  | .int n =>
    rw [valueText]
    split
    · simpa using newline_notMem_jsonNat n.natAbs
    · exact newline_notMem_jsonNat n.natAbs
  | .float text =>
    intro hmem
    rw [numerals, List.all_eq_true] at h
    exact absurd (h _ hmem) (by decide)
  | .str s => exact newline_notMem_jsonStr s
  | .arr items =>
    have hitems := newline_notMem_itemsText items h
    simpa [valueText] using hitems
  | .obj members =>
    have hmembers := newline_notMem_membersText members h
    simpa [valueText] using hmembers

theorem newline_notMem_itemsText (items : List Value) (h : itemsNumerals items = true) :
    '\n' ∉ itemsText items := by
  match items with
  | [] => decide
  | [v] =>
    rw [itemsNumerals, Bool.and_eq_true] at h
    exact newline_notMem_valueText v h.1
  | v :: w :: items =>
    rw [itemsNumerals, Bool.and_eq_true] at h
    have hv := newline_notMem_valueText v h.1
    have hitems := newline_notMem_itemsText (w :: items) h.2
    simp [itemsText, hv, hitems]

theorem newline_notMem_membersText (members : List (String × Value))
    (h : membersNumerals members = true) : '\n' ∉ membersText members := by
  match members with
  | [] => decide
  | [(name, v)] =>
    rw [membersNumerals, Bool.and_eq_true] at h
    have hv := newline_notMem_valueText v h.1
    have hname := newline_notMem_jsonStr name
    simp [membersText, hv, hname]
  | (name, v) :: m :: members =>
    rw [membersNumerals, Bool.and_eq_true] at h
    have hv := newline_notMem_valueText v h.1
    have hname := newline_notMem_jsonStr name
    have hmembers := newline_notMem_membersText (m :: members) h.2
    simp [membersText, hv, hname, hmembers]

end

/-! ### The text of a line -/

theorem fromUtf8_utf8 (text : List Char) : fromUtf8 (utf8 text) = some (String.ofList text) := by
  have hbytes : (utf8 text).toByteArray = (String.ofList text).toByteArray := by
    rw [String.toByteArray_ofList]
    rfl
  rw [fromUtf8, hbytes]
  unfold String.fromUTF8?
  rw [dif_pos (String.isValidUTF8 _)]
  rfl

theorem utf8_of_fromUtf8 {line : List UInt8} {text : String} (h : fromUtf8 line = some text) :
    utf8 text.toList = line := by
  unfold fromUtf8 String.fromUTF8? at h
  split at h
  · have hbytes : text.toByteArray = line.toByteArray := by
      rw [← Option.some.inj h]
      rfl
    rw [← String.utf8Encode_toList] at hbytes
    exact List.toByteArray_inj.mp hbytes
  · exact absurd h (by simp)

section Trim

variable {c d : Char} {mid blanks : List Char}

/-- `trim` takes the blanks after a text that begins and ends with none. -/
theorem trim_ends (hc : isWhitespace c = false) (hd : isWhitespace d = false)
    (hblanks : ∀ b ∈ blanks, isWhitespace b = true) :
    (trim (String.ofList (c :: mid ++ [d] ++ blanks))).toList = c :: mid ++ [d] := by
  rw [trim, String.toList_ofList, String.toList_ofList, List.cons_append, List.cons_append,
    List.dropWhile_cons_of_neg (by simp [hc]), ← List.cons_append, ← List.cons_append,
    List.reverse_append, List.dropWhile_append_of_pos]
  · rw [List.reverse_append, List.reverse_singleton, List.singleton_append,
      List.dropWhile_cons_of_neg (by simp [hd]), List.reverse_cons, List.reverse_reverse]
  · intro b hb
    exact hblanks b (List.mem_reverse.mp hb)

/-- Of a text that begins with no blank `trim` leaves the beginning. -/
theorem trim_part (hc : isWhitespace c = false) :
    (trim (String.ofList (c :: mid))).toList <+: c :: mid ∧
      (trim (String.ofList (c :: mid))).toList ≠ [] := by
  rw [trim, String.toList_ofList, String.toList_ofList,
    List.dropWhile_cons_of_neg (by simp [hc])]
  refine ⟨?_, fun hnil => ?_⟩
  · rw [← List.reverse_suffix, List.reverse_reverse]
    exact List.dropWhile_suffix _
  · rw [List.reverse_eq_nil_iff, List.dropWhile_eq_nil_iff] at hnil
    rw [hnil c (by simp)] at hc
    exact absurd hc (by simp)

end Trim

theorem utf8_prefix {a b : List Char} (h : a <+: b) : utf8 a <+: utf8 b := by
  obtain ⟨rest, rfl⟩ := h
  exact ⟨utf8 rest, (utf8_append a rest).symm⟩

theorem isEmpty_of_toList_ne_nil {s : String} (h : s.toList ≠ []) : s.isEmpty = false := by
  rw [Bool.eq_false_iff, Ne, String.isEmpty_iff, ← String.toList_inj]
  exact h

/-- A line with the text of an object is trimmed to that text. -/
theorem fromUtf8_line (members : List (String × Value)) {blanks : List Char}
    (hblanks : ∀ b ∈ blanks, isWhitespace b = true) :
    ∃ text, fromUtf8 (toStr (.obj members) ++ utf8 blanks) = some text ∧
      trimmed text = toStr (.obj members) ∧ (trim text).isEmpty = false := by
  have htext : valueText (.obj members) = '\x7b' :: membersText members ++ ['\x7d'] := by
    rw [valueText]
  have htrim := @trim_ends '\x7b' '\x7d' (membersText members) blanks rfl rfl hblanks
  rw [← htext] at htrim
  refine ⟨_, by rw [toStr, ← utf8_append]; exact fromUtf8_utf8 _, ?_, ?_⟩
  · rw [trimmed, toStr, htrim]
  · refine isEmpty_of_toList_ne_nil ?_
    rw [htrim, htext]
    simp

/-- Of a part of that text no more than a part is left, and what is left is not blank. -/
theorem fromUtf8_part {members : List (String × Value)} {p : List UInt8}
    (hp : p <+: toStr (.obj members)) (hpart : p ≠ toStr (.obj members)) (hne : p ≠ [])
    {text : String} (htext : fromUtf8 p = some text) :
    trimmed text <+: toStr (.obj members) ∧ trimmed text ≠ toStr (.obj members) ∧
      (trim text).isEmpty = false := by
  have hbytes := utf8_of_fromUtf8 htext
  cases hchars : text.toList with
  | nil =>
    rw [hchars] at hbytes
    exact absurd hbytes.symm hne
  | cons c rest =>
    rw [hchars] at hbytes
    -- the first byte is the brace's, and no other character has it
    have hc : c = '\x7b' := by
      obtain ⟨b, bs, hcons⟩ := List.exists_cons_of_ne_nil (@String.utf8EncodeChar_ne_nil c)
      obtain ⟨more, hmore⟩ := hp
      rw [← hbytes, utf8_cons, hcons] at hmore
      have hb : b = 0x7b := by
        have hhead := congrArg List.head? hmore
        rw [toStr, valueText] at hhead
        exact Option.some.inj hhead
      have hmem : b ∈ String.utf8EncodeChar c := by
        rw [hcons]
        exact List.mem_cons_self
      have hnat : b.toNat = 123 := by
        rw [hb]
        rfl
      rcases utf8_byte hmem with heq | hge
      · exact Char.toNat_inj.mp (heq.symm.trans hnat)
      · omega
    have hstr : text = String.ofList (c :: rest) := by
      rw [← hchars, String.ofList_toList]
    obtain ⟨hpre, hnil⟩ := @trim_part c rest (by rw [hc]; rfl)
    rw [← hstr] at hpre hnil
    have hle : trimmed text <+: p := by
      rw [← hbytes]
      exact utf8_prefix hpre
    refine ⟨hle.trans hp, fun heq => hpart ?_, isEmpty_of_toList_ne_nil hnil⟩
    exact hp.eq_of_length_le (heq ▸ hle.length_le)

/-! ### Both ends agree -/

theorem newline_blank : ∀ b ∈ ['\n'], isWhitespace b = true := by
  intro b hb
  rw [List.mem_singleton.mp hb]
  rfl

section FromStr

variable {F : Type} {S : SerdeJson} {fromValue : Value → Option F}

theorem fromStr_whole {v : Value} {f : F} (hS : SerdeJson.Reads S v) (hv : fromValue v = some f) :
    fromStr S fromValue (toStr v) = .ok f := by
  rw [fromStr, hS.whole]
  simp only [hv]

variable (fromValue) in
theorem fromStr_part {v : Value} (hS : SerdeJson.Reads S v) {p : List UInt8} (hp : p <+: toStr v)
    (hless : p ≠ toStr v) : ∃ e, fromStr S fromValue p = .error e := by
  obtain ⟨e, he⟩ := hS.part p hp hless
  exact ⟨e, by rw [fromStr, he]⟩

end FromStr

/-- A reply that can be sent, with a crate that reads its line. -/
structure ReplyLine.Read (S : SerdeJson) (r : ReplyLine) : Prop where
  sendable : r.Sendable
  numerals : numerals r.toValue = true
  crate : SerdeJson.Reads S r.toValue

theorem readReply_ok {S : SerdeJson} {r : ReplyLine} (h : r.Read S) {blanks : List Char}
    (hblanks : ∀ b ∈ blanks, isWhitespace b = true) :
    readReply S (toStr r.toValue ++ utf8 blanks) = .ok r := by
  obtain ⟨text, htext, htrim, -⟩ := fromUtf8_line r.members hblanks
  have hvalue : ReplyLine.toValue r = .obj r.members := rfl
  rw [← hvalue] at htext htrim
  rw [readReply, htext]
  show fromStr S ReplyLine.fromValue (trimmed text) = _
  rw [htrim]
  exact fromStr_whole h.crate (ReplyLine.fromValue_toValue h.sendable)

theorem ReplyLine.Read.agree {S : SerdeJson} {r : ReplyLine} (h : r.Read S) :
    Agree 10 (toStr r.toValue) (readReply S) r where
  one_line := newline_notMem_utf8 (newline_notMem_valueText _ h.numerals)
  line := by
    have hnewline : utf8 ['\n'] = [10] := by decide
    rw [← hnewline]
    exact readReply_ok h newline_blank
  unended := by
    have hread := @readReply_ok S r h [] (by simp)
    rw [utf8_nil, List.append_nil] at hread
    exact hread
  part := by
    intro p hp hpart hne
    cases htext : fromUtf8 p with
    | none => exact ⟨_, by rw [readReply, htext]⟩
    | some text =>
      obtain ⟨hpre, hless, -⟩ := fromUtf8_part hp hpart hne htext
      obtain ⟨e, he⟩ := fromStr_part ReplyLine.fromValue h.crate hpre hless
      exact ⟨e, by rw [readReply, htext]; exact he⟩

/-- A request of the client, with a crate that reads its line. -/
structure IpcRequest.Read (S : SerdeJson) (r : IpcRequest) : Prop where
  id : r.id < UInt64.size
  method : (Method.parse r.method).isSome = true
  numerals : numerals r.params = true
  crate : SerdeJson.Reads S r.toValue

theorem readInput_ok {S : SerdeJson} {r : IpcRequest} (h : r.Read S) {blanks : List Char}
    (hblanks : ∀ b ∈ blanks, isWhitespace b = true) :
    readInput S (toStr r.toValue ++ utf8 blanks) = .ok (.request r) := by
  obtain ⟨text, htext, htrim, hblank⟩ :=
    fromUtf8_line [("id", .int r.id), ("method", .str r.method), ("params", r.params)] hblanks
  have hvalue : IpcRequest.toValue r =
      .obj [("id", .int r.id), ("method", .str r.method), ("params", r.params)] := rfl
  rw [← hvalue] at htext htrim
  have hparse : parseRequest S text = .ok r := by
    have hmethod : (Method.parse r.method).isNone = false := by
      rw [← Option.not_isSome, h.method]
      rfl
    have hread : fromStr S IpcRequest.fromValue (trimmed text) = .ok r := by
      rw [htrim]
      exact fromStr_whole h.crate (IpcRequest.fromValue_toValue h.id)
    rw [parseRequest, hread]
    simp only [hmethod, Bool.false_eq_true, if_false]
  rw [readInput, htext]
  simp only [hblank, hparse, Bool.false_eq_true, if_false]

theorem IpcRequest.Read.agree {S : SerdeJson} {r : IpcRequest} (h : r.Read S) :
    Agree 10 (toStr r.toValue) (readInput S) (.request r) where
  one_line := by
    refine newline_notMem_utf8 (newline_notMem_valueText _ ?_)
    simpa [IpcRequest.toValue, Tmite.Daemon.numerals, membersNumerals] using h.numerals
  line := by
    have hnewline : utf8 ['\n'] = [10] := by decide
    rw [← hnewline]
    exact readInput_ok h newline_blank
  unended := by
    have hread := @readInput_ok S r h [] (by simp)
    rw [utf8_nil, List.append_nil] at hread
    exact hread
  part := by
    intro p hp hpart hne
    cases htext : fromUtf8 p with
    | none => exact ⟨_, by rw [readInput, htext]⟩
    | some text =>
      obtain ⟨hpre, hless, hblank⟩ := fromUtf8_part hp hpart hne htext
      obtain ⟨e, he⟩ := fromStr_part IpcRequest.fromValue h.crate hpre hless
      refine ⟨some ("ipc parse error: " ++ e), ?_⟩
      simp only [readInput, htext, hblank, parseRequest, he, Bool.false_eq_true, if_false]

/-! ### A conversation -/

/-- A reply of the daemon: the id is the request's, a `u64`, and a result is an object, with no
    number but as JSON writes it. -/
def IpcReply.Plain : IpcReply → Prop
  | result id v => id < UInt64.size ∧ v ≠ .null ∧ numerals v = true
  | error id _ _ => id < UInt64.size
  | event id _ => id < UInt64.size

theorem IpcReply.Plain.sendable {r : IpcReply} (h : r.Plain) :
    r.toLine.Sendable ∧ numerals r.toLine.toValue = true := by
  cases r with
  | result id v =>
    obtain ⟨hid, hnull, hv⟩ := h
    refine ⟨⟨hid, by simpa [toLine] using hnull, by simp [toLine]⟩, ?_⟩
    simp [toLine, ReplyLine.toValue, ReplyLine.members, Value.someMember, numerals,
      membersNumerals, hv]
  | error id code message => exact ⟨⟨h, by simp [toLine], by simp [toLine]⟩, rfl⟩
  | event id e =>
    cases e <;> exact ⟨⟨h, by simp [toLine], by simp [toLine, InviteEvent.toPair]⟩, rfl⟩

/-- **Replies are read back.**  Whatever replies the daemon writes on a connection, and wherever the
    stream is cut, `IpcConn::reply` returns the first of them, one after the other: all whose lines
    are complete, and no reply that was not sent.  It ends at a clean end of file iff the cut is
    between two lines, or takes no more than the last newline. -/
theorem replies_read_back {S : SerdeJson} {replies : List IpcReply} {cut : List UInt8}
    (hplain : ∀ r ∈ replies, r.Plain) (hS : ∀ r ∈ replies, SerdeJson.Reads S r.toLine.toValue)
    (hcut : cut <+: wire 10 (fun r : IpcReply => toStr r.toLine.toValue) replies) :
    ∃ k ≤ replies.length,
      (readAll 10 (readReply S) cut).1 = (replies.take k).map IpcReply.toLine ∧
      (∀ j ≤ replies.length,
        wire 10 (fun r : IpcReply => toStr r.toLine.toValue) (replies.take j) <+: cut → j ≤ k) ∧
      ((readAll 10 (readReply S) cut).2 = none ↔
        cut = wire 10 (fun r : IpcReply => toStr r.toLine.toValue) (replies.take k) ∨
        cut ++ [10] = wire 10 (fun r : IpcReply => toStr r.toLine.toValue) (replies.take k)) := by
  refine readAll_cut (fun r hr => ?_) hcut
  obtain ⟨hsend, hnum⟩ := (hplain r hr).sendable
  exact ReplyLine.Read.agree ⟨hsend, hnum, hS r hr⟩

theorem reads_ofValue (v : Value) : SerdeJson.Reads (.ofValue v) v where
  whole := if_pos rfl
  part := fun _ _ hpart => ⟨_, if_neg hpart⟩

/-- An error with a newline, quotes and a letter outside ASCII. -/
def oddError : IpcReply := .error 1 .badRequest "no\n\"such\" ð"

/-- Sent twice and cut after the first byte of the second, it is read once. -/
theorem replies_read_back_odd : ∃ k ≤ 2, 1 ≤ k ∧
    (readAll 10 (readReply (.ofValue oddError.toLine.toValue))
      (toStr oddError.toLine.toValue ++ 10 :: [0x7b])).1 =
      ([oddError, oddError].take k).map IpcReply.toLine := by
  have hplain : ∀ r ∈ [oddError, oddError], r.Plain := by
    intro r hr
    have hr : r = oddError := by simpa using hr
    rw [hr]
    show 1 < UInt64.size
    decide
  have hS : ∀ r ∈ [oddError, oddError],
      SerdeJson.Reads (.ofValue oddError.toLine.toValue) r.toLine.toValue := by
    intro r hr
    have hr : r = oddError := by simpa using hr
    rw [hr]
    exact reads_ofValue _
  have hhead : ∃ rest, toStr oddError.toLine.toValue = 0x7b :: rest := by
    refine ⟨utf8 (membersText oddError.toLine.members ++ ['\x7d']), ?_⟩
    rw [toStr, ReplyLine.toValue, valueText]
    rfl
  obtain ⟨rest, hrest⟩ := hhead
  have hcut : toStr oddError.toLine.toValue ++ 10 :: [0x7b] <+:
      wire 10 (fun r : IpcReply => toStr r.toLine.toValue) [oddError, oddError] := by
    rw [wire_cons, wire_cons, wire_nil]
    refine ⟨rest ++ [10], ?_⟩
    rw [List.append_assoc]
    show _ ++ 10 :: 0x7b :: (rest ++ [10]) = _
    rw [← List.cons_append, ← hrest]
  obtain ⟨k, hk, hread, hcomplete, -⟩ := replies_read_back hplain hS hcut
  refine ⟨k, hk, hcomplete 1 (by simp) ?_, hread⟩
  rw [List.take_succ_cons, wire_cons]
  exact ⟨[0x7b], by simp⟩

theorem asTtl_int {n : ℕ} (h : n < UInt64.size) : asTtl (.int n) = some (some n) := by
  have hsize : UInt64.size = 2 ^ 64 := by norm_num
  rw [hsize] at h
  rw [asTtl, Value.asUnsigned_int h]
  · rfl
  · simp

theorem optionOf_strOrNull (o : Option String) :
    Value.optionOf Value.asStr (strOrNull o) = some o := by
  cases o <;> rfl

/-- The method of a command, as the daemon parses it. -/
def AdminRequest.kind : AdminRequest → Method
  | invite _ _ => .peerInvite
  | decide _ _ => .peerInviteDecide
  | allow _ _ => .peerAllow
  | revoke _ _ => .peerRevoke
  | ls => .peerLs
  | rm _ _ => .peerRm
  | sessions => .daemonSessions
  | ntfyEnable _ => .ntfyEnable
  | ntfyDisable => .ntfyDisable
  | ntfyStatus => .ntfyStatus
  | ntfyTest _ => .ntfyTest

theorem AdminRequest.parse_method (r : AdminRequest) : Method.parse r.method = some r.kind := by
  cases r <;> rfl

theorem InviteParams.fromValue_obj (name : String) (v : Value) :
    fromValue (.obj [("name", .str name), ("ttl", v)]) = (asTtl v).map fun ttl => ⟨name, ttl⟩ := by
  have hname : Value.member "name" [("name", Value.str name), ("ttl", v)] = some (.str name) :=
    Value.member_cons_self (by simp)
  simp only [fromValue, hname, Option.bind_some, Value.asStr_str]
  cases h : asTtl v <;> simp [h]

/-- The handlers get what the command was given. -/
theorem AdminRequest.received_params {r : AdminRequest} (h : r.Sendable) :
    received r.params r.kind = some r := by
  cases r with
  | invite name ttl =>
    cases ttl with
    | none =>
      simp only [received, kind, params, InviteParams.fromValue_obj]
      rfl
    | some ttl =>
      simp only [received, kind, params, InviteParams.fromValue_obj, asTtl_int h, Option.map_some]
  | decide inviteId accept =>
    simp [received, kind, params, DecideParams.fromValue, Value.structFields, Value.member, asBool]
  | allow peer target => simp [received, kind, params, AllowParams.fromValue, Value.structFields_two]
  | revoke peer target =>
    simp [received, kind, params, AllowParams.fromValue, Value.structFields_two]
  | rm peer force => simp [received, kind, params, RmParams.fromValue, Value.member, asBool]
  | ntfyEnable server =>
    cases server <;> simp [received, kind, params, ntfyEnableParams, strOrNull, asServer]
  | ntfyTest message =>
    simp [received, kind, params, ntfyTestParams, Value.memberOr, optionOf_strOrNull]
  | _ => rfl

theorem AdminRequest.numerals_params (r : AdminRequest) : numerals r.params = true := by
  cases r with
  | invite name ttl => cases ttl <;> rfl
  | ntfyEnable server => cases server <;> rfl
  | ntfyTest message => cases message <;> rfl
  | _ => rfl

/-- **Requests are read back.**  Whatever requests the admin client sends on a connection, and
    wherever the stream is cut, `handle_conn` reads the first of them, in order: all whose lines are
    complete, and none that was not sent.  Each is dispatched to the handler of its method, which
    gets the arguments of the command. -/
theorem requests_read_back {S : SerdeJson} {sent : List (ℕ × AdminRequest)} {cut : List UInt8}
    (hsent : ∀ q ∈ sent, q.1 < UInt64.size ∧ q.2.Sendable)
    (hS : ∀ q ∈ sent, SerdeJson.Reads S (q.2.toRequest q.1).toValue)
    (hcut : cut <+: wire 10 (fun q : ℕ × AdminRequest => toStr (q.2.toRequest q.1).toValue) sent) :
    (∃ k ≤ sent.length,
      (readAll 10 (readInput S) cut).1 =
        (sent.take k).map (fun q => .request (q.2.toRequest q.1)) ∧
      (∀ j ≤ sent.length, wire 10 (fun q : ℕ × AdminRequest =>
        toStr (q.2.toRequest q.1).toValue) (sent.take j) <+: cut → j ≤ k) ∧
      ((readAll 10 (readInput S) cut).2 = none ↔
        cut = wire 10 (fun q : ℕ × AdminRequest =>
          toStr (q.2.toRequest q.1).toValue) (sent.take k) ∨
        cut ++ [10] = wire 10 (fun q : ℕ × AdminRequest =>
          toStr (q.2.toRequest q.1).toValue) (sent.take k))) ∧
    ∀ q ∈ sent, ∃ m, Method.parse (q.2.toRequest q.1).method = some m ∧
      AdminRequest.received (q.2.toRequest q.1).params m = some q.2 := by
  refine ⟨?_, fun q hq => ⟨q.2.kind, q.2.parse_method, AdminRequest.received_params (hsent q hq).2⟩⟩
  refine readAll_cut (fun q hq => ?_) hcut
  refine IpcRequest.Read.agree ⟨(hsent q hq).1, ?_, q.2.numerals_params, hS q hq⟩
  show (Method.parse q.2.method).isSome = true
  rw [q.2.parse_method]
  rfl

/-- An invite that lives for ten minutes. -/
def inviteTenMinutes : AdminRequest := .invite "laptop" (some 600)

/-- Its line is read as it, and its handler gets the name and the time. -/
theorem requests_read_back_invite :
    (∃ k ≤ 1, 1 ≤ k ∧ (readAll 10 (readInput (.ofValue (inviteTenMinutes.toRequest 1).toValue))
      (toStr (inviteTenMinutes.toRequest 1).toValue ++ [10])).1 =
      ([(1, inviteTenMinutes)].take k).map (fun q => .request (q.2.toRequest q.1))) ∧
    ∃ m, Method.parse (inviteTenMinutes.toRequest 1).method = some m ∧
      AdminRequest.received (inviteTenMinutes.toRequest 1).params m = some inviteTenMinutes := by
  have hsent : ∀ q ∈ [(1, inviteTenMinutes)], q.1 < UInt64.size ∧ q.2.Sendable := by
    intro q hq
    rw [List.mem_singleton.mp hq]
    refine ⟨by decide, ?_⟩
    show 600 < UInt64.size
    decide
  have hS : ∀ q ∈ [(1, inviteTenMinutes)], SerdeJson.Reads
      (.ofValue (inviteTenMinutes.toRequest 1).toValue) (q.2.toRequest q.1).toValue := by
    intro q hq
    rw [List.mem_singleton.mp hq]
    exact reads_ofValue _
  have hcut : toStr (inviteTenMinutes.toRequest 1).toValue ++ [10] <+:
      wire 10 (fun q : ℕ × AdminRequest => toStr (q.2.toRequest q.1).toValue)
        [(1, inviteTenMinutes)] := by
    rw [wire_cons, wire_nil]
  obtain ⟨⟨k, hk, hread, hcomplete, -⟩, hreceived⟩ := requests_read_back hsent hS hcut
  refine ⟨⟨k, hk, hcomplete 1 (Nat.le_refl 1) ?_, hread⟩, hreceived (1, inviteTenMinutes) (by simp)⟩
  rw [List.take_succ_cons, wire_cons]
  exact List.prefix_rfl

end Tmite.Daemon
