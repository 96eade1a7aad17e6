import Tmite.Lib.Serde
import Tmite.Proto.Stream

namespace Tmite.Proto

open Tmite.Core Serde

/-!
# Typed frames (`encode_frame` and `decode_payload` at the two frame types)

A frame goes through a JSON value: `toValue` and `fromValue` are what `#[derive(Serialize,
Deserialize)]` makes of the `serde` attributes of the source, `SerdeJson` is the crate that
prints values and parses them.  `valueText` is the compact text the crate prints.

`fromValue` inverts `toValue` for every frame, so with a crate that reads back what it printed
a frame survives encoding, framing and either decoder (`typed_frames_round_trip`).
-/

/-! ### The JSON text -/

mutual

/-- `serde_json::to_vec`, as characters: no blanks, members in the order they are written. -/
def valueText : Value → List Char
  | .null => "null".toList
  | .bool b => (if b then "true" else "false").toList
  | .int n => if n < 0 then '-' :: jsonNat n.natAbs else jsonNat n.natAbs
  | .float text => text.toList
  | .str s => jsonStr s
  | .arr items => '[' :: itemsText items ++ [']']
  | .obj members => '\x7b' :: membersText members ++ ['\x7d']

def itemsText : List Value → List Char
  | [] => []
  | [v] => valueText v
  | v :: items => valueText v ++ ',' :: itemsText items

def membersText : List (String × Value) → List Char
  | [] => []
  | [(name, v)] => jsonStr name ++ ':' :: valueText v
  | (name, v) :: members => jsonStr name ++ ':' :: valueText v ++ ',' :: membersText members

end

/-! ### The crate -/

/-- `serde_json`: how it prints a value and what it makes of bytes.  `dataError` is the text of
    the error where the bytes are a value, but not one of the type asked for. -/
structure SerdeJson where
  toVec : Value → List UInt8
  fromSlice : List UInt8 → Except String Value
  dataError : List UInt8 → String

/-- The crate reads `v` back from what it prints for it. -/
def SerdeJson.RoundTrips (S : SerdeJson) (v : Value) : Prop := S.fromSlice (S.toVec v) = .ok v

/-- `decode_payload`. -/
def decodePayload {F : Type} (S : SerdeJson) (fromValue : Value → Option F)
    (payload : List UInt8) : Except FrameError F :=
  match S.fromSlice payload with
  | .error e => .error (.invalidPayload e)
  | .ok v =>
    match fromValue v with
    | none => .error (.invalidPayload (S.dataError payload))
    | some f => .ok f

/-- `read_frame`. -/
def readFrame {F : Type} (S : SerdeJson) (fromValue : Value → Option F)
    (finishedEarly : ℕ → String) (s : RecvStream) : FrameResult F × RecvStream :=
  match readRaw finishedEarly s with
  | (.error e, s) => (.error e, s)
  | (.ok (msgType, payload), s) =>
    match decodePayload S fromValue payload with
    | .error e => (.error (.frame e), s)
    | .ok parsed => (.ok (msgType, parsed), s)

/-! ### Pairing frames -/

/-- `u8`. -/
def asU8 (v : Value) : Option UInt8 := (v.asUnsigned UInt8.size).map UInt8.ofNat

/-- `u16`. -/
def asU16 (v : Value) : Option UInt16 := (v.asUnsigned UInt16.size).map UInt16.ofNat

/-- `#[serde(rename_all = "snake_case")]`, a plain string. -/
def PairDenyReason.toValue (reason : PairDenyReason) : Value := .str reason.jsonName

/-- The reason of that name. -/
def PairDenyReason.ofName (name : String) : Option PairDenyReason :=
  [nameTaken, adminDenied, expired, serverError, busy].find? (fun r => r.jsonName = name)

def PairDenyReason.fromValue (v : Value) : Option PairDenyReason := do
  let (name, content) ← v.externalTag
  let reason ← PairDenyReason.ofName name
  Value.unitVariant content
  return reason

/-- `[u8; 32]`. -/
def bytes32ToValue (bytes : Bytes32) : Value := .arr (bytes.1.map (fun b => .int b.toNat))

def bytes32FromValue (v : Value) : Option Bytes32 := do
  let bytes ← v.readAll asU8
  if h : bytes.length = 32 then some ⟨bytes, h⟩ else none

/-- An internally tagged variant: the tag first, then the fields. -/
def tagged (name : String) (members : List (String × Value)) : Value :=
  .obj (("type", .str name) :: members)

/-- `#[serde(tag = "type", rename_all = "snake_case")]`. -/
def PairingFrame.toValue : PairingFrame → Value
  | version v => tagged "version" [("version", .int v.toNat)]
  | pairHello clientVersion => tagged "pair_hello" [("client_version", .str clientVersion)]
  | pairWait => tagged "pair_wait" []
  | pairConfirm nodeId name =>
    tagged "pair_confirm" [("node_id", bytes32ToValue nodeId), ("name", .str name)]
  | pairDeny reason => tagged "pair_deny" [("reason", reason.toValue)]

/-- The fields of the variant `name`. -/
def PairingFrame.variantFromValue (name : String) (content : Value) : Option PairingFrame :=
  if name = "version" then do
    let [v] ← content.structFields ["version"] | none
    return version (← asU16 v)
  else if name = "pair_hello" then do
    let [v] ← content.structFields ["client_version"] | none
    return pairHello (← v.asStr)
  else if name = "pair_wait" then do
    let [] ← content.structFields [] | none
    return pairWait
  else if name = "pair_confirm" then do
    let [nodeId, name] ← content.structFields ["node_id", "name"] | none
    return pairConfirm (← bytes32FromValue nodeId) (← name.asStr)
  else if name = "pair_deny" then do
    let [reason] ← content.structFields ["reason"] | none
    return pairDeny (← PairDenyReason.fromValue reason)
  else none

def PairingFrame.fromValue (v : Value) : Option PairingFrame := do
  let (name, content) ← v.internalTag "type"
  variantFromValue name content

/-! ### Data frames -/

/-- `#[serde(rename_all = "snake_case")]`: a string, or an object where there is a field. -/
def DataDenyReason.toValue : DataDenyReason → Value
  | unauthorized => .str "unauthorized"
  | targetUnreachable osError => .obj [("target_unreachable", .obj [("os_error", .str osError)])]
  | serverError => .str "server_error"

def DataDenyReason.fromValue (v : Value) : Option DataDenyReason := do
  let (name, content) ← v.externalTag
  if name = "unauthorized" then
    Value.unitVariant content
    return unauthorized
  else if name = "target_unreachable" then
    let [osError] ← Value.structVariant ["os_error"] content | none
    return targetUnreachable (← osError.asStr)
  else if name = "server_error" then
    Value.unitVariant content
    return serverError
  else none

def SessionForward.toValue (f : SessionForward) : Value :=
  .obj [("local", .str f.localAddr), ("target", .str f.target)]

def SessionForward.fromValue (v : Value) : Option SessionForward := do
  let [localAddr, target] ← v.structFields ["local", "target"] | none
  return ⟨← localAddr.asStr, ← target.asStr⟩

/-- `#[serde(tag = "type", rename_all = "snake_case")]`. -/
def DataFrame.toValue : DataFrame → Value
  | forward target => tagged "forward" [("target", .str target)]
  | validate target => tagged "validate" [("target", .str target)]
  | ok => tagged "ok" []
  | deny reason => tagged "deny" [("reason", reason.toValue)]
  | session forwards => tagged "session" [("forwards", .arr (forwards.map SessionForward.toValue))]

/-- `serde_json::to_vec` of a data frame, for evaluating the model. -/
def DataFrame.json (f : DataFrame) : List UInt8 :=
  (valueText f.toValue).flatMap String.utf8EncodeChar

/-- The fields of the variant `name`. -/
def DataFrame.variantFromValue (name : String) (content : Value) : Option DataFrame :=
  if name = "forward" then do
    let [target] ← content.structFields ["target"] | none
    return forward (← target.asStr)
  else if name = "validate" then do
    let [target] ← content.structFields ["target"] | none
    return validate (← target.asStr)
  else if name = "ok" then do
    let [] ← content.structFields [] | none
    return ok
  else if name = "deny" then do
    let [reason] ← content.structFields ["reason"] | none
    return deny (← DataDenyReason.fromValue reason)
  else if name = "session" then do
    let [forwards] ← content.structFields ["forwards"] | none
    return session (← forwards.readAll SessionForward.fromValue)
  else none

def DataFrame.fromValue (v : Value) : Option DataFrame := do
  let (name, content) ← v.internalTag "type"
  variantFromValue name content

/-! ### The text of a pairing frame -/

theorem valueText_nat (n : ℕ) : valueText (.int n) = jsonNat n := by
  rw [valueText, if_neg (by omega), Int.natAbs_natCast]

theorem itemsText_bytes (bytes : List UInt8) :
    itemsText (bytes.map (fun b => .int b.toNat)) =
      (List.intersperse [','] (bytes.map (fun b => jsonNat b.toNat))).flatten := by
  induction bytes with
  | nil => rfl
  | cons b bytes ih =>
    cases bytes with
    | nil => simp [itemsText, valueText_nat]
    | cons b' bytes =>
      rw [List.map_cons] at ih
      simp only [List.map_cons, itemsText, valueText_nat, ih]
      simp

/-- `PairingFrame.jsonText` is the text of the frame's value. -/
theorem PairingFrame.jsonText_eq (f : PairingFrame) : f.jsonText = valueText f.toValue := by
  cases f with
  | version v =>
    have hhead : "\x7b\"type\":\"version\",\"version\":".toList =
        '\x7b' :: jsonStr "type" ++ ':' :: jsonStr "version" ++ ',' :: jsonStr "version" ++
          [':'] := by
      decide +kernel
    unfold jsonText
    simp [hhead, toValue, tagged, valueText, membersText]
  | pairHello clientVersion =>
    have hhead : "\x7b\"type\":\"pair_hello\",\"client_version\":".toList =
        '\x7b' :: jsonStr "type" ++ ':' :: jsonStr "pair_hello" ++ ',' ::
          jsonStr "client_version" ++ [':'] := by
      decide +kernel
    unfold jsonText
    simp [hhead, toValue, tagged, valueText, membersText]
  | pairWait => decide +kernel
  | pairConfirm nodeId name =>
    have hhead : "\x7b\"type\":\"pair_confirm\",\"node_id\":".toList =
        '\x7b' :: jsonStr "type" ++ ':' :: jsonStr "pair_confirm" ++ ',' ::
          jsonStr "node_id" ++ [':'] := by
      decide +kernel
    have hname : ",\"name\":".toList = ',' :: jsonStr "name" ++ [':'] := by decide +kernel
    unfold jsonText
    simp [hhead, hname, jsonBytes, ← itemsText_bytes, toValue, tagged, valueText,
      membersText, bytes32ToValue]
  | pairDeny reason => cases reason <;> decide +kernel

/-! ### Reading back what was written -/

theorem PairDenyReason.fromValue_toValue (reason : PairDenyReason) :
    fromValue reason.toValue = some reason := by
  cases reason <;> decide

theorem asU8_int (b : UInt8) : asU8 (.int b.toNat) = some b := by
  rw [asU8, Value.asUnsigned_int b.toNat_lt_size, Option.map_some, UInt8.ofNat_toNat]

theorem asU16_int (n : UInt16) : asU16 (.int n.toNat) = some n := by
  rw [asU16, Value.asUnsigned_int n.toNat_lt_size, Option.map_some, UInt16.ofNat_toNat]

theorem bytes32FromValue_toValue (bytes : Bytes32) :
    bytes32FromValue (bytes32ToValue bytes) = some bytes := by
  have hall := Value.readAll_map asU8_int bytes.1
  simp only [bytes32FromValue, bytes32ToValue, hall, Option.bind_eq_bind, Option.bind_some,
    bytes.2, dif_pos]

theorem PairingFrame.fromValue_tagged {name : String} {members : List (String × Value)}
    (h : "type" ∉ members.map Prod.fst) :
    fromValue (tagged name members) = variantFromValue name (.obj members) := by
  rw [fromValue, tagged, Value.internalTag_obj h]
  rfl

/-- Every pairing frame is read back from its value. -/
theorem PairingFrame.fromValue_toValue (f : PairingFrame) : fromValue f.toValue = some f := by
  cases f with
  | version v =>
    have hread : ∀ x, variantFromValue "version" (.obj [("version", x)]) =
        (asU16 x).bind fun v => some (version v) := by
      intro x
      simp [variantFromValue]
    rw [toValue, fromValue_tagged (by simp), hread, asU16_int, Option.bind_some]
  | pairHello clientVersion =>
    rw [toValue, fromValue_tagged (by simp)]
    simp [variantFromValue]
  | pairWait =>
    rw [toValue, fromValue_tagged (by simp)]
    simp [variantFromValue]
  | pairConfirm nodeId name =>
    rw [toValue, fromValue_tagged (by simp)]
    simp [variantFromValue, Value.structFields_two, bytes32FromValue_toValue]
  | pairDeny reason =>
    rw [toValue, fromValue_tagged (by simp)]
    simp [variantFromValue, PairDenyReason.fromValue_toValue]

theorem DataDenyReason.fromValue_toValue (reason : DataDenyReason) :
    fromValue reason.toValue = some reason := by
  cases reason with
  | unauthorized => decide
  | targetUnreachable osError =>
    simp [fromValue, toValue, Value.externalTag, Value.structVariant]
  | serverError => decide

theorem SessionForward.fromValue_toValue (f : SessionForward) :
    fromValue f.toValue = some f := by
  simp [fromValue, toValue, Value.structFields_two]

theorem DataFrame.fromValue_tagged {name : String} {members : List (String × Value)}
    (h : "type" ∉ members.map Prod.fst) :
    fromValue (tagged name members) = variantFromValue name (.obj members) := by
  rw [fromValue, tagged, Value.internalTag_obj h]
  rfl

/-- Every data frame is read back from its value. -/
theorem DataFrame.fromValue_toValue (f : DataFrame) : fromValue f.toValue = some f := by
  cases f with
  | forward target =>
    rw [toValue, fromValue_tagged (by simp)]
    simp [variantFromValue]
  | validate target =>
    rw [toValue, fromValue_tagged (by simp)]
    simp [variantFromValue]
  | ok =>
    rw [toValue, fromValue_tagged (by simp)]
    simp [variantFromValue]
  | deny reason =>
    rw [toValue, fromValue_tagged (by simp)]
    simp [variantFromValue, DataDenyReason.fromValue_toValue]
  | session forwards =>
    have hall := Value.readAll_map SessionForward.fromValue_toValue forwards
    rw [toValue, fromValue_tagged (by simp)]
    simp [variantFromValue, hall]

/-! ### Through the frame -/

section RoundTrip

variable {F : Type} (S : SerdeJson) {toValue : F → Value} {fromValue : Value → Option F}

/-- `decode_payload` on what was printed. -/
theorem decodePayload_toVec (hvalue : ∀ f, fromValue (toValue f) = some f) {f : F}
    (hjson : S.RoundTrips (toValue f)) :
    decodePayload S fromValue (S.toVec (toValue f)) = .ok f := by
  rw [decodePayload, show S.fromSlice (S.toVec (toValue f)) = .ok (toValue f) from hjson]
  simp only [hvalue]

/-- A frame that encodes is read back by both decoders, and the stream is left after it. -/
theorem encodeFrame_round_trip (finishedEarly : ℕ → String)
    (hvalue : ∀ f, fromValue (toValue f) = some f) {f : F} {msgType : UInt8}
    {b : List UInt8} (hjson : S.RoundTrips (toValue f))
    (henc : encodeFrame (fun f => S.toVec (toValue f)) msgType f = .ok b) :
    (∃ payload, parseFrame b = .ok (msgType, payload) ∧
        decodePayload S fromValue payload = .ok f) ∧
      ∀ rest tail, readFrame S fromValue finishedEarly ⟨b ++ rest, tail⟩ =
        (.ok (msgType, f), ⟨rest, tail⟩) := by
  have hframe : frameBytes msgType (S.toVec (toValue f)) = .ok b := henc
  have hdec := decodePayload_toVec S hvalue hjson
  refine ⟨⟨_, parseFrame_iff.mpr hframe, hdec⟩, fun rest tail => ?_⟩
  rw [readFrame, readRaw_append finishedEarly hframe]
  simp only [hdec]

end RoundTrip

/-! ### Type bytes -/

/-- The type byte of a pairing frame is that of its variant, and no other variant's. -/
theorem PairingFrame.msgType_inj (f g : PairingFrame) :
    f.msgType = g.msgType ↔ f.ctorIdx = g.ctorIdx := by
  have htable : ∀ f : PairingFrame, f.ctorIdx < 5 ∧ f.msgType =
      [typeVersion, typePairHello, typePairWait, typePairConfirm, typePairDeny].getD
        f.ctorIdx 0 := by
    intro f
    cases f <;> exact ⟨Nat.le_of_ble_eq_true rfl, rfl⟩
  have hdistinct : ∀ i < 5, ∀ j < 5,
      [typeVersion, typePairHello, typePairWait, typePairConfirm, typePairDeny].getD i 0 =
        [typeVersion, typePairHello, typePairWait, typePairConfirm, typePairDeny].getD j 0 ↔
      i = j := by
    decide
  rw [(htable f).2, (htable g).2]
  exact hdistinct _ (htable f).1 _ (htable g).1

/-- The same for data frames. -/
theorem DataFrame.msgType_inj (f g : DataFrame) :
    f.msgType = g.msgType ↔ f.ctorIdx = g.ctorIdx := by
  have htable : ∀ f : DataFrame, f.ctorIdx < 5 ∧ f.msgType =
      [typeForward, typeValidate, typeOk, typeDeny, typeSession].getD f.ctorIdx 0 := by
    intro f
    cases f <;> exact ⟨Nat.le_of_ble_eq_true rfl, rfl⟩
  have hdistinct : ∀ i < 5, ∀ j < 5,
      [typeForward, typeValidate, typeOk, typeDeny, typeSession].getD i 0 =
        [typeForward, typeValidate, typeOk, typeDeny, typeSession].getD j 0 ↔ i = j := by
    decide
  rw [(htable f).2, (htable g).2]
  exact hdistinct _ (htable f).1 _ (htable g).1

/-- **Typed round trip.** A pairing frame or data frame that encodes is given back, with its
    type byte, by `parse_frame` and `decode_payload` and by `read_frame`, and the type byte
    tells the variants of a protocol apart. -/
theorem typed_frames_round_trip (S : SerdeJson) (finishedEarly : ℕ → String) :
    (∀ (f : PairingFrame) (b : List UInt8), S.RoundTrips f.toValue →
      encodeFrame (fun f => S.toVec f.toValue) f.msgType f = .ok b →
      (∃ payload, parseFrame b = .ok (f.msgType, payload) ∧
          decodePayload S PairingFrame.fromValue payload = .ok f) ∧
        ∀ rest tail, readFrame S PairingFrame.fromValue finishedEarly ⟨b ++ rest, tail⟩ =
          (.ok (f.msgType, f), ⟨rest, tail⟩)) ∧
    (∀ (f : DataFrame) (b : List UInt8), S.RoundTrips f.toValue →
      encodeFrame (fun f => S.toVec f.toValue) f.msgType f = .ok b →
      (∃ payload, parseFrame b = .ok (f.msgType, payload) ∧
          decodePayload S DataFrame.fromValue payload = .ok f) ∧
        ∀ rest tail, readFrame S DataFrame.fromValue finishedEarly ⟨b ++ rest, tail⟩ =
          (.ok (f.msgType, f), ⟨rest, tail⟩)) ∧
    (∀ f g : PairingFrame, f.msgType = g.msgType ↔ f.ctorIdx = g.ctorIdx) ∧
    (∀ f g : DataFrame, f.msgType = g.msgType ↔ f.ctorIdx = g.ctorIdx) := by
  refine ⟨?_, ?_, ?_, ?_⟩
  · intro f b hjson henc
    exact encodeFrame_round_trip S finishedEarly PairingFrame.fromValue_toValue hjson henc
  · intro f b hjson henc
    exact encodeFrame_round_trip S finishedEarly DataFrame.fromValue_toValue hjson henc
  · exact PairingFrame.msgType_inj
  · exact DataFrame.msgType_inj

/-- The crate, as far as the text of `v` goes. -/
def SerdeJson.ofValue (v : Value) : SerdeJson where
  toVec v := (valueText v).flatMap String.utf8EncodeChar
  fromSlice bytes :=
    if bytes = (valueText v).flatMap String.utf8EncodeChar then .ok v
    else .error "expected value at line 1 column 1"
  dataError _ := "invalid value"

theorem exists_of_isOk {ε α : Type} {r : Except ε α} (h : r.isOk = true) : ∃ a, r = .ok a := by
  cases r with
  | error e => exact absurd h (by simp [Except.isOk, Except.toBool])
  | ok a => exact ⟨a, rfl⟩

/-- A reason with a quote, a backslash, a control character and a letter outside ASCII. -/
def oddDeny : DataFrame := .deny (.targetUnreachable "\"\\\nð")

/-- It is read back, and the two bytes after it are left. -/
theorem typed_frames_round_trip_odd : ∃ b,
    encodeFrame (fun f => (SerdeJson.ofValue oddDeny.toValue).toVec f.toValue) typeDeny oddDeny
        = .ok b ∧
      readFrame (.ofValue oddDeny.toValue) DataFrame.fromValue (fun _ => "")
        ⟨b ++ [1, 2], .silent⟩ = (.ok (typeDeny, oddDeny), ⟨[1, 2], .silent⟩) := by
  have hjson : (SerdeJson.ofValue oddDeny.toValue).RoundTrips oddDeny.toValue := by
    simp only [SerdeJson.RoundTrips, SerdeJson.ofValue, if_true]
  have hok : (encodeFrame (fun f => (SerdeJson.ofValue oddDeny.toValue).toVec f.toValue)
      typeDeny oddDeny).isOk = true := by
    decide +kernel
  obtain ⟨b, hb⟩ := exists_of_isOk hok
  obtain ⟨-, hdata, -, -⟩ :=
    typed_frames_round_trip (.ofValue oddDeny.toValue) (fun _ => "")
  exact ⟨b, hb, (hdata oddDeny b hjson hb).2 [1, 2] .silent⟩

end Tmite.Proto
