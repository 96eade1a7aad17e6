import Tmite.Core.PublicKey
import Tmite.Proto.Limits

namespace Tmite.Proto

open Tmite.Core

/-!
# Control frames (`tmite-proto/src/frame.rs`, `tmite-core/src/stream_io.rs`)

A control frame is `u8 msg_type | u32be len | payload` with a JSON payload.  The frames of the
two protocols are inductive types; what a reader gets is `FrameResult`, a type byte with a
decoded frame or the error the read ended in.  `serde_json::to_vec`, which cannot fail at
these types, is a parameter; `PairingFrame.json` is its compact output, for evaluating the
model.
-/

/-! ### Errors -/

/-- `FrameError`; a JSON error carries its text. -/
inductive FrameError
  | tooLarge (len max : ℕ)
  | invalidPayload (e : String)
  | invalidHeader
  | unexpectedType (t : UInt8)
deriving DecidableEq

/-- `FrameIoError`. -/
inductive FrameIoError
  | timeout
  | eof
  | frame (e : FrameError)
  | io (e : String)
deriving DecidableEq

/-- The `#[error]` texts. -/
def FrameError.display : FrameError → String
  | tooLarge len max =>
    "control frame too large (" ++ toString len ++ " bytes, max " ++ toString max ++ ")"
  | invalidPayload _ => "invalid frame payload"
  | invalidHeader => "invalid frame header"
  | unexpectedType t => "unexpected message type 0x" ++ hex [t]

/-- The `#[error]` texts. -/
def FrameIoError.display : FrameIoError → String
  | timeout => "timed out waiting for frame"
  | eof => "stream closed before frame completed"
  | frame e => e.display
  | io e => "stream io error: " ++ e

/-- What `read_frame::<T>` returns. -/
abbrev FrameResult (F : Type) := Except FrameIoError (UInt8 × F)

/-! ### Encoding -/

/-- `u32::to_be_bytes`. -/
def toBeBytes (n : ℕ) : List UInt8 :=
  [UInt8.ofNat (n / 2 ^ 24), UInt8.ofNat (n / 2 ^ 16), UInt8.ofNat (n / 2 ^ 8), UInt8.ofNat n]

/-- `frame_bytes`. -/
def frameBytes (msgType : UInt8) (payload : List UInt8) : Except FrameError (List UInt8) :=
  if maxControlFrame < payload.length then .error (.tooLarge payload.length maxControlFrame)
  else .ok (msgType :: toBeBytes payload.length ++ payload)

/-- `encode_frame`. -/
def encodeFrame {F : Type} (toVec : F → List UInt8) (msgType : UInt8) (payload : F) :
    Except FrameError (List UInt8) :=
  frameBytes msgType (toVec payload)

/-- A frame can be sent at all iff its JSON fits the limit. -/
theorem encodeFrame_isOk {F : Type} (toVec : F → List UInt8) (msgType : UInt8) (f : F) :
    (encodeFrame toVec msgType f).isOk = true ↔ (toVec f).length ≤ maxControlFrame := by
  simp only [encodeFrame, frameBytes]
  split
  · rename_i h
    simp only [Except.isOk, Except.toBool, Bool.false_eq_true, false_iff]
    omega
  · rename_i h
    simp only [Except.isOk, Except.toBool, true_iff]
    omega

/-- `expect_frame`: a frame under another type byte is an error. -/
def expectFrame {F : Type} (msgType : UInt8) (r : FrameResult F) : Except FrameIoError F :=
  match r with
  | .error e => .error e
  | .ok (t, payload) =>
    if t ≠ msgType then .error (.frame (.unexpectedType t)) else .ok payload

/-! ### Pairing frames (ALPN `tmite-pair/1`) -/

def typeVersion : UInt8 := 0x01
def typePairHello : UInt8 := 0x02
def typePairWait : UInt8 := 0x03
def typePairConfirm : UInt8 := 0x04
def typePairDeny : UInt8 := 0x05

inductive PairDenyReason
  | nameTaken
  | adminDenied
  | expired
  | serverError
  | busy
deriving DecidableEq, Repr

inductive PairingFrame
  | version (version : UInt16)
  | pairHello (clientVersion : String)
  | pairWait
  | pairConfirm (nodeId : Bytes32) (name : String)
  | pairDeny (reason : PairDenyReason)
deriving DecidableEq

/-- `PairingFrame::msg_type`. -/
def PairingFrame.msgType : PairingFrame → UInt8
  | version _ => typeVersion
  | pairHello _ => typePairHello
  | pairWait => typePairWait
  | pairConfirm _ _ => typePairConfirm
  | pairDeny _ => typePairDeny

/-- A character inside a JSON string, as `serde_json` escapes it. -/
def jsonChar (c : Char) : List Char :=
  if c = '"' then ['\\', '"']
  else if c = '\\' then ['\\', '\\']
  else if c.toNat = 0x08 then ['\\', 'b']
  else if c.toNat = 0x09 then ['\\', 't']
  else if c.toNat = 0x0a then ['\\', 'n']
  else if c.toNat = 0x0c then ['\\', 'f']
  else if c.toNat = 0x0d then ['\\', 'r']
  else if c.toNat < 0x20 then
    ['\\', 'u', '0', '0', hexDigit (c.toNat / 16), hexDigit (c.toNat % 16)]
  else [c]

/-- A JSON string. -/
def jsonStr (s : String) : List Char := '"' :: s.toList.flatMap jsonChar ++ ['"']

/-- A JSON number. -/
def jsonNat (n : ℕ) : List Char := Nat.toDigits 10 n

/-- A JSON array of bytes. -/
def jsonBytes (bytes : List UInt8) : List Char :=
  '[' :: (List.intersperse [','] (bytes.map (fun b => jsonNat b.toNat))).flatten ++ [']']

/-- The snake-case names of the reasons. -/
def PairDenyReason.jsonName : PairDenyReason → String
  | nameTaken => "name_taken"
  | adminDenied => "admin_denied"
  | expired => "expired"
  | serverError => "server_error"
  | busy => "busy"

/-- The JSON object of a frame: its tag first, then its fields. -/
def PairingFrame.jsonText : PairingFrame → List Char
  | version v => "\x7b\"type\":\"version\",\"version\":".toList ++ jsonNat v.toNat ++ "\x7d".toList
  | pairHello v =>
    "\x7b\"type\":\"pair_hello\",\"client_version\":".toList ++ jsonStr v ++ "\x7d".toList
  | pairWait => "\x7b\"type\":\"pair_wait\"\x7d".toList
  | pairConfirm nodeId name =>
    "\x7b\"type\":\"pair_confirm\",\"node_id\":".toList ++ jsonBytes nodeId.1 ++
      ",\"name\":".toList ++ jsonStr name ++ "\x7d".toList
  | pairDeny reason =>
    "\x7b\"type\":\"pair_deny\",\"reason\":".toList ++ jsonStr reason.jsonName ++ "\x7d".toList

/-- `serde_json::to_vec` of a pairing frame. -/
def PairingFrame.json (f : PairingFrame) : List UInt8 := f.jsonText.flatMap String.utf8EncodeChar

/-! ### Data frames (ALPN `tmite/1`) -/

def typeForward : UInt8 := 0x01
def typeOk : UInt8 := 0x02
def typeDeny : UInt8 := 0x03
def typeValidate : UInt8 := 0x04
def typeSession : UInt8 := 0x05

inductive DataDenyReason
  | unauthorized
  | targetUnreachable (osError : String)
  | serverError
deriving DecidableEq, Repr

/-- One announced local listener in a `SESSION` frame. -/
structure SessionForward where
  localAddr : String
  target : String
deriving DecidableEq, Repr

inductive DataFrame
  | forward (target : String)
  | validate (target : String)
  | ok
  | deny (reason : DataDenyReason)
  | session (forwards : List SessionForward)
deriving DecidableEq

/-- `DataFrame::msg_type`. -/
def DataFrame.msgType : DataFrame → UInt8
  | forward _ => typeForward
  | validate _ => typeValidate
  | ok => typeOk
  | deny _ => typeDeny
  | session _ => typeSession

end Tmite.Proto
