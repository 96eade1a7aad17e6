import Tmite.Client.FwdSpec
import Tmite.Daemon.DataPlane
import Tmite.Daemon.Dispatch
import Tmite.Proto.FrameSize

namespace Tmite.Relay

open Tmite.Core Tmite.Proto Tmite.Daemon Tmite.Client Serde

/-!
# A granted target, from the command line to the ACL check

What `dispatch_allow` accepts as a target is written on the client's command line, split and
joined, put into a JSON string, framed, read, checked for its shape again and compared with the
rules byte for byte.  `length_requestFrame` bounds what escaping adds; the rest is put together
from the round trips of the modules this one imports.
-/

universe v
variable {Text : Type v}

/-! ### The two requests -/

/-- `FORWARD` or `VALIDATE`. -/
def requestFrame (isForward : Bool) (target : String) : DataFrame :=
  if isForward then .forward target else .validate target

/-- A request for a target of the allowed length fits a frame, whatever has to be escaped. -/
theorem length_requestFrame {target : String} (h : target.utf8ByteSize ≤ maxTargetLen)
    (isForward : Bool) : (requestFrame isForward target).json.length ≤ maxControlFrame := by
  have hstr := length_utf8_jsonStr_le target
  have htext : ∀ name : String, valueText (tagged name [("target", .str target)]) =
      '\x7b' :: (jsonStr "type" ++ ':' :: jsonStr name ++ ',' :: (jsonStr "target" ++
        ':' :: jsonStr target)) ++ ['\x7d'] := by
    intro name
    simp [tagged, valueText, membersText]
  have hlen : ∀ name : String, (utf8 (jsonStr name)).length ≤ 100 →
      (utf8 (valueText (tagged name [("target", .str target)]))).length ≤ maxControlFrame := by
    intro name hname
    have htype : (utf8 (jsonStr "type")).length = 6 := by decide +kernel
    have htarget : (utf8 (jsonStr "target")).length = 8 := by decide +kernel
    have hpunct : ['\x7b', ':', ',', '\x7d'].all (fun c => (String.utf8EncodeChar c).length == 1) := by
      decide
    simp only [List.all_cons, List.all_nil, Bool.and_true, Bool.and_eq_true, beq_iff_eq] at hpunct
    obtain ⟨hopen, hcolon, hcomma, hclose⟩ := hpunct
    rw [htext]
    simp only [List.cons_append, List.append_assoc, utf8_cons, utf8_append, utf8_nil,
      List.length_append, List.length_nil, htype, htarget, hopen, hcolon, hcomma, hclose]
    unfold maxControlFrame
    unfold maxTargetLen at h
    omega
  cases isForward with
  | false => exact hlen "validate" (by decide +kernel)
  | true => exact hlen "forward" (by decide +kernel)

/-! ### From the command line to the dial -/

/-- The stream's request once it has been read: its shape passes. -/
theorem read_requestFrame {target : String} (h : validTarget target = true) (isForward : Bool)
    (st : Stream) :
    st.read (.ok ((requestFrame isForward target).msgType, requestFrame isForward target)) =
      { st with pc := .acl isForward target } := by
  cases isForward <;> simp [requestFrame, Stream.read, firstFrame, DataFrame.msgType, h]

/-- The rule is in the list. -/
theorem ruleAllows_of_mem {store : State Text} {r : Rule} (hr : r ∈ store.inner.rules) :
    store.ruleAllows r.peer r.target = true := by
  refine List.any_eq_true.mpr ⟨r, hr, ?_⟩
  simp

/-- **Granted targets are reachable as typed.**  Let `dispatch_allow` have accepted `target` for
    `peer`.  With any local port in front it parses as a spec of exactly that target; its
    `VALIDATE` and `FORWARD` encode; and a stream handler under that peer's name that reads the
    encoding finds the shape valid and, in every store with the rule, the ACL open: it answers a
    `VALIDATE` with OK, and dials for a `FORWARD`, after which it never denies it as unauthorized
    or as an error of its own. -/
theorem granted_target_reachable {T : Toml PersistedState Text}
    {fault : Option (WriteFault Text)} {paramsError : Value → String} {s : State Text}
    {params : Value} {now : String} {peer target : String} {index : ℕ}
    (hparams : AllowParams.fromValue params = some ⟨peer, target⟩)
    (hallow : (dispatchAllow T fault paramsError s params now).reply = .ok index)
    (S : SerdeJson) (finishedEarly : ℕ → String) (isForward : Bool)
    (hprint : S.toVec (requestFrame isForward target).toValue =
      (requestFrame isForward target).json)
    (hread : S.RoundTrips (requestFrame isForward target).toValue) :
    (∀ p : ℕ, 1 ≤ p → p ≤ 65535 →
      parseFwdSpec (toString p ++ ":" ++ target) = .ok ⟨.localhost, p, target⟩) ∧
    ∃ b, encodeFrame (fun f => S.toVec f.toValue) (requestFrame isForward target).msgType
        (requestFrame isForward target) = .ok b ∧
      (S.toVec (requestFrame isForward target).toValue).length ≤ maxControlFrame ∧
      ∀ (rest : List UInt8) (tail : StreamTail) (st : Stream), st.peerName = peer →
        st.read (readFrame S DataFrame.fromValue finishedEarly ⟨b ++ rest, tail⟩).1 =
          { st with pc := .acl isForward target } ∧
        ∀ store : State Text, (∃ r ∈ store.inner.rules, r.peer = peer ∧ r.target = target) →
          store.ruleAllows peer target = true ∧
          (isForward = false →
            ({ st with pc := .acl isForward target } : Stream).checkAcl store isForward target =
              { st with pc := .closed, sent := st.sent ++ [.ok] }) ∧
          (isForward = true →
            ({ st with pc := .acl isForward target } : Stream).checkAcl store isForward target =
              { st with pc := .dial target store.inner } ∧
            ∀ outcome, ∃ replies,
              (({ st with pc := .dial target store.inner } : Stream).dialled target outcome).sent =
                st.sent ++ replies ∧
              .deny .unauthorized ∉ replies ∧ .deny .serverError ∉ replies) := by
  -- one predicate, `valid_target`, guards the grant and the stream
  have hvalid := dispatchAllow_ok hparams hallow
  obtain ⟨-, -, -, -, -, hsize⟩ := validTarget_split hvalid
  have hfits : (S.toVec (requestFrame isForward target).toValue).length ≤ maxControlFrame := by
    rw [hprint]
    exact length_requestFrame hsize isForward
  obtain ⟨b, hb⟩ := exists_of_isOk ((encodeFrame_isOk (fun f => S.toVec (DataFrame.toValue f))
    (requestFrame isForward target).msgType (requestFrame isForward target)).mpr hfits)
  refine ⟨fun p _ hp => parseFwdSpec_port_target (by omega) hvalid, b, hb, hfits, ?_⟩
  intro rest tail st hpeer
  have hframe := (encodeFrame_round_trip S finishedEarly DataFrame.fromValue_toValue hread hb).2
    rest tail
  refine ⟨?_, fun store hrule => ?_⟩
  · rw [hframe]
    exact read_requestFrame hvalid isForward st
  · obtain ⟨r, hr, rfl, rfl⟩ := hrule
    have hallows := ruleAllows_of_mem hr
    refine ⟨hallows, ?_, ?_⟩
    · rintro rfl
      simp [Stream.checkAcl, hpeer, hallows]
    · rintro rfl
      refine ⟨by simp [Stream.checkAcl, hpeer, hallows], fun outcome => ?_⟩
      -- past the ACL only the dial can fail, and it says so
      cases outcome with
      | connected => exact ⟨[], by simp [Stream.dialled], by simp, by simp⟩
      | failed e => exact ⟨[.deny (.targetUnreachable e)], rfl, by simp, by simp⟩
      | timedOut =>
        exact ⟨[.deny (.targetUnreachable "connect timed out")], rfl, by simp, by simp⟩

/-- A host with a control character, a quote and a letter outside ASCII. -/
def oddTarget : String := "\x01\"ð:0080"

/-- A store with one peer. -/
def onePeer : State PersistedState := ⟨⟨1, [⟨"laptop", "ab", "", ""⟩], []⟩, .empty⟩

/-- Granted to the peer and asked for by it, on a stream with more bytes to come. -/
theorem granted_target_reachable_odd : ∃ b,
    parseFwdSpec (toString 8080 ++ ":" ++ oddTarget) = .ok ⟨.localhost, 8080, oddTarget⟩ ∧
    (⟨"laptop", ⟨⟨List.replicate 32 0, rfl⟩⟩, .readFrame, []⟩ : Stream).read
        (readFrame (.ofValue (requestFrame true oddTarget).toValue) DataFrame.fromValue
          (fun _ => "") ⟨b ++ [1, 2], .silent⟩).1 =
      ⟨"laptop", ⟨⟨List.replicate 32 0, rfl⟩⟩, .acl true oddTarget, []⟩ := by
  have hallow : (dispatchAllow (Toml.self PersistedState) none (fun _ => "") onePeer
      (.obj [("peer", .str "laptop"), ("target", .str oddTarget)]) "").reply = .ok 0 := by
    decide +kernel
  have hparams : AllowParams.fromValue (.obj [("peer", .str "laptop"), ("target", .str oddTarget)])
      = some ⟨"laptop", oddTarget⟩ := by
    decide +kernel
  obtain ⟨hspec, b, -, -, hstream⟩ := granted_target_reachable hparams hallow
    (.ofValue (requestFrame true oddTarget).toValue) (fun _ => "") true rfl
    (by simp only [SerdeJson.RoundTrips, SerdeJson.ofValue, if_true])
  exact ⟨b, hspec 8080 (by omega) (by omega), (hstream [1, 2] .silent _ rfl).1⟩

end Tmite.Relay
