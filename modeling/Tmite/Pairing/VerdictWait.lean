import Tmite.Lib.Timed
import Tmite.Pairing.Agreement
import Tmite.Proto.FrameCodec

namespace Tmite.Pairing

open Tmite.Core Tmite.Proto Tmite.Client Tmite.Daemon Transition Timed

/-!
# How long the client waits for the verdict

After `PAIR_WAIT` the client bounds its wait twice: by a generous timeout around the whole of it,
longer than the admin's prompt can last, and by the deadline that `read_frame` takes, which is
the one of every other pairing frame.  The earlier one decides, and it is the second: a verdict
that takes longer than `PAIRING_READ_TIMEOUT` is not waited for, although the server's prompt is
open four times as long.

Times are milliseconds after `PAIR_WAIT`.  A stream is the bytes with the times at which they
arrive; the inner read is ready when the last byte it needs is there.
-/

universe v w
variable {Text : Type v} {ClientText : Type w}

/-! ### Reading under a deadline -/

/-- When the last of the bytes is there. -/
def lastArrival (bytes : List (ℕ × UInt8)) : ℕ := (bytes.map Prod.fst).foldr max 0

/-- The inner `read` of `read_frame` on bytes that arrive over time: ready with the last byte it
    takes, and never if there are too few. -/
def readReady (finishedEarly : ℕ → String) (bytes : List (ℕ × UInt8)) :
    Future (Except FrameIoError (UInt8 × List UInt8)) :=
  match readRaw finishedEarly ⟨bytes.map Prod.snd, .silent⟩ with
  | (.error .timeout, _) => none
  | (r, rest) => some (lastArrival (bytes.take (bytes.length - rest.bytes.length)), r)

/-- `read_frame` with its deadline, and when it returns. -/
def readFrameWithin {F : Type} (S : SerdeJson) (fromValue : Serde.Value → Option F)
    (finishedEarly : ℕ → String) (deadline : ℕ) (bytes : List (ℕ × UInt8)) :
    ℕ × FrameResult F :=
  match timeout deadline (readReady finishedEarly bytes) with
  | (t, none) => (t, .error .timeout)
  | (t, some (.error e)) => (t, .error e)
  | (t, some (.ok (msgType, payload))) =>
    match decodePayload S fromValue payload with
    | .error e => (t, .error (.frame e))
    | .ok parsed => (t, .ok (msgType, parsed))

/-- The wait for the verdict: `read_frame` inside the generous timeout. -/
def awaitVerdict (S : SerdeJson) (finishedEarly : ℕ → String) (bytes : List (ℕ × UInt8)) :
    Option (FrameResult PairingFrame) :=
  (timeout (promptTimeout + pairingReadTimeout + pairingReadTimeout)
    (some (readFrameWithin S PairingFrame.fromValue finishedEarly pairingReadTimeout bytes))).2

theorem readFrameWithin_fst_le {F : Type} (S : SerdeJson) (fromValue : Serde.Value → Option F)
    (finishedEarly : ℕ → String) (deadline : ℕ) (bytes : List (ℕ × UInt8)) :
    (readFrameWithin S fromValue finishedEarly deadline bytes).1 ≤ deadline := by
  have hle := timeout_fst_le deadline (readReady finishedEarly bytes)
  unfold readFrameWithin
  split
  · rename_i t htime
    rw [htime] at hle
    exact hle
  · rename_i t e htime
    rw [htime] at hle
    exact hle
  · rename_i t msgType payload htime
    rw [htime] at hle
    split
    · exact hle
    · exact hle

/-- The generous timeout never fires: the read inside it is over before. -/
theorem awaitVerdict_eq (S : SerdeJson) (finishedEarly : ℕ → String)
    (bytes : List (ℕ × UInt8)) :
    awaitVerdict S finishedEarly bytes =
      some (readFrameWithin S PairingFrame.fromValue finishedEarly pairingReadTimeout bytes).2 := by
  have hle := readFrameWithin_fst_le S PairingFrame.fromValue finishedEarly pairingReadTimeout
    bytes
  unfold awaitVerdict
  rw [timeout_of_le (by omega)]

/-- A frame that is complete at `d` makes the read ready at `d`, whatever follows it. -/
theorem readReady_frame (finishedEarly : ℕ → String) {t : UInt8} {payload b : List UInt8}
    (hb : frameBytes t payload = .ok b) {bytes : List (ℕ × UInt8)}
    (hbytes : bytes.map Prod.snd = b) (more : List (ℕ × UInt8)) :
    readReady finishedEarly (bytes ++ more) = some (lastArrival bytes, .ok (t, payload)) := by
  have hread := readRaw_append finishedEarly hb (more.map Prod.snd) .silent
  have htake : (bytes ++ more).take ((bytes ++ more).length - (more.map Prod.snd).length) =
      bytes := by
    rw [List.length_append, List.length_map, Nat.add_sub_cancel, List.take_left]
  unfold readReady
  rw [List.map_append, hbytes, hread]
  simp only [htake]

/-- What the wait gives for a frame that is complete at `d`. -/
theorem awaitVerdict_frame (S : SerdeJson) (finishedEarly : ℕ → String) {f : PairingFrame}
    {b : List UInt8} (hjson : S.RoundTrips f.toValue)
    (henc : encodeFrame (fun f => S.toVec (PairingFrame.toValue f)) f.msgType f = .ok b)
    {bytes : List (ℕ × UInt8)} (hbytes : bytes.map Prod.snd = b) (more : List (ℕ × UInt8)) :
    awaitVerdict S finishedEarly (bytes ++ more) =
      some (if lastArrival bytes ≤ pairingReadTimeout then .ok (f.msgType, f)
        else .error .timeout) := by
  have hready := readReady_frame finishedEarly henc hbytes more
  have hdec := decodePayload_toVec S PairingFrame.fromValue_toValue hjson
  rw [awaitVerdict_eq]
  unfold readFrameWithin
  rw [hready]
  by_cases hd : lastArrival bytes ≤ pairingReadTimeout
  · rw [timeout_of_le hd, if_pos hd]
    simp only [hdec]
  · rw [timeout_of_lt (Nat.not_le.mp hd), if_neg hd]

/-! ### The run of the client -/

/-- The two ways in which a wait for the verdict that is too short shows. -/
def TimedOut (r : Except PairError String) : Prop :=
  r = .error .timeout ∨ r = .error (.frame .timeout)

section Client

variable (T : Toml ClientStore ClientText) (fromBytes : Bytes32 → Option PublicKey)
  (params : PairParams) {io : PairIo ClientText} (disk : Files ClientText)

/-- A frame that is no confirmation is a denial, or out of place. -/
theorem readVerdict_frame_error {t : UInt8} {f : PairingFrame} {e : PairError}
    (h : readVerdict (some (.ok (t, f))) = .error e) :
    e = .protocol "unexpected frame during pairing" ∨ ∃ reason, e = .denied reason := by
  cases f with
  | pairConfirm nodeId name =>
    simp only [readVerdict] at h
    split at h
    · exact absurd h (by simp)
    · exact .inl (Except.error.inj h).symm
  | pairDeny reason =>
    simp only [readVerdict] at h
    split at h
    · exact .inr ⟨reason, (Except.error.inj h).symm⟩
    · exact .inl (Except.error.inj h).symm
  | version v => exact .inl (Except.error.inj h).symm
  | pairHello v => exact .inl (Except.error.inj h).symm
  | pairWait => exact .inl (Except.error.inj h).symm

/-- Past the verdict only the registry fails. -/
theorem storeServer_not_timedOut (serverId : PublicKey) (name : String) :
    ¬ TimedOut (storeServer T params io serverId name disk).2 := by
  unfold storeServer
  split
  · simp [TimedOut]
  · simp only
    split
    · simp [TimedOut]
    · split
      · simp [TimedOut]
      · simp [TimedOut]

/-- A client that is told to wait and then reads a frame does not time out. -/
theorem run_frame_not_timedOut (hopened : io.opened = .ok ())
    (hwait : io.wait = .ok (typePairWait, .pairWait)) (t : UInt8) (f : PairingFrame) :
    ¬ TimedOut (run T fromBytes params { io with verdict := some (.ok (t, f)) } disk).2 := by
  have hexpect : expectFrame typePairWait (.ok (typePairWait, PairingFrame.pairWait))
      = .ok .pairWait := rfl
  simp only [run, hopened, hwait, hexpect]
  cases hverdict : readVerdict (some (.ok (t, f))) with
  | error e =>
    rcases readVerdict_frame_error hverdict with rfl | ⟨reason, rfl⟩
    · simp [TimedOut]
    · simp [TimedOut]
  | ok r =>
    simp only
    split
    · simp [TimedOut]
    · exact storeServer_not_timedOut T params disk _ _

/-- The run that waits on `stream` ends as it does for the verdict `f`, and not for want of
    time. -/
structure VerdictHonoured (S : SerdeJson) (finishedEarly : ℕ → String) (io : PairIo ClientText)
    (f : PairingFrame) (stream : List (ℕ × UInt8)) : Prop where
  result : run T fromBytes params { io with verdict := awaitVerdict S finishedEarly stream } disk =
    run T fromBytes params { io with verdict := some (.ok (f.msgType, f)) } disk
  intime : ¬ TimedOut
    (run T fromBytes params { io with verdict := awaitVerdict S finishedEarly stream } disk).2

end Client

/-- **The client's patience.**  Let the client have been told to wait, and let the frame of a
    verdict be complete `d` later.  The run ends with that verdict, and not in a timeout, exactly
    if `d` is within `PAIRING_READ_TIMEOUT`, however long the admin's prompt is open. -/
theorem verdict_honoured_iff (T : Toml ClientStore ClientText)
    (fromBytes : Bytes32 → Option PublicKey) (params : PairParams) {io : PairIo ClientText}
    (disk : Files ClientText) (S : SerdeJson) (finishedEarly : ℕ → String)
    (hopened : io.opened = .ok ()) (hwait : io.wait = .ok (typePairWait, .pairWait))
    {f : PairingFrame} {b : List UInt8} (hjson : S.RoundTrips f.toValue)
    (henc : encodeFrame (fun f => S.toVec (PairingFrame.toValue f)) f.msgType f = .ok b)
    {bytes : List (ℕ × UInt8)} (hbytes : bytes.map Prod.snd = b) {d : ℕ}
    (hlast : lastArrival bytes = d) (more : List (ℕ × UInt8)) :
    VerdictHonoured T fromBytes params disk S finishedEarly io f (bytes ++ more) ↔
      d ≤ pairingReadTimeout := by
  have hawait := awaitVerdict_frame S finishedEarly hjson henc hbytes more
  rw [hlast] at hawait
  constructor
  · -- a later verdict finds the read given up
    intro h
    by_contra hd
    rw [if_neg hd] at hawait
    apply h.intime
    rw [hawait]
    have hexpect : expectFrame typePairWait (.ok (typePairWait, PairingFrame.pairWait))
        = .ok .pairWait := rfl
    simp only [run, hopened, hwait, hexpect, readVerdict]
    exact .inr rfl
  · intro hd
    rw [if_pos hd] at hawait
    refine ⟨by rw [hawait], ?_⟩
    rw [hawait]
    exact run_frame_not_timedOut T fromBytes params disk hopened hwait f.msgType f

/-! ### A verdict just too late -/

/-- All bytes arrive at `d`. -/
def arriveAt (d : ℕ) (b : List UInt8) : List (ℕ × UInt8) := b.map fun x => (d, x)

theorem arriveAt_bytes (d : ℕ) (b : List UInt8) : (arriveAt d b).map Prod.snd = b := by
  rw [arriveAt, List.map_map]
  exact List.map_id b

theorem lastArrival_arriveAt (d : ℕ) {b : List UInt8} (hb : b ≠ []) :
    lastArrival (arriveAt d b) = d := by
  induction b with
  | nil => exact absurd rfl hb
  | cons x b ih =>
    by_cases hne : b = []
    · subst hne
      exact Nat.max_zero d
    · show max d (lastArrival (arriveAt d b)) = d
      rw [ih hne, Nat.max_self]

/-- The confirmation of `laptopInvite`. -/
def laptopConfirm : PairingFrame := laptopInvite.frame .confirm

/-- The crate, as far as that frame goes. -/
def laptopJson : SerdeJson := .ofValue laptopConfirm.toValue

theorem laptopConfirm_encodes : ∃ b,
    encodeFrame (fun f => laptopJson.toVec (PairingFrame.toValue f)) laptopConfirm.msgType
      laptopConfirm = .ok b ∧ b ≠ [] := by
  have hok : (encodeFrame (fun f => laptopJson.toVec (PairingFrame.toValue f))
      laptopConfirm.msgType laptopConfirm).isOk = true := by
    decide +kernel
  obtain ⟨b, hb⟩ := exists_of_isOk hok
  refine ⟨b, hb, ?_⟩
  rintro rfl
  have hframe := (frameBytes_ok_iff.mp hb).2
  exact absurd hframe (by simp)

theorem laptopJson_roundTrips : laptopJson.RoundTrips laptopConfirm.toValue := by
  simp only [SerdeJson.RoundTrips, laptopJson, SerdeJson.ofValue, if_true]

/-- The run of `pairedRun` with an admin who answers just before the client gives up, as far as the
    write of the confirmation. -/
def slowAdminRun : List (InviteAct PersistedState) :=
  .loop (.build true) :: takeConn vectorKey0 ++ reachPrompt 0 ++ [.tick 29990] ++
    answerPrompt 0 true ++ (recordAndConfirm 0).take 5

/-- The admin accepts 29990 ms after `PAIR_WAIT`, while the client still reads; the server records
    it and writes the confirmation.  That is complete at the client eleven milliseconds later, and
    the client's run has ended in a timeout one millisecond before. -/
theorem verdict_not_waited_for : 30001 < promptTimeout ∧
    (∃ s c, Reach (Invite.system (.self PersistedState) laptopInvite) Faultless s ∧
      s.conns[0]? = some c ∧ Paired laptopInvite s 0 c.remote ∧ s.clock = 500 + 29990 ∧
      framesOn s.shared 0 = [.pairWait, laptopConfirm]) ∧
    ∃ b, encodeFrame (fun f => laptopJson.toVec (PairingFrame.toValue f)) laptopConfirm.msgType
        laptopConfirm = .ok b ∧ lastArrival (arriveAt 30001 b) = 30001 ∧
      run (.self ClientStore) (fun bytes => some ⟨bytes⟩) ⟨none⟩
          { (delivered [.pairWait] "t" : PairIo ClientStore) with
            verdict := awaitVerdict laptopJson (fun _ => "") (arriveAt 30001 b) } .empty =
        (.empty, .error (.frame .timeout)) := by
  refine ⟨by decide, ?_, ?_⟩
  · have hrun : (exec (Invite.system (.self PersistedState) laptopInvite)
        (fun s a => decide (Faultless s a)) (.start .fresh 0) slowAdminRun).map
          (fun s => (s.conns[0]?.map PairConn.remote, s.shared.adds, s.clock,
            framesOn s.shared 0)) =
          some (some vectorKey0, [⟨0, ⟨"laptop", vectorKey0.display, "t", "t"⟩, 0, true, true⟩],
            500 + 29990, [.pairWait, laptopConfirm]) := by
      decide +kernel
    obtain ⟨s, hr, hs⟩ :=
      reach_of_exec_map (fun _ _ => of_decide_eq_true) hrun (.init ⟨.fresh, 0, rfl⟩)
    obtain ⟨hconn, hs⟩ := Prod.mk.inj hs
    obtain ⟨hadds, hs⟩ := Prod.mk.inj hs
    obtain ⟨hclock, hframes⟩ := Prod.mk.inj hs
    obtain ⟨c, hc, hremote⟩ := Option.map_eq_some_iff.mp hconn
    have hpaired : Paired laptopInvite s 0 c.remote := by
      refine ⟨_, hadds ▸ List.mem_singleton_self _, rfl, rfl, rfl, ?_⟩
      rw [hremote]
    exact ⟨s, c, hr, hc, hpaired, hclock, hframes⟩
  · obtain ⟨b, hb, hne⟩ := laptopConfirm_encodes
    have hlast := lastArrival_arriveAt 30001 hne
    have hawait := awaitVerdict_frame laptopJson (fun _ => "") laptopJson_roundTrips hb
      (arriveAt_bytes 30001 b) []
    rw [List.append_nil, hlast, if_neg (by decide)] at hawait
    refine ⟨b, hb, hlast, ?_⟩
    rw [hawait]
    rfl

/-- A confirmation that is there after ten seconds. -/
theorem verdict_honoured_soon : ∃ b,
    encodeFrame (fun f => laptopJson.toVec (PairingFrame.toValue f)) laptopConfirm.msgType
        laptopConfirm = .ok b ∧
      VerdictHonoured (.self ClientStore) (fun bytes => some ⟨bytes⟩) ⟨none⟩ .empty laptopJson
        (fun _ => "") (delivered [.pairWait] "t" : PairIo ClientStore) laptopConfirm
        (arriveAt 10000 b ++ []) := by
  obtain ⟨b, hb, hne⟩ := laptopConfirm_encodes
  exact ⟨b, hb, (verdict_honoured_iff (.self ClientStore) (fun bytes => some ⟨bytes⟩) ⟨none⟩
    .empty laptopJson (fun _ => "") rfl rfl laptopJson_roundTrips hb (arriveAt_bytes 10000 b)
    (lastArrival_arriveAt 10000 hne) []).mpr (by decide)⟩

end Tmite.Pairing
