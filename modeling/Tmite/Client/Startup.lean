import Tmite.Client.Hello
import Tmite.Daemon.StreamRequest
import Tmite.Relay.GrantedTarget

namespace Tmite.Client

open Tmite.Core Tmite.Proto Tmite.Daemon Tmite.Relay

/-!
# Starting up against a daemon (`connect::run`, `handle_stream`)

Before it serves, `run` announces its listeners on one stream of its connection and asks on one more
stream for each forward whether its target would be allowed.  Here both ends are put together, byte
for byte: what the client encodes is what the daemon's stream handler reads, and what that writes is
what the client reads.  The handler carries the name under which the connection was accepted, and
the admin may change the rules between two of the streams, so `stores k` is the store that the k-th
question meets.

* `startup_fails_fast` — the client goes on to serve iff every target was granted when it was asked
  for, and otherwise ends with a denial that names the first that was not; and the daemon has exactly
  the client's listeners on its list.
-/

universe v
variable {Text : Type v}

/-! ### One stream -/

section Streams

variable (S : SerdeJson) (finishedEarly : ℕ → String) (io : DialIo) (peerName : String)
  (node : PublicKey)

/-- What `write_frame` puts on a stream. -/
def encoded (f : DataFrame) : Except FrameError (List UInt8) :=
  encodeFrame (fun f => S.toVec f.toValue) f.msgType f

/-- The bytes of frames; one that does not encode is dropped by the daemon. -/
def writtenBytes (sent : List DataFrame) : List UInt8 :=
  sent.flatMap fun f => (encoded S f).toOption.getD []

/-- The daemon's handler on a stream that the client has written `bytes` on and finished. -/
def served (store : State Text) (announced : List AnnouncedForward) (bytes : List UInt8) :
    StreamResult Text :=
  handleStream S finishedEarly io store ⟨peerName, node, .readFrame, []⟩ announced
    ⟨bytes, .finished⟩

/-- The frame the client reads back. -/
def replyTo (store : State Text) (bytes : List UInt8) : FrameResult DataFrame :=
  (readFrame S DataFrame.fromValue finishedEarly
    ⟨writtenBytes S (served S finishedEarly io peerName node store [] bytes).sent, .finished⟩).1

/-- `validate_forward` on its stream. -/
def validateOver (store : State Text) (target : String) : ValidateOutcome :=
  match encoded S (.validate target) with
  | .error e => .failed e.display
  | .ok bytes =>
    match replyTo S finishedEarly io peerName node store bytes with
    | .error e => .failed e.display
    | .ok (_, frame) => .reply frame

/-- `send_hello`, as `get` returns it. -/
def helloOver (store : State Text) (hello : List UInt8) : Except SessionError Unit :=
  (sendHello ⟨.ok (), .ok (), replyTo S finishedEarly io peerName node store hello⟩).mapError
    fun e => .unreachable ("session hello: " ++ e.display)

/-- What `run` meets with from its hello on. -/
def startupEvents (specs : List FwdSpec) (hello : List UInt8) (helloStore : State Text)
    (stores : ℕ → State Text) : List RunEvent :=
  .hello ((encodeHello (fun f => S.toVec f.toValue) specs).map fun _ => ()) ::
    .dial (helloOver S finishedEarly io peerName node helloStore hello) ::
    (List.range' 0 (specs.length + 1)).map fun k => .validate
      (validateOver S finishedEarly io peerName node (stores k)
        ((specs[k]?.map (·.target)).getD ""))

end Streams

/-- `run` goes on for as long as it has not returned. -/
def Quitting.drive (s : Quitting) : List RunEvent → Quitting
  | [] => s
  | ev :: evs =>
    match s.runStep s.run ev with
    | some s' => s'.drive evs
    | none => s

/-- The first spec that is not allowed when it is asked for. -/
def firstDenied (stores : ℕ → State Text) (peerName : String) (specs : List FwdSpec) (k : ℕ) :
    Option FwdSpec :=
  ((specs.zipIdx k).find? fun p => !(stores p.2).ruleAllows peerName p.1.target).map Prod.fst

/-- Where that leaves `run`. -/
def startupPc : Option FwdSpec → RunPc
  | none => .spawn
  | some f => .returned (.error (.forwardDenied f.target .unauthorized))

/-! ### The streams, answered -/

section Answers

variable {S : SerdeJson} (finishedEarly : ℕ → String) (io : DialIo) (peerName : String)
  (node : PublicKey)

/-- A frame that the crate prints and reads as it does, and that fits. -/
structure Fits (S : SerdeJson) (f : DataFrame) : Prop where
  prints : S.toVec f.toValue = f.json
  reads : S.RoundTrips f.toValue
  length : f.json.length ≤ maxControlFrame

theorem Fits.encoded {f : DataFrame} (h : Fits S f) : ∃ bytes, Client.encoded S f = .ok bytes ∧
    ∀ rest tail, readFrame S DataFrame.fromValue finishedEarly ⟨bytes ++ rest, tail⟩ =
      (.ok (f.msgType, f), ⟨rest, tail⟩) := by
  have hlen : (S.toVec f.toValue).length ≤ maxControlFrame := by
    rw [h.prints]
    exact h.length
  obtain ⟨bytes, hbytes⟩ := exists_of_isOk
    ((encodeFrame_isOk (fun f => S.toVec (DataFrame.toValue f)) f.msgType f).mpr hlen)
  exact ⟨bytes, hbytes,
    (encodeFrame_round_trip S finishedEarly DataFrame.fromValue_toValue h.reads hbytes).2⟩

/-- The client reads the daemon's only frame. -/
theorem read_written {f : DataFrame} (h : Fits S f) :
    (readFrame S DataFrame.fromValue finishedEarly ⟨writtenBytes S [f], .finished⟩).1 =
      .ok (f.msgType, f) := by
  obtain ⟨bytes, hbytes, hread⟩ := h.encoded finishedEarly
  have hwritten : writtenBytes S [f] = bytes ++ [] := by
    rw [writtenBytes, List.flatMap_singleton, hbytes]
    exact (List.append_nil bytes).symm
  rw [hwritten, hread]

/-- A `VALIDATE` is answered from the ACL. -/
theorem validateOver_eq {store : State Text} {target : String} (hvalid : validTarget target = true)
    (hask : Fits S (.validate target)) (hok : Fits S .ok) (hdeny : Fits S (.deny .unauthorized)) :
    validateOver S finishedEarly io peerName node store target =
      .reply (if store.ruleAllows peerName target then .ok else .deny .unauthorized) := by
  obtain ⟨bytes, hbytes, hread⟩ := hask.encoded finishedEarly
  have hfirst : firstFrame (readFrame S DataFrame.fromValue finishedEarly ⟨bytes, .finished⟩).1 =
      .request false target := by
    have hread := hread [] .finished
    rw [List.append_nil] at hread
    rw [hread]
    simp [firstFrame, DataFrame.msgType]
  obtain ⟨-, -, -, hsent⟩ := handleStream_request io store ⟨peerName, node, .readFrame, []⟩ []
    hfirst
  have hrefusal : refusal store peerName target =
      if store.ruleAllows peerName target then none else some .unauthorized := by
    cases hallow : store.ruleAllows peerName target with
    | true => simp [refusal, hvalid, hallow]
    | false => simp [refusal, hvalid, hallow]
  simp only [validateOver, hbytes, replyTo, served, hsent, hrefusal]
  cases hallow : store.ruleAllows peerName target with
  | true => simp [read_written finishedEarly hok]
  | false => simp [read_written finishedEarly hdeny]

/-- A hello is stored and acknowledged. -/
theorem helloOver_eq (store : State Text) {forwards : List SessionForward} {hello : List UInt8}
    (hread : ∀ rest tail, readFrame S DataFrame.fromValue finishedEarly ⟨hello ++ rest, tail⟩ =
      (.ok (typeSession, .session forwards), ⟨rest, tail⟩)) (hok : Fits S .ok) :
    helloOver S finishedEarly io peerName node store hello = .ok () ∧
      ∀ announced, (served S finishedEarly io peerName node store announced hello).announced =
        forwards.map announce := by
  have hfirst : firstFrame (readFrame S DataFrame.fromValue finishedEarly ⟨hello, .finished⟩).1 =
      .session forwards := by
    have hread := hread [] .finished
    rw [List.append_nil] at hread
    rw [hread]
    simp [firstFrame]
  refine ⟨?_, fun announced => ?_⟩
  · obtain ⟨-, -, -, hsent⟩ := handleStream_session io store ⟨peerName, node, .readFrame, []⟩ []
      hfirst
    simp only [helloOver, replyTo, served, hsent, List.nil_append, read_written finishedEarly hok]
    rfl
  · exact (handleStream_session io store ⟨peerName, node, .readFrame, []⟩ announced hfirst).2.1

end Answers

/-! ### The loop over the specs -/

section Loop

variable {S : SerdeJson} (finishedEarly : ℕ → String) (io : DialIo) (peerName : String)
  (node : PublicKey) (stores : ℕ → State Text)

/-- From its k-th question on, `run` ends where the first denial, if any, puts it. -/
theorem drive_validate (s : Quitting) (hok : Fits S .ok) (hdeny : Fits S (.deny .unauthorized))
    (hask : ∀ f ∈ s.params.specs, validTarget f.target = true ∧ Fits S (.validate f.target)) :
    ∀ (n k : ℕ), k + n = s.params.specs.length →
      (({ s with run := .validate k } : Quitting).drive ((List.range' k (n + 1)).map fun k =>
        .validate (validateOver S finishedEarly io peerName node (stores k)
          ((s.params.specs[k]?.map (·.target)).getD "")))).run =
      startupPc (firstDenied stores peerName (s.params.specs.drop k) k) := by
  intro n
  induction n with
  | zero =>
    intro k hk
    have hnone : s.params.specs[k]? = none := List.getElem?_eq_none (by omega)
    have hdrop : s.params.specs.drop k = [] := List.drop_eq_nil_of_le (by omega)
    rw [hdrop, List.range'_succ, List.map_cons]
    simp only [Quitting.drive, Quitting.runStep, hnone]
    rfl
  | succ n ih =>
    intro k hk
    have hlt : k < s.params.specs.length := by omega
    obtain ⟨f, hf⟩ : ∃ f, s.params.specs[k]? = some f :=
      ⟨_, List.getElem?_eq_getElem hlt⟩
    have hdrop : s.params.specs.drop k = f :: s.params.specs.drop (k + 1) := by
      rw [List.drop_eq_getElem_cons hlt]
      rw [(List.getElem?_eq_some_iff.mp hf).2]
    obtain ⟨hvalid, hfits⟩ := hask f (List.mem_of_getElem? hf)
    have hanswer := @validateOver_eq _ S finishedEarly io peerName node (stores k) f.target hvalid
      hfits hok hdeny
    rw [List.range'_succ, List.map_cons, hdrop]
    simp only [Quitting.drive, Quitting.runStep, hf, Option.map_some, Option.getD_some, hanswer]
    cases hallow : (stores k).ruleAllows peerName f.target with
    | true =>
      have hnext := ih (k + 1) (by omega)
      simp only [if_true, validateForward, Quitting.orReturn]
      rw [hnext]
      simp [firstDenied, List.zipIdx_cons, hallow]
    | false =>
      -- `?` ends the loop, and nothing that comes later is looked at
      have hfirst : firstDenied stores peerName (f :: s.params.specs.drop (k + 1)) k = some f := by
        simp [firstDenied, List.zipIdx_cons, hallow]
      rw [hfirst]
      simp only [Bool.false_eq_true, if_false, validateForward, Quitting.orReturn,
        List.range'_succ, List.map_cons, Quitting.drive, Quitting.runStep]
      rfl

end Loop

/-! ### Starting up -/

/-- The frames of a start-up with these specs. -/
def startupFrames (specs : List FwdSpec) : List DataFrame :=
  helloFrame specs :: .ok :: .deny .unauthorized :: specs.map fun f => .validate f.target

theorem encodeHello_ok {S : SerdeJson} {specs : List FwdSpec} {hello : List UInt8}
    (h : encoded S (helloFrame specs) = .ok hello) :
    encodeHello (fun f => S.toVec f.toValue) specs = .ok hello := by
  rw [encodeHello]
  exact congrArg (Except.mapError FrameError.display) h

/-- **`connect` fails fast.**  For every list of accepted specs whose hello fits a frame, and every
    way the rules change while `run` starts up on a connection accepted under `peerName`: `run` gets
    to serving iff each target was granted when it was asked for, and otherwise returns the denial of
    the first that was not.  Either way the daemon has the listeners of the specs on its list. -/
theorem startup_fails_fast (S : SerdeJson) (finishedEarly : ℕ → String) (io : DialIo)
    (peerName : String) (node : PublicKey) (helloStore : State Text) (stores : ℕ → State Text)
    {s : Quitting} (hrun : s.run = .hello)
    (hprint : ∀ f ∈ startupFrames s.params.specs, S.toVec f.toValue = f.json)
    (hread : ∀ f ∈ startupFrames s.params.specs, S.RoundTrips f.toValue)
    (hparsed : ∀ f ∈ s.params.specs, ∃ text, parseFwdSpec text = .ok f)
    (hroom : (helloFrame s.params.specs).json.length ≤ maxControlFrame) :
    ∃ hello, encodeHello (fun f => S.toVec f.toValue) s.params.specs = .ok hello ∧
      (s.drive (startupEvents S finishedEarly io peerName node s.params.specs hello helloStore
        stores)).run = startupPc (firstDenied stores peerName s.params.specs 0) ∧
      ∀ announced,
        (served S finishedEarly io peerName node helloStore announced hello).announced =
          s.params.specs.map fun f => ⟨f.localText, f.target⟩ := by
  have hfits : ∀ f ∈ startupFrames s.params.specs, f.json.length ≤ maxControlFrame → Fits S f :=
    fun f hf hlen => ⟨hprint f hf, hread f hf, hlen⟩
  have hok : Fits S .ok := hfits _ (by simp [startupFrames]) (by decide +kernel)
  have hdeny : Fits S (.deny .unauthorized) :=
    hfits _ (by simp [startupFrames]) (by decide +kernel)
  have hask : ∀ f ∈ s.params.specs, validTarget f.target = true ∧ Fits S (.validate f.target) := by
    intro f hf
    obtain ⟨text, htext⟩ := hparsed f hf
    have hvalid := (parseFwdSpec_ok htext).1
    refine ⟨hvalid, hfits _ ?_ ?_⟩
    · simp only [startupFrames, List.mem_cons, List.mem_map]
      exact .inr (.inr (.inr ⟨f, hf, rfl⟩))
    · obtain ⟨-, -, -, -, -, hsize⟩ := validTarget_split hvalid
      exact length_requestFrame hsize false
  obtain ⟨hello, hhello, hback⟩ :=
    (hfits (helloFrame s.params.specs) (by simp [startupFrames]) hroom).encoded finishedEarly
  obtain ⟨hget, hannounced⟩ := helloOver_eq finishedEarly io peerName node helloStore hback hok
  refine ⟨hello, encodeHello_ok hhello, ?_, fun announced => ?_⟩
  · have hloop := drive_validate finishedEarly io peerName node stores s hok hdeny hask
      s.params.specs.length 0 (Nat.zero_add _)
    rw [List.drop_zero] at hloop
    rw [← hloop]
    simp only [startupEvents, Quitting.drive, hrun, Quitting.runStep, encodeHello_ok hhello, hget,
      Except.map, Except.mapError, Quitting.orReturn]
  · rw [hannounced announced, List.map_map]
    rfl

/-! ### A grant that is taken back -/

/-- `serde_json` on these frames. -/
def SerdeJson.ofFrames (frames : List DataFrame) : SerdeJson where
  toVec v := (valueText v).flatMap String.utf8EncodeChar
  fromSlice bytes :=
    match frames.find? fun f => f.json == bytes with
    | some f => .ok f.toValue
    | none => .error "expected value at line 1 column 1"
  dataError _ := "invalid value"

def twoSpecs : List FwdSpec :=
  [⟨.localhost, 2222, "localhost:22"⟩, ⟨.localhost, 8080, "db:5432"⟩]

/-- The second rule is revoked while the first is asked for. -/
def revokedMeanwhile (k : ℕ) : State PersistedState :=
  ⟨⟨1, [⟨"laptop", "ab", "", ""⟩], if k = 0 then
    [⟨"laptop", "localhost:22", "t"⟩, ⟨"laptop", "db:5432", "t"⟩] else
    [⟨"laptop", "localhost:22", "t"⟩]⟩, .empty⟩

theorem startup_fails_fast_revoked : ∃ hello,
    encodeHello (fun f => (SerdeJson.ofFrames (startupFrames twoSpecs)).toVec f.toValue) twoSpecs =
        .ok hello ∧
      (({ Quitting.begin ⟨"box", twoSpecs⟩ with run := .hello } : Quitting).drive
        (startupEvents (SerdeJson.ofFrames (startupFrames twoSpecs)) (fun _ => "")
          ⟨.timedOut, false⟩ "laptop" ⟨⟨List.replicate 32 0, rfl⟩⟩ twoSpecs hello
          (revokedMeanwhile 0) revokedMeanwhile)).run =
        .returned (.error (.forwardDenied "db:5432" .unauthorized)) := by
  have hread : ∀ f ∈ startupFrames twoSpecs,
      (SerdeJson.ofFrames (startupFrames twoSpecs)).RoundTrips f.toValue := by
    have hfind : ∀ f ∈ startupFrames twoSpecs,
        (startupFrames twoSpecs).find? (fun g => g.json == f.json) = some f := by
      decide +kernel
    intro f hf
    show (match (startupFrames twoSpecs).find? (fun g => g.json == f.json) with
      | some f => Except.ok f.toValue
      | none => _) = _
    rw [hfind f hf]
  have hparsed : ∀ f ∈ twoSpecs, ∃ text, parseFwdSpec text = .ok f := by
    intro f hf
    simp only [twoSpecs, List.mem_cons, List.not_mem_nil, or_false] at hf
    rcases hf with rfl | rfl
    · exact ⟨"2222:localhost:22", by decide +kernel⟩
    · exact ⟨"8080:db:5432", by decide +kernel⟩
  obtain ⟨hello, hhello, hpc, -⟩ := @startup_fails_fast _
    (SerdeJson.ofFrames (startupFrames twoSpecs)) (fun _ => "") ⟨.timedOut, false⟩ "laptop"
    ⟨⟨List.replicate 32 0, rfl⟩⟩ (revokedMeanwhile 0) revokedMeanwhile
    { Quitting.begin ⟨"box", twoSpecs⟩ with run := .hello } rfl (fun _ _ => rfl) hread hparsed
    (by decide +kernel)
  refine ⟨hello, hhello, hpc.trans ?_⟩
  decide +kernel

end Tmite.Client
