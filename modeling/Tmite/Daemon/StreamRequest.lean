import Tmite.Daemon.DialGrant
import Tmite.Daemon.Sessions
import Tmite.Proto.FrameCodec

namespace Tmite.Daemon

open Tmite.Core Tmite.Proto Transition

/-!
# What one data stream can make the daemon do

`serveStream` follows one stream of a connection over a store that nobody else changes, from the
lookup of the node in `accept` to the relay: which bytes are read, what is answered, what is
dialled, and what becomes of the announced forwards.  It is put together from the steps of
`DataPlane` (`handleStream_steps`), and reads its first frame from bytes.

* `firstFrame_request_iff`, `firstFrame_session_iff` — what the first frame asks for, in terms of
  the bytes: a complete frame whose type byte agrees with its contents.
* `serveStream_spec` — everything a stream can do, by what its bytes start with.
-/

universe v
variable {Text : Type v}

/-! ### One stream -/

/-- What a stream has made the daemon do. -/
structure StreamResult (Text : Type v) where
  store : State Text
  /-- What has not been read of the stream when the relay, if any, begins. -/
  unread : RecvStream
  /-- The forwards of the connection's `SessionEntry`. -/
  announced : List AnnouncedForward
  dialled : Option String
  sent : List DataFrame

/-- A `SessionForward` as it is stored. -/
def announce (f : SessionForward) : AnnouncedForward := ⟨f.localAddr, f.target⟩

/-- What the stream's first frame does to the announced forwards. -/
def announcedBy (r : FrameResult DataFrame) (announced : List AnnouncedForward) :
    List AnnouncedForward :=
  match firstFrame r with
  | .session forwards => forwards.map announce
  | _ => announced

/-- After a dial that went through, the stream is told so; `ok` says that the write does. -/
def Stream.confirmed (st : Stream) (ok : Bool) : Stream :=
  match st.pc with
  | .writeOk target =>
    if ok then { st with pc := .relay target, sent := st.sent ++ [.ok] }
    else { st with pc := .closed }
  | _ => st

/-- What the environment decides: how the dial ends, and whether the `OK` after it is written. -/
structure DialIo where
  outcome : DialOutcome
  ok : Bool
deriving DecidableEq

section Stream

variable (S : SerdeJson) (finishedEarly : ℕ → String) (io : DialIo)

/-- `handle_stream` for the peer `peerName`, up to the relay. -/
def handleStream (store : State Text) (st : Stream) (announced : List AnnouncedForward)
    (recv : RecvStream) : StreamResult Text :=
  let (r, unread) := readFrame S DataFrame.fromValue finishedEarly recv
  let announced := announcedBy r announced
  match (st.read r).pc with
  | .acl isForward target =>
    match ((st.read r).checkAcl store isForward target).pc with
    | .dial target _ =>
      ⟨store, unread, announced, some target,
        ((((st.read r).checkAcl store isForward target).dialled target io.outcome).confirmed
          io.ok).sent⟩
    | _ =>
      ⟨store, unread, announced, none, ((st.read r).checkAcl store isForward target).sent⟩
  | _ => ⟨store, unread, announced, none, (st.read r).sent⟩

/-- `DataPlaneHandler::accept` with one stream on the connection.  For an unknown node the
    connection is closed and no stream of it accepted. -/
def serveStream (T : Toml PersistedState Text) (fault : Option (WriteFault Text)) (now : String)
    (store : State Text) (node : PublicKey) (announced : List AnnouncedForward)
    (recv : RecvStream) : StreamResult Text :=
  match store.peerByNode node.display with
  | none => ⟨store, recv, announced, none, []⟩
  | some peer =>
    handleStream S finishedEarly io (store.touchLastSeen T fault node.display now)
      ⟨peer.name, node, .readFrame, []⟩ announced recv

end Stream

/-! ### The first frame, in bytes -/

section FirstFrame

variable (S : SerdeJson) (finishedEarly : ℕ → String)

/-- The bytes start with a complete frame of type `t` whose payload decodes to `f`. -/
def StartsWith (bytes : List UInt8) (t : UInt8) (f : DataFrame) : Prop :=
  ∃ payload b rest, bytes = b ++ rest ∧ frameBytes t payload = .ok b ∧
    decodePayload S DataFrame.fromValue payload = .ok f

/-- A frame is read exactly if the bytes start with it, whatever follows them. -/
theorem readFrame_ok_iff (recv : RecvStream) (t : UInt8) (f : DataFrame) :
    (readFrame S DataFrame.fromValue finishedEarly recv).1 = .ok (t, f) ↔
      StartsWith S recv.bytes t f := by
  constructor
  · intro h
    unfold readFrame at h
    split at h
    · exact absurd h (by simp)
    · rename_i msgType payload rest hraw
      split at h
      · exact absurd h (by simp)
      · rename_i parsed hdec
        obtain ⟨rfl, rfl⟩ := Prod.mk.inj (Except.ok.inj h)
        obtain ⟨b, hb, hrecv⟩ := readRaw_ok finishedEarly hraw
        exact ⟨payload, b, rest.bytes, by rw [hrecv], hb, hdec⟩
  · rintro ⟨payload, b, rest, hbytes, hb, hdec⟩
    have hrecv : recv = ⟨b ++ rest, recv.tail⟩ := by rw [← hbytes]
    rw [hrecv, readFrame, readRaw_append finishedEarly hb]
    simp only [hdec]

/-- A stream starts with one frame at most. -/
theorem StartsWith.unique {bytes : List UInt8} {t t' : UInt8} {f f' : DataFrame}
    (h : StartsWith S bytes t f) (h' : StartsWith S bytes t' f') : t = t' ∧ f = f' := by
  have hread := (readFrame_ok_iff S (fun _ => "") ⟨bytes, .silent⟩ t f).mpr h
  have hread' := (readFrame_ok_iff S (fun _ => "") ⟨bytes, .silent⟩ t' f').mpr h'
  rw [hread] at hread'
  exact Prod.mk.inj (Except.ok.inj hread')

/-- The frame of a request. -/
def requestOf (isForward : Bool) (target : String) : DataFrame :=
  if isForward then .forward target else .validate target

/-- The frames that are answered, and what they ask for. -/
theorem firstFrame_cases (r : FrameResult DataFrame) :
    (∃ isForward target, firstFrame r = .request isForward target ∧
      r = .ok ((requestOf isForward target).msgType, requestOf isForward target)) ∨
    (∃ forwards, firstFrame r = .session forwards ∧ r = .ok (typeSession, .session forwards)) ∨
    firstFrame r = .malformed := by
  unfold firstFrame
  split
  · rename_i t target
    by_cases ht : t = typeForward
    · rw [if_pos ht, ht]
      exact .inl ⟨true, target, rfl, rfl⟩
    · rw [if_neg ht]
      exact .inr (.inr rfl)
  · rename_i t target
    by_cases ht : t = typeValidate
    · rw [if_pos ht, ht]
      exact .inl ⟨false, target, rfl, rfl⟩
    · rw [if_neg ht]
      exact .inr (.inr rfl)
  · rename_i t forwards
    by_cases ht : t = typeSession
    · rw [if_pos ht, ht]
      exact .inr (.inl ⟨forwards, rfl, rfl⟩)
    · rw [if_neg ht]
      exact .inr (.inr rfl)
  · exact .inr (.inr rfl)

/-- A stream asks for a target exactly if it starts with the request, under its own type byte. -/
theorem firstFrame_request_iff (recv : RecvStream) (isForward : Bool) (target : String) :
    firstFrame (readFrame S DataFrame.fromValue finishedEarly recv).1 = .request isForward target ↔
      StartsWith S recv.bytes (requestOf isForward target).msgType
        (requestOf isForward target) := by
  rw [← readFrame_ok_iff S finishedEarly]
  constructor
  · intro h
    rcases firstFrame_cases (readFrame S DataFrame.fromValue finishedEarly recv).1 with
      ⟨isForward', target', hfirst, hr⟩ | ⟨forwards, hfirst, -⟩ | hfirst
    · rw [h] at hfirst
      obtain ⟨rfl, rfl⟩ := FirstFrame.request.inj hfirst
      exact hr
    · rw [h] at hfirst
      exact absurd hfirst (by simp)
    · rw [h] at hfirst
      exact absurd hfirst (by simp)
  · intro hr
    rw [hr]
    cases isForward with
    | true => rfl
    | false => rfl

/-- It announces forwards exactly if it starts with a hello, under its own type byte. -/
theorem firstFrame_session_iff (recv : RecvStream) (forwards : List SessionForward) :
    firstFrame (readFrame S DataFrame.fromValue finishedEarly recv).1 = .session forwards ↔
      StartsWith S recv.bytes typeSession (.session forwards) := by
  rw [← readFrame_ok_iff S finishedEarly]
  constructor
  · intro h
    rcases firstFrame_cases (readFrame S DataFrame.fromValue finishedEarly recv).1 with
      ⟨isForward, target, hfirst, -⟩ | ⟨forwards', hfirst, hr⟩ | hfirst
    · rw [h] at hfirst
      exact absurd hfirst (by simp)
    · rw [h] at hfirst
      rw [FirstFrame.session.inj hfirst]
      exact hr
    · rw [h] at hfirst
      exact absurd hfirst (by simp)
  · intro hr
    rw [hr]
    rfl

end FirstFrame

/-! ### What a stream does -/

/-- What is answered after a dial. -/
def dialReplies (io : DialIo) : List DataFrame :=
  match io.outcome with
  | .connected => if io.ok then [.ok] else []
  | .failed e => [.deny (.targetUnreachable e)]
  | .timedOut => [.deny (.targetUnreachable "connect timed out")]

/-- Why a request is refused before it is dialled, if it is. -/
def refusal (store : State Text) (peerName target : String) : Option DataDenyReason :=
  if !validTarget target then some .serverError
  else if !store.ruleAllows peerName target then some .unauthorized
  else none

theorem refusal_none_iff (store : State Text) (peerName target : String) :
    refusal store peerName target = none ↔
      validTarget target = true ∧ store.ruleAllows peerName target = true := by
  unfold refusal
  by_cases hvalid : validTarget target = true
  · by_cases hallow : store.ruleAllows peerName target = true
    · simp [hvalid, hallow]
    · simp [hvalid, hallow]
  · simp [hvalid]

section Handle

variable {S : SerdeJson} {finishedEarly : ℕ → String} (io : DialIo) (store : State Text)
  (st : Stream) (announced : List AnnouncedForward) {recv : RecvStream}

/-- A request is refused, or answered from the ACL alone, or dialled. -/
theorem handleStream_request {isForward : Bool} {target : String}
    (h : firstFrame (readFrame S DataFrame.fromValue finishedEarly recv).1 =
      .request isForward target) :
    let R := handleStream S finishedEarly io store st announced recv
    R.store = store ∧ R.announced = announced ∧
    R.dialled = (if refusal store st.peerName target = none ∧ isForward = true then some target
      else none) ∧
    R.sent = st.sent ++ (match refusal store st.peerName target with
      | some reason => [.deny reason]
      | none => if isForward then dialReplies io else [.ok]) := by
  have hann : announcedBy (readFrame S DataFrame.fromValue finishedEarly recv).1 announced =
      announced := by
    unfold announcedBy
    rw [h]
  by_cases hvalid : validTarget target = true
  · have hread : st.read (readFrame S DataFrame.fromValue finishedEarly recv).1 =
        { st with pc := .acl isForward target } := by
      simp only [Stream.read, h, hvalid, Bool.not_true, Bool.false_eq_true, if_false]
    by_cases hallow : store.ruleAllows st.peerName target = true
    · have hnone : refusal store st.peerName target = none :=
        (refusal_none_iff store st.peerName target).mpr ⟨hvalid, hallow⟩
      cases isForward with
      | false =>
        have hcheck : ({ st with pc := .acl false target } : Stream).checkAcl store false target =
            { st with pc := .closed, sent := st.sent ++ [.ok] } := by
          simp [Stream.checkAcl, hallow]
        simp [handleStream, hread, hcheck, hann, hnone]
      | true =>
        have hcheck : ({ st with pc := .acl true target } : Stream).checkAcl store true target =
            { st with pc := .dial target store.inner } := by
          simp [Stream.checkAcl, hallow]
        simp only [handleStream, hread, hcheck, hann, hnone]
        refine ⟨trivial, trivial, by simp, ?_⟩
        -- how the dial ends decides what is answered
        cases hout : io.outcome with
        | connected =>
          cases hok : io.ok with
          | true => simp [Stream.dialled, Stream.confirmed, dialReplies, hout, hok]
          | false => simp [Stream.dialled, Stream.confirmed, dialReplies, hout, hok]
        | failed e => simp [Stream.dialled, Stream.confirmed, dialReplies, hout]
        | timedOut => simp [Stream.dialled, Stream.confirmed, dialReplies, hout]
    · have hsome : refusal store st.peerName target = some .unauthorized := by
        simp [refusal, hvalid, hallow]
      have hcheck : ({ st with pc := .acl isForward target } : Stream).checkAcl store isForward
          target = { st with pc := .closed, sent := st.sent ++ [.deny .unauthorized] } := by
        simp [Stream.checkAcl, hallow]
      simp [handleStream, hread, hcheck, hann, hsome]
  · have hread : st.read (readFrame S DataFrame.fromValue finishedEarly recv).1 =
        { st with pc := .closed, sent := st.sent ++ [.deny .serverError] } := by
      simp [Stream.read, h, hvalid]
    have hsome : refusal store st.peerName target = some .serverError := by
      simp [refusal, hvalid]
    simp [handleStream, hread, hann, hsome]

/-- A hello is stored and acknowledged. -/
theorem handleStream_session {forwards : List SessionForward}
    (h : firstFrame (readFrame S DataFrame.fromValue finishedEarly recv).1 = .session forwards) :
    let R := handleStream S finishedEarly io store st announced recv
    R.store = store ∧ R.announced = forwards.map announce ∧ R.dialled = none ∧
      R.sent = st.sent ++ [.ok] := by
  have hann : announcedBy (readFrame S DataFrame.fromValue finishedEarly recv).1 announced =
      forwards.map announce := by
    unfold announcedBy
    rw [h]
  have hread : st.read (readFrame S DataFrame.fromValue finishedEarly recv).1 =
      { st with pc := .closed, sent := st.sent ++ [.ok] } := by
    simp only [Stream.read, h]
  simp [handleStream, hread, hann]

/-- Anything else ends the stream. -/
theorem handleStream_malformed
    (h : firstFrame (readFrame S DataFrame.fromValue finishedEarly recv).1 = .malformed) :
    let R := handleStream S finishedEarly io store st announced recv
    R.store = store ∧ R.announced = announced ∧ R.dialled = none ∧ R.sent = st.sent := by
  have hann : announcedBy (readFrame S DataFrame.fromValue finishedEarly recv).1 announced =
      announced := by
    unfold announcedBy
    rw [h]
  have hread : st.read (readFrame S DataFrame.fromValue finishedEarly recv).1 =
      { st with pc := .closed } := by
    simp only [Stream.read, h]
  simp [handleStream, hread, hann]

end Handle

/-! ### The steps of the data plane -/

section Steps

variable (T : Toml PersistedState Text) (S : SerdeJson) (finishedEarly : ℕ → String) (io : DialIo)

/-- The steps of stream `j`, one after the other, once its first frame is `r`. -/
def streamActs (store : State Text) (st : Stream) (j : ℕ) (r : FrameResult DataFrame) :
    List (DataAct Text) :=
  .readFrame j r ::
    match (st.read r).pc with
    | .acl isForward target =>
      .checkAcl j ::
        match ((st.read r).checkAcl store isForward target).pc with
        | .dial target _ =>
          .dial j io.outcome ::
            match (((st.read r).checkAcl store isForward target).dialled target io.outcome).pc with
            | .writeOk _ => [.writeOk j io.ok]
            | _ => []
        | _ => []
    | _ => []

/-- The steps of one stream, in the data plane: every one is enabled when its turn comes. -/
theorem exec_cons {p p' : DataPlane Text} {a : DataAct Text} (h : p.next T a = some p')
    (acts : List (DataAct Text)) :
    exec (DataPlane.system T) (fun _ _ => true) p (a :: acts) =
      exec (DataPlane.system T) (fun _ _ => true) p' acts := by
  show (if (true : Bool) = true then (p.next T a).bind _ else none) = _
  rw [if_pos rfl, h]
  rfl

theorem setStream_get {p : DataPlane Text} {j : ℕ} {st : Stream} (hj : p.streams[j]? = some st)
    (st' : Stream) : (p.setStream j st').streams[j]? = some st' :=
  List.getElem?_set_self (List.getElem?_eq_some_iff.mp hj).1

/-- What the ACL check lets through, it dials as asked for. -/
theorem checkAcl_dial {store : State Text} {st : Stream} {isForward : Bool} {target t : String}
    {table : PersistedState} (h : (st.checkAcl store isForward target).pc = .dial t table) :
    t = target ∧ table = store.inner := by
  unfold Stream.checkAcl at h
  split at h
  · exact absurd h (by simp)
  · split at h
    · exact absurd h (by simp)
    · obtain ⟨rfl, rfl⟩ := StreamPc.dial.inj h
      exact ⟨rfl, rfl⟩

theorem checkAcl_remote (st : Stream) (store : State Text) (isForward : Bool) (target : String) :
    (st.checkAcl store isForward target).remote = st.remote := by
  unfold Stream.checkAcl
  split
  · rfl
  · split <;> rfl

/-- The dial of stream `j`, when it stands before it. -/
theorem dial_next {p : DataPlane Text} {j : ℕ} {st : Stream} {target : String}
    {table : PersistedState} (hj : p.streams[j]? = some st) (hpc : st.pc = .dial target table)
    (outcome : DialOutcome) :
    p.next T (.dial j outcome) = some { p.setStream j (st.dialled target outcome) with
      dials := p.dials ++ [⟨st.remote, target, table⟩] } := by
  simp only [DataPlane.next, hj, Option.bind_some, hpc]

/-- The `OK` of stream `j`, after a dial that went through. -/
theorem writeOk_next {p : DataPlane Text} {j : ℕ} {st : Stream} {target : String}
    (hj : p.streams[j]? = some st) (hpc : st.pc = .writeOk target) (ok : Bool) :
    p.next T (.writeOk j ok) = some (p.setStream j (st.confirmed ok)) := by
  simp only [DataPlane.next, hj, Option.bind_some, hpc, Stream.confirmed]

/-- From the dial on: its outcome is written to the stream, and the dial recorded. -/
theorem dial_steps {p : DataPlane Text} {j : ℕ} {st : Stream} {target : String}
    {table : PersistedState} (hj : p.streams[j]? = some st) (hpc : st.pc = .dial target table) :
    ∃ p' st', exec (DataPlane.system T) (fun _ _ => true) p (.dial j io.outcome ::
        match (st.dialled target io.outcome).pc with
        | .writeOk _ => [.writeOk j io.ok]
        | _ => []) = some p' ∧
      p'.store = p.store ∧ p'.streams[j]? = some st' ∧
      st'.sent = ((st.dialled target io.outcome).confirmed io.ok).sent ∧
      p'.dials = p.dials ++ [⟨st.remote, target, table⟩] := by
  rw [exec_cons T (dial_next T hj hpc io.outcome)]
  have hj₁ := setStream_get hj (st.dialled target io.outcome)
  cases hout : io.outcome with
  | connected =>
    -- only a dial that went through has one more step
    rw [hout] at hj₁
    have hok := writeOk_next T (p := { p.setStream j (st.dialled target .connected) with
      dials := p.dials ++ [⟨st.remote, target, table⟩] }) hj₁ rfl io.ok
    exact ⟨_, _, exec_cons T hok [], rfl, setStream_get hj₁ _, rfl, rfl⟩
  | failed e =>
    rw [hout] at hj₁
    exact ⟨_, _, rfl, rfl, hj₁, rfl, rfl⟩
  | timedOut =>
    rw [hout] at hj₁
    exact ⟨_, _, rfl, rfl, hj₁, rfl, rfl⟩

/-- **One stream in the data plane.**  With the store left alone, the steps of a stream that has
    just been accepted do to it, to the store and to the dials what `handleStream` says. -/
theorem handleStream_steps {p : DataPlane Text} {j : ℕ} {st : Stream}
    (hj : p.streams[j]? = some st) (hpc : st.pc = .readFrame)
    (announced : List AnnouncedForward) (recv : RecvStream) :
    ∃ p' st', exec (DataPlane.system T) (fun _ _ => true) p (streamActs io p.store st j
        (readFrame S DataFrame.fromValue finishedEarly recv).1) = some p' ∧
      p'.store = p.store ∧ p'.streams[j]? = some st' ∧
      st'.sent = (handleStream S finishedEarly io p.store st announced recv).sent ∧
      p'.dials = p.dials ++
        (handleStream S finishedEarly io p.store st announced recv).dialled.toList.map
          (fun t => ⟨st.remote, t, p.store.inner⟩) := by
  unfold streamActs handleStream
  generalize readFrame S DataFrame.fromValue finishedEarly recv = read
  obtain ⟨r, unread⟩ := read
  have hread : p.next T (.readFrame j r) = some (p.setStream j (st.read r)) := by
    simp only [DataPlane.next, hj, Option.bind_some, hpc]
  have hj₁ := setStream_get hj (st.read r)
  rw [exec_cons T hread]
  simp only
  cases hpc₁ : (st.read r).pc with
  | acl isForward target =>
    have hacl : (p.setStream j (st.read r)).next T (.checkAcl j) =
        some ((p.setStream j (st.read r)).setStream j
          ((st.read r).checkAcl p.store isForward target)) := by
      simp only [DataPlane.next, hj₁, Option.bind_some, hpc₁]
      rfl
    have hj₂ := setStream_get hj₁ ((st.read r).checkAcl p.store isForward target)
    simp only
    rw [exec_cons T hacl]
    cases hpc₂ : ((st.read r).checkAcl p.store isForward target).pc with
    | dial t table =>
      obtain ⟨rfl, rfl⟩ := checkAcl_dial hpc₂
      have hremote : ((st.read r).checkAcl p.store isForward t).remote = st.remote := by
        rw [checkAcl_remote, (st.read_peerName r).2.1]
      obtain ⟨p', st', hexec, hstore, hj', hsent, hdials⟩ := dial_steps T io hj₂ hpc₂
      refine ⟨p', st', hexec, hstore, hj', hsent, ?_⟩
      rw [hdials, hremote]
      rfl
    | _ => exact ⟨_, _, rfl, rfl, hj₂, rfl, (List.append_nil _).symm⟩
  | _ => exact ⟨_, _, rfl, rfl, hj₁, rfl, (List.append_nil _).symm⟩

end Steps

/-! ### Everything a stream can do -/

/-- The first frames that are answered: a request or a hello, under its own type byte. -/
def isOpening (t : UInt8) : DataFrame → Bool
  | .forward _ => t == typeForward
  | .validate _ => t == typeValidate
  | .session _ => t == typeSession
  | _ => false

/-- Bytes that start with none of them are malformed. -/
theorem firstFrame_malformed {S : SerdeJson} (finishedEarly : ℕ → String) {recv : RecvStream}
    (h : ∀ t f, StartsWith S recv.bytes t f → isOpening t f = false) :
    firstFrame (readFrame S DataFrame.fromValue finishedEarly recv).1 = .malformed := by
  cases hfirst : firstFrame (readFrame S DataFrame.fromValue finishedEarly recv).1 with
  | request isForward target =>
    have hstart := (firstFrame_request_iff S finishedEarly recv isForward target).mp hfirst
    have hopen := h _ _ hstart
    cases isForward with
    | true => exact absurd hopen (by simp [requestOf, isOpening, DataFrame.msgType])
    | false => exact absurd hopen (by simp [requestOf, isOpening, DataFrame.msgType])
  | session forwards =>
    have hstart := (firstFrame_session_iff S finishedEarly recv forwards).mp hfirst
    exact absurd (h _ _ hstart) (by simp [isOpening])
  | malformed => rfl

/-- Noting that a peer was seen changes no rule, so no answer of the ACL. -/
theorem refusal_touchLastSeen (T : Toml PersistedState Text) (fault : Option (WriteFault Text))
    (store : State Text) (node now peerName target : String) :
    refusal (store.touchLastSeen T fault node now) peerName target =
      refusal store peerName target := by
  have hrules : (store.touchLastSeen T fault node now).inner.rules = store.inner.rules := by
    unfold State.touchLastSeen
    split
    · rfl
    · rfl
  show (if _ then _ else if (!(State.touchLastSeen T fault store node now).inner.rules.any _) = true
    then _ else _) = _
  rw [hrules]
  rfl

section Spec

variable (S : SerdeJson) (finishedEarly : ℕ → String) (T : Toml PersistedState Text)
  (fault : Option (WriteFault Text)) (now : String) (io : DialIo) {store : State Text}
  {node : PublicKey} (announced : List AnnouncedForward) {recv : RecvStream} {peer : Peer}

/-- A request of a known peer: what is dialled, and what is answered, is decided by `refusal`. -/
theorem serveStream_request (hpeer : store.peerByNode node.display = some peer) (isForward : Bool)
    {target : String} (h : StartsWith S recv.bytes (requestOf isForward target).msgType
      (requestOf isForward target)) :
    (serveStream S finishedEarly io T fault now store node announced recv).dialled =
        (if refusal store peer.name target = none ∧ isForward = true then some target else none) ∧
      (serveStream S finishedEarly io T fault now store node announced recv).sent =
        (match refusal store peer.name target with
        | some reason => [.deny reason]
        | none => if isForward then dialReplies io else [.ok]) := by
  have hfirst := (firstFrame_request_iff S finishedEarly recv isForward target).mpr h
  obtain ⟨-, -, hdialled, hsent⟩ := handleStream_request io
    (store.touchLastSeen T fault node.display now) ⟨peer.name, node, .readFrame, []⟩ announced
    hfirst
  simp only [refusal_touchLastSeen, List.nil_append] at hdialled hsent
  simp only [serveStream, hpeer]
  exact ⟨hdialled, hsent⟩

/-- A hello of a known peer. -/
theorem serveStream_session (hpeer : store.peerByNode node.display = some peer)
    {forwards : List SessionForward}
    (h : StartsWith S recv.bytes typeSession (.session forwards)) :
    (serveStream S finishedEarly io T fault now store node announced recv).announced =
        forwards.map announce ∧
      (serveStream S finishedEarly io T fault now store node announced recv).dialled = none ∧
      (serveStream S finishedEarly io T fault now store node announced recv).sent = [.ok] := by
  have hfirst := (firstFrame_session_iff S finishedEarly recv forwards).mpr h
  obtain ⟨-, hann, hdialled, hsent⟩ := handleStream_session io
    (store.touchLastSeen T fault node.display now) ⟨peer.name, node, .readFrame, []⟩ announced
    hfirst
  simp only [serveStream, hpeer]
  exact ⟨hann, hdialled, hsent⟩

/-- Anything else of a known peer. -/
theorem serveStream_malformed (hpeer : store.peerByNode node.display = some peer)
    (h : firstFrame (readFrame S DataFrame.fromValue finishedEarly recv).1 = .malformed) :
    (serveStream S finishedEarly io T fault now store node announced recv).announced = announced ∧
      (serveStream S finishedEarly io T fault now store node announced recv).dialled = none ∧
      (serveStream S finishedEarly io T fault now store node announced recv).sent = [] := by
  obtain ⟨-, hann, hdialled, hsent⟩ := handleStream_malformed io
    (store.touchLastSeen T fault node.display now) ⟨peer.name, node, .readFrame, []⟩ announced h
  simp only [serveStream, hpeer]
  exact ⟨hann, hdialled, hsent⟩

/-- A dial needs a `FORWARD` at the start of the stream, a target of the right shape, and a rule
    of the peer for it; and these are enough. -/
theorem serveStream_dialled_iff (hpeer : store.peerByNode node.display = some peer)
    (target : String) :
    (serveStream S finishedEarly io T fault now store node announced recv).dialled = some target ↔
      StartsWith S recv.bytes typeForward (.forward target) ∧ validTarget target = true ∧
        store.ruleAllows peer.name target = true := by
  constructor
  · intro h
    -- only one of the four kinds of first frame can lead to a dial
    cases hfirst : firstFrame (readFrame S DataFrame.fromValue finishedEarly recv).1 with
    | request isForward t =>
      have hstart := (firstFrame_request_iff S finishedEarly recv isForward t).mp hfirst
      rw [(serveStream_request S finishedEarly T fault now io announced hpeer isForward hstart).1]
        at h
      split at h
      · rename_i hcond
        obtain ⟨hnone, rfl⟩ := hcond
        obtain rfl := Option.some.inj h
        exact ⟨hstart, (refusal_none_iff store peer.name t).mp hnone⟩
      · exact absurd h (by simp)
    | session forwards =>
      have hstart := (firstFrame_session_iff S finishedEarly recv forwards).mp hfirst
      rw [(serveStream_session S finishedEarly T fault now io announced hpeer hstart).2.1] at h
      exact absurd h (by simp)
    | malformed =>
      rw [(serveStream_malformed S finishedEarly T fault now io announced hpeer hfirst).2.1] at h
      exact absurd h (by simp)
  · rintro ⟨hstart, hallowed⟩
    have hnone := (refusal_none_iff store peer.name target).mpr hallowed
    rw [(serveStream_request S finishedEarly T fault now io announced hpeer
      true hstart).1, if_pos ⟨hnone, rfl⟩]

/-- A `VALIDATE` and a `FORWARD` of one target read the same answer of the ACL, whenever they are
    sent and however the dial ends. -/
theorem serveStream_validate (hpeer : store.peerByNode node.display = some peer) (io : DialIo)
    (fault : Option (WriteFault Text)) (now : String) {target : String}
    (hvalidate : StartsWith S recv.bytes typeValidate (.validate target)) (io' : DialIo)
    (fault' : Option (WriteFault Text)) (now' : String) {recv' : RecvStream}
    (hforward : StartsWith S recv'.bytes typeForward (.forward target)) :
    ((serveStream S finishedEarly io T fault now store node announced recv).sent = [.ok] ↔
      (serveStream S finishedEarly io' T fault' now' store node announced recv').dialled =
        some target) ∧
    ((serveStream S finishedEarly io' T fault' now' store node announced recv').dialled ≠
        some target → ∃ reason,
      (serveStream S finishedEarly io T fault now store node announced recv).sent =
        [.deny reason] ∧
      (serveStream S finishedEarly io' T fault' now' store node announced recv').sent =
        [.deny reason]) := by
  obtain ⟨-, hsent⟩ := serveStream_request S finishedEarly T fault now io announced hpeer false
    hvalidate
  obtain ⟨hdialled, hsent'⟩ := serveStream_request S finishedEarly T fault' now' io' announced
    hpeer true hforward
  rw [hsent, hdialled, hsent']
  cases hrefusal : refusal store peer.name target with
  | none => simp
  | some reason => exact ⟨by simp, fun _ => ⟨reason, rfl, rfl⟩⟩

end Spec

/-- **What one data stream can make the daemon do.**  A stream of an unknown node is not read.
    For a peer, only a `FORWARD` with a well-formed and granted target is dialled; a `VALIDATE`
    says what the `FORWARD` would meet; neither it nor a `SESSION` dials; and anything else at
    the start of the stream has no effect. -/
theorem serveStream_spec (S : SerdeJson) (finishedEarly : ℕ → String)
    (T : Toml PersistedState Text) (store : State Text) (node : PublicKey)
    (announced : List AnnouncedForward) :
    let serve := fun (io : DialIo) (fault : Option (WriteFault Text)) (now : String)
      (recv : RecvStream) => serveStream S finishedEarly io T fault now store node announced recv
    (store.peerByNode node.display = none → ∀ io fault now recv,
      serve io fault now recv = ⟨store, recv, announced, none, []⟩) ∧
    ∀ peer, store.peerByNode node.display = some peer → ∀ io fault now recv,
      (∀ t, (serve io fault now recv).dialled = some t ↔
        StartsWith S recv.bytes typeForward (.forward t) ∧ validTarget t = true ∧
          store.ruleAllows peer.name t = true) ∧
      (∀ t, StartsWith S recv.bytes typeValidate (.validate t) →
        ∀ io' fault' now' recv', StartsWith S recv'.bytes typeForward (.forward t) →
          ((serve io fault now recv).sent = [.ok] ↔
            (serve io' fault' now' recv').dialled = some t) ∧
          ((serve io' fault' now' recv').dialled ≠ some t → ∃ reason,
            (serve io fault now recv).sent = [.deny reason] ∧
              (serve io' fault' now' recv').sent = [.deny reason])) ∧
      (∀ t f, StartsWith S recv.bytes t f → t = typeValidate ∨ t = typeSession →
        (serve io fault now recv).dialled = none) ∧
      ((∀ t f, StartsWith S recv.bytes t f → isOpening t f = false) →
        (serve io fault now recv).sent = [] ∧ (serve io fault now recv).dialled = none ∧
          (serve io fault now recv).announced = announced) := by
  intro serve
  refine ⟨?_, ?_⟩
  · intro hnone io fault now recv
    show serveStream S finishedEarly io T fault now store node announced recv = _
    simp only [serveStream, hnone]
  · intro peer hpeer io fault now recv
    refine ⟨?_, ?_, ?_, ?_⟩
    · exact serveStream_dialled_iff S finishedEarly T fault now io announced hpeer
    · intro t hvalidate io' fault' now' recv' hforward
      exact serveStream_validate S finishedEarly T announced hpeer io fault now hvalidate io' fault'
        now' hforward
    · intro t f hstart htype
      cases hdialled : (serve io fault now recv).dialled with
      | none => rfl
      | some target =>
        obtain ⟨hforward, -⟩ := (serveStream_dialled_iff S finishedEarly T fault now io announced
          hpeer target).mp hdialled
        obtain ⟨rfl, -⟩ := hstart.unique S hforward
        exact absurd htype (by decide)
    · intro hother
      obtain ⟨hann, hdialled, hsent⟩ := serveStream_malformed S finishedEarly T fault now io
        announced hpeer (firstFrame_malformed finishedEarly hother)
      exact ⟨hsent, hdialled, hann⟩

/-- A store with one peer and one rule. -/
def laptopStore : State PersistedState :=
  ⟨⟨1, [⟨"laptop", vectorKey0.display, "t", "t"⟩], [⟨"laptop", "db:5432", "t"⟩]⟩, .empty⟩

/-- The peer's `FORWARD` to the granted target is dialled, whatever follows it on the stream. -/
theorem serveStream_forwards_granted : ∃ b,
    (serveStream (.ofValue (DataFrame.forward "db:5432").toValue) (fun _ => "") ⟨.connected, true⟩
      (.self PersistedState) none "t2" laptopStore vectorKey0 [] ⟨b ++ [1, 2], .silent⟩).dialled
        = some "db:5432" := by
  have hok : (encodeFrame (fun f : DataFrame =>
      (SerdeJson.ofValue (DataFrame.forward "db:5432").toValue).toVec f.toValue) typeForward
        (.forward "db:5432")).isOk = true := by
    decide +kernel
  obtain ⟨b, hb⟩ := exists_of_isOk hok
  have hjson : (SerdeJson.ofValue (DataFrame.forward "db:5432").toValue).RoundTrips
      (DataFrame.forward "db:5432").toValue := by
    simp only [SerdeJson.RoundTrips, SerdeJson.ofValue, if_true]
  have hread := (encodeFrame_round_trip _ (fun _ => "") DataFrame.fromValue_toValue hjson hb).2
    [1, 2] .silent
  have hstart := (readFrame_ok_iff _ (fun _ => "") _ typeForward _).mp (congrArg Prod.fst hread)
  have hpeer : laptopStore.peerByNode vectorKey0.display =
      some ⟨"laptop", vectorKey0.display, "t", "t"⟩ := by
    decide +kernel
  obtain ⟨-, hspec⟩ := serveStream_spec (.ofValue (DataFrame.forward "db:5432").toValue)
    (fun _ => "") (.self PersistedState) laptopStore vectorKey0 []
  obtain ⟨hdial, -⟩ := hspec _ hpeer ⟨.connected, true⟩ none "t2" ⟨b ++ [1, 2], .silent⟩
  exact ⟨b, (hdial "db:5432").mpr ⟨hstart, by decide +kernel, by decide +kernel⟩⟩

end Tmite.Daemon
