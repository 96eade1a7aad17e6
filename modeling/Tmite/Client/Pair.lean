import Tmite.Client.Store
import Tmite.Proto.Frame

namespace Tmite.Client

open Tmite.Core Tmite.Proto

/-!
# The client side of pairing (`client/pair.rs`)

`run` from the point where the connection to the invite endpoint is there: the two reads, the
verdict, and the update of `servers.toml`.  What the transport does is an argument
(`PairIo`): the result of connecting and sending `VERSION` and `PAIR_HELLO`, and of each
read.  `PublicKey::from_bytes` is a parameter.
-/

universe v
variable {Text : Type v}

/-- `PairError`; errors of other crates are their texts. -/
inductive PairError
  | invalidCode (e : String)
  | unreachable
  | timeout
  | denied (reason : PairDenyReason)
  | io (e : String)
  | protocol (e : String)
  | fs (e : FsError)
  | net (e : String)
  | frame (e : FrameIoError)
deriving DecidableEq

/-- `fn protocol`. -/
def PairError.ofFrame (e : FrameIoError) : PairError := .protocol e.display

/-- The part of `PairParams` that decides what is stored: the alias. -/
structure PairParams where
  name : Option String
deriving DecidableEq

/-- What the transport, the clock and the disk contribute to one run. -/
structure PairIo (Text : Type v) where
  /-- Up to and including the two frames the client sends. -/
  opened : Except PairError Unit
  /-- The read that expects `PAIR_WAIT`. -/
  wait : FrameResult PairingFrame
  /-- The read of the verdict; `none` when the timeout around it fires. -/
  verdict : Option (FrameResult PairingFrame)
  pairedAt : String
  readError : Option String
  fault : Option (WriteFault Text)

/-- The node id and the name of a `PAIR_CONFIRM`, or the error the wait for it ends in. -/
def readVerdict : Option (FrameResult PairingFrame) → Except PairError (Bytes32 × String)
  | none => .error .timeout
  | some (.error e) => .error (.frame e)
  | some (.ok (t, .pairConfirm nodeId name)) =>
    if t = typePairConfirm then .ok (nodeId, name)
    else .error (.protocol "unexpected frame during pairing")
  | some (.ok (t, .pairDeny reason)) =>
    if t = typePairDeny then .error (.denied reason)
    else .error (.protocol "unexpected frame during pairing")
  | some (.ok _) => .error (.protocol "unexpected frame during pairing")

/-- The entry a confirmed pairing stores: a server paired before keeps its forwards. -/
def confirmedEntry (store : ClientStore) (serverId : PublicKey) (storedName pairedAt : String) :
    ServerEntry :=
  { name := storedName
    nodeId := serverId.display
    pairedAt := pairedAt
    forwards := ((store.getByNodeId serverId.display).map (fun e => e.forwards)).getD [] }

/-- From the verdict on: load the registry, insert the server, save. -/
def storeServer (T : Toml ClientStore Text) (params : PairParams) (io : PairIo Text)
    (serverId : PublicKey) (name : String) (disk : Files Text) :
    Files Text × Except PairError String :=
  match ClientStore.load T disk io.readError with
  | .error e => (disk, .error (.fs e))
  | .ok store =>
    let storedName := params.name.getD name
    match store.upsert (confirmedEntry store serverId storedName io.pairedAt) with
    | .error e => (disk, .error (.fs e))
    | .ok store =>
      let (disk, r) := ClientStore.save T io.fault store disk
      match r with
      | .error e => (disk, .error (.fs e))
      | .ok () => (disk, .ok storedName)

/-- `run`, with the registry's file before and after. -/
def run (T : Toml ClientStore Text) (fromBytes : Bytes32 → Option PublicKey)
    (params : PairParams) (io : PairIo Text) (disk : Files Text) :
    Files Text × Except PairError String :=
  match io.opened with
  | .error e => (disk, .error e)
  | .ok () =>
    match expectFrame typePairWait io.wait with
    | .error e => (disk, .error (.ofFrame e))
    | .ok _ =>
      match readVerdict io.verdict with
      | .error e => (disk, .error e)
      | .ok (bytes, name) =>
        match fromBytes bytes with
        | none => (disk, .error (.protocol "invalid node id in confirm"))
        | some serverId => storeServer T params io serverId name disk

/-! ### What a run stores -/

section Run

variable {T : Toml ClientStore Text} {fromBytes : Bytes32 → Option PublicKey}
  {params : PairParams} {io : PairIo Text} {disk : Files Text}

/-- The registry can take the server: its file loads, and the alias is not bound to a
    different one. -/
def AliasFree (T : Toml ClientStore Text) (disk : Files Text) (storedName : String)
    (serverId : PublicKey) : Prop :=
  ∃ store, ClientStore.load T disk = .ok store ∧
    store.nameTaken storedName serverId.display = false

/-- The run ended well, and what the registry now loads to has an entry for the server. -/
def StoredServer (T : Toml ClientStore Text) (serverId : PublicKey)
    (r : Files Text × Except PairError String) : Prop :=
  ∃ storedName store, r.2 = .ok storedName ∧ ClientStore.load T r.1 = .ok store ∧
    ∃ e ∈ store.servers, e.name = storedName ∧ e.nodeId = serverId.display

/-- With a file that loads, the alias decides. -/
theorem aliasFree_iff {storedName : String} {serverId : PublicKey} {store : ClientStore}
    (hload : ClientStore.load T disk = .ok store) :
    AliasFree T disk storedName serverId ↔
      store.nameTaken storedName serverId.display = false := by
  refine ⟨?_, fun h => ⟨store, hload, h⟩⟩
  rintro ⟨store', hs, hf⟩
  rw [hload] at hs
  cases hs
  exact hf

/-- A run that ended in an error stored nothing. -/
theorem not_storedServer_error {serverId : PublicKey} {e : PairError} :
    ¬ StoredServer T serverId (disk, .error e) := by
  rintro ⟨storedName, store, hok, -⟩
  exact absurd hok (by simp)

/-- Where no read and no save fails: the server is stored exactly if the registry can take it,
    and otherwise the file is left alone. -/
theorem storeServer_spec (T : Toml ClientStore Text) (params : PairParams) (disk : Files Text)
    (serverId : PublicKey) (name : String) (hread : io.readError = none)
    (hfault : io.fault = none) :
    (StoredServer T serverId (storeServer T params io serverId name disk) ↔
        AliasFree T disk (params.name.getD name) serverId) ∧
      (¬ AliasFree T disk (params.name.getD name) serverId →
        ∃ e, storeServer T params io serverId name disk = (disk, .error e)) := by
  cases hload : ClientStore.load T disk with
  | error e =>
    have hrun : storeServer T params io serverId name disk = (disk, .error (.fs e)) := by
      simp only [storeServer, hread, hload]
    have hno : ¬ AliasFree T disk (params.name.getD name) serverId := by
      rintro ⟨store, hs, -⟩
      rw [hload] at hs
      exact absurd hs (by simp)
    rw [hrun]
    exact ⟨⟨fun h => absurd h not_storedServer_error, fun h => absurd h hno⟩, fun _ => ⟨_, rfl⟩⟩
  | ok store =>
    have hup := store.upsert_error_iff
      (confirmedEntry store serverId (params.name.getD name) io.pairedAt)
    rw [aliasFree_iff hload]
    cases hins : store.upsert
        (confirmedEntry store serverId (params.name.getD name) io.pairedAt) with
    | error e =>
      have hrun : storeServer T params io serverId name disk = (disk, .error (.fs e)) := by
        simp only [storeServer, hread, hload, hins]
      have htaken : store.nameTaken (params.name.getD name) serverId.display = true :=
        hup.mp ⟨e, hins⟩
      rw [hrun]
      exact ⟨⟨fun h => absurd h not_storedServer_error, fun h => absurd h (by rw [htaken]; simp)⟩,
        fun _ => ⟨_, rfl⟩⟩
    | ok store' =>
      have hrun : storeServer T params io serverId name disk =
          ((ClientStore.save T none store' disk).1, .ok (params.name.getD name)) := by
        simp only [storeServer, hread, hfault, hload, hins]
        rfl
      have hfree : store.nameTaken (params.name.getD name) serverId.display = false := by
        by_contra htaken
        obtain ⟨e, he⟩ := hup.mpr (by simpa [confirmedEntry] using htaken)
        rw [hins] at he
        exact absurd he (by simp)
      rw [hrun]
      refine ⟨⟨fun _ => hfree, fun _ => ?_⟩, fun h => absurd hfree h⟩
      exact ⟨_, store', rfl, ClientStore.load_save_none T store' disk, _,
        ClientStore.upsert_mem hins, rfl, rfl⟩

/-- Only a `PAIR_CONFIRM` under its own type byte gets past the verdict. -/
theorem readVerdict_ok {v : Option (FrameResult PairingFrame)} {bytes : Bytes32} {name : String}
    (h : readVerdict v = .ok (bytes, name)) :
    v = some (.ok (typePairConfirm, .pairConfirm bytes name)) := by
  unfold readVerdict at h
  split at h
  · exact absurd h (by simp)
  · exact absurd h (by simp)
  · split at h
    · rename_i ht
      cases h
      rw [ht]
    · exact absurd h (by simp)
  · split at h <;> exact absurd h (by simp)
  · exact absurd h (by simp)

/-- A run either reads a `PAIR_CONFIRM` as its verdict and goes on to store the server, or
    ends in an error without touching the file. -/
theorem run_cases :
    (∃ bytes name serverId, io.verdict = some (.ok (typePairConfirm, .pairConfirm bytes name)) ∧
        fromBytes bytes = some serverId ∧
        run T fromBytes params io disk = storeServer T params io serverId name disk) ∨
      ∃ e, run T fromBytes params io disk = (disk, .error e) := by
  unfold run
  -- connecting, the wait frame, the verdict, the key: each can end the run
  split
  · exact .inr ⟨_, rfl⟩
  · split
    · exact .inr ⟨_, rfl⟩
    · split
      · exact .inr ⟨_, rfl⟩
      · rename_i bytes name hverdict
        split
        · exact .inr ⟨_, rfl⟩
        · -- only here is the registry touched
          rename_i serverId hkey
          exact .inl ⟨bytes, name, serverId, readVerdict_ok hverdict, hkey, rfl⟩

/-- A run that read a `PAIR_CONFIRM` as its verdict goes on to store the server. -/
theorem run_confirmed {serverId : PublicKey} {name : String} (hopened : io.opened = .ok ())
    (hwait : io.wait = .ok (typePairWait, .pairWait))
    (hverdict : io.verdict = some (.ok (typePairConfirm, .pairConfirm serverId.asBytes name)))
    (hkey : fromBytes serverId.asBytes = some serverId) :
    run T fromBytes params io disk = storeServer T params io serverId name disk := by
  have hexpect : expectFrame typePairWait (.ok (typePairWait, PairingFrame.pairWait))
      = .ok .pairWait := rfl
  simp only [run, hopened, hwait, hexpect, hverdict, readVerdict, if_true, hkey]

end Run

end Tmite.Client
