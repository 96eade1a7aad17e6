import Mathlib.Data.List.Nodup
import Tmite.Lib.Transition
import Tmite.Client.Pair

namespace Tmite.Client

open Tmite.Core Tmite.Proto Transition

/-!
# Two keys, one registry (`impl ClientStore` of `fsio.rs`, its use in `client/pair.rs`)

An entry is replaced by its node id and looked up by its alias.  `WellKeyed` says that both are
keys; `upsert_split` says once what a successful `upsert` does to the list.  `registryMachine` runs
pairings, changes of forwards, saves and loads over one store and its file; whole runs of
`pair::run`, which load, insert and save by themselves, are steps of it too.
-/

universe v
variable {Text : Type v}

namespace ClientStore

/-- `ClientStore::get`. -/
def get (store : ClientStore) (name : String) : Option ServerEntry :=
  store.servers.find? (fun s => s.name == name)

/-- `ClientStore::set_forwards`. -/
def setForwards (store : ClientStore) (name : String) (forwards : List String) :
    ClientStore × Bool :=
  match store.servers.findIdx? (fun s => s.name == name) with
  | some i =>
    ({ store with servers := store.servers.modify i (fun e => { e with forwards := forwards }) },
      true)
  | none => (store, false)

/-- What `load` makes of a missing file. -/
def empty : ClientStore := ⟨1, []⟩

/-- Aliases are distinct, and node ids are. -/
structure WellKeyed (store : ClientStore) : Prop where
  names : (store.servers.map ServerEntry.name).Nodup
  nodeIds : (store.servers.map ServerEntry.nodeId).Nodup

theorem wellKeyed_empty : WellKeyed empty := ⟨List.nodup_nil, List.nodup_nil⟩

/-- The alias belongs to a different node. -/
theorem nameTaken_iff (store : ClientStore) (name nodeId : String) :
    store.nameTaken name nodeId = true ↔
      ∃ s ∈ store.servers, s.name = name ∧ s.nodeId ≠ nodeId := by
  simp [nameTaken, List.any_eq_true]

/-! ### `upsert` -/

section Upsert

variable {store store' : ClientStore} {entry : ServerEntry}

/-- **What a successful `upsert` does.**  The entry takes the place of those of its node, of which
    there is at most one, or goes to the end; nothing else moves. -/
theorem upsert_split (hkeys : WellKeyed store) (h : store.upsert entry = .ok store') :
    ∃ pre old post, store.servers = pre ++ old ++ post ∧
      store' = { store with servers := pre ++ entry :: post } ∧
      (∀ s ∈ old, s.nodeId = entry.nodeId) ∧ ∀ s ∈ pre ++ post, s.nodeId ≠ entry.nodeId := by
  simp only [upsert] at h
  split at h
  · exact absurd h (by simp)
  · split at h
    · -- in place of the entry of the same node
      rename_i i hi
      cases h
      obtain ⟨hlt, hfound, -⟩ := List.findIdx?_eq_some_iff_getElem.mp hi
      have hid : store.servers[i].nodeId = entry.nodeId := by simpa using hfound
      have hsplit : store.servers =
          store.servers.take i ++ [store.servers[i]] ++ store.servers.drop (i + 1) := by
        rw [List.append_assoc, List.singleton_append, ← List.drop_eq_getElem_cons hlt,
          List.take_append_drop]
      refine ⟨store.servers.take i, [store.servers[i]], store.servers.drop (i + 1), hsplit, ?_, ?_,
        ?_⟩
      · rw [List.set_eq_take_append_cons_drop, if_pos hlt]
      · intro s hs
        rw [List.mem_singleton.mp hs, hid]
      · intro s hs hsame
        -- the node id is in the list once, at `i`
        have hnodup := hkeys.nodeIds
        rw [hsplit, List.append_assoc, List.singleton_append, List.map_append, List.map_cons,
          List.nodup_middle, List.nodup_cons, ← List.map_append] at hnodup
        refine hnodup.1 (List.mem_map.mpr ⟨s, hs, ?_⟩)
        rw [hsame, hid]
    · -- at the end
      rename_i hnone
      cases h
      refine ⟨store.servers, [], [], by simp, rfl, by simp, ?_⟩
      intro s hs
      have hne := List.findIdx?_eq_none_iff.mp hnone s (by simpa using hs)
      simpa using hne

/-- Nobody else has the alias. -/
theorem upsert_name_free (h : store.upsert entry = .ok store') {s : ServerEntry}
    (hs : s ∈ store.servers) (hid : s.nodeId ≠ entry.nodeId) : s.name ≠ entry.name := by
  intro hname
  have htaken := (nameTaken_iff store entry.name entry.nodeId).mpr ⟨s, hs, hname, hid⟩
  obtain ⟨e, he⟩ := (upsert_error_iff store entry).mpr htaken
  rw [h] at he
  exact absurd he (by simp)

/-- `upsert` keeps both keys. -/
theorem WellKeyed.upsert (hkeys : WellKeyed store) (h : store.upsert entry = .ok store') :
    WellKeyed store' := by
  obtain ⟨pre, old, post, hsplit, rfl, -, hother⟩ := upsert_split hkeys h
  have hsub : (pre ++ post).Sublist store.servers := by
    rw [hsplit, List.append_assoc]
    exact List.Sublist.append_left (List.sublist_append_right old post) pre
  constructor
  · rw [List.map_append, List.map_cons, List.nodup_middle, List.nodup_cons, ← List.map_append]
    refine ⟨fun hmem => ?_, hkeys.names.sublist (hsub.map _)⟩
    -- `upsert` has checked the alias against the entries that stay
    obtain ⟨s, hs, hname⟩ := List.mem_map.mp hmem
    exact upsert_name_free h (hsub.subset hs) (hother s hs) hname
  · rw [List.map_append, List.map_cons, List.nodup_middle, List.nodup_cons, ← List.map_append]
    refine ⟨fun hmem => ?_, hkeys.nodeIds.sublist (hsub.map _)⟩
    obtain ⟨s, hs, hid⟩ := List.mem_map.mp hmem
    exact hother s hs hid

/-- The entries of other nodes are what they were, in the order they were in. -/
theorem upsert_others (hkeys : WellKeyed store) (h : store.upsert entry = .ok store') :
    store'.servers.filter (fun s => s.nodeId != entry.nodeId) =
      store.servers.filter (fun s => s.nodeId != entry.nodeId) := by
  obtain ⟨pre, old, post, hsplit, rfl, hold, -⟩ := upsert_split hkeys h
  have hnone : old.filter (fun s => s.nodeId != entry.nodeId) = [] := by
    refine List.filter_eq_nil_iff.mpr (fun s hs => ?_)
    simp [hold s hs]
  rw [hsplit]
  simp [hnone]

/-- The new entry is found under its node id, -/
theorem upsert_getByNodeId (hkeys : WellKeyed store) (h : store.upsert entry = .ok store') :
    store'.getByNodeId entry.nodeId = some entry := by
  obtain ⟨pre, old, post, -, rfl, -, hother⟩ := upsert_split hkeys h
  have hpre : pre.find? (fun s => s.nodeId == entry.nodeId) = none := by
    refine List.find?_eq_none.mpr (fun s hs => ?_)
    simpa using hother s (List.mem_append_left _ hs)
  simp [getByNodeId, List.find?_append, hpre]

/-- and under its alias. -/
theorem upsert_get (hkeys : WellKeyed store) (h : store.upsert entry = .ok store') :
    store'.get entry.name = some entry := by
  obtain ⟨pre, old, post, hsplit, rfl, -, hother⟩ := upsert_split hkeys h
  have hpre : pre.find? (fun s => s.name == entry.name) = none := by
    refine List.find?_eq_none.mpr (fun s hs => ?_)
    have hmem : s ∈ store.servers := by
      rw [hsplit]
      simp [hs]
    simpa using upsert_name_free h hmem (hother s (List.mem_append_left _ hs))
  simp [get, List.find?_append, hpre]

end Upsert

/-- Changing forwards touches neither key. -/
theorem WellKeyed.setForwards {store : ClientStore} (hkeys : WellKeyed store) (name : String)
    (forwards : List String) : WellKeyed (store.setForwards name forwards).1 := by
  have hkeep : ∀ {κ : Type} (f : ServerEntry → κ),
      (∀ e : ServerEntry, f { e with forwards := forwards } = f e) → ∀ i,
      (store.servers.modify i (fun e => { e with forwards := forwards })).map f =
        store.servers.map f := by
    intro κ f hf i
    apply List.ext_getElem?
    intro j
    -- place by place: `modify` touches one entry, and `f` does not see the change
    rw [List.getElem?_map, List.getElem?_map, List.getElem?_modify]
    cases store.servers[j]? with
    | none => rfl
    | some e =>
      by_cases hij : i = j
      · simp [hij, hf]
      · simp [hij]
  unfold ClientStore.setForwards
  split
  · rename_i i hi
    refine ⟨?_, ?_⟩
    · show ((store.servers.modify i _).map ServerEntry.name).Nodup
      rw [hkeep ServerEntry.name (fun _ => rfl)]
      exact hkeys.names
    · show ((store.servers.modify i _).map ServerEntry.nodeId).Nodup
      rw [hkeep ServerEntry.nodeId (fun _ => rfl)]
      exact hkeys.nodeIds
  · exact hkeys

end ClientStore

/-! ### Runs -/

/-- A store in memory, and the file next to it. -/
structure Registry (Text : Type v) where
  store : ClientStore
  disk : Files Text

/-- What is done with the registry. -/
inductive RegistryOp (Text : Type v)
  /-- A completed pairing: the node's forwards are looked up, then `upsert`. -/
  | pair (serverId : PublicKey) (storedName pairedAt : String)
  | setForwards (name : String) (forwards : List String)
  | save (fault : Option (WriteFault Text))
  | load (readError : Option String)
  /-- A whole `pair::run`, on the file. -/
  | run (params : PairParams) (io : PairIo Text)

namespace Registry

variable (T : Toml ClientStore Text) (fromBytes : Bytes32 → Option PublicKey)

/-- One operation, with the error it ends in. -/
def step (r : Registry Text) : RegistryOp Text → Registry Text × Option PairError
  | .pair serverId storedName pairedAt =>
    match r.store.upsert (confirmedEntry r.store serverId storedName pairedAt) with
    | .error e => (r, some (.fs e))
    | .ok store => ({ r with store := store }, none)
  | .setForwards name forwards => ({ r with store := (r.store.setForwards name forwards).1 }, none)
  | .save fault =>
    match ClientStore.save T fault r.store r.disk with
    | (disk, .error e) => ({ r with disk := disk }, some (.fs e))
    | (disk, .ok ()) => ({ r with disk := disk }, none)
  | .load readError =>
    match ClientStore.load T r.disk readError with
    | .error e => (r, some (.fs e))
    | .ok store => ({ r with store := store }, none)
  | .run params io =>
    match Client.run T fromBytes params io r.disk with
    | (disk, .error e) => ({ r with disk := disk }, some e)
    | (disk, .ok _) => ({ r with disk := disk }, none)

def start : Registry Text := ⟨.empty, .empty⟩

end Registry

/-- The operations one after the other. -/
def registryMachine (T : Toml ClientStore Text) (fromBytes : Bytes32 → Option PublicKey) :
    Machine (Registry Text) (RegistryOp Text) (Option PairError) :=
  ⟨Registry.step T fromBytes⟩

section Run

variable {T : Toml ClientStore Text} {fromBytes : Bytes32 → Option PublicKey}

/-- The file holds a registry with both keys, or none. -/
def FileWellKeyed (T : Toml ClientStore Text) (disk : Files Text) : Prop :=
  ∀ store readError, ClientStore.load T disk readError = .ok store → store.WellKeyed

/-- Only the file counts, not what is left of a temp file. -/
theorem FileWellKeyed.of_file_eq {disk disk' : Files Text} (h : FileWellKeyed T disk)
    (hfile : disk'.file = disk.file) : FileWellKeyed T disk' := by
  intro store readError hload
  refine h store readError ?_
  simpa only [ClientStore.load, hfile] using hload

/-- A save of a store with both keys leaves a file with both. -/
theorem FileWellKeyed.save {disk : Files Text} (h : FileWellKeyed T disk) {store : ClientStore}
    (hkeys : store.WellKeyed) (fault : Option (WriteFault Text)) :
    FileWellKeyed T (ClientStore.save T fault store disk).1 := by
  cases fault with
  -- a save that fails leaves a temp file at most
  | some f => exact h.of_file_eq (writeAndRename_some T f store disk).1
  | none =>
    intro store' readError hload
    cases readError with
    | some e => exact absurd hload (by simp [ClientStore.load])
    | none =>
      rw [ClientStore.load_save_none] at hload
      cases hload
      exact hkeys

theorem fileWellKeyed_storeServer {disk : Files Text} (h : FileWellKeyed T disk)
    (params : PairParams) (io : PairIo Text) (serverId : PublicKey) (name : String) :
    FileWellKeyed T (storeServer T params io serverId name disk).1 := by
  unfold storeServer
  split
  · exact h
  · rename_i store hload
    have hkeys := h store io.readError hload
    simp only
    split
    · exact h
    · rename_i store' hins
      have hsave := h.save (hkeys.upsert hins) io.fault
      -- saved or not, by the fault
      split <;> exact hsave

/-- Both keys, in memory and on disk. -/
structure RegistryInv (T : Toml ClientStore Text) (r : Registry Text) : Prop where
  store : r.store.WellKeyed
  disk : FileWellKeyed T r.disk

theorem RegistryInv.step {r : Registry Text} (h : RegistryInv T r) (op : RegistryOp Text) :
    RegistryInv T (r.step T fromBytes op).1 := by
  cases op with
  | pair serverId storedName pairedAt =>
    simp only [Registry.step]
    split
    · exact h
    · rename_i store hins
      exact ⟨h.store.upsert hins, h.disk⟩
  | setForwards name forwards => exact ⟨h.store.setForwards name forwards, h.disk⟩
  | save fault =>
    have hsave := h.disk.save h.store fault
    simp only [Registry.step]
    split
    · rename_i disk e hres
      rw [hres] at hsave
      exact ⟨h.store, hsave⟩
    · rename_i disk hres
      rw [hres] at hsave
      exact ⟨h.store, hsave⟩
  | load readError =>
    simp only [Registry.step]
    split
    · exact h
    · rename_i store hload
      exact ⟨h.disk store readError hload, h.disk⟩
  | run params io =>
    have hrun : FileWellKeyed T (Client.run T fromBytes params io r.disk).1 := by
      obtain ⟨_, name, serverId, -, -, heq⟩ | ⟨e, heq⟩ :=
        @run_cases _ T fromBytes params io r.disk
      · rw [heq]
        exact fileWellKeyed_storeServer h.disk params io serverId name
      · rw [heq]
        exact h.disk
    simp only [Registry.step]
    split
    · rename_i disk e hres
      rw [hres] at hrun
      exact ⟨h.store, hrun⟩
    · rename_i disk name hres
      rw [hres] at hrun
      exact ⟨h.store, hrun⟩

theorem registryInv (T : Toml ClientStore Text) (fromBytes : Bytes32 → Option PublicKey)
    (ops : List (RegistryOp Text)) :
    RegistryInv T ((registryMachine T fromBytes).run .start ops) := by
  refine Machine.run_invariant_of_forall (registryMachine T fromBytes) (P := fun _ => True)
    (fun r op h _ => h.step op) ⟨ClientStore.wellKeyed_empty, ?_⟩ ops (fun _ _ => trivial)
  intro store readError hload
  cases readError with
  | some e => exact absurd hload (by simp [ClientStore.load])
  | none =>
    cases hload
    exact ClientStore.wellKeyed_empty

/-- **The registry's keys.**  After any pairings, changes of forwards, saves and loads from an
    empty store, aliases are distinct and node ids are.  There, `upsert` fails exactly where the
    alias belongs to a different node, and a pairing that fails changes nothing; where it succeeds,
    the entries of other nodes are what they were, the new entry is found under its alias and
    under its node id, and a pairing keeps the node's forwards. -/
theorem registry_keys (T : Toml ClientStore Text) (fromBytes : Bytes32 → Option PublicKey)
    (ops : List (RegistryOp Text)) :
    let r := (registryMachine T fromBytes).run .start ops
    r.store.WellKeyed ∧
    (∀ entry : ServerEntry,
      ((∃ e, r.store.upsert entry = .error e) ↔
        ∃ s ∈ r.store.servers, s.name = entry.name ∧ s.nodeId ≠ entry.nodeId) ∧
      ∀ store', r.store.upsert entry = .ok store' →
        store'.servers.filter (fun s => s.nodeId != entry.nodeId) =
            r.store.servers.filter (fun s => s.nodeId != entry.nodeId) ∧
          store'.get entry.name = some entry ∧ store'.getByNodeId entry.nodeId = some entry) ∧
    ∀ (serverId : PublicKey) (storedName pairedAt : String),
      ((r.step T fromBytes (.pair serverId storedName pairedAt)).2 ≠ none →
        (r.step T fromBytes (.pair serverId storedName pairedAt)).1 = r) ∧
      ((r.step T fromBytes (.pair serverId storedName pairedAt)).2 = none →
        ∃ e, (r.step T fromBytes (.pair serverId storedName pairedAt)).1.store.getByNodeId
            serverId.display = some e ∧ e.name = storedName ∧ e.pairedAt = pairedAt ∧
          e.forwards = ((r.store.getByNodeId serverId.display).map ServerEntry.forwards).getD []) := by
  intro r
  have hkeys : r.store.WellKeyed := (registryInv T fromBytes ops).store
  refine ⟨hkeys, fun entry => ⟨?_, fun store' h => ?_⟩, fun serverId storedName pairedAt => ?_⟩
  · rw [ClientStore.upsert_error_iff, ClientStore.nameTaken_iff]
  · exact ⟨ClientStore.upsert_others hkeys h, ClientStore.upsert_get hkeys h,
      ClientStore.upsert_getByNodeId hkeys h⟩
  · simp only [Registry.step]
    cases hins : r.store.upsert (confirmedEntry r.store serverId storedName pairedAt) with
    | error e => exact ⟨fun _ => rfl, fun h => absurd h (by simp)⟩
    | ok store =>
      refine ⟨fun h => absurd rfl h, fun _ => ?_⟩
      exact ⟨_, ClientStore.upsert_getByNodeId hkeys hins, rfl, rfl, rfl⟩

/-- Two servers. -/
def serverOf (b : UInt8) : PublicKey := ⟨⟨List.replicate 32 b, by simp⟩⟩

/-- The first server is paired and given a forward, and the registry saved and loaded. -/
def pairedOnce : List (RegistryOp ClientStore) :=
  [.pair (serverOf 1) "box" "t0", .setForwards "box" ["22:db:22"], .save none, .load none]

/-- The second server does not get its alias; the first is paired anew, under another one. -/
theorem registry_keys_renamed :
    ∃ r : Registry ClientStore, r.store.servers = [⟨"box", (serverOf 1).display, "t0", ["22:db:22"]⟩] ∧
      (∃ e, r.store.upsert (confirmedEntry r.store (serverOf 2) "box" "t1") = .error e) ∧
      ∃ store', r.store.upsert (confirmedEntry r.store (serverOf 1) "home" "t1") = .ok store' ∧
        store'.get "home" = some ⟨"home", (serverOf 1).display, "t1", ["22:db:22"]⟩ := by
  obtain ⟨-, hupsert, -⟩ :=
    registry_keys (Toml.self ClientStore) (fun b => some ⟨b⟩) pairedOnce
  have hservers : ((registryMachine (Toml.self ClientStore) (fun b => some ⟨b⟩)).run .start
      pairedOnce).store.servers = [⟨"box", (serverOf 1).display, "t0", ["22:db:22"]⟩] := by
    decide +kernel
  refine ⟨(registryMachine (Toml.self ClientStore) (fun b => some ⟨b⟩)).run .start pairedOnce,
    hservers, ?_, ?_⟩
  · refine (hupsert _).1.mpr ?_
    rw [hservers]
    exact ⟨_, List.mem_singleton.mpr rfl, rfl, by decide +kernel⟩
  · cases hins : ((registryMachine (Toml.self ClientStore) (fun b => some ⟨b⟩)).run .start
        pairedOnce).store.upsert (confirmedEntry _ (serverOf 1) "home" "t1") with
    | error e =>
      obtain ⟨s, hs, hname, -⟩ := (hupsert _).1.mp ⟨e, hins⟩
      rw [hservers, List.mem_singleton] at hs
      rw [hs] at hname
      exact absurd hname (by decide)
    | ok store' =>
      have hget : store'.get "home" = _ := ((hupsert _).2 store' hins).2.1
      refine ⟨store', rfl, ?_⟩
      rw [hget]
      simp [confirmedEntry, ClientStore.getByNodeId, hservers]

end Run

end Tmite.Client
