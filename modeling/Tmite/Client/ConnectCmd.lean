import Tmite.Client.FwdSpec
import Tmite.Client.Registry

namespace Tmite.Client

open Tmite.Core Tmite.Proto Transition

/-!
# Saving default forwards (`connect_cmd` of `main.rs`)

`connect --save-defaults` stores its `--fwd` texts as the server's defaults and then parses them.
The file is written first, so a spec that is rejected has been saved by then, and every later
`connect` without `--fwd` is rejected for it.

* `connectCmd_file` — what a command can do to the file.
* `saveDefaults_atomic` — when a rejected spec leaves the file alone, and that histories of
  commands for which it does keep every saved forward acceptable.
-/

universe v
variable {Text : Type v}

/-! ### The command -/

/-- How `connect_cmd` fails before it connects: `FsError`, a server that is `not found; pair
    first`, no spec given or saved, and `ConnectError::BadSpec`. -/
inductive ConnectCmdError
  | fs (e : FsError)
  | notFound (name : String)
  | noSpecs (name : String)
  | badSpec (e : BadSpec)
deriving DecidableEq

/-- The arguments of one `connect`, and what its reads and writes run into. -/
structure ConnectCall (Text : Type v) where
  name : String
  fwd : List String
  saveDefaults : Bool
  readError : Option String := none
  fault : Option (WriteFault Text) := none

/-- The files after it, the lines it has printed, and the specs it goes on to connect with. -/
structure ConnectResult (Text : Type v) where
  disk : Files Text
  printed : List String
  specs : Except ConnectCmdError (List FwdSpec)
deriving DecidableEq

variable (T : Toml ClientStore Text)

/-- The `save_defaults` block: the store with the new defaults, saved, and the line about it. -/
def saveDefaults (c : ConnectCall Text) (store : ClientStore) (disk : Files Text) :
    Files Text × Except FsError (ClientStore × List String) :=
  if c.saveDefaults then
    let store := (store.setForwards c.name c.fwd).1
    let (disk, r) := ClientStore.save T c.fault store disk
    let line := if c.fwd.isEmpty then "cleared default forwards for " ++ c.name
      else "saved default forwards for " ++ c.name
    (disk, r.map fun _ => (store, [line]))
  else (disk, .ok (store, []))

/-- Explicit specs replace the saved ones. -/
def specTexts (c : ConnectCall Text) (store : ClientStore) : List String :=
  if c.fwd.isEmpty then ((store.get c.name).map ServerEntry.forwards).getD [] else c.fwd

/-- `connect_cmd`, up to `connect::run`. -/
def connectCmd (c : ConnectCall Text) (disk : Files Text) : ConnectResult Text :=
  match ClientStore.load T disk c.readError with
  | .error e => ⟨disk, [], .error (.fs e)⟩
  | .ok store =>
    if (store.get c.name).isNone then ⟨disk, [], .error (.notFound c.name)⟩
    else
      match saveDefaults T c store disk with
      | (disk, .error e) => ⟨disk, [], .error (.fs e)⟩
      | (disk, .ok (store, printed)) =>
        if (specTexts c store).isEmpty then ⟨disk, printed, .error (.noSpecs c.name)⟩
        else ⟨disk, printed, ((specTexts c store).mapM parseFwdSpec).mapError .badSpec⟩

/-! ### What it does to the file -/

/-- The text is a spec. -/
def Accepted (text : String) : Prop := ∃ f, parseFwdSpec text = .ok f

/-- The parse loop goes through exactly for a list of specs. -/
theorem mapM_parseFwdSpec_iff (texts : List String) :
    (∃ specs, texts.mapM parseFwdSpec = .ok specs) ↔ ∀ text ∈ texts, Accepted text := by
  induction texts with
  | nil => exact ⟨fun _ text h => absurd h (by simp), fun _ => ⟨[], rfl⟩⟩
  | cons text texts ih =>
    rw [List.forall_mem_cons, ← ih, List.mapM_cons]
    cases hfirst : parseFwdSpec text with
    | error e =>
      constructor
      · rintro ⟨specs, h⟩
        exact absurd h (by simp [bind, Except.bind])
      · rintro ⟨⟨f, hf⟩, -⟩
        rw [hfirst] at hf
        exact absurd hf (by simp)
    | ok f =>
      cases hrest : texts.mapM parseFwdSpec with
      | error e =>
        constructor
        · rintro ⟨specs, h⟩
          exact absurd h (by simp [bind, Except.bind])
        · rintro ⟨-, specs, h⟩
          exact absurd h (by simp)
      | ok specs => exact ⟨fun _ => ⟨⟨f, hfirst⟩, specs, rfl⟩, fun _ => ⟨f :: specs, rfl⟩⟩

/-- What is replaced in place is found there. -/
theorem find?_modify {α : Type*} {p : α → Bool} {f : α → α} (hf : ∀ a, p (f a) = p a)
    {l : List α} {i : ℕ} (h : l.findIdx? p = some i) :
    (l.modify i f).find? p = (l.find? p).map f := by
  induction l generalizing i with
  | nil => exact absurd h (by simp)
  | cons x xs ih =>
    rw [List.findIdx?_cons] at h
    by_cases hx : p x = true
    · rw [if_pos hx] at h
      rw [← Option.some.inj h, List.modify_zero_cons, List.find?_cons_of_pos hx,
        List.find?_cons_of_pos (by rw [hf]; exact hx)]
      rfl
    · rw [if_neg hx] at h
      obtain ⟨j, hj, rfl⟩ := Option.map_eq_some_iff.mp h
      rw [List.modify_succ_cons, List.find?_cons_of_neg hx, List.find?_cons_of_neg hx, ih hj]

/-- The defaults just set are the ones found. -/
theorem setForwards_get {store : ClientStore} {name : String}
    (hknown : (store.get name).isNone = false) (forwards : List String) :
    ((store.setForwards name forwards).1.get name).map ServerEntry.forwards = some forwards := by
  cases hidx : store.servers.findIdx? (fun s => s.name == name) with
  | none =>
    have hnone : store.get name = none := by
      rw [ClientStore.get, List.find?_eq_none]
      intro s hs
      rw [List.findIdx?_eq_none_iff.mp hidx s hs]
      simp
    rw [hnone] at hknown
    exact absurd hknown (by simp)
  | some i =>
    have hget : (store.setForwards name forwards).1.get name =
        (store.get name).map (fun e => { e with forwards }) := by
      simp only [ClientStore.setForwards, hidx, ClientStore.get]
      refine find?_modify ?_ hidx
      exact fun _ => rfl
    cases he : store.get name with
    | none =>
      rw [he] at hknown
      exact absurd hknown (by simp)
    | some e =>
      rw [hget, he]
      rfl

section Command

variable {T} {c : ConnectCall Text} {disk : Files Text}

/-- The command gets as far as writing `store` with its new defaults. -/
structure Saves (T : Toml ClientStore Text) (c : ConnectCall Text) (disk : Files Text)
    (store : ClientStore) : Prop where
  asked : c.saveDefaults = true
  loaded : ClientStore.load T disk c.readError = .ok store
  known : (store.get c.name).isNone = false
  written : c.fault = none

/-- The text it then writes. -/
def savedText (T : Toml ClientStore Text) (c : ConnectCall Text) (store : ClientStore) : Text :=
  T.toStringPretty (store.setForwards c.name c.fwd).1

/-- A command that saves writes the new defaults, and goes on to its specs. -/
theorem connectCmd_saves {store : ClientStore} (h : Saves T c disk store) :
    (connectCmd T c disk).disk.file = some (savedText T c store) ∧
      (c.fwd ≠ [] → (connectCmd T c disk).specs =
        (c.fwd.mapM parseFwdSpec).mapError .badSpec) := by
  have hsave : saveDefaults T c store disk =
      (⟨some (savedText T c store), none⟩, .ok ((store.setForwards c.name c.fwd).1,
        [if c.fwd.isEmpty then "cleared default forwards for " ++ c.name
          else "saved default forwards for " ++ c.name])) := by
    simp only [saveDefaults, h.asked, h.written, if_true, ClientStore.save, writeAndRename_none]
    rfl
  unfold connectCmd
  simp only [h.loaded, h.known, hsave, Bool.false_eq_true, if_false]
  constructor
  · split
    · rfl
    · rfl
  · intro hne
    have htexts : specTexts c (store.setForwards c.name c.fwd).1 = c.fwd := by
      rw [specTexts, if_neg (by simpa using hne)]
    rw [htexts, if_neg (by simpa using hne)]

/-- **What a command does to the file**: nothing, or it saves. -/
theorem connectCmd_file (T : Toml ClientStore Text) (c : ConnectCall Text) (disk : Files Text) :
    (connectCmd T c disk).disk.file = disk.file ∨ ∃ store, Saves T c disk store := by
  cases hload : ClientStore.load T disk c.readError with
  | error e =>
    refine .inl ?_
    simp only [connectCmd, hload]
  | ok store =>
    by_cases hknown : (store.get c.name).isNone = true
    · refine .inl ?_
      simp only [connectCmd, hload, hknown, if_true]
    · by_cases hask : c.saveDefaults = true
      · cases hfault : c.fault with
        | none => exact .inr ⟨store, hask, hload, Bool.eq_false_iff.mpr hknown, hfault⟩
        | some f =>
          -- a save that fails leaves the file as it was, and is the end of the command
          refine .inl ?_
          obtain ⟨hfile, e, he⟩ :=
            writeAndRename_some T f (store.setForwards c.name c.fwd).1 disk
          have hsave : (saveDefaults T c store disk).1.file = disk.file ∧
              ∃ e, (saveDefaults T c store disk).2 = .error e := by
            simp only [saveDefaults, hask, hfault, if_true, ClientStore.save]
            exact ⟨hfile, .ofSave e, by rw [he]; rfl⟩
          obtain ⟨hfile, e, he⟩ := hsave
          simp only [connectCmd, hload, if_neg hknown]
          cases hres : saveDefaults T c store disk with
          | mk disk' r =>
            rw [hres] at hfile he
            simp only at hfile he
            subst he
            exact hfile
      · refine .inl ?_
        simp only [connectCmd, hload, if_neg hknown, saveDefaults, if_neg hask]
        split
        · rfl
        · rfl

/-- A rejected spec of a command that saves is one of those given. -/
theorem Saves.badSpec_iff {store : ClientStore} (h : Saves T c disk store) :
    (∃ e, (connectCmd T c disk).specs = .error (.badSpec e)) ↔ ¬ ∀ text ∈ c.fwd, Accepted text := by
  by_cases hne : c.fwd = []
  · -- defaults that were cleared leave nothing to parse
    have hsave : saveDefaults T c store disk = (⟨some (savedText T c store), none⟩,
        .ok ((store.setForwards c.name c.fwd).1, ["cleared default forwards for " ++ c.name])) := by
      simp only [saveDefaults, h.asked, h.written, if_true, ClientStore.save, writeAndRename_none,
        hne, List.isEmpty_nil]
      rw [savedText, hne]
      rfl
    have htexts : specTexts c (store.setForwards c.name c.fwd).1 = [] := by
      rw [specTexts, if_pos (by simp [hne]), setForwards_get h.known, hne]
      rfl
    have hspecs : (connectCmd T c disk).specs = .error (.noSpecs c.name) := by
      unfold connectCmd
      simp only [h.loaded, h.known, hsave, htexts, Bool.false_eq_true, if_false, List.isEmpty_nil,
        if_true]
    rw [hspecs, hne]
    constructor
    · rintro ⟨e, he⟩
      exact absurd he (by simp)
    · exact fun hnot => absurd (fun text htext => absurd htext (by simp)) hnot
  · rw [(connectCmd_saves h).2 hne, ← mapM_parseFwdSpec_iff]
    cases c.fwd.mapM parseFwdSpec with
    | error e => exact ⟨fun _ => by simp, fun _ => ⟨e, rfl⟩⟩
    | ok specs =>
      constructor
      · rintro ⟨e, he⟩
        exact absurd he (by simp [Except.mapError])
      · exact fun hnot => absurd ⟨specs, rfl⟩ hnot

end Command

/-! ### All or nothing -/

/-- A rejected spec leaves the file alone. -/
def AllOrNothing (c : ConnectCall Text) (disk : Files Text) : Prop :=
  ∀ e, (connectCmd T c disk).specs = .error (.badSpec e) →
    (connectCmd T c disk).disk.file = disk.file

/-- All the specs given are accepted; or the command does not get as far as saving them; or the
    file is already what it would save. -/
def SavesAccepted (c : ConnectCall Text) (disk : Files Text) : Prop :=
  (∀ text ∈ c.fwd, Accepted text) ∨
    ∀ store, Saves T c disk store → disk.file = some (savedText T c store)

theorem allOrNothing_iff (c : ConnectCall Text) (disk : Files Text) :
    AllOrNothing T c disk ↔ SavesAccepted T c disk := by
  constructor
  · intro h
    by_cases hall : ∀ text ∈ c.fwd, Accepted text
    · exact .inl hall
    · refine .inr (fun store hs => ?_)
      obtain ⟨e, he⟩ := hs.badSpec_iff.mpr hall
      rw [← h e he, (connectCmd_saves hs).1]
  · intro h e he
    rcases connectCmd_file T c disk with hfile | ⟨store, hs⟩
    · exact hfile
    · rcases h with hall | hsame
      · exact absurd hall (hs.badSpec_iff.mp ⟨e, he⟩)
      · rw [(connectCmd_saves hs).1, hsame store hs]

/-! ### Histories of commands -/

/-- The two commands that write `servers.toml`. -/
inductive ClientCmd (Text : Type v)
  | pair (params : PairParams) (io : PairIo Text)
  | connect (c : ConnectCall Text)

/-- The commands, one after the other, on one file. -/
def clientMachine (fromBytes : Bytes32 → Option PublicKey) :
    Machine (Files Text) (ClientCmd Text) Unit where
  step disk cmd :=
    match cmd with
    | .pair params io => ((run T fromBytes params io disk).1, ())
    | .connect c => ((connectCmd T c disk).disk, ())

/-- Every default that the file holds is accepted. -/
def ForwardsAccepted (disk : Files Text) : Prop :=
  ∀ store readError, ClientStore.load T disk readError = .ok store →
    ∀ e ∈ store.servers, ∀ text ∈ e.forwards, Accepted text

/-- A `connect --save-defaults` leaves the file alone if it rejects a spec. -/
def CmdSavesAccepted (disk : Files Text) : ClientCmd Text → Prop
  | .pair _ _ => True
  | .connect c => SavesAccepted T c disk

section History

variable {T}

theorem ForwardsAccepted.of_file_eq {disk disk' : Files Text} (h : ForwardsAccepted T disk)
    (hfile : disk'.file = disk.file) : ForwardsAccepted T disk' := by
  intro store readError hload
  refine h store readError ?_
  simp only [ClientStore.load, hfile] at hload ⊢
  exact hload

/-- A file that holds what was printed for an acceptable store. -/
theorem forwardsAccepted_printed {disk : Files Text} {store : ClientStore}
    (hfile : disk.file = some (T.toStringPretty store))
    (h : ∀ e ∈ store.servers, ∀ text ∈ e.forwards, Accepted text) : ForwardsAccepted T disk := by
  intro store' readError hload
  cases readError with
  | some e => exact absurd hload (by simp [ClientStore.load])
  | none =>
    simp only [ClientStore.load, hfile, T.fromStr_toStringPretty] at hload
    rw [← Except.ok.inj hload]
    exact h

/-- An entry of an updated store is the new one or an old one. -/
theorem mem_of_upsert {store store' : ClientStore} {entry e : ServerEntry}
    (h : store.upsert entry = .ok store') (he : e ∈ store'.servers) :
    e = entry ∨ e ∈ store.servers := by
  simp only [ClientStore.upsert] at h
  split at h
  · exact absurd h (by simp)
  · split at h
    · rw [← Except.ok.inj h] at he
      exact (List.mem_or_eq_of_mem_set he).symm
    · rw [← Except.ok.inj h, List.mem_append, List.mem_singleton] at he
      exact he.symm

/-- The forwards of an entry after `set_forwards` are the new ones or some entry's old ones. -/
theorem mem_of_setForwards {store : ClientStore} {name : String} {forwards : List String}
    {e : ServerEntry} (he : e ∈ (store.setForwards name forwards).1.servers) :
    e.forwards = forwards ∨ e ∈ store.servers := by
  simp only [ClientStore.setForwards] at he
  split at he
  · rename_i i hi
    obtain ⟨j, hj, hget⟩ := List.getElem_of_mem he
    rw [List.getElem_modify] at hget
    split at hget
    · rw [← hget]
      exact .inl rfl
    · rw [← hget]
      exact .inr (List.getElem_mem _)
  · exact .inr he

/-- A pairing keeps the forwards of the server it replaces, and gives a new one none. -/
theorem ForwardsAccepted.storeServer {disk : Files Text} (h : ForwardsAccepted T disk)
    (params : PairParams) (io : PairIo Text) (serverId : PublicKey) (name : String) :
    ForwardsAccepted T (storeServer T params io serverId name disk).1 := by
  unfold Client.storeServer
  split
  · exact h
  · rename_i store hload
    simp only
    split
    · exact h
    · rename_i store' hins
      have hold := h store io.readError hload
      have hnew : ∀ e ∈ store'.servers, ∀ text ∈ e.forwards, Accepted text := by
        intro e he
        rcases mem_of_upsert hins he with rfl | he
        · intro text htext
          simp only [confirmedEntry] at htext
          cases hfound : store.getByNodeId serverId.display with
          | none =>
            rw [hfound] at htext
            exact absurd htext (by simp)
          | some old =>
            rw [hfound] at htext
            exact hold old (List.mem_of_find?_eq_some hfound) text htext
        · exact hold e he
      -- the file is the old one if the save fails
      have hsaved : ForwardsAccepted T (ClientStore.save T io.fault store' disk).1 := by
        cases hfault : io.fault with
        | none => exact forwardsAccepted_printed (by simp [ClientStore.save]) hnew
        | some f => exact h.of_file_eq (writeAndRename_some T f store' disk).1
      split
      · exact hsaved
      · exact hsaved

/-- A `connect` that leaves the file alone when it rejects a spec saves accepted ones only. -/
theorem ForwardsAccepted.connectCmd {disk : Files Text} (h : ForwardsAccepted T disk)
    {c : ConnectCall Text} (hc : SavesAccepted T c disk) :
    ForwardsAccepted T (connectCmd T c disk).disk := by
  rcases connectCmd_file T c disk with hfile | ⟨store, hs⟩
  · exact h.of_file_eq hfile
  · have hfile := (connectCmd_saves hs).1
    rcases hc with hall | hsame
    · refine forwardsAccepted_printed hfile (fun e he => ?_)
      rcases mem_of_setForwards he with hnew | hold
      · rw [hnew]
        exact hall
      · exact h store c.readError hs.loaded e hold
    · exact h.of_file_eq (by rw [hfile, hsame store hs])

end History

/-- **Saving defaults.**  A `connect` leaves `servers.toml` alone whenever it rejects a spec exactly
    if all its specs are accepted, or it does not get as far as saving them, or the file is already
    what it would save.  In every history of pairings and connects that meet this, from no file at
    all, every default that is saved is accepted. -/
theorem saveDefaults_atomic (T : Toml ClientStore Text)
    (fromBytes : Bytes32 → Option PublicKey) :
    (∀ (c : ConnectCall Text) (disk : Files Text),
      AllOrNothing T c disk ↔ SavesAccepted T c disk) ∧
    ∀ cmds : List (ClientCmd Text),
      (∀ pre cmd post, cmds = pre ++ cmd :: post →
        CmdSavesAccepted T ((clientMachine T fromBytes).run .empty pre) cmd) →
      ForwardsAccepted T ((clientMachine T fromBytes).run .empty cmds) := by
  refine ⟨allOrNothing_iff T, fun cmds hcmds => ?_⟩
  refine (clientMachine T fromBytes).run_invariant (I := ForwardsAccepted T)
    (C := CmdSavesAccepted T) (fun disk cmd h hc => ?_) ?_ cmds hcmds
  · cases cmd with
    | pair params io =>
      show ForwardsAccepted T (run T fromBytes params io disk).1
      rcases @run_cases Text T fromBytes params io disk with
        ⟨bytes, name, serverId, -, -, hrun⟩ | ⟨e, hrun⟩
      · rw [hrun]
        exact h.storeServer params io serverId name
      · rw [hrun]
        exact h
    | connect c => exact h.connectCmd hc
  · -- without a file there is no server
    intro store readError hload
    cases readError with
    | some e => exact absurd hload (by simp [ClientStore.load])
    | none =>
      rw [← Except.ok.inj hload]
      simp

/-- A client that is confirmed as `box`. -/
def pairBox : ClientCmd ClientStore :=
  .pair ⟨none⟩
    { opened := .ok ()
      wait := .ok (typePairWait, .pairWait)
      verdict := some (.ok (typePairConfirm, .pairConfirm (serverOf 1).asBytes "box"))
      pairedAt := "t"
      readError := none
      fault := none }

/-- A `connect --save-defaults` whose spec has no target. -/
def connectBad : ConnectCall ClientStore := ⟨"box", ["2222"], true, none, none⟩

/-- The spec is rejected and has been saved, and so a bare `connect` is rejected too. -/
theorem rejected_spec_saved :
    let disk := (clientMachine (.self ClientStore) (fun b => some ⟨b⟩)).run .empty [pairBox]
    let disk' := (connectCmd (.self ClientStore) connectBad disk).disk
    (connectCmd (.self ClientStore) connectBad disk).specs =
        .error (.badSpec ⟨"2222", "expected [ADDR:]PORT:TARGET"⟩) ∧
      disk'.file ≠ disk.file ∧
      (connectCmd (.self ClientStore) ⟨"box", [], false, none, none⟩ disk').specs =
        .error (.badSpec ⟨"2222", "expected [ADDR:]PORT:TARGET"⟩) ∧
      ¬ ForwardsAccepted (.self ClientStore)
        ((clientMachine (.self ClientStore) (fun b => some ⟨b⟩)).run .empty
          [pairBox, .connect connectBad]) := by
  refine ⟨by decide +kernel, by decide +kernel, by decide +kernel, fun h => ?_⟩
  have hload : ClientStore.load (.self ClientStore)
      ((clientMachine (.self ClientStore) (fun b => some ⟨b⟩)).run .empty
        [pairBox, .connect connectBad]) none =
      .ok ⟨1, [⟨"box", (serverOf 1).display, "t", ["2222"]⟩]⟩ := by
    decide +kernel
  obtain ⟨f, hf⟩ := h _ none hload _ (List.mem_singleton.mpr rfl) "2222"
    (List.mem_singleton.mpr rfl)
  have hbad : parseFwdSpec "2222" = .error ⟨"2222", "expected [ADDR:]PORT:TARGET"⟩ := by
    decide +kernel
  rw [hbad] at hf
  exact absurd hf (by simp)

/-- The same with a spec that is accepted. -/
theorem saveDefaults_atomic_accepted :
    ForwardsAccepted (.self ClientStore)
      ((clientMachine (.self ClientStore) (fun b => some ⟨b⟩)).run .empty
        [pairBox, .connect ⟨"box", ["2222:localhost:22"], true, none, none⟩]) := by
  refine (saveDefaults_atomic (.self ClientStore) (fun b => some ⟨b⟩)).2 _ ?_
  have hspec : Accepted "2222:localhost:22" := ⟨⟨.localhost, 2222, "localhost:22"⟩, by decide +kernel⟩
  have hcmd : ∀ cmd ∈ [pairBox, .connect ⟨"box", ["2222:localhost:22"], true, none, none⟩],
      ∀ disk, CmdSavesAccepted (.self ClientStore) disk cmd := by
    intro cmd hmem disk
    simp only [List.mem_cons, List.not_mem_nil, or_false] at hmem
    rcases hmem with rfl | rfl
    · trivial
    · refine .inl (fun text htext => ?_)
      rw [List.mem_singleton.mp htext]
      exact hspec
  intro pre cmd post hsplit
  exact hcmd cmd (by rw [hsplit]; simp) _

end Tmite.Client
