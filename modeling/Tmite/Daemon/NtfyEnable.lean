import Tmite.Core.DataDir
import Tmite.Core.PublicKey
import Tmite.Daemon.Dispatch
import Tmite.Lib.TaskList
import Tmite.Lib.Transition

namespace Tmite.Daemon

open Tmite.Core Transition TaskList Serde

/-!
# Enabling notifications (`dispatch_ntfy_enable` and `dispatch_ntfy_disable` of `daemon/ipc.rs`)

Each request runs in a task of its own, on a runtime of several threads, and `ntfy.enable` looks for
a configuration, writes `ntfy.toml.tmp` and renames it without a lock: every call on the data
directory is a step here.  `touched` and `gone` are history.

`no_silent_rotation`: a topic that was given out stays until it is disabled, and a failed request
changes nothing, as long as no request finds the configuration missing while another one is saving.
-/

universe v
variable {Byte : Type v}

/-! ### Requests and files -/

/-- `NtfyError`, with the texts of the errors it wraps. -/
inductive NtfyError
  | io (e : String)
  | toml (e : String)
  | tomlSer (e : String)
deriving DecidableEq, Repr

/-- The `#[error]` texts. -/
def NtfyError.display : NtfyError → String
  | io e => "io error: " ++ e
  | toml e => "config error: " ++ e
  | tomlSer e => "config error: " ++ e

/-- `err(ErrorCode::Internal, e)`. -/
def DispatchError.ofNtfy (e : NtfyError) : DispatchError := ⟨.internal, e.display⟩

/-- `io::ErrorKind::NotFound`, as Linux has it. -/
def noSuchFile : String := "No such file or directory (os error 2)"

/-- `io::ErrorKind::WriteZero` of `write_all`. -/
def writeZero : String := "failed to write whole buffer"

/-- `Option<String>`. -/
def asServer : Value → Option (Option String)
  | .null => some none
  | v => v.asStr.map some

/-- `NtfyEnableParams`, whose one field, `server`, may be missing or null. -/
def ntfyEnableParams : Value → Option (Option String)
  | .obj members =>
    match members.filter (fun m => m.1 = "server") with
    | [] => some none
    | [m] => asServer m.2
    | _ => none
  | .arr [] => some none
  | .arr [server] => asServer server
  | _ => none

/-- `validate_server_url`; `debug` is the `{:?}` of a string, which escapes by Unicode tables. -/
def validateServerUrl (debug : String → String) (url : String) : Except String Unit :=
  if url.startsWith "http://" || url.startsWith "https://" then .ok ()
  else .error ("server must be an http(s) URL, got " ++ debug url)

/-- `[u8; 16]`. -/
abbrev Bytes16 := { bytes : List UInt8 // bytes.length = 16 }

/-- `generate_topic`, with what `random_bytes` returned. -/
def generateTopic (random : Bytes16) : String := hex random.1

/-- `NtfyEnableResult`. -/
structure NtfyEnableResult where
  topic : String
  serverUrl : String
deriving DecidableEq, Repr

namespace NtfyConfig

/-- `NtfyConfig::load`; reading may fail. -/
def load (T : Toml NtfyConfig (List Byte)) (d : DataDir Byte) (fault : Option String := none) :
    Except NtfyError (Option NtfyConfig) :=
  match fault, d.file with
  | some e, _ => .error (.io e)
  | none, none => .ok none
  | none, some ino =>
    match T.fromStr (d.contents ino) with
    | .ok config => .ok (some config)
    | .error e => .error (.toml e)

/-- `NtfyConfig::remove`. -/
def remove (d : DataDir Byte) (fault : Option String) : DataDir Byte × Except NtfyError Bool :=
  match fault, d.removeFile with
  | some e, _ => (d, .error (.io e))
  | none, some d => (d, .ok true)
  | none, none => (d, .ok false)

end NtfyConfig

/-! ### The task of an `ntfy.enable` -/

/-- Where `dispatch_ntfy_enable` stands. -/
inductive EnablePc (Byte : Type v)
  /-- The parameters are read. -/
  | check (server : Option String)
  /-- There is no configuration, and `save` begins. -/
  | create (config : NtfyConfig)
  /-- In `write_all`, with what is left to write. -/
  | write (config : NtfyConfig) (ino off : ℕ) (rest : List Byte)
  /-- The temp file is written. -/
  | rename (config : NtfyConfig)
  /-- `save` has returned. -/
  | saved (config : NtfyConfig)
  | replied (r : Except DispatchError NtfyEnableResult)
deriving DecidableEq

namespace EnablePc

/-- Past the check, and before the end of `save`. -/
def saving : EnablePc Byte → Bool
  | create _ => true
  | write _ _ _ _ => true
  | rename _ => true
  | _ => false

/-- `save` has gone through. -/
def done : EnablePc Byte → Bool
  | saved _ => true
  | replied r => r.isOk
  | _ => false

/-- `save` fails. -/
def fail (e : NtfyError) : EnablePc Byte := replied (.error (.ofNtfy e))

end EnablePc

/-- Where `save` fails before it writes: up to the open file, or in `to_string_pretty`. -/
inductive CreateFault
  | io (e : String)
  | serialize (e : String)
deriving DecidableEq, Repr

/-- What the system does to a task. -/
inductive EnableEvent
  | load (fault : Option String) (random : Bytes16)
  | create (fault : Option CreateFault)
  /-- One `write` takes that many bytes. -/
  | write (n : ℕ) (fault : Option String)
  | rename (fault : Option String)
  | reply

section

variable (T : Toml NtfyConfig (List Byte)) (zero : Byte)

/-- `dispatch_ntfy_enable`, up to its first call on the directory. -/
def enableStart (paramsError : Value → String) (debug : String → String) (params : Value) :
    EnablePc Byte :=
  match ntfyEnableParams params with
  | none => .replied (.error ⟨.badRequest, paramsError params⟩)
  | some none => .check none
  | some (some url) =>
    match validateServerUrl debug url with
    | .error e => .replied (.error ⟨.badRequest, e⟩)
    | .ok () => .check (some url)

/-- `dispatch_ntfy_enable` from its check on, call by call. -/
def enableStep (d : DataDir Byte) : EnablePc Byte → EnableEvent → Option (DataDir Byte × EnablePc Byte)
  | .check server, .load fault random =>
    match NtfyConfig.load T d fault with
    | .error e => some (d, .fail e)
    | .ok (some existing) =>
      some (d, .replied (.error ⟨.badRequest, "ntfy notifications already enabled (topic " ++
        existing.topic ++ "); disable first to rotate"⟩))
    | .ok none => some (d, .create ⟨generateTopic random, server⟩)
  | .create config, .create fault =>
    match fault with
    | some (.io e) => some (d, .fail (.io e))
    -- `to_string_pretty` comes after the open: the temp file is empty by then
    | some (.serialize e) => some (d.openTmp.1, .fail (.tomlSer e))
    | none => some (d.openTmp.1, .write config d.openTmp.2 0 (T.toStringPretty config))
  | .write config ino off rest, .write n fault =>
    if rest.isEmpty then some (d, .rename config)
    else
      match fault with
      | some e => some (d, .fail (.io e))
      | none =>
        if n = 0 then some (d, .fail (.io writeZero))
        -- `write_all` goes on where the last `write` stopped, in the inode it has open
        else some (d.writeAt zero ino off (rest.take n),
          if (rest.drop n).isEmpty then .rename config
          else .write config ino (off + n) (rest.drop n))
  | .rename config, .rename fault =>
    match fault, d.rename with
    | some e, _ => some (d, .fail (.io e))
    -- another task has renamed the temp file away
    | none, none => some (d, .fail (.io noSuchFile))
    | none, some d => some (d, .saved config)
  | .saved config, .reply => some (d, .replied (.ok ⟨config.topic, config.serverUrl⟩))
  | _, _ => none

end

/-! ### The requests together -/

structure EnableTask (Byte : Type v) where
  pc : EnablePc Byte
  /-- A step of this task has changed what `load` returns. -/
  touched : Bool := false
  /-- The file has been removed after this task's `save`. -/
  gone : Bool := false
deriving DecidableEq

structure NtfyPlane (Byte : Type v) where
  dir : DataDir Byte
  enables : List (EnableTask Byte)
  /-- The replies to `ntfy.disable`. -/
  disables : List (Except DispatchError Bool)

inductive NtfyAct
  | enable (params : Value)
  | task (i : ℕ) (ev : EnableEvent)
  | disable (fault : Option String)

section

variable (T : Toml NtfyConfig (List Byte)) (zero : Byte) (paramsError : Value → String)
  (debug : String → String)

namespace NtfyPlane

/-- `dispatch_ntfy_disable`. -/
def disable (s : NtfyPlane Byte) (fault : Option String) : NtfyPlane Byte :=
  match NtfyConfig.remove s.dir fault with
  | (d, .ok true) =>
    ⟨d, s.enables.map fun t => { t with gone := t.gone || t.pc.done }, s.disables ++ [.ok true]⟩
  | (d, .ok false) => { s with dir := d, disables := s.disables ++ [.ok false] }
  | (d, .error e) => { s with dir := d, disables := s.disables ++ [.error (.ofNtfy e)] }

/-- A step, where it is enabled. -/
def next (s : NtfyPlane Byte) : NtfyAct → Option (NtfyPlane Byte)
  | .enable params =>
    some { s with enables := s.enables ++ [⟨enableStart paramsError debug params, false, false⟩] }
  | .task i ev =>
    s.enables[i]?.bind fun t => (enableStep T zero s.dir t.pc ev).map fun (d, pc) =>
      { s with
        dir := d
        enables := s.enables.set i ⟨pc, t.touched ||
          decide (NtfyConfig.load T d ≠ NtfyConfig.load T s.dir), t.gone⟩ }
  | .disable fault => some (s.disable fault)

end NtfyPlane

/-- Whatever the directory holds at first. -/
def ntfySystem : System (NtfyPlane Byte) NtfyAct where
  init s := s.enables = []
  next := NtfyPlane.next T zero paramsError debug

/-- No request finds the configuration missing while another one is saving. -/
def ChecksAlone (s : NtfyPlane Byte) : NtfyAct → Prop
  | .task _ (.load none _) => s.dir.file = none → ∀ t ∈ s.enables, t.pc.saving = false
  | _ => True

instance (s : NtfyPlane Byte) (a : NtfyAct) : Decidable (ChecksAlone s a) :=
  match a with
  | .task _ (.load none _) =>
    inferInstanceAs (Decidable (s.dir.file = none → ∀ t ∈ s.enables, t.pc.saving = false))
  | .task _ (.load (some _) _) | .task _ (.create _) | .task _ (.write _ _) | .task _ (.rename _)
  | .task _ .reply | .enable _ | .disable _ => inferInstanceAs (Decidable True)

/-- A topic that was given out is the stored one until the file is removed, and a request that
    failed has not changed what is stored. -/
structure NoSilentRotation (s : NtfyPlane Byte) : Prop where
  keeps : ∀ t ∈ s.enables, ∀ r, t.pc = .replied (.ok r) → t.gone = false →
    ∃ config, NtfyConfig.load T s.dir = .ok (some config) ∧ config.topic = r.topic
  unchanged : ∀ t ∈ s.enables, ∀ e, t.pc = .replied (.error e) → t.touched = false

end

/-! ### What a step does -/

section

variable {T : Toml NtfyConfig (List Byte)} {zero : Byte}

/-- The steps of a task and what they do to the directory. -/
inductive EnableMove (T : Toml NtfyConfig (List Byte)) (zero : Byte) (d : DataDir Byte) :
    EnablePc Byte → EnableEvent → DataDir Byte → EnablePc Byte → Prop
  | pass {server random} (h : d.file = none) :
    EnableMove T zero d (.check server) (.load none random) d (.create ⟨generateTopic random, server⟩)
  | fail {pc ev} (e : DispatchError) (h : pc.done = false) :
    EnableMove T zero d pc ev d (.replied (.error e))
  | unserialized {config ev} (e : DispatchError) :
    EnableMove T zero d (.create config) ev d.openTmp.1 (.replied (.error e))
  | create {config ev} : EnableMove T zero d (.create config) ev d.openTmp.1
      (.write config d.openTmp.2 0 (T.toStringPretty config))
  | write {config ino off ev} (chunk rest : List Byte) :
    EnableMove T zero d (.write config ino off (chunk ++ rest)) ev (d.writeAt zero ino off chunk)
      (.write config ino (off + chunk.length) rest)
  | written {config ino off ev} (rest : List Byte) :
    EnableMove T zero d (.write config ino off rest) ev (d.writeAt zero ino off rest)
      (.rename config)
  | empty {config ino off ev} : EnableMove T zero d (.write config ino off []) ev d (.rename config)
  | rename {config ev} {ino : ℕ} (h : d.tmp = some ino) :
    EnableMove T zero d (.rename config) ev { d with file := some ino, tmp := none } (.saved config)
  | reply {config ev} : EnableMove T zero d (.saved config) ev d
      (.replied (.ok ⟨config.topic, config.serverUrl⟩))

theorem load_ok_none {d : DataDir Byte} {fault : Option String}
    (h : NtfyConfig.load T d fault = .ok none) : fault = none ∧ d.file = none := by
  unfold NtfyConfig.load at h
  split at h
  · simp at h
  · exact ⟨rfl, by assumption⟩
  · split at h <;> simp at h

theorem enableStep_cases {d d' : DataDir Byte} {pc pc' : EnablePc Byte} {ev : EnableEvent}
    (h : enableStep T zero d pc ev = some (d', pc')) : EnableMove T zero d pc ev d' pc' := by
  unfold enableStep at h
  split at h
  · -- the check
    rename_i server fault random
    split at h <;> simp only [Option.some.injEq, Prod.mk.injEq] at h <;> obtain ⟨rfl, rfl⟩ := h
    · exact .fail _ rfl
    · exact .fail _ rfl
    · rename_i hload
      obtain ⟨rfl, hfile⟩ := load_ok_none hload
      exact .pass hfile
  · -- the temp file is opened
    split at h <;> simp only [Option.some.injEq, Prod.mk.injEq] at h <;> obtain ⟨rfl, rfl⟩ := h
    · exact .fail _ rfl
    · exact .unserialized _
    · exact .create
  · -- and written
    rename_i config ino off rest n fault
    split at h
    · rename_i hrest
      rw [List.isEmpty_iff] at hrest
      subst hrest
      simp only [Option.some.injEq, Prod.mk.injEq] at h
      obtain ⟨rfl, rfl⟩ := h
      exact .empty
    · split at h
      · simp only [Option.some.injEq, Prod.mk.injEq] at h
        obtain ⟨rfl, rfl⟩ := h
        exact .fail _ rfl
      · split at h <;> simp only [Option.some.injEq, Prod.mk.injEq] at h <;> obtain ⟨rfl, rfl⟩ := h
        · exact .fail _ rfl
        · split
          · rename_i hlast
            rw [List.isEmpty_iff, List.drop_eq_nil_iff] at hlast
            rw [List.take_of_length_le hlast]
            exact .written rest
          · rename_i hlast
            rw [List.isEmpty_iff, List.drop_eq_nil_iff, not_le] at hlast
            have hmove : EnableMove T zero d (.write config ino off (rest.take n ++ rest.drop n))
                (.write n none) (d.writeAt zero ino off (rest.take n))
                (.write config ino (off + (rest.take n).length) (rest.drop n)) := .write _ _
            rw [List.take_append_drop, List.length_take_of_le hlast.le] at hmove
            exact hmove
  · -- the rename
    split at h <;> simp only [Option.some.injEq, Prod.mk.injEq] at h <;> obtain ⟨rfl, rfl⟩ := h
    · exact .fail _ rfl
    · exact .fail _ rfl
    · rename_i hrename
      obtain ⟨ino, htmp, rfl⟩ := Option.map_eq_some_iff.mp hrename
      exact .rename htmp
  · simp only [Option.some.injEq, Prod.mk.injEq] at h
    obtain ⟨rfl, rfl⟩ := h
    exact .reply
  · simp at h

/-! ### One save at a time -/

/-- The file holds that configuration. -/
def InFile (T : Toml NtfyConfig (List Byte)) (d : DataDir Byte) (config : NtfyConfig) : Prop :=
  ∃ ino, d.file = some ino ∧ d.contents ino = T.toStringPretty config

theorem InFile.load {d : DataDir Byte} {config : NtfyConfig} (h : InFile T d config) :
    NtfyConfig.load T d = .ok (some config) := by
  obtain ⟨ino, hfile, htext⟩ := h
  simp only [NtfyConfig.load, hfile, htext, T.fromStr_toStringPretty]

/-- What a task knows about the directory. -/
def Knows (T : Toml NtfyConfig (List Byte)) (d : DataDir Byte) (gone : Bool) : EnablePc Byte → Prop
  | .check _ => True
  | .create _ => d.file = none
  | .write config ino off rest => d.file = none ∧ d.tmp = some ino ∧ off = (d.contents ino).length ∧
      d.contents ino ++ rest = T.toStringPretty config
  | .rename config => d.file = none ∧ ∃ ino, d.tmp = some ino ∧
      d.contents ino = T.toStringPretty config
  | .saved config => gone = true ∨ InFile T d config
  | .replied (.ok r) => gone = true ∨
      ∃ config, InFile T d config ∧ r = ⟨config.topic, config.serverUrl⟩
  | .replied (.error _) => True

structure EnableInv (T : Toml NtfyConfig (List Byte)) (s : NtfyPlane Byte) : Prop where
  one : ∀ (i j : ℕ) (t u : EnableTask Byte), s.enables[i]? = some t → s.enables[j]? = some u →
    t.pc.saving = true → u.pc.saving = true → i = j
  knows : ∀ t ∈ s.enables, Knows T s.dir t.gone t.pc
  untouched : ∀ t ∈ s.enables, t.pc.done = false → t.touched = false

theorem Knows.file {d : DataDir Byte} {gone : Bool} {pc : EnablePc Byte} (h : Knows T d gone pc)
    (hsaving : pc.saving = true) : d.file = none := by
  cases pc with
  | create config => exact h
  | write config ino off rest => exact h.1
  | rename config => exact h.1
  | _ => exact absurd hsaving (by simp [EnablePc.saving])

/-- Without a file, a task that is not saving knows nothing that a save could change. -/
theorem Knows.of_file {d d' : DataDir Byte} {gone : Bool} {pc : EnablePc Byte}
    (h : Knows T d gone pc) (hfile : d.file = none) (hsaving : pc.saving = false) :
    Knows T d' gone pc := by
  -- whoever has given out a topic has seen the file go
  have hnot : ∀ config, ¬ InFile T d config := by
    rintro config ⟨ino, hino, -⟩
    rw [hfile] at hino
    cases hino
  cases pc with
  | check server => trivial
  | saved config => exact .inl (h.resolve_right (hnot config))
  | replied r =>
    cases r with
    | error e => trivial
    | ok r =>
      refine .inl (h.resolve_right ?_)
      rintro ⟨config, hstored, -⟩
      exact hnot config hstored
  | _ => exact absurd hsaving (by simp [EnablePc.saving])

theorem load_of_file {d d' : DataDir Byte} (h : d.file = none) (h' : d'.file = none) :
    NtfyConfig.load T d' = NtfyConfig.load T d := by
  simp only [NtfyConfig.load, h, h']

/-- **A step of one task.**  The task knows what it should afterwards; where the directory changed
    it was saving, and only the end of a save changes what is stored. -/
theorem EnableMove.knows {d d' : DataDir Byte} {pc pc' : EnablePc Byte} {ev : EnableEvent}
    {gone : Bool} (h : EnableMove T zero d pc ev d' pc') (hknows : Knows T d gone pc) :
    Knows T d' gone pc' ∧ (d' = d ∨ pc.saving = true) ∧
      (pc'.done = false → pc.done = false ∧ NtfyConfig.load T d' = NtfyConfig.load T d) := by
  cases h with
  | pass hfile => exact ⟨hfile, .inl rfl, fun _ => ⟨rfl, rfl⟩⟩
  | fail e hpc => exact ⟨trivial, .inl rfl, fun _ => ⟨hpc, rfl⟩⟩
  | unserialized e =>
    have hfile : d.openTmp.1.file = none := by rw [DataDir.openTmp_file]; exact hknows
    exact ⟨trivial, .inr rfl, fun _ => ⟨rfl, load_of_file hknows hfile⟩⟩
  | create =>
    have hfile : d.openTmp.1.file = none := by rw [DataDir.openTmp_file]; exact hknows
    refine ⟨⟨hfile, d.openTmp_tmp, ?_, ?_⟩, .inr rfl, fun _ => ⟨rfl, load_of_file hknows hfile⟩⟩
    · rw [DataDir.openTmp_contents, List.length_nil]
    · rw [DataDir.openTmp_contents, List.nil_append]
  | write chunk rest =>
    obtain ⟨hfile, htmp, rfl, htext⟩ := hknows
    refine ⟨⟨hfile, htmp, ?_, ?_⟩, .inr rfl, fun _ => ⟨rfl, load_of_file hfile hfile⟩⟩
    · rw [DataDir.writeAt_contents, List.length_append]
    · rw [DataDir.writeAt_contents, List.append_assoc, htext]
  | written rest =>
    obtain ⟨hfile, htmp, rfl, htext⟩ := hknows
    refine ⟨⟨hfile, _, htmp, ?_⟩, .inr rfl, fun _ => ⟨rfl, load_of_file hfile hfile⟩⟩
    rw [DataDir.writeAt_contents, htext]
  | empty =>
    obtain ⟨hfile, htmp, -, htext⟩ := hknows
    exact ⟨⟨hfile, _, htmp, by rw [← htext, List.append_nil]⟩, .inl rfl, fun _ => ⟨rfl, rfl⟩⟩
  | @rename config ev ino htmp =>
    obtain ⟨-, ino', htmp', htext⟩ := hknows
    -- the temp file is still the one this task wrote, so its text becomes the stored one
    rw [htmp] at htmp'
    cases htmp'
    exact ⟨.inr ⟨ino, rfl, htext⟩, .inr rfl, fun hdone => absurd hdone (by simp [EnablePc.done])⟩
  | @reply config =>
    refine ⟨hknows.imp_right fun hstored => ⟨config, hstored, rfl⟩, .inl rfl, fun hdone => ?_⟩
    exact absurd hdone (by simp [EnablePc.done, Except.isOk, Except.toBool])

/-- Who is saving after a step was saving before it, or has found no file. -/
theorem EnableMove.saving {d d' : DataDir Byte} {pc pc' : EnablePc Byte} {ev : EnableEvent}
    (h : EnableMove T zero d pc ev d' pc') (hsaving : pc'.saving = true) :
    pc.saving = true ∨ d.file = none ∧ ∃ random, ev = .load none random := by
  cases h with
  | pass hfile => exact .inr ⟨hfile, _, rfl⟩
  | create => exact .inl rfl
  | write chunk rest => exact .inl rfl
  | written rest => exact .inl rfl
  | empty => exact .inl rfl
  | _ => exact absurd hsaving (by simp [EnablePc.saving])

variable {paramsError : Value → String} {debug : String → String} {s : NtfyPlane Byte}

theorem enableStart_cases (params : Value) :
    (∃ server, (enableStart paramsError debug params : EnablePc Byte) = .check server) ∨
      ∃ e, (enableStart paramsError debug params : EnablePc Byte) = .replied (.error e) := by
  unfold enableStart
  split
  · exact .inr ⟨_, rfl⟩
  · exact .inl ⟨_, rfl⟩
  · split
    · exact .inr ⟨_, rfl⟩
    · exact .inl ⟨_, rfl⟩

theorem EnableInv.enable (h : EnableInv T s) (params : Value) :
    EnableInv T { s with
      enables := s.enables ++ [⟨enableStart paramsError debug params, false, false⟩] } := by
  have hidle : (enableStart paramsError debug params : EnablePc Byte).saving = false := by
    obtain ⟨server, heq⟩ | ⟨e, heq⟩ := @enableStart_cases Byte paramsError debug params <;>
      rw [heq] <;> rfl
  refine ⟨?_, ?_, ?_⟩
  · intro i j t u ht hu hst hsu
    obtain ht | ⟨-, rfl⟩ := getElem?_concat_cases ht
    · obtain hu | ⟨-, rfl⟩ := getElem?_concat_cases hu
      · exact h.one i j t u ht hu hst hsu
      · rw [hidle] at hsu
        cases hsu
    · rw [hidle] at hst
      cases hst
  · intro t ht
    obtain ht | ht := List.mem_append.mp ht
    · exact h.knows t ht
    · rw [List.mem_singleton] at ht
      subst ht
      obtain ⟨server, heq⟩ | ⟨e, heq⟩ := @enableStart_cases Byte paramsError debug params <;>
        simp only [heq, Knows]
  · intro t ht hdone
    obtain ht | ht := List.mem_append.mp ht
    · exact h.untouched t ht hdone
    · rw [List.mem_singleton] at ht
      rw [ht]

theorem EnableInv.task (h : EnableInv T s) {i : ℕ} {t : EnableTask Byte} {ev : EnableEvent}
    {d : DataDir Byte} {pc : EnablePc Byte} (ht : s.enables[i]? = some t)
    (hmove : EnableMove T zero s.dir t.pc ev d pc)
    (halone : (∃ random, ev = .load none random) → s.dir.file = none →
      ∀ u ∈ s.enables, u.pc.saving = false) :
    EnableInv T { s with
      dir := d
      enables := s.enables.set i ⟨pc, t.touched ||
        decide (NtfyConfig.load T d ≠ NtfyConfig.load T s.dir), t.gone⟩ } := by
  have hmem := List.mem_of_getElem? ht
  obtain ⟨hknows, hdir, hstored⟩ := hmove.knows (h.knows t hmem)
  -- a saving task is alone, whether it was saving before the step or has just begun
  have hother : pc.saving = true → ∀ j u, i ≠ j → s.enables[j]? = some u → u.pc.saving = false := by
    intro hsaving j u hij hu
    obtain hbefore | ⟨hfile, hload⟩ := hmove.saving hsaving
    · by_contra hu'
      rw [Bool.not_eq_false] at hu'
      exact hij (h.one i j t u ht hu hbefore hu')
    · exact halone hload hfile u (List.mem_of_getElem? hu)
  refine ⟨?_, ?_, ?_⟩
  · intro j k u v hu hv hsu hsv
    obtain ⟨rfl, rfl⟩ | ⟨hij, hu⟩ := getElem?_set_cases hu
    · obtain ⟨rfl, -⟩ | ⟨hik, hv⟩ := getElem?_set_cases hv
      · rfl
      · rw [hother hsu k v hik hv] at hsv
        cases hsv
    · obtain ⟨rfl, rfl⟩ | ⟨-, hv⟩ := getElem?_set_cases hv
      · rw [hother hsv j u hij hu] at hsu
        cases hsu
      · exact h.one j k u v hu hv hsu hsv
  · intro u hu
    obtain ⟨j, hj⟩ := List.mem_iff_getElem?.mp hu
    obtain ⟨rfl, rfl⟩ | ⟨hij, hj⟩ := getElem?_set_cases hj
    · exact hknows
    · have hbefore := h.knows u (List.mem_of_getElem? hj)
      obtain rfl | hsaving := hdir
      · exact hbefore
      -- the directory changed under a save, so there was no file and nobody else was saving
      · refine hbefore.of_file ((h.knows t hmem).file hsaving) ?_
        by_contra hu'
        rw [Bool.not_eq_false] at hu'
        exact hij (h.one i j t u ht hj hsaving hu')
  · intro u hu hdone
    obtain ⟨j, hj⟩ := List.mem_iff_getElem?.mp hu
    obtain ⟨rfl, rfl⟩ | ⟨-, hj⟩ := getElem?_set_cases hj
    · obtain ⟨hpc, hload⟩ := hstored hdone
      simp [h.untouched t hmem hpc, hload]
    · exact h.untouched u (List.mem_of_getElem? hj) hdone

/-- A removal is what a topic given out may be gone by. -/
theorem Knows.remove {d : DataDir Byte} {gone : Bool} {pc : EnablePc Byte} (h : Knows T d gone pc) :
    Knows T { d with file := none } (gone || pc.done) pc := by
  cases pc with
  | check server => trivial
  | create config => rfl
  | write config ino off rest => exact ⟨rfl, h.2⟩
  | rename config => exact ⟨rfl, h.2⟩
  -- from here on the removal is recorded in `gone`
  | saved config => exact .inl (Bool.or_true _)
  | replied r =>
    cases r with
    | error e => trivial
    | ok r => exact .inl (Bool.or_true _)

theorem EnableInv.disable (h : EnableInv T s) (fault : Option String) :
    EnableInv T (s.disable fault) := by
  unfold NtfyPlane.disable NtfyConfig.remove
  cases fault with
  | some e => exact ⟨h.one, h.knows, h.untouched⟩
  | none =>
    cases hfile : s.dir.file with
    | none =>
      simp only [DataDir.removeFile, hfile, Option.map_none]
      exact ⟨h.one, h.knows, h.untouched⟩
    | some ino =>
      simp only [DataDir.removeFile, hfile, Option.map_some]
      refine ⟨?_, ?_, ?_⟩
      · intro i j t u ht hu hst hsu
        rw [List.getElem?_map] at ht hu
        obtain ⟨t₀, ht₀, rfl⟩ := Option.map_eq_some_iff.mp ht
        obtain ⟨u₀, hu₀, rfl⟩ := Option.map_eq_some_iff.mp hu
        exact h.one i j t₀ u₀ ht₀ hu₀ hst hsu
      · intro t ht
        obtain ⟨t₀, ht₀, rfl⟩ := List.mem_map.mp ht
        exact (h.knows t₀ ht₀).remove
      · intro t ht hdone
        obtain ⟨t₀, ht₀, rfl⟩ := List.mem_map.mp ht
        exact h.untouched t₀ ht₀ hdone

theorem EnableInv.next {s' : NtfyPlane Byte} {a : NtfyAct} (h : EnableInv T s)
    (halone : ChecksAlone s a) (hn : s.next T zero paramsError debug a = some s') :
    EnableInv T s' := by
  cases a with
  | enable params =>
    simp only [NtfyPlane.next, Option.some.injEq] at hn
    subst hn
    exact h.enable params
  | task i ev =>
    obtain ⟨t, ht, hn⟩ := Option.bind_eq_some_iff.mp hn
    obtain ⟨⟨d, pc⟩, hstep, rfl⟩ := Option.map_eq_some_iff.mp hn
    refine h.task ht (enableStep_cases hstep) ?_
    rintro ⟨random, rfl⟩ hfile
    exact halone hfile
  | disable fault =>
    simp only [NtfyPlane.next, Option.some.injEq] at hn
    subst hn
    exact h.disable fault

/-- **No silent rotation.**  Whatever the requests and however they interleave: as long as no
    `ntfy.enable` finds the configuration missing while another one is saving, a topic that was
    given out stays until it is disabled, and a request that failed has changed nothing. -/
theorem no_silent_rotation (h : Reach (ntfySystem T zero paramsError debug) ChecksAlone s) :
    NoSilentRotation T s := by
  have hinv : EnableInv T s := by
    refine Reach.invariant (fun s₀ (hinit : s₀.enables = []) => ?_)
      (fun s a s' _ hs halone hn => hs.next halone hn) h
    exact ⟨by simp [hinit], by simp [hinit], by simp [hinit]⟩
  refine ⟨fun t ht r hpc hgone => ?_, fun t ht e hpc => ?_⟩
  · have hknows := hinv.knows t ht
    -- the file is there, unless it was removed since
    rw [hpc, hgone] at hknows
    obtain hgone | ⟨config, hstored, rfl⟩ := hknows
    · cases hgone
    · exact ⟨config, hstored.load, rfl⟩
  · refine hinv.untouched t ht ?_
    rw [hpc]
    rfl

end

/-! ### The text of `ntfy.toml`, for evaluating the model -/

/-- A character of a basic string. -/
def quoteChar (c : Char) : List Char :=
  if c = '"' then ['\\', '"'] else if c = '\\' then ['\\', '\\'] else [c]

/-- A basic string up to its closing quote, and what follows it. -/
def unquote : List Char → Option (List Char × List Char)
  | [] => none
  | '"' :: rest => some ([], rest)
  | '\\' :: c :: rest => (unquote rest).map fun r => (c :: r.1, r.2)
  | c :: rest => (unquote rest).map fun r => (c :: r.1, r.2)

def tomlLine (key value : String) : List Char :=
  key.toList ++ " = \"".toList ++ value.toList.flatMap quoteChar ++ "\"\n".toList

def readLine (key : String) (text : List Char) : Option (String × List Char) :=
  let head := key.toList ++ " = \"".toList
  if text.take head.length = head then
    match unquote (text.drop head.length) with
    | some (value, '\n' :: rest) => some (String.ofList value, rest)
    | _ => none
  else none

theorem unquote_quoteChar (value rest : List Char) :
    unquote (value.flatMap quoteChar ++ '"' :: rest) = some (value, rest) := by
  induction value with
  | nil => rfl
  | cons c value ih =>
    rw [List.flatMap_cons, List.append_assoc, quoteChar]
    by_cases hquote : c = '"'
    · subst hquote
      simp [unquote, ih]
    · by_cases hslash : c = '\\'
      · subst hslash
        simp [unquote, ih]
      -- a character that is not escaped is read by the last line of `unquote`
      · rw [if_neg hquote, if_neg hslash, List.cons_append, List.nil_append, unquote, ih]
        · rfl
        · exact hquote
        · exact fun _ _ hc => absurd hc hslash

theorem readLine_tomlLine (key value : String) (rest : List Char) :
    readLine key (tomlLine key value ++ rest) = some (value, rest) := by
  have hhead : tomlLine key value ++ rest = (key.toList ++ " = \"".toList) ++
      (value.toList.flatMap quoteChar ++ '"' :: '\n' :: rest) := by
    simp [tomlLine]
  rw [hhead, readLine]
  simp only [List.take_left, List.drop_left, if_true, unquote_quoteChar, String.ofList_toList]

/-- `ntfy.toml` with basic strings. -/
def ntfyToml : Toml NtfyConfig (List Char) where
  toStringPretty config := tomlLine "topic" config.topic ++
    match config.server with
    | none => []
    | some server => tomlLine "server" server
  fromStr text :=
    match readLine "topic" text with
    | none => .error "TOML parse error"
    | some (topic, rest) =>
      if rest.isEmpty then .ok ⟨topic, none⟩
      else
        match readLine "server" rest with
        | some (server, []) => .ok ⟨topic, some server⟩
        | _ => .error "TOML parse error"
  fromStr_toStringPretty := by
    rintro ⟨topic, server⟩
    rw [readLine_tomlLine]
    cases server with
    | none => rfl
    | some server =>
      have hline : (tomlLine "server" server).isEmpty = false := by simp [tomlLine]
      have hserver := readLine_tomlLine "server" server []
      rw [List.append_nil] at hserver
      simp only [hline, hserver, Bool.false_eq_true, if_false]

/-! ### Two requests -/

/-- Over ASCII texts. -/
def ntfyChars : System (NtfyPlane Char) NtfyAct :=
  ntfySystem ntfyToml (Char.ofNat 0) (fun _ => "") (fun url => url)

def NtfyPlane.start : NtfyPlane Char := ⟨.empty, [], []⟩

def topicBytes (b : UInt8) : Bytes16 := ⟨List.replicate 16 b, List.length_replicate⟩

/-- Request `i` goes through, with a `write` of ten bytes and one of the rest. -/
def saves (i : ℕ) : List NtfyAct :=
  [.task i (.create none), .task i (.write 10 none), .task i (.write 100 none),
    .task i (.rename none), .task i .reply]

/-- A second request after the first, which is refused. -/
def refusedRun : List NtfyAct :=
  [.enable (.obj []), .task 0 (.load none (topicBytes 1))] ++ saves 0 ++
    [.enable (.obj [("server", .str "https://ntfy.example.com")]),
      .task 1 (.load none (topicBytes 2))]

/-- Both requests find the configuration missing, and one after the other saves. -/
def rotatedRun : List NtfyAct :=
  [.enable (.obj []), .enable (.obj []), .task 0 (.load none (topicBytes 1)),
    .task 1 (.load none (topicBytes 2))] ++ saves 0 ++ saves 1

/-- Both have the temp file open when the first renames it; the second writes to what is now
    `ntfy.toml` and has nothing left to rename. -/
def overwrittenRun : List NtfyAct :=
  [.enable (.obj []), .enable (.obj []), .task 0 (.load none (topicBytes 1)),
    .task 1 (.load none (topicBytes 2)), .task 0 (.create none), .task 1 (.create none),
    .task 0 (.write 100 none), .task 0 (.rename none), .task 0 .reply, .task 1 (.write 100 none),
    .task 1 (.rename none)]

/-- The requests and what is stored. -/
def NtfyPlane.view (s : NtfyPlane Char) :
    List (EnableTask Char) × Except NtfyError (Option NtfyConfig) :=
  (s.enables, NtfyConfig.load ntfyToml s.dir)

/-- A request that has given out a topic, and nobody has disabled it since. -/
def givenOut (topic : String) : EnableTask Char :=
  ⟨.replied (.ok ⟨topic, "https://ntfy.sh"⟩), true, false⟩

def failed (e : DispatchError) (touched : Bool) : EnableTask Char :=
  ⟨.replied (.error e), touched, false⟩

def topic1 : String := "01010101010101010101010101010101"
def topic2 : String := "02020202020202020202020202020202"

def alreadyEnabled : DispatchError :=
  ⟨.badRequest, "ntfy notifications already enabled (topic 01010101010101010101010101010101); " ++
    "disable first to rotate"⟩

theorem no_silent_rotation_refused : ∃ s, Reach ntfyChars ChecksAlone s ∧
    NoSilentRotation ntfyToml s ∧
    s.view = ([givenOut topic1, failed alreadyEnabled false], .ok (some ⟨topic1, none⟩)) := by
  have hrun : (exec ntfyChars (fun s a => decide (ChecksAlone s a)) .start refusedRun).map
      NtfyPlane.view =
      some ([givenOut topic1, failed alreadyEnabled false], .ok (some ⟨topic1, none⟩)) := by
    decide +kernel
  obtain ⟨s, hs, hview⟩ := reach_of_exec_map (fun _ _ => of_decide_eq_true) hrun (.init rfl)
  exact ⟨s, hs, no_silent_rotation hs, hview⟩

/-- Two requests at a time: the topic the first gave out is replaced, and the second request may
    have replaced it although it failed. -/
theorem rotated_silently :
    (∃ s, Reach ntfyChars anyStep s ∧ ¬ NoSilentRotation ntfyToml s ∧
      s.view = ([givenOut topic1, givenOut topic2], .ok (some ⟨topic2, none⟩))) ∧
    ∃ s, Reach ntfyChars anyStep s ∧ ¬ NoSilentRotation ntfyToml s ∧
      s.view = ([givenOut topic1, failed (.ofNtfy (.io noSuchFile)) true],
        .ok (some ⟨topic2, none⟩)) := by
  have hrotated : (exec ntfyChars (fun _ _ => true) .start rotatedRun).map NtfyPlane.view =
      some ([givenOut topic1, givenOut topic2], .ok (some ⟨topic2, none⟩)) := by
    decide +kernel
  have hoverwritten : (exec ntfyChars (fun _ _ => true) .start overwrittenRun).map NtfyPlane.view =
      some ([givenOut topic1, failed (.ofNtfy (.io noSuchFile)) true],
        .ok (some ⟨topic2, none⟩)) := by
    decide +kernel
  constructor
  · obtain ⟨s, hs, hview⟩ :=
      reach_of_exec_map (C := anyStep) (fun _ _ _ => trivial) hrotated (.init rfl)
    obtain ⟨henables, hload⟩ := Prod.mk.inj hview
    refine ⟨s, hs, fun h => ?_, hview⟩
    obtain ⟨config, hconfig, htopic⟩ := h.keeps (givenOut topic1) (by simp [henables]) _ rfl rfl
    rw [hload] at hconfig
    cases hconfig
    exact absurd htopic (by decide)
  · obtain ⟨s, hs, hview⟩ :=
      reach_of_exec_map (C := anyStep) (fun _ _ _ => trivial) hoverwritten (.init rfl)
    obtain ⟨henables, -⟩ := Prod.mk.inj hview
    refine ⟨s, hs, fun h => ?_, hview⟩
    have hunchanged := h.unchanged (failed (.ofNtfy (.io noSuchFile)) true) (by simp [henables]) _ rfl
    cases hunchanged

end Tmite.Daemon
