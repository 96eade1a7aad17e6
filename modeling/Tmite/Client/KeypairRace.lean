import Tmite.Client.Keypair
import Tmite.Core.DataDir
import Tmite.Lib.TaskList
import Tmite.Lib.Transition
import Mathlib.Data.List.Flatten

namespace Tmite.Client

open Tmite.Core Tmite.Proto Tmite.Daemon Transition TaskList

/-!
# One identity for all processes (`load_or_create_keypair` of `fsio.rs`)

Nothing locks the keypair file.  On a first run several processes can find it missing and generate a
key each; `create_new` lets one of them create it, and it writes its digits and the newline while
others may already be reading, or be killed half way.

* `keypair_agree` — whoever returns a key returns the same one, that is the key in the file from then
  on, and nobody panics.
-/

/-- Where a process is in `load_or_create_keypair`. -/
inductive KeyPc
  | read
  /-- There was no file; `sk` is what it generated. -/
  | create (sk : SecretKey)
  /-- The file is open, and `written` bytes of the digits are out. -/
  | digits (sk : SecretKey) (written : ℕ)
  | newline (sk : SecretKey)
  /-- What it returned; `none` is a panic. -/
  | returned (r : Option (Except FsError SecretKey))
  | dead
deriving DecidableEq

/-- The bytes `write_secret_file` is given. -/
def digitBytes (sk : SecretKey) : List UInt8 := utf8 (hex sk.bytes.1).toList

/-- The file at the path, and the processes. -/
structure KeyRun where
  file : Option (List UInt8)
  procs : List KeyPc
deriving DecidableEq

inductive KeyAct
  | spawn
  /-- `generated` is what `SecretKey::generate` returns, if it is called. -/
  | read (i : ℕ) (generated : SecretKey)
  | readFails (i : ℕ) (e : String)
  | create (i : ℕ)
  /-- `create_dir_all` fails, or `open` other than for an existing file. -/
  | createFails (i : ℕ) (e : String)
  /-- A `write` takes at most `n + 1` bytes. -/
  | write (i n : ℕ)
  | writeFails (i : ℕ) (e : String)
  | crash (i : ℕ)

namespace KeyRun

/-- Process `i` goes on to `pc`. -/
def move (s : KeyRun) (i : ℕ) (pc : KeyPc) : KeyRun := { s with procs := s.procs.set i pc }

/-- It has failed with `e`. -/
def fail (s : KeyRun) (i : ℕ) (e : String) : KeyRun := s.move i (.returned (some (.error (.io e))))

/-- A `write` at offset `off` of the open file. -/
def put (s : KeyRun) (off : ℕ) (chunk : List UInt8) : KeyRun :=
  { s with file := s.file.map fun content => DataDir.overwrite 0 content off chunk }

/-- A step, where it is enabled. -/
def next (s : KeyRun) : KeyAct → Option KeyRun
  | .spawn => some { s with procs := s.procs ++ [.read] }
  | .read i generated =>
    match s.procs[i]?, s.file with
    | some .read, none => some (s.move i (.create generated))
    | some .read, some content => some (s.move i (.returned (parseKeypair content.toByteArray)))
    | _, _ => none
  | .readFails i e =>
    match s.procs[i]? with
    | some .read => some (s.fail i e)
    | _ => none
  | .create i =>
    match s.procs[i]?, s.file with
    | some (.create sk), none => some ({ s with file := some [] }.move i (.digits sk 0))
    -- `create_new`
    | some (.create _), some _ => some (s.fail i fileExists)
    | _, _ => none
  | .createFails i e =>
    match s.procs[i]? with
    | some (.create _) => some (s.fail i e)
    | _ => none
  | .write i n =>
    match s.procs[i]? with
    | some (.digits sk written) =>
      let chunk := ((digitBytes sk).drop written).take (n + 1)
      let out := written + chunk.length
      let pc := if out < (digitBytes sk).length then .digits sk out else .newline sk
      some ((s.put written chunk).move i pc)
    | some (.newline sk) =>
      some ((s.put (digitBytes sk).length (utf8 ['\n'])).move i (.returned (some (.ok sk))))
    | _ => none
  | .writeFails i e =>
    match s.procs[i]? with
    | some (.digits _ _) => some (s.fail i e)
    | some (.newline _) => some (s.fail i e)
    | _ => none
  | .crash i =>
    match s.procs[i]? with
    | some (.returned _) => none
    | some _ => some (s.move i .dead)
    | none => none

end KeyRun

/-- Any number of processes, over a directory with some keypair file or none. -/
def keyRunSystem : System KeyRun KeyAct := ⟨fun s => s.procs = [], KeyRun.next⟩

/-! ### The bytes of a key -/

theorem digitBytes_length (sk : SecretKey) : (digitBytes sk).length = 64 := by
  rw [digitBytes, length_utf8_toList]
  exact ((hexed_iff _).mpr ⟨sk, eqIgnoreAsciiCase_refl _⟩).1

theorem toByteArray_digits (sk : SecretKey) :
    (digitBytes sk).toByteArray = (hex sk.bytes.1).toUTF8 := String.utf8Encode_toList

/-- All the digits spell the key, with or without the newline. -/
theorem spells_digits (sk : SecretKey) : Spells (digitBytes sk).toByteArray sk := by
  have htrim : trim (hex sk.bytes.1) = hex sk.bytes.1 := by
    have hplain := hex_not_whitespace sk.bytes.1
    apply String.toList_inj.mp
    rw [trim, String.toList_ofList]
    generalize (hex sk.bytes.1).toList = cs at hplain
    have hkeep : ∀ l : List Char, (∀ c ∈ l, isWhitespace c = false) →
        l.dropWhile isWhitespace = l := by
      intro l hl
      rw [List.dropWhile_eq_self_iff]
      intro hpos
      rw [hl _ (List.getElem_mem hpos)]
      simp
    rw [hkeep cs hplain, hkeep cs.reverse (fun c hc => hplain c (List.mem_reverse.mp hc)),
      List.reverse_reverse]
  refine ⟨hex sk.bytes.1, ?_, ?_⟩
  · rw [toByteArray_digits]
    show String.fromUTF8? (hex sk.bytes.1).toByteArray = _
    unfold String.fromUTF8?
    rw [dif_pos (String.isValidUTF8 _)]
    rfl
  · rw [htrim]
    exact eqIgnoreAsciiCase_refl _

theorem spells_line (sk : SecretKey) : Spells (digitBytes sk ++ utf8 ['\n']).toByteArray sk := by
  rw [List.toByteArray_append, toByteArray_digits]
  exact spells_hex sk

/-- Fewer bytes spell nothing. -/
theorem Spells.size {content : List UInt8} {sk : SecretKey} (h : Spells content.toByteArray sk) :
    64 ≤ content.length := by
  obtain ⟨text, htext, hspells⟩ := h
  have hsize := ((hexed_iff (trim text)).mpr ⟨sk, hspells⟩).1
  have hbytes : text.utf8ByteSize = content.length := by
    unfold String.fromUTF8? at htext
    split at htext
    · cases htext
      rw [← String.size_toByteArray]
      exact List.size_toByteArray
    · exact absurd htext (by simp)
  have hsub : (trim text).toList.Sublist text.toList := by
    rw [trim, String.toList_ofList]
    refine (List.reverse_sublist.mpr (List.dropWhile_sublist _)).trans ?_
    rw [List.reverse_reverse]
    exact List.dropWhile_sublist _
  have hle : (utf8 (trim text).toList).length ≤ (utf8 text.toList).length :=
    (hsub.flatMap _).length_le
  rw [length_utf8_toList, length_utf8_toList] at hle
  omega

/-! ### The invariant -/

/-- The process has the file open. -/
def KeyPc.writing : KeyPc → Bool
  | .digits _ _ => true
  | .newline _ => true
  | _ => false

/-- Every key that was returned is the one in the file; who writes the file has put what it says
    there, and is alone in that. -/
structure KeyInv (s : KeyRun) : Prop where
  keys : ∀ sk, .returned (some (.ok sk)) ∈ s.procs →
    ∃ content, s.file = some content ∧ Spells content.toByteArray sk
  digits : ∀ sk written, .digits sk written ∈ s.procs →
    written < 64 ∧ s.file = some ((digitBytes sk).take written)
  newline : ∀ sk, .newline sk ∈ s.procs → s.file = some (digitBytes sk)
  one : s.procs.countP KeyPc.writing ≤ 1
  calm : .returned none ∉ s.procs

section Steps

variable {s s' : KeyRun} {i : ℕ} {pc pc' : KeyPc}

theorem countP_writing_le (hi : s.procs[i]? = some pc)
    (hpc : pc'.writing = true → pc.writing = true) (h : s.procs.countP KeyPc.writing ≤ 1) :
    (s.procs.set i pc').countP KeyPc.writing ≤ 1 := by
  have hset := countP_set_add (b := pc') KeyPc.writing hi
  by_cases hp : pc'.writing = true
  · rw [if_pos hp, if_pos (hpc hp)] at hset
    omega
  · rw [if_neg hp] at hset
    omega

/-- A process goes on without touching the file. -/
theorem KeyInv.move (h : KeyInv s) (hi : s.procs[i]? = some pc) (hidle : pc'.writing = false)
    (hkey : ∀ sk, pc' = .returned (some (.ok sk)) →
      ∃ content, s.file = some content ∧ Spells content.toByteArray sk)
    (hcalm : pc' ≠ .returned none) : KeyInv (s.move i pc') := by
  have hold : ∀ x ∈ s.procs.set i pc', x ∈ s.procs ∨ x = pc' :=
    fun x hx => List.mem_or_eq_of_mem_set hx
  refine ⟨fun sk hsk => ?_, fun sk written hsk => ?_, fun sk hsk => ?_,
    countP_writing_le hi (by simp [hidle]) h.one, fun hbad => ?_⟩
  · rcases hold _ hsk with hsk | hsk
    · exact h.keys sk hsk
    · exact hkey sk hsk.symm
  · rcases hold _ hsk with hsk | rfl
    · exact h.digits sk written hsk
    · exact absurd hidle (by simp [KeyPc.writing])
  · rcases hold _ hsk with hsk | rfl
    · exact h.newline sk hsk
    · exact absurd hidle (by simp [KeyPc.writing])
  · rcases hold _ hbad with hbad | hbad
    · exact h.calm hbad
    · exact hcalm hbad.symm

theorem KeyInv.fail (h : KeyInv s) (hi : s.procs[i]? = some pc) (e : String) :
    KeyInv (s.fail i e) :=
  h.move hi rfl (fun sk hsk => absurd hsk (by simp)) (by simp)

/-- A process reads a file that is there: the key it spells, or a refusal. -/
theorem KeyInv.read (h : KeyInv s) (hi : s.procs[i]? = some pc) {content : List UInt8}
    (hfile : s.file = some content) :
    KeyInv (s.move i (.returned (parseKeypair content.toByteArray))) := by
  rcases parseKeypair_cases content.toByteArray with ⟨sk, hparse, hspells⟩ | ⟨hparse, -⟩
  · rw [hparse]
    refine h.move hi rfl (fun sk' hsk' => ?_) (by simp)
    cases hsk'
    exact ⟨content, hfile, hspells⟩
  · rw [hparse]
    exact h.move hi rfl (fun sk' hsk' => absurd hsk' (by simp)) (by simp)

/-- The file is created: nobody has returned a key, or writes. -/
theorem KeyInv.create (h : KeyInv s) {sk : SecretKey} (hi : s.procs[i]? = some (.create sk))
    (hfile : s.file = none) : KeyInv ({ s with file := some [] }.move i (.digits sk 0)) := by
  have hidle : ∀ x ∈ s.procs, x.writing = false := by
    intro x hx
    cases x with
    | digits sk' written => exact absurd (h.digits sk' written hx).2 (by simp [hfile])
    | newline sk' => exact absurd (h.newline sk' hx) (by simp [hfile])
    | _ => rfl
  have hcount : s.procs.countP KeyPc.writing = 0 :=
    List.countP_eq_zero.mpr (fun x hx => by simp [hidle x hx])
  have hset := countP_set_add (b := .digits sk 0) KeyPc.writing hi
  refine ⟨fun sk' hsk' => ?_, fun sk' written hsk' => ?_, fun sk' hsk' => ?_, ?_, fun hbad => ?_⟩
  · rcases List.mem_or_eq_of_mem_set hsk' with hold | heq
    · obtain ⟨content, hcontent, -⟩ := h.keys sk' hold
      exact absurd hcontent (by simp [hfile])
    · exact absurd heq (by simp)
  · rcases List.mem_or_eq_of_mem_set hsk' with hold | heq
    · exact absurd (hidle _ hold) (by simp [KeyPc.writing])
    · cases heq
      exact ⟨by decide, rfl⟩
  · rcases List.mem_or_eq_of_mem_set hsk' with hold | heq
    · exact absurd (hidle _ hold) (by simp [KeyPc.writing])
    · exact absurd heq (by simp)
  · show (s.procs.set i _).countP KeyPc.writing ≤ 1
    rw [if_neg (by simp [KeyPc.writing]), if_pos (by simp [KeyPc.writing])] at hset
    omega
  · rcases List.mem_or_eq_of_mem_set hbad with hold | heq
    · exact h.calm hold
    · exact absurd heq (by simp)

/-- The writer moves on, with `content` in the file: it is what its new place says, and whoever has
    returned a key finds it there. -/
theorem KeyInv.write (h : KeyInv s) (hi : s.procs[i]? = some pc) (hpc : pc.writing = true)
    {content : List UInt8}
    (hkeys : ∀ sk, .returned (some (.ok sk)) ∈ s.procs → Spells content.toByteArray sk)
    (hkey : ∀ sk, pc' = .returned (some (.ok sk)) → Spells content.toByteArray sk)
    (hdigits : ∀ sk written, pc' = .digits sk written →
      written < 64 ∧ content = (digitBytes sk).take written)
    (hnewline : ∀ sk, pc' = .newline sk → content = digitBytes sk)
    (hcalm : pc' ≠ .returned none) : KeyInv ({ s with file := some content }.move i pc') := by
  -- nobody else writes
  have halone : ∀ x ∈ s.procs.set i pc', x.writing = true → x = pc' := by
    intro x hx hxw
    obtain ⟨j, hj⟩ := List.mem_iff_getElem?.mp hx
    rcases getElem?_set_cases hj with ⟨-, heq⟩ | ⟨hij, hj⟩
    · exact heq
    · exact absurd (index_unique h.one hi hj hpc hxw) hij
  refine ⟨fun sk hsk => ⟨content, rfl, ?_⟩, fun sk written hsk => ?_, fun sk hsk => ?_,
    countP_writing_le hi (fun _ => hpc) h.one, fun hbad => ?_⟩
  · rcases List.mem_or_eq_of_mem_set hsk with hold | heq
    · exact hkeys sk hold
    · exact hkey sk heq.symm
  · obtain ⟨hlt, heq⟩ := hdigits sk written (halone _ hsk rfl).symm
    exact ⟨hlt, congrArg some heq⟩
  · exact congrArg some (hnewline sk (halone _ hsk rfl).symm)
  · rcases List.mem_or_eq_of_mem_set hbad with hold | heq
    · exact h.calm hold
    · exact hcalm heq.symm

/-- What a chunk leaves of the digits: it is put where the last one ended. -/
theorem overwrite_digits (sk : SecretKey) {written : ℕ} (hlt : written < 64) (n : ℕ) :
    DataDir.overwrite 0 ((digitBytes sk).take written) written
        (((digitBytes sk).drop written).take (n + 1)) =
      (digitBytes sk).take (written + (((digitBytes sk).drop written).take (n + 1)).length) := by
  have hlen := digitBytes_length sk
  have hwritten : ((digitBytes sk).take written).length = written := by
    rw [List.length_take]
    omega
  have happ := DataDir.overwrite_length (0 : UInt8) ((digitBytes sk).take written)
    (((digitBytes sk).drop written).take (n + 1))
  rw [hwritten] at happ
  rw [happ, List.length_take, List.length_drop, @List.take_add _ (digitBytes sk) written]
  congr 1
  rw [List.take_eq_take_iff, List.length_drop]
  omega

/-- **A step of a process.** -/
theorem KeyInv.next (h : KeyInv s) {a : KeyAct} (hn : s.next a = some s') : KeyInv s' := by
  cases a with
  | spawn =>
    cases hn
    refine ⟨fun sk hsk => h.keys sk (by simpa using hsk),
      fun sk written hsk => h.digits sk written (by simpa using hsk),
      fun sk hsk => h.newline sk (by simpa using hsk), ?_, fun hbad => h.calm (by simpa using hbad)⟩
    rw [List.countP_append]
    exact h.one
  | read i generated =>
    simp only [KeyRun.next] at hn
    split at hn
    · rename_i hi _
      cases hn
      exact h.move hi rfl (fun sk hsk => absurd hsk (by simp)) (by simp)
    · rename_i hi hfile
      cases hn
      exact h.read hi hfile
    · exact absurd hn (by simp)
  | readFails i e =>
    simp only [KeyRun.next] at hn
    split at hn
    · rename_i hi
      cases hn
      exact h.fail hi e
    · exact absurd hn (by simp)
  | create i =>
    simp only [KeyRun.next] at hn
    split at hn
    · rename_i hi hfile
      cases hn
      exact h.create hi hfile
    · rename_i hi _
      cases hn
      exact h.fail hi fileExists
    · exact absurd hn (by simp)
  | createFails i e =>
    simp only [KeyRun.next] at hn
    split at hn
    · rename_i hi
      cases hn
      exact h.fail hi e
    · exact absurd hn (by simp)
  | write i n =>
    simp only [KeyRun.next] at hn
    split at hn
    · rename_i sk written hi
      cases hn
      obtain ⟨hlt, hfile⟩ := h.digits sk written (List.mem_of_getElem? hi)
      have hlen := digitBytes_length sk
      have hout := overwrite_digits sk hlt n
      simp only [KeyRun.put, hfile, Option.map_some, hout]
      refine h.write hi rfl (fun sk' hsk' => ?_) ?_ ?_ ?_ ?_
      · -- nobody can have read a key from digits that are not all there
        obtain ⟨content, hcontent, hspells⟩ := h.keys sk' hsk'
        rw [hfile] at hcontent
        cases hcontent
        have hsize := hspells.size
        rw [List.length_take] at hsize
        omega
      · intro sk' heq
        split at heq <;> exact absurd heq (by simp)
      · intro sk' written' heq
        split at heq
        · cases heq
          exact ⟨by omega, rfl⟩
        · exact absurd heq (by simp)
      · intro sk' heq
        split at heq
        · exact absurd heq (by simp)
        · cases heq
          exact List.take_of_length_le (by omega)
      · split <;> simp
    · rename_i sk hi
      cases hn
      have hfile := h.newline sk (List.mem_of_getElem? hi)
      simp only [KeyRun.put, hfile, Option.map_some, DataDir.overwrite_length]
      refine h.write hi rfl (fun sk' hsk' => ?_) ?_ (by simp) (by simp) (by simp)
      · -- who has read the digits without the newline has read this key
        obtain ⟨content, hcontent, hspells⟩ := h.keys sk' hsk'
        rw [hfile] at hcontent
        cases hcontent
        rw [hspells.unique (spells_digits sk)]
        exact spells_line sk
      · intro sk' heq
        cases heq
        exact spells_line sk
    · exact absurd hn (by simp)
  | writeFails i e =>
    simp only [KeyRun.next] at hn
    split at hn
    · rename_i hi
      cases hn
      exact h.fail hi e
    · rename_i hi
      cases hn
      exact h.fail hi e
    · exact absurd hn (by simp)
  | crash i =>
    simp only [KeyRun.next] at hn
    split at hn
    · exact absurd hn (by simp)
    · rename_i hi
      cases hn
      exact h.move hi rfl (fun sk hsk => absurd hsk (by simp)) (by simp)
    · exact absurd hn (by simp)

end Steps

theorem keyInv {C : KeyRun → KeyAct → Prop} {s : KeyRun} (h : Reach keyRunSystem C s) :
    KeyInv s := by
  refine h.invariant (fun s hs => ?_) (fun _ _ _ _ hi _ hn => hi.next hn)
  have hs : s.procs = [] := hs
  refine ⟨?_, ?_, ?_, ?_, ?_⟩ <;> simp [hs]

/-- **One identity.**  Any number of processes load or create the keypair at once, each killed or
    failing anywhere; the file may have been there before.  A key that one of them has returned is
    the key the file is read as from then on, so it is the key every other returns. -/
theorem keypair_agree {s : KeyRun} (h : Reach keyRunSystem anyStep s) :
    (∀ sk sk', .returned (some (.ok sk)) ∈ s.procs → .returned (some (.ok sk')) ∈ s.procs →
      sk = sk') ∧
    (∀ sk, .returned (some (.ok sk)) ∈ s.procs → ∃ content, s.file = some content ∧
      parseKeypair content.toByteArray = some (.ok sk)) ∧
    .returned none ∉ s.procs := by
  have hinv := keyInv h
  refine ⟨fun sk sk' hsk hsk' => ?_, fun sk hsk => ?_, hinv.calm⟩
  · obtain ⟨content, hfile, hspells⟩ := hinv.keys sk hsk
    obtain ⟨content', hfile', hspells'⟩ := hinv.keys sk' hsk'
    rw [hfile] at hfile'
    cases hfile'
    exact hspells.unique hspells'
  · obtain ⟨content, hfile, hspells⟩ := hinv.keys sk hsk
    refine ⟨content, hfile, ?_⟩
    rcases parseKeypair_cases content.toByteArray with ⟨sk', hparse, hspells'⟩ | ⟨-, hnone⟩
    · rw [hparse, hspells.unique hspells']
    · exact absurd hspells (hnone sk)

/-- Two processes find no file; the first creates it and writes, a third reads it before the newline
    is there, and the second is refused by `create_new`. -/
def firstRun (sk sk' : SecretKey) : List KeyAct :=
  [.spawn, .spawn, .spawn, .read 0 sk, .read 1 sk', .create 0, .create 1, .write 0 40, .write 0 40,
   .read 2 sk', .write 0 0]

theorem keypair_agree_firstRun : ∃ s sk, Reach keyRunSystem anyStep s ∧
    s.procs = [.returned (some (.ok sk)), .returned (some (.error (.io fileExists))),
      .returned (some (.ok sk))] ∧
    ∃ content, s.file = some content ∧ parseKeypair content.toByteArray = some (.ok sk) := by
  have hrun : (exec keyRunSystem (fun _ _ => true) ⟨none, []⟩
      (firstRun ⟨List.replicate 32 1, rfl⟩ ⟨List.replicate 32 2, rfl⟩)).map KeyRun.procs =
        some [.returned (some (.ok ⟨List.replicate 32 1, rfl⟩)),
          .returned (some (.error (.io fileExists))),
          .returned (some (.ok ⟨List.replicate 32 1, rfl⟩))] := by
    decide +kernel
  obtain ⟨s, hr, hprocs⟩ := reach_of_exec_map (C := anyStep) (fun _ _ _ => trivial) hrun (.init rfl)
  refine ⟨s, _, hr, hprocs, (keypair_agree hr).2.1 _ ?_⟩
  rw [hprocs]
  exact List.mem_cons_self

end Tmite.Client
