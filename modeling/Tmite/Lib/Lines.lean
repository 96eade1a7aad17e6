import Mathlib.Data.List.Infix
import Mathlib.Tactic.Common

namespace Lines

/-!
# Messages on lines

A stream of messages, each written as a line that ends with a separator, read line by line until
the end of the stream or the first line that is no message.

* `splitLine` — the next line with its separator, and what follows it;
* `readAll` — the messages of a stream, and the error the reading stopped at, if any;
* `readAll_cut` — a stream that was cut anywhere gives the messages that are complete in it, and
  none that was not sent: of the line that was cut, an error, or the message itself if only the
  separator is missing.

The last section is about bytes: the newline of a text is a newline of its UTF-8 form, and no
other character has that byte.
-/

section Split

variable {α : Type*} [DecidableEq α] (sep : α)

/-- The line up to and including the separator, and what follows.  At the end of the stream, all
    that is left. -/
def splitLine : List α → List α × List α
  | [] => ([], [])
  | b :: bs => if b = sep then ([b], bs) else (b :: (splitLine bs).1, (splitLine bs).2)

variable {sep}

theorem splitLine_line {line : List α} (h : sep ∉ line) (rest : List α) :
    splitLine sep (line ++ sep :: rest) = (line ++ [sep], rest) := by
  induction line with
  | nil => simp [splitLine]
  | cons b line ih =>
    obtain ⟨hb, hline⟩ := List.ne_and_not_mem_of_not_mem_cons h
    simp [splitLine, Ne.symm hb, ih hline]

theorem splitLine_rest {bs : List α} (h : sep ∉ bs) : splitLine sep bs = (bs, []) := by
  induction bs with
  | nil => rfl
  | cons b bs ih =>
    obtain ⟨hb, hbs⟩ := List.ne_and_not_mem_of_not_mem_cons h
    simp [splitLine, Ne.symm hb, ih hbs]

theorem splitLine_length (b : α) (bs : List α) :
    (splitLine sep (b :: bs)).2.length ≤ bs.length := by
  induction bs generalizing b with
  | nil =>
    by_cases hb : b = sep <;> simp [splitLine, hb]
  | cons c bs ih =>
    by_cases hb : b = sep
    · simp [splitLine, hb]
    · rw [splitLine, if_neg hb]
      show (splitLine sep (c :: bs)).2.length ≤ (c :: bs).length
      exact Nat.le_succ_of_le (ih c)

end Split

section Read

variable {α β γ ε : Type*} [DecidableEq α] (sep : α) (read : List α → Except ε β)

/-- Reads line by line: the messages, and the error that ended the reading. -/
def readAll : List α → List β × Option ε
  | [] => ([], none)
  | b :: bs =>
    match read (splitLine sep (b :: bs)).1 with
    | .error e => ([], some e)
    | .ok m =>
      let r := readAll (splitLine sep (b :: bs)).2
      (m :: r.1, r.2)
termination_by bs => bs.length
decreasing_by
  simpa using Nat.lt_succ_of_le (splitLine_length b bs)

/-- The stream that carries the messages `ms`. -/
def wire (write : γ → List α) (ms : List γ) : List α := ms.flatMap (fun m => write m ++ [sep])

variable {sep read} {write : γ → List α}

@[simp] theorem readAll_nil : readAll sep read [] = ([], none) := by
  unfold readAll
  rfl

theorem readAll_ok {bs line rest : List α} {m : β} (hne : bs ≠ [])
    (hsplit : splitLine sep bs = (line, rest)) (hread : read line = .ok m) :
    readAll sep read bs = (m :: (readAll sep read rest).1, (readAll sep read rest).2) := by
  obtain ⟨b, bs, rfl⟩ := List.exists_cons_of_ne_nil hne
  rw [readAll]
  simp only [hsplit, hread]

theorem readAll_error {bs line rest : List α} {e : ε} (hne : bs ≠ [])
    (hsplit : splitLine sep bs = (line, rest)) (hread : read line = .error e) :
    readAll sep read bs = ([], some e) := by
  obtain ⟨b, bs, rfl⟩ := List.exists_cons_of_ne_nil hne
  rw [readAll]
  simp only [hsplit, hread]

omit [DecidableEq α] in
@[simp] theorem wire_nil : wire sep write [] = [] := rfl

omit [DecidableEq α] in
@[simp] theorem wire_cons (m : γ) (ms : List γ) :
    wire sep write (m :: ms) = write m ++ sep :: wire sep write ms := by
  simp [wire]

/-- What a writer and a reader of messages have to agree on for `text` to carry `m`: it is one line,
    it is read as `m` with and without the separator, and less than the whole of it is no
    message. -/
structure Agree (sep : α) (text : List α) (read : List α → Except ε β) (m : β) : Prop where
  one_line : sep ∉ text
  line : read (text ++ [sep]) = .ok m
  unended : read text = .ok m
  part : ∀ p, p <+: text → p ≠ text → p ≠ [] → ∃ e, read p = .error e

omit [DecidableEq α] in
/-- A part of a line is all of it, or stands before its separator. -/
theorem prefix_line {text p : List α} (hp : p <+: text ++ [sep]) :
    p = text ++ [sep] ∨ p <+: text := by
  rcases List.prefix_concat_iff.mp hp with heq | hpart
  · exact .inl heq
  · exact .inr hpart

/-- A part of a line is read whole. -/
theorem splitLine_part {text p : List α} (h : sep ∉ text) (hp : p <+: text ++ [sep]) :
    splitLine sep p = (p, []) := by
  rcases prefix_line hp with rfl | hpart
  · exact splitLine_line h []
  · exact splitLine_rest (fun hmem => h (hpart.subset hmem))

/-- What a part of a line is read as: the message, or nothing. -/
theorem Agree.read_part {text p : List α} {m : β} (h : Agree sep text read m)
    (hp : p <+: text ++ [sep]) (hne : p ≠ []) : read p = .ok m ∨ ∃ e, read p = .error e := by
  rcases prefix_line hp with rfl | hpart
  · exact .inl h.line
  · by_cases hwhole : p = text
    · rw [hwhole]
      exact .inl h.unended
    · exact .inr (h.part p hpart hwhole hne)

/-- A message in front of a stream is read, and then the stream. -/
theorem readAll_message {text : List α} {m : β} (h : Agree sep text read m) (rest : List α) :
    readAll sep read (text ++ sep :: rest) =
      (m :: (readAll sep read rest).1, (readAll sep read rest).2) :=
  readAll_ok (by simp) (splitLine_line h.one_line rest) h.line

omit [DecidableEq α] in
/-- A cut stream ends within its first message, or goes on after its line. -/
theorem prefix_wire_cons {m : γ} {ms : List γ} {cut : List α}
    (h : cut <+: wire sep write (m :: ms)) :
    cut <+: write m ∨ ∃ rest, cut = write m ++ sep :: rest ∧ rest <+: wire sep write ms := by
  have hm : write m ++ [sep] <+: wire sep write (m :: ms) := ⟨wire sep write ms, by simp⟩
  by_cases hlen : cut.length ≤ (write m).length
  · refine .inl (List.prefix_of_prefix_length_le h ?_ hlen)
    exact (List.prefix_append _ _).trans hm
  · have hline : write m ++ [sep] <+: cut := by
      refine List.prefix_of_prefix_length_le hm h ?_
      rw [List.length_append, List.length_singleton]
      omega
    obtain ⟨rest, rfl⟩ := hline
    refine .inr ⟨rest, by simp, ?_⟩
    rw [wire_cons] at h
    simpa using h

omit [DecidableEq α] in
/-- The lines that are complete in a part of the first message: none. -/
theorem eq_zero_of_wire_part {m : γ} {ms : List γ} {cut : List α} (hcut : cut <+: write m)
    {j : ℕ} (hj : wire sep write ((m :: ms).take j) <+: cut) : j = 0 := by
  cases j with
  | zero => rfl
  | succ j =>
    have hlen := (hj.trans hcut).length_le
    rw [List.take_succ_cons, wire_cons, List.length_append, List.length_cons] at hlen
    omega

/-- **A cut stream.**  Of a stream that was cut anywhere, the reader gets the first messages: at
    least those whose lines are complete.  It ends without an error iff the cut is between two
    lines, or takes only the separator off the last. -/
theorem readAll_cut {value : γ → β} {ms : List γ}
    (h : ∀ m ∈ ms, Agree sep (write m) read (value m)) {cut : List α}
    (hcut : cut <+: wire sep write ms) :
    ∃ k ≤ ms.length, (readAll sep read cut).1 = (ms.take k).map value ∧
      (∀ j ≤ ms.length, wire sep write (ms.take j) <+: cut → j ≤ k) ∧
      ((readAll sep read cut).2 = none ↔
        cut = wire sep write (ms.take k) ∨ cut ++ [sep] = wire sep write (ms.take k)) := by
  induction ms generalizing cut with
  | nil =>
    rw [wire_nil, List.prefix_nil] at hcut
    subst hcut
    exact ⟨0, Nat.le_refl 0, by simp, fun j hj _ => hj, by simp⟩
  | cons m ms ih =>
    have hm := h m List.mem_cons_self
    rcases prefix_wire_cons hcut with hpart | ⟨rest, rfl, hrest⟩
    · have hsep : sep ∉ cut := fun hmem => hm.one_line (hpart.subset hmem)
      have hnone : ∀ k, ∀ j ≤ (m :: ms).length,
          wire sep write ((m :: ms).take j) <+: cut → j ≤ k := by
        intro k j _ hj
        rw [eq_zero_of_wire_part hpart hj]
        exact Nat.zero_le k
      by_cases hnil : cut = []
      · subst hnil
        exact ⟨0, Nat.zero_le _, by simp, hnone 0, by simp⟩
      by_cases hwhole : cut = write m
      · -- only the separator is missing
        have hread : readAll sep read cut = ([value m], none) := by
          rw [readAll_ok hnil (splitLine_rest hsep) (by rw [hwhole]; exact hm.unended)]
          simp
        refine ⟨1, by simp, by rw [hread]; rfl, hnone 1, ?_⟩
        rw [hread]
        simp [hwhole]
      · obtain ⟨e, he⟩ := hm.part cut hpart hwhole hnil
        have hread := readAll_error hnil (splitLine_rest hsep) he
        refine ⟨0, Nat.zero_le _, by rw [hread]; rfl, hnone 0, ?_⟩
        simp [hread, hnil]
    · -- the first message is complete, and the rest is a cut stream
      obtain ⟨k, hk, htake, hcomplete, hend⟩ :=
        ih (fun m' hm' => h m' (List.mem_cons_of_mem m hm')) hrest
      have hread := readAll_message hm rest
      refine ⟨k + 1, Nat.succ_le_succ hk, by rw [hread, htake]; rfl, fun j hj hpre => ?_, ?_⟩
      · cases j with
        | zero => exact Nat.zero_le _
        | succ j =>
          rw [List.take_succ_cons, wire_cons] at hpre
          have hpre : wire sep write (ms.take j) <+: rest := by simpa using hpre
          exact Nat.succ_le_succ (hcomplete j (Nat.le_of_succ_le_succ hj) hpre)
      · rw [hread, List.take_succ_cons, wire_cons]
        show (readAll sep read rest).2 = none ↔ _
        rw [hend]
        simp

end Read

section Bytes

/-- A byte of a character's UTF-8 form is the character itself or has its top bit set. -/
theorem utf8_byte {c : Char} {b : UInt8} (h : b ∈ String.utf8EncodeChar c) :
    b.toNat = c.toNat ∨ 128 ≤ b.toNat := by
  have hval : c.val.toNat = c.toNat := rfl
  simp only [String.utf8EncodeChar, hval] at h
  by_cases hone : c.toNat ≤ 127
  · rw [if_pos hone, List.mem_singleton] at h
    refine .inl ?_
    rw [h, UInt8.toNat_ofNat']
    omega
  · rw [if_neg hone] at h
    refine .inr ?_
    split at h
    case' isFalse => split at h
    all_goals
      simp only [List.mem_cons, List.not_mem_nil, or_false, ← UInt8.toNat_inj,
        UInt8.toNat_ofNat'] at h
      omega

/-- The newline is no byte of another character. -/
theorem newline_notMem_utf8 {text : List Char} (h : '\n' ∉ text) :
    (10 : UInt8) ∉ text.flatMap String.utf8EncodeChar := by
  intro hmem
  obtain ⟨c, hc, hb⟩ := List.mem_flatMap.mp hmem
  have hten : (10 : UInt8).toNat = 10 := rfl
  rcases utf8_byte hb with heq | hge
  · refine h ?_
    have hnl : c = '\n' := Char.toNat_inj.mp (heq.symm.trans hten)
    exact hnl ▸ hc
  · omega

end Bytes

end Lines
