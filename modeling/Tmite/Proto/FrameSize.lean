import Tmite.Proto.FrameCodec
import Mathlib.Algebra.Ring.Nat

namespace Tmite.Proto

open Tmite.Core Serde

/-!
# How large a frame is

The limit on a control frame is on the bytes of its JSON text, and what a text costs there is
decided by its escapes.  `escapedSize` gives the bytes of one character inside a JSON string and
`textSize` those of a text, without its quotes.  With them a frame has an exact size:

* `length_confirm` — a `PAIR_CONFIRM`, by the name and the node id it carries;
* `length_session` — a `SESSION` hello, by the forwards it announces.
-/

/-! ### Bytes of a text -/

/-- The bytes of a text. -/
def utf8 (cs : List Char) : List UInt8 := cs.flatMap String.utf8EncodeChar

@[simp] theorem utf8_append (a b : List Char) : utf8 (a ++ b) = utf8 a ++ utf8 b :=
  List.flatMap_append

@[simp] theorem utf8_cons (c : Char) (cs : List Char) :
    utf8 (c :: cs) = String.utf8EncodeChar c ++ utf8 cs := rfl

@[simp] theorem utf8_nil : utf8 [] = [] := rfl

/-- A string has the bytes of its characters. -/
theorem length_utf8_toList (s : String) : (utf8 s.toList).length = s.utf8ByteSize := by
  rw [← String.size_toByteArray, ← String.utf8Encode_toList]
  exact List.size_toByteArray.symm

/-- Characters of one byte. -/
theorem length_utf8_ascii {cs : List Char} (h : ∀ c ∈ cs, c.utf8Size = 1) :
    (utf8 cs).length = cs.length := by
  induction cs with
  | nil => rfl
  | cons c cs ih =>
    have hc := h c (by simp)
    have hcs := ih (fun d hd => h d (by simp [hd]))
    simp only [utf8_cons, List.length_append, String.length_utf8EncodeChar, List.length_cons]
    omega

/-- The bytes of a character inside a JSON string: two for the short escapes, six for the other
    control characters, and those of the character itself for the rest. -/
def escapedSize (c : Char) : ℕ :=
  if c = '"' then 2
  else if c = '\\' then 2
  else if c.toNat = 0x08 then 2
  else if c.toNat = 0x09 then 2
  else if c.toNat = 0x0a then 2
  else if c.toNat = 0x0c then 2
  else if c.toNat = 0x0d then 2
  else if c.toNat < 0x20 then 6
  else c.utf8Size

/-- The bytes of a text inside a JSON string. -/
def textSize (cs : List Char) : ℕ := (cs.map escapedSize).sum

@[simp] theorem textSize_nil : textSize [] = 0 := rfl

@[simp] theorem textSize_cons (c : Char) (cs : List Char) :
    textSize (c :: cs) = escapedSize c + textSize cs := by
  simp only [textSize, List.map_cons, List.sum_cons]

@[simp] theorem textSize_append (a b : List Char) :
    textSize (a ++ b) = textSize a + textSize b := by
  simp only [textSize, List.map_append, List.sum_append]

theorem length_utf8_ite {p : Prop} [Decidable p] {a b : List Char} {m n : ℕ}
    (ha : p → (utf8 a).length = m) (hb : ¬ p → (utf8 b).length = n) :
    (utf8 (if p then a else b)).length = if p then m else n := by
  by_cases hp : p
  · rw [if_pos hp, if_pos hp, ha hp]
  · rw [if_neg hp, if_neg hp, hb hp]

theorem length_utf8_jsonChar (c : Char) : (utf8 (jsonChar c)).length = escapedSize c := by
  have hhex : ∀ d < 16, (hexDigit d).utf8Size = 1 := by decide
  unfold jsonChar escapedSize
  -- the short escapes, in the order both definitions test for them
  refine length_utf8_ite (fun _ => by decide) fun _ => ?_
  refine length_utf8_ite (fun _ => by decide) fun _ => ?_
  refine length_utf8_ite (fun _ => by decide) fun _ => ?_
  refine length_utf8_ite (fun _ => by decide) fun _ => ?_
  refine length_utf8_ite (fun _ => by decide) fun _ => ?_
  refine length_utf8_ite (fun _ => by decide) fun _ => ?_
  refine length_utf8_ite (fun _ => by decide) fun _ => ?_
  refine length_utf8_ite (fun hctrl => ?_) fun _ => ?_
  · have hhead : (utf8 ['\\', 'u', '0', '0']).length = 4 := by decide
    have hdigits : (utf8 [hexDigit (c.toNat / 16), hexDigit (c.toNat % 16)]).length = 2 := by
      simp only [utf8_cons, utf8_nil, List.length_append, String.length_utf8EncodeChar,
        hhex _ (by omega : c.toNat / 16 < 16), hhex _ (by omega : c.toNat % 16 < 16),
        List.length_nil]
    show (utf8 (['\\', 'u', '0', '0'] ++
      [hexDigit (c.toNat / 16), hexDigit (c.toNat % 16)])).length = 6
    rw [utf8_append, List.length_append, hhead, hdigits]
  · simp only [utf8_cons, utf8_nil, List.append_nil, String.length_utf8EncodeChar]

/-- Escaping makes up to six bytes of one. -/
theorem escapedSize_le (c : Char) : escapedSize c ≤ 6 * c.utf8Size := by
  have hpos := Char.utf8Size_pos c
  unfold escapedSize
  split_ifs
  all_goals omega

theorem textSize_le (cs : List Char) : textSize cs ≤ 6 * (utf8 cs).length := by
  induction cs with
  | nil => exact Nat.le_refl _
  | cons c cs ih =>
    have hc := escapedSize_le c
    simp only [textSize_cons, utf8_cons, List.length_append, String.length_utf8EncodeChar]
    omega

/-- A JSON string is its escaped contents and its quotes. -/
theorem length_utf8_jsonStr (s : String) :
    (utf8 (jsonStr s)).length = textSize s.toList + 2 := by
  have hchars : ∀ cs : List Char, (utf8 (cs.flatMap jsonChar)).length = textSize cs := by
    intro cs
    induction cs with
    | nil => rfl
    | cons c cs ih =>
      rw [List.flatMap_cons, utf8_append, List.length_append, length_utf8_jsonChar, ih,
        textSize_cons]
  have hquote : (String.utf8EncodeChar '"').length = 1 := by decide
  simp only [jsonStr, List.cons_append, utf8_cons, utf8_append, utf8_nil, List.length_append,
    List.length_nil, hquote, hchars]
  omega

/-- A JSON string takes up to six times the bytes of its contents, and its quotes. -/
theorem length_utf8_jsonStr_le (s : String) :
    (utf8 (jsonStr s)).length ≤ 6 * s.utf8ByteSize + 2 := by
  have hle := textSize_le s.toList
  rw [length_utf8_toList] at hle
  rw [length_utf8_jsonStr]
  omega

/-! ### Bytes of a number -/

/-- The number of decimal digits. -/
def decimalSize (n : ℕ) : ℕ := (Nat.toDigits 10 n).length

theorem digit_utf8Size {c : Char} (hc : c.isDigit = true) : c.utf8Size = 1 := by
  simp only [Char.isDigit, Bool.and_eq_true, decide_eq_true_eq] at hc
  rw [Char.utf8Size_eq_one_iff]
  exact Nat.le_trans hc.2 (by decide)

theorem length_utf8_jsonNat (n : ℕ) : (utf8 (jsonNat n)).length = decimalSize n :=
  length_utf8_ascii fun _ hc =>
    digit_utf8Size (Nat.isDigit_of_mem_toDigits (by decide) (by decide) hc)

/-- Digits are not escaped. -/
theorem textSize_digits {cs : List Char} (h : ∀ c ∈ cs, c.isDigit = true) :
    textSize cs = cs.length := by
  induction cs with
  | nil => rfl
  | cons c cs ih =>
    have hc := h c (by simp)
    have hsize := digit_utf8Size hc
    simp only [Char.isDigit, Bool.and_eq_true, decide_eq_true_eq] at hc
    have h48 : 48 ≤ c.toNat := hc.1
    have h57 : c.toNat ≤ 57 := hc.2
    have hplain : escapedSize c = 1 := by
      have hquote : c ≠ '"' := by rintro rfl; exact absurd h48 (by decide)
      have hback : c ≠ '\\' := by rintro rfl; exact absurd h57 (by decide)
      unfold escapedSize
      rw [if_neg hquote, if_neg hback, if_neg (by omega), if_neg (by omega), if_neg (by omega),
        if_neg (by omega), if_neg (by omega), if_neg (by omega), hsize]
    rw [textSize_cons, hplain, ih (fun d hd => h d (by simp [hd])), List.length_cons]
    omega

/-- The decimal digits of the bytes of a list. -/
def bytesSize (bytes : List UInt8) : ℕ := (bytes.map (fun b => decimalSize b.toNat)).sum

/-- An array of bytes: digits, the commas between them, the brackets. -/
theorem length_utf8_jsonBytes (b : UInt8) (bytes : List UInt8) :
    (utf8 (jsonBytes (b :: bytes))).length = bytesSize (b :: bytes) + bytes.length + 2 := by
  have hitems : ∀ (b : UInt8) (bytes : List UInt8),
      (utf8 (List.intersperse [','] ((b :: bytes).map
        (fun b => jsonNat b.toNat))).flatten).length = bytesSize (b :: bytes) + bytes.length := by
    intro b bytes
    induction bytes generalizing b with
    | nil =>
      simp only [List.map_cons, List.map_nil, List.intersperse_singleton, List.flatten_cons,
        List.flatten_nil, List.append_nil, length_utf8_jsonNat, bytesSize, List.sum_cons,
        List.sum_nil, List.length_nil, Nat.add_zero]
    | cons b' bytes ih =>
      have hcomma : (String.utf8EncodeChar ',').length = 1 := by decide
      have hrest := ih b'
      simp only [List.map_cons] at hrest
      simp only [List.map_cons, List.intersperse_cons_cons, List.flatten_cons, utf8_append, utf8_cons,
        utf8_nil, List.length_append, length_utf8_jsonNat, hcomma, hrest, bytesSize,
        List.sum_cons, List.length_cons, List.length_nil]
      omega
  have hbracket : (String.utf8EncodeChar '[').length = 1 ∧
      (String.utf8EncodeChar ']').length = 1 := by decide
  simp only [jsonBytes, List.cons_append, utf8_cons, utf8_append, utf8_nil, List.length_append,
    List.length_nil, hitems, hbracket]
  omega

/-! ### `PAIR_CONFIRM` -/

/-- What a `PAIR_CONFIRM` takes beside its name and its node id. -/
def confirmOverhead : ℕ := 77

theorem PairingFrame.json_eq_utf8 (f : PairingFrame) : f.json = utf8 f.jsonText := rfl

/-- **Size of a confirmation.** -/
theorem length_confirm (nodeId : Bytes32) (name : String) :
    (PairingFrame.pairConfirm nodeId name).json.length =
      confirmOverhead + bytesSize nodeId.1 + textSize name.toList := by
  have hbytes : (utf8 (jsonBytes nodeId.1)).length = bytesSize nodeId.1 + 33 := by
    obtain ⟨bytes, hlen⟩ := nodeId
    have hpos : 0 < bytes.length := by omega
    obtain ⟨b, rest, rfl⟩ := List.exists_cons_of_length_pos hpos
    have hrest : rest.length = 31 := by simpa using hlen
    rw [length_utf8_jsonBytes, hrest]
  have hhead : (utf8 "\x7b\"type\":\"pair_confirm\",\"node_id\":".toList).length = 33 := by
    decide +kernel
  have hname : (utf8 ",\"name\":".toList).length = 8 := by decide +kernel
  have hclose : (utf8 "\x7d".toList).length = 1 := by decide +kernel
  have htext : (PairingFrame.pairConfirm nodeId name).jsonText =
      "\x7b\"type\":\"pair_confirm\",\"node_id\":".toList ++ jsonBytes nodeId.1 ++
        ",\"name\":".toList ++ jsonStr name ++ "\x7d".toList := rfl
  rw [PairingFrame.json_eq_utf8, htext, utf8_append, utf8_append, utf8_append, utf8_append,
    List.length_append, List.length_append, List.length_append, List.length_append, hhead, hname,
    hclose, hbytes, length_utf8_jsonStr, confirmOverhead]
  omega

/-! ### `SESSION` -/

/-- What one announced forward takes, its comma included. -/
def SessionForward.size (f : SessionForward) : ℕ :=
  25 + textSize f.localAddr.toList + textSize f.target.toList

/-- What a `SESSION` hello takes beside its forwards. -/
def sessionOverhead : ℕ := 31

theorem length_utf8_forward (f : SessionForward) :
    (utf8 (valueText f.toValue)).length + 1 = f.size := by
  have hlocal : (utf8 (jsonStr "local")).length = 7 := by decide +kernel
  have htarget : (utf8 (jsonStr "target")).length = 8 := by decide +kernel
  have hpunct : ['\x7b', ':', ',', '\x7d'].all (fun c => (String.utf8EncodeChar c).length == 1) := by
    decide
  simp only [List.all_cons, List.all_nil, Bool.and_true, Bool.and_eq_true, beq_iff_eq] at hpunct
  obtain ⟨hopen, hcolon, hcomma, hclose⟩ := hpunct
  simp only [SessionForward.toValue, valueText, membersText, List.cons_append, utf8_cons,
    utf8_append, utf8_nil, List.length_append, List.length_nil, hlocal, htarget, hopen, hcolon,
    hcomma, hclose, length_utf8_jsonStr, SessionForward.size]
  omega

/-- The items of the array: each with its comma, but for the last. -/
theorem length_utf8_forwards (f : SessionForward) (fs : List SessionForward) :
    (utf8 (itemsText ((f :: fs).map SessionForward.toValue))).length + 1 =
      ((f :: fs).map SessionForward.size).sum := by
  induction fs generalizing f with
  | nil =>
    simp only [List.map_cons, List.map_nil, itemsText, List.sum_cons, List.sum_nil]
    exact length_utf8_forward f
  | cons g fs ih =>
    have hcomma : (String.utf8EncodeChar ',').length = 1 := by decide
    have hhead := length_utf8_forward f
    have htail := ih g
    simp only [List.map_cons, List.sum_cons] at htail ⊢
    simp only [itemsText, utf8_append, utf8_cons, List.length_append, hcomma]
    omega

theorem DataFrame.json_eq_utf8 (f : DataFrame) : f.json = utf8 (valueText f.toValue) := rfl

/-- **Size of a hello** that announces at least one forward. -/
theorem length_session (f : SessionForward) (fs : List SessionForward) :
    (DataFrame.session (f :: fs)).json.length =
      sessionOverhead + ((f :: fs).map SessionForward.size).sum := by
  have htype : (utf8 (jsonStr "type")).length = 6 := by decide +kernel
  have hsession : (utf8 (jsonStr "session")).length = 9 := by decide +kernel
  have hforwards : (utf8 (jsonStr "forwards")).length = 10 := by decide +kernel
  have hpunct : ['\x7b', ':', ',', '\x7d', '[', ']'].all
      (fun c => (String.utf8EncodeChar c).length == 1) := by
    decide
  simp only [List.all_cons, List.all_nil, Bool.and_true, Bool.and_eq_true, beq_iff_eq] at hpunct
  obtain ⟨hopen, hcolon, hcomma, hclose, hleft, hright⟩ := hpunct
  have hitems := length_utf8_forwards f fs
  rw [DataFrame.json_eq_utf8]
  simp only [DataFrame.toValue, tagged, valueText, membersText, List.cons_append, utf8_cons,
    utf8_append, utf8_nil, List.length_append, List.length_nil, htype, hsession, hforwards, hopen,
    hcolon, hcomma, hclose, hleft, hright, sessionOverhead]
  omega

end Tmite.Proto
