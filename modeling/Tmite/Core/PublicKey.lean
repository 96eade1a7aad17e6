import Mathlib.Data.List.Basic

namespace Tmite.Core

/-!
# Node ids

A node id is an iroh `PublicKey`: 32 bytes, displayed as 64 lowercase hex digits
(`PublicKey`'s `Display`, the text `fsio::hex` also produces).  The peer table stores that
text, and `State::peer_by_node` compares it with `eq_ignore_ascii_case`; on displayed keys
this comparison is equality of keys (`eqIgnoreAsciiCase_display`).
-/

/-- `[u8; 32]`. -/
abbrev Bytes32 := { bytes : List UInt8 // bytes.length = 32 }

/-- An iroh `PublicKey`; `asBytes` is `as_bytes()`. -/
structure PublicKey where
  asBytes : Bytes32
deriving DecidableEq

/-! ### Hex -/

/-- One lowercase hex digit. -/
def hexDigit (n : ℕ) : Char := if n < 10 then Char.ofNat (48 + n) else Char.ofNat (87 + n)

/-- The two digits `{b:02x}` prints. -/
def hexByte (b : UInt8) : List Char := [hexDigit (b.toNat / 16), hexDigit (b.toNat % 16)]

/-- `fsio::hex`. -/
def hex (data : List UInt8) : String := String.ofList (data.flatMap hexByte)

/-- `PublicKey::to_string`. -/
def PublicKey.display (k : PublicKey) : String := hex k.asBytes.1

/-! ### Case-insensitive comparison -/

/-- `str::eq_ignore_ascii_case`: equal once every ASCII letter is lowercased. -/
def eqIgnoreAsciiCase (a b : String) : Bool :=
  a.toList.map Char.toLower == b.toList.map Char.toLower

@[simp] theorem eqIgnoreAsciiCase_refl (a : String) : eqIgnoreAsciiCase a a = true := by
  simp [eqIgnoreAsciiCase]

theorem eqIgnoreAsciiCase_comm (a b : String) :
    eqIgnoreAsciiCase a b = eqIgnoreAsciiCase b a := by
  simp only [eqIgnoreAsciiCase]
  rw [Bool.eq_iff_iff]
  simp only [beq_iff_eq]
  exact eq_comm

/-! ### Displayed keys -/

/-- Distinct digits print differently, and lowercasing does not touch them. -/
private theorem hexDigit_facts :
    ∀ m < 16, (hexDigit m).toLower = hexDigit m ∧ ∀ n < 16, hexDigit m = hexDigit n → m = n := by
  decide

private theorem hexByte_toLower (b : UInt8) : (hexByte b).map Char.toLower = hexByte b := by
  have hb := b.toNat_lt
  simp only [hexByte, List.map_cons, List.map_nil,
    (hexDigit_facts (b.toNat / 16) (by omega)).1, (hexDigit_facts (b.toNat % 16) (by omega)).1]

private theorem hexByte_inj {a b : UInt8} (h : hexByte a = hexByte b) : a = b := by
  have ha := a.toNat_lt
  have hb := b.toNat_lt
  simp only [hexByte, List.cons.injEq, and_true] at h
  have hdiv := (hexDigit_facts _ (by omega)).2 _ (by omega) h.1
  have hmod := (hexDigit_facts _ (by omega)).2 _ (by omega) h.2
  apply UInt8.toNat_inj.mp
  omega

theorem flatMap_hexByte_toLower (l : List UInt8) :
    (l.flatMap hexByte).map Char.toLower = l.flatMap hexByte := by
  induction l with
  | nil => rfl
  | cons b l ih => simp only [List.flatMap_cons, List.map_append, hexByte_toLower, ih]

theorem flatMap_hexByte_inj :
    ∀ {l l' : List UInt8}, l.flatMap hexByte = l'.flatMap hexByte → l = l'
  | [], [], _ => rfl
  | [], b :: l', h => by simp [hexByte] at h
  | b :: l, [], h => by simp [hexByte] at h
  | b :: l, b' :: l', h => by
    simp only [List.flatMap_cons] at h
    obtain ⟨hb, hl⟩ := List.append_inj h (by simp [hexByte])
    rw [hexByte_inj hb, flatMap_hexByte_inj hl]

/-- On displayed keys the case-insensitive comparison is equality of the keys. -/
theorem eqIgnoreAsciiCase_display (j k : PublicKey) :
    eqIgnoreAsciiCase j.display k.display = true ↔ j = k := by
  constructor
  · intro h
    simp only [eqIgnoreAsciiCase, PublicKey.display, hex, String.toList_ofList,
      flatMap_hexByte_toLower, beq_iff_eq] at h
    cases j; cases k
    simpa using Subtype.ext (flatMap_hexByte_inj h)
  · rintro rfl
    exact eqIgnoreAsciiCase_refl _

/-- The displayed text determines the key. -/
theorem display_inj {j k : PublicKey} (h : j.display = k.display) : j = k := by
  rw [← eqIgnoreAsciiCase_display, h]
  exact eqIgnoreAsciiCase_refl _

/-- `str::to_lowercase`, on ASCII texts. -/
def toLowercase (s : String) : String := String.ofList (s.toList.map Char.toLower)

/-- A displayed key is in lower case. -/
@[simp] theorem toLowercase_display (k : PublicKey) : toLowercase k.display = k.display := by
  rw [toLowercase, PublicKey.display, hex, String.toList_ofList, flatMap_hexByte_toLower]

/-! ### The node ids of the golden vectors (`vectors/pairing.json`) -/

def vectorKey0 : PublicKey :=
  ⟨⟨[
    0xe0, 0x92, 0x6c, 0xdd, 0x29, 0x56, 0x44, 0xad, 0xc9, 0x76, 0x67, 0xf6, 0xe4, 0x5a,
    0x05, 0x82, 0xcb, 0x9c, 0xa8, 0x88, 0x6b, 0xb1, 0xb9, 0xc5, 0xc5, 0x32, 0x81, 0xce,
    0x8a, 0x89, 0x52, 0x16], rfl⟩⟩

def vectorKey1 : PublicKey :=
  ⟨⟨[
    0xe6, 0xb1, 0x12, 0xaa, 0x53, 0x25, 0xcb, 0xf0, 0x39, 0xb4, 0x38, 0x4b, 0xd5, 0x91,
    0xf1, 0x88, 0xc7, 0x5e, 0x4e, 0xcd, 0xc1, 0x10, 0xde, 0x94, 0xd1, 0xc8, 0x9d, 0xd5,
    0xcb, 0x4b, 0x0e, 0xeb], rfl⟩⟩

def vectorKey2 : PublicKey :=
  ⟨⟨[
    0xb8, 0xbd, 0x61, 0xac, 0xac, 0x0a, 0x33, 0xe7, 0xb1, 0xa9, 0xc6, 0x57, 0xaf, 0x1f,
    0x6c, 0x71, 0x62, 0x7d, 0xad, 0xb2, 0x2e, 0x5b, 0x98, 0x77, 0xaf, 0x1b, 0xeb, 0xbb,
    0x83, 0xc9, 0xa3, 0xe5], rfl⟩⟩

example : vectorKey0.display =
    "e0926cdd295644adc97667f6e45a0582cb9ca8886bb1b9c5c53281ce8a895216" := by
  decide

end Tmite.Core
