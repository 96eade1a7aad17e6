import Tmite.Client.Store
import Tmite.Daemon.IpcReplies
import Tmite.Pairing.Screens
import Tmite.Proto.FrameSize

namespace Tmite.Client

open Tmite.Core Tmite.Proto Tmite.Daemon Tmite.Pairing

/-!
# The identity file (`load_or_create_keypair` of `fsio.rs`)

A node's secret key is kept as hex digits and a newline.  What is read is checked for its bytes and
for its digits before it is sliced, two bytes at a time; a slice that ends inside a character would
panic, and `none` stands for that here.

* `keypair_file` — the key that was written is read back; and any other file is the key its digits
  spell, or refused, and stays as it is.
-/

/-- An iroh `SecretKey`; `from_bytes` and `to_bytes` are the structure's own. -/
structure SecretKey where
  bytes : Bytes32
deriving DecidableEq

/-! ### Reading -/

/-- `char::is_ascii_hexdigit`. -/
def isAsciiHexdigit (c : Char) : Bool :=
  let n := c.toNat
  (48 ≤ n && n ≤ 57) || (65 ≤ n && n ≤ 70) || (97 ≤ n && n ≤ 102)

/-- The first two bytes of a text, and the rest; `none` where there are not two, or a character does
    not end with them. -/
def slice2 : List Char → Option (List Char × List Char)
  | [] => none
  | [c] => if c.utf8Size = 2 then some ([c], []) else none
  | c :: d :: rest =>
    if c.utf8Size = 2 then some ([c], d :: rest)
    else if c.utf8Size = 1 ∧ d.utf8Size = 1 then some ([c, d], rest)
    else none

/-- The loop that fills `raw`, with `n` bytes to go. -/
def fillRaw : ℕ → List Char → Option (Except FsError (List UInt8))
  | 0, _ => some (.ok [])
  | n + 1, cs =>
    match slice2 cs with
    | none => none
    | some (digits, rest) =>
      match u8FromStrRadix16 digits with
      | none => some (.error .badKeypair)
      | some b => (fillRaw n rest).map fun raw => raw.map (b :: ·)

/-- An array of 32 bytes, from a list that is one. -/
def SecretKey.ofRaw (raw : List UInt8) : Option SecretKey :=
  if h : raw.length = 32 then some ⟨⟨raw, h⟩⟩ else none

/-- What the bytes of a keypair file are read as. -/
def parseKeypair (content : ByteArray) : Option (Except FsError SecretKey) :=
  match String.fromUTF8? content with
  | none => some (.error .badKeypair)
  | some text =>
    let hexed := trim text
    if hexed.utf8ByteSize ≠ 64 ∨ !hexed.toList.all isAsciiHexdigit then some (.error .badKeypair)
    else
      match fillRaw 32 hexed.toList with
      | none => none
      | some (.error e) => some (.error e)
      | some (.ok raw) => (SecretKey.ofRaw raw).map .ok

/-! ### Writing -/

/-- Where `write_secret_file` fails, with the error; a write may have got some bytes out. -/
inductive SecretFault
  | createDir (e : String)
  | open (e : String)
  | write (written : ℕ) (e : String)
  | newline (e : String)
deriving DecidableEq, Repr

/-- `EEXIST`. -/
def fileExists : String := "File exists (os error 17)"

/-- `write_secret_file`, on the file at its path. -/
def writeSecretFile (fault : Option SecretFault) (bytes : ByteArray) (file : Option ByteArray) :
    Option ByteArray × Except FsError Unit :=
  match fault, file with
  | some (.createDir e), _ => (file, .error (.io e))
  | some (.open e), _ => (file, .error (.io e))
  -- `create_new`
  | _, some _ => (file, .error (.io fileExists))
  | some (.write written e), none => (some (bytes.extract 0 written), .error (.io e))
  | some (.newline e), none => (some bytes, .error (.io e))
  | none, none => (some (bytes ++ "\n".toUTF8), .ok ())

/-- `load_or_create_keypair`: the file after it, and what it returns.  `readError` is an I/O error
    other than `NotFound`, and `generated` what `SecretKey::generate` returns. -/
def loadOrCreateKeypair (readError : Option String) (fault : Option SecretFault)
    (generated : SecretKey) (file : Option ByteArray) :
    Option ByteArray × Option (Except FsError SecretKey) :=
  match readError, file with
  | some e, _ => (file, some (.error (.io e)))
  | none, some content => (file, parseKeypair content)
  | none, none =>
    match writeSecretFile fault (hex generated.bytes.1).toUTF8 file with
    | (file, .ok ()) => (file, some (.ok generated))
    | (file, .error e) => (file, some (.error e))

/-! ### Digits -/

theorem toNat_toLower (c : Char) :
    c.toLower.toNat = if 65 ≤ c.toNat ∧ c.toNat ≤ 90 then c.toNat + 32 else c.toNat := by
  unfold Char.toLower
  split
  · rename_i hupper
    have hlow : 65 ≤ c.toNat := hupper.1
    have hhigh : c.toNat ≤ 90 := hupper.2
    rw [if_pos ⟨hlow, hhigh⟩]
    show (c.val + ('a'.val - 'A'.val)).toNat = _
    rw [UInt32.toNat_add]
    show (c.toNat + 32) % 2 ^ 32 = _
    omega
  · rename_i hupper
    exact (if_neg hupper).symm

theorem toNat_hexDigit : ∀ n < 16, (hexDigit n).toNat = if n < 10 then 48 + n else 87 + n := by
  decide

theorem isAsciiHexdigit_iff (c : Char) : isAsciiHexdigit c = true ↔
    (48 ≤ c.toNat ∧ c.toNat ≤ 57) ∨ (65 ≤ c.toNat ∧ c.toNat ≤ 70) ∨
      (97 ≤ c.toNat ∧ c.toNat ≤ 102) := by
  simp [isAsciiHexdigit, or_assoc]

/-- A hex digit of either case is one byte, is no sign, and is read as the digit it is in lower
    case. -/
theorem hexdigit_read {c : Char} (h : isAsciiHexdigit c = true) :
    c.utf8Size = 1 ∧ c ≠ '+' ∧ ∃ v < 16, hexVal c = some v ∧ c.toLower = hexDigit v := by
  rw [isAsciiHexdigit_iff] at h
  refine ⟨?_, ?_, ?_⟩
  · have hval : c.val.toNat ≤ 127 := by
      show c.toNat ≤ 127
      omega
    exact Char.utf8Size_eq_one_iff.mpr (UInt32.le_iff_toNat_le.mpr hval)
  · rintro rfl
    have hplus : ('+' : Char).toNat = 43 := rfl
    omega
  · have hlower := toNat_toLower c
    unfold hexVal
    obtain ⟨h₁, h₂⟩ | ⟨h₁, h₂⟩ | ⟨h₁, h₂⟩ := h
    · refine ⟨c.toNat - 48, by omega, by simp [h₁, h₂], Char.toNat_inj.mp ?_⟩
      rw [hlower, toNat_hexDigit _ (by omega), if_neg (by omega), if_pos (by omega)]
      omega
    · refine ⟨c.toNat - 55, by omega, ?_, Char.toNat_inj.mp ?_⟩
      · have h57 : ¬ c.toNat ≤ 57 := by omega
        have h97 : ¬ 97 ≤ c.toNat := by omega
        simp [h57, h97, h₁, h₂]
      · rw [hlower, toNat_hexDigit _ (by omega), if_pos (by omega), if_neg (by omega)]
        omega
    · refine ⟨c.toNat - 87, by omega, ?_, Char.toNat_inj.mp ?_⟩
      · have h57 : ¬ c.toNat ≤ 57 := by omega
        simp [h57, h₁, h₂]
      · rw [hlower, toNat_hexDigit _ (by omega), if_neg (by omega), if_neg (by omega)]
        omega

/-- And nothing else is one in lower case. -/
theorem hexdigit_of_toLower {c : Char} {v : ℕ} (hv : v < 16) (h : c.toLower = hexDigit v) :
    isAsciiHexdigit c = true := by
  have hlower := toNat_toLower c
  rw [h, toNat_hexDigit v hv] at hlower
  rw [isAsciiHexdigit_iff]
  split at hlower <;> split at hlower <;> omega

/-- Two digits are the byte they spell. -/
theorem u8FromStrRadix16_pair {c d : Char} (hc : isAsciiHexdigit c = true)
    (hd : isAsciiHexdigit d = true) :
    ∃ b, u8FromStrRadix16 [c, d] = some b ∧ hexByte b = [c.toLower, d.toLower] := by
  obtain ⟨-, hplus, v, hv, hcval, hclow⟩ := hexdigit_read hc
  obtain ⟨-, -, w, hw, hdval, hdlow⟩ := hexdigit_read hd
  have hhead : ([c, d] : List Char).head? ≠ some '+' := by simpa using hplus
  have hdigits : [c, d].mapM hexVal = some [v, w] := by simp [hcval, hdval]
  have hlt : 16 * (16 * 0 + v) + w < 256 := by omega
  have hnat : (UInt8.ofNat (16 * (16 * 0 + v) + w)).toNat = 16 * v + w := by
    rw [UInt8.toNat_ofNat', Nat.mod_eq_of_lt hlt]
    omega
  refine ⟨UInt8.ofNat (16 * (16 * 0 + v) + w), ?_, ?_⟩
  · simp only [u8FromStrRadix16, if_neg hhead, hdigits, List.foldl_cons, List.foldl_nil]
    exact if_pos hlt
  · rw [hexByte, hnat, show (16 * v + w) / 16 = v by omega, show (16 * v + w) % 16 = w by omega,
      hclow, hdlow]

/-- **The loop.**  On hex digits it neither panics nor fails, and its bytes are those digits. -/
theorem fillRaw_digits : ∀ (n : ℕ) (cs : List Char), cs.length = 2 * n →
    (∀ c ∈ cs, isAsciiHexdigit c = true) →
    ∃ raw, fillRaw n cs = some (.ok raw) ∧ raw.length = n ∧
      raw.flatMap hexByte = cs.map Char.toLower := by
  intro n
  induction n with
  | zero =>
    intro cs hlen _
    obtain rfl := List.eq_nil_of_length_eq_zero hlen
    exact ⟨[], rfl, rfl, rfl⟩
  | succ n ih =>
    intro cs hlen hdigits
    match cs, hlen, hdigits with
    | c :: d :: rest, hlen, hdigits =>
      have hc := hdigits c (by simp)
      have hd := hdigits d (by simp)
      have hsize := (hexdigit_read hc).1
      have hsize' := (hexdigit_read hd).1
      have hslice : slice2 (c :: d :: rest) = some ([c, d], rest) := by
        rw [slice2, hsize, hsize']
        rfl
      obtain ⟨b, hb, hbyte⟩ := u8FromStrRadix16_pair hc hd
      have hrest : rest.length = 2 * n := by
        simp only [List.length_cons] at hlen
        omega
      obtain ⟨raw, hraw, hrawlen, hrawhex⟩ := ih rest hrest (fun x hx => hdigits x (by simp [hx]))
      refine ⟨b :: raw, ?_, by rw [List.length_cons, hrawlen], ?_⟩
      · simp only [fillRaw, hslice, hb, hraw]
        rfl
      · rw [List.flatMap_cons, hbyte, hrawhex]
        rfl

/-! ### The file -/

/-- The file, less the blanks around it, is the 64 digits of the key, in either case. -/
def Spells (content : ByteArray) (sk : SecretKey) : Prop :=
  ∃ text, String.fromUTF8? content = some text ∧
    eqIgnoreAsciiCase (trim text) (hex sk.bytes.1) = true

theorem eqIgnoreAsciiCase_hex_iff (s : String) (data : List UInt8) :
    eqIgnoreAsciiCase s (hex data) = true ↔ s.toList.map Char.toLower = data.flatMap hexByte := by
  rw [eqIgnoreAsciiCase, beq_iff_eq, hex, String.toList_ofList, flatMap_hexByte_toLower]

/-- What is checked first holds of the digits of a key, and of nothing else. -/
theorem hexed_iff (s : String) : (s.utf8ByteSize = 64 ∧ s.toList.all isAsciiHexdigit = true) ↔
    ∃ sk : SecretKey, eqIgnoreAsciiCase s (hex sk.bytes.1) = true := by
  constructor
  · rintro ⟨hsize, hdigits⟩
    rw [List.all_eq_true] at hdigits
    have hlen : s.toList.length = 64 := by
      rw [← length_utf8_ascii (fun c hc => (hexdigit_read (hdigits c hc)).1), length_utf8_toList,
        hsize]
    obtain ⟨raw, -, hraw, hhex⟩ := fillRaw_digits 32 s.toList hlen hdigits
    exact ⟨⟨⟨raw, hraw⟩⟩, (eqIgnoreAsciiCase_hex_iff s raw).mpr hhex.symm⟩
  · rintro ⟨sk, hspells⟩
    rw [eqIgnoreAsciiCase_hex_iff] at hspells
    have hdigits : ∀ c ∈ s.toList, isAsciiHexdigit c = true := by
      intro c hc
      have hmem : c.toLower ∈ sk.bytes.1.flatMap hexByte := by
        rw [← hspells]
        exact List.mem_map_of_mem hc
      obtain ⟨b, -, hb⟩ := List.mem_flatMap.mp hmem
      have hlt := b.toNat_lt
      simp only [hexByte, List.mem_cons, List.not_mem_nil, or_false] at hb
      obtain hb | hb := hb
      · exact hexdigit_of_toLower (by omega) hb
      · exact hexdigit_of_toLower (by omega) hb
    have hlen : s.toList.length = 64 := by
      have hmap := congrArg List.length hspells
      rw [List.length_map, List.length_flatMap] at hmap
      have hpair : sk.bytes.1.map (fun b => (hexByte b).length) = sk.bytes.1.map fun _ => 2 :=
        List.map_congr_left fun b _ => rfl
      rw [hpair, List.map_const', sk.bytes.2] at hmap
      rw [hmap]
      rfl
    refine ⟨?_, List.all_eq_true.mpr hdigits⟩
    rw [← length_utf8_toList, length_utf8_ascii (fun c hc => (hexdigit_read (hdigits c hc)).1),
      hlen]

/-- **What a file is read as**: the key its digits spell, or nothing. -/
theorem parseKeypair_cases (content : ByteArray) :
    (∃ sk, parseKeypair content = some (.ok sk) ∧ Spells content sk) ∨
      parseKeypair content = some (.error .badKeypair) ∧ ∀ sk, ¬ Spells content sk := by
  unfold parseKeypair
  cases htext : String.fromUTF8? content with
  | none =>
    refine .inr ⟨rfl, ?_⟩
    rintro sk ⟨text, htext', -⟩
    rw [htext] at htext'
    exact absurd htext' (by simp)
  | some text =>
    dsimp only
    by_cases hhexed : (trim text).utf8ByteSize = 64 ∧
        (trim text).toList.all isAsciiHexdigit = true
    · obtain ⟨hsize, hdigits⟩ := hhexed
      rw [if_neg (by simp [hsize, hdigits])]
      rw [List.all_eq_true] at hdigits
      have hlen : (trim text).toList.length = 64 := by
        rw [← length_utf8_ascii (fun c hc => (hexdigit_read (hdigits c hc)).1), length_utf8_toList,
          hsize]
      obtain ⟨raw, hfill, hraw, hhex⟩ := fillRaw_digits 32 _ hlen hdigits
      refine .inl ⟨⟨⟨raw, hraw⟩⟩, ?_, text, htext, ?_⟩
      · rw [hfill]
        show (SecretKey.ofRaw raw).map Except.ok = _
        rw [SecretKey.ofRaw, dif_pos hraw]
        rfl
      · exact (eqIgnoreAsciiCase_hex_iff _ raw).mpr hhex.symm
    · refine .inr ⟨?_, ?_⟩
      · rw [if_pos]
        rw [not_and_or, Bool.not_eq_true] at hhexed
        simpa using hhexed
      · rintro sk ⟨text', htext', hspells⟩
        rw [htext] at htext'
        cases htext'
        exact hhexed ((hexed_iff _).mpr ⟨sk, hspells⟩)

/-- A file spells one key at most. -/
theorem Spells.unique {content : ByteArray} {sk sk' : SecretKey} (h : Spells content sk)
    (h' : Spells content sk') : sk = sk' := by
  obtain ⟨text, htext, hspells⟩ := h
  obtain ⟨text', htext', hspells'⟩ := h'
  rw [htext] at htext'
  cases htext'
  rw [eqIgnoreAsciiCase_hex_iff] at hspells hspells'
  have hbytes := flatMap_hexByte_inj (hspells.symm.trans hspells')
  cases sk
  cases sk'
  exact congrArg SecretKey.mk (Subtype.ext hbytes)

theorem hexDigit_not_whitespace : ∀ n < 16, isWhitespace (hexDigit n) = false := by decide

theorem hex_not_whitespace (data : List UInt8) :
    ∀ c ∈ (hex data).toList, isWhitespace c = false := by
  intro c hc
  rw [hex, String.toList_ofList] at hc
  obtain ⟨b, -, hb⟩ := List.mem_flatMap.mp hc
  have hlt := b.toNat_lt
  simp only [hexByte, List.mem_cons, List.not_mem_nil, or_false] at hb
  obtain rfl | rfl := hb
  · exact hexDigit_not_whitespace _ (by omega)
  · exact hexDigit_not_whitespace _ (by omega)

/-- `trim` takes a newline from a text without blanks. -/
theorem trim_newline {s : String} (h : ∀ c ∈ s.toList, isWhitespace c = false) :
    trim (s ++ "\n") = s := by
  have hnewline : isWhitespace '\n' = true := rfl
  apply String.toList_inj.mp
  rw [trim, String.toList_ofList, String.toList_append]
  show (((s.toList ++ ['\n']).dropWhile isWhitespace).reverse.dropWhile isWhitespace).reverse = _
  generalize s.toList = cs at h
  cases cs with
  | nil => rfl
  | cons c cs =>
    have hback : (c :: cs).reverse.dropWhile isWhitespace = (c :: cs).reverse := by
      rw [List.dropWhile_eq_self_iff]
      intro hpos
      rw [h _ (List.mem_reverse.mp (List.getElem_mem hpos))]
      simp
    rw [List.cons_append, List.dropWhile_cons_of_neg (by simp [h c]), ← List.cons_append,
      List.reverse_append]
    show (List.dropWhile isWhitespace ('\n' :: (c :: cs).reverse)).reverse = _
    rw [List.dropWhile_cons_of_pos hnewline, hback, List.reverse_reverse]

/-- What is written spells the key: the newline is what `trim` takes away. -/
theorem spells_hex (sk : SecretKey) : Spells ((hex sk.bytes.1).toUTF8 ++ "\n".toUTF8) sk := by
  refine ⟨hex sk.bytes.1 ++ "\n", ?_, ?_⟩
  · show String.fromUTF8? (hex sk.bytes.1 ++ "\n").toByteArray = _
    unfold String.fromUTF8?
    rw [dif_pos (String.isValidUTF8 _)]
    rfl
  · rw [trim_newline (hex_not_whitespace sk.bytes.1)]
    exact eqIgnoreAsciiCase_refl _

/-- **The identity file.**  The key that a first run writes is the key every later one reads.  And
    whatever a file holds, it is read as the key it spells if there is one, and refused otherwise;
    no slice panics, and the file stays as it is. -/
theorem keypair_file :
    (∀ sk : SecretKey, ∃ content, content = (hex sk.bytes.1).toUTF8 ++ "\n".toUTF8 ∧
      loadOrCreateKeypair none none sk none = (some content, some (.ok sk)) ∧
      ∀ fault generated,
        loadOrCreateKeypair none fault generated (some content) = (some content, some (.ok sk))) ∧
    ∀ content fault generated, ∃ result,
      loadOrCreateKeypair none fault generated (some content) = (some content, some result) ∧
        ((∃ sk, result = .ok sk) ∨ result = .error .badKeypair) ∧
        ∀ sk, result = .ok sk ↔ Spells content sk := by
  have hload : ∀ content fault generated, ∃ result,
      loadOrCreateKeypair none fault generated (some content) = (some content, some result) ∧
        ((∃ sk, result = .ok sk) ∨ result = .error .badKeypair) ∧
        ∀ sk, result = .ok sk ↔ Spells content sk := by
    intro content fault generated
    obtain ⟨sk, hparse, hspells⟩ | ⟨hparse, hnone⟩ := parseKeypair_cases content
    · refine ⟨.ok sk, by rw [← hparse]; rfl, .inl ⟨sk, rfl⟩, fun sk' => ⟨?_, fun h => ?_⟩⟩
      · rintro h
        cases h
        exact hspells
      · rw [hspells.unique h]
    · refine ⟨.error .badKeypair, by rw [← hparse]; rfl, .inr rfl, fun sk => ?_⟩
      exact iff_of_false (by simp) (hnone sk)
  refine ⟨fun sk => ⟨_, rfl, rfl, fun fault generated => ?_⟩, hload⟩
  obtain ⟨result, hresult, -, hiff⟩ := hload _ fault generated
  rw [hresult, (hiff sk).mpr (spells_hex sk)]

end Tmite.Client
