import Mathlib
import Tmite.Core.PublicKey
import Tmite.Lib.Tokens
import Tmite.Proto.Limits

namespace Tmite.Proto

open Tmite.Core Tokens

/-!
# Pairing codes (`tmite-proto/src/pairing.rs`)

Five bytes of entropy and a checksum byte as five words: the first four bytes are three
base-1626 digits, the last two bytes two.  The word list, its encoder and its decoder are the
`mnemonic` crate's (`Mnemonic`), SHA-256 is the `sha2` crate's; both are parameters, and
`Mnemonic.Documented` and `Mnemonic.Checked` say what is relied on.

Codes decode to what was encoded, however they are spelled (`code_round_trip`), and nothing else
decodes (`accepted_canonical`).  Two digits of which the last is below 41 still name more than
2^16 values, so the second rests on the crate's own check of the last group.
-/

/-! ### The crates -/

/-- The `mnemonic` crate: `MN_WORDS`, `to_string`, and the bytes `decode` writes. -/
structure Mnemonic where
  words : List String
  toString : List UInt8 → String
  decode : String → Except Unit (List UInt8)

/-- The number of words that are digits; the seven after them are for 24-bit remainders. -/
def mnBase : ℕ := 1626

/-- The words of the list at these indices. -/
def Mnemonic.wordsAt (M : Mnemonic) (indices : List ℕ) : List String :=
  indices.map (fun i => M.words.getD i "")

/-- Two bytes, least significant first. -/
def leBytes2 (x : ℕ) : List UInt8 := [UInt8.ofNat x, UInt8.ofNat (x / 2 ^ 8)]

/-- Four bytes, least significant first. -/
def leBytes4 (x : ℕ) : List UInt8 := leBytes2 x ++ leBytes2 (x / 2 ^ 16)

/-- Two base-1626 digits, least significant first. -/
def digits2 (x : ℕ) : List ℕ := [x % mnBase, x / mnBase]

/-- Three base-1626 digits, least significant first. -/
def digits3 (x : ℕ) : List ℕ := x % mnBase :: digits2 (x / mnBase)

/-- What the crate documents: its list, the encoding of four bytes and two, and that `decode`
    inverts it on words joined by dashes. -/
structure Mnemonic.Documented (M : Mnemonic) : Prop where
  count : M.words.length = 1633
  nodup : M.words.Nodup
  lowercase : ∀ w ∈ M.words, w.toList ≠ [] ∧ ∀ c ∈ w.toList, c.isLower = true
  encode : ∀ x < 2 ^ 32, ∀ y < 2 ^ 16, M.toString (leBytes4 x ++ leBytes2 y) =
    "-".intercalate (M.wordsAt (digits3 x)) ++ "--" ++ "-".intercalate (M.wordsAt (digits2 y))
  invert : ∀ x < 2 ^ 32, ∀ y < 2 ^ 16,
    M.decode ("-".intercalate (M.wordsAt (digits3 x ++ digits2 y))) =
      .ok (leBytes4 x ++ leBytes2 y)

/-- What `decode` refuses of five words: the seven words that end three bytes, which have no place
    among five (`UnexpectedRemainderWord`, `DataPastRemainder`), a group of three beyond 32 bits
    (`InvalidEncoding`), and a last group of two beyond 16 (`UnexpectedRemainder`). -/
structure Mnemonic.Checked (M : Mnemonic) : Prop where
  digits : ∀ i j k l m : ℕ, (∀ n ∈ [i, j, k, l, m], n < 1633) →
    (∃ n ∈ [i, j, k, l, m], mnBase ≤ n) →
    ∃ e, M.decode ("-".intercalate (M.wordsAt [i, j, k, l, m])) = .error e
  group : ∀ i j k l m : ℕ, (∀ n ∈ [i, j, k, l, m], n < mnBase) →
    2 ^ 32 ≤ i + mnBase * (j + mnBase * k) →
    ∃ e, M.decode ("-".intercalate (M.wordsAt [i, j, k, l, m])) = .error e
  remainder : ∀ i j k l m : ℕ, (∀ n ∈ [i, j, k, l, m], n < mnBase) →
    2 ^ 16 ≤ l + mnBase * m →
    ∃ e, M.decode ("-".intercalate (M.wordsAt [i, j, k, l, m])) = .error e

/-! ### The codec -/

/-- `[u8; INVITE_CODE_ENTROPY]`. -/
abbrev Entropy := { bytes : List UInt8 // bytes.length = inviteCodeEntropy }

/-- `CodeError`. -/
inductive CodeError
  | wrongWordCount (got : ℕ)
  | unknownWord (w : String)
  | lastWordInvalid
  | checksumMismatch
  | malformed
deriving DecidableEq

/-- `checksum_byte`: the first byte of the digest. -/
def checksumByte (sha256 : List UInt8 → Bytes32) (entropy : List UInt8) : UInt8 :=
  (sha256 entropy).1.getD 0 0

/-- What `normalize_words` splits at: neither an ASCII letter nor an apostrophe. -/
def isSeparator (c : Char) : Bool := !(c.isAlpha || c.toNat = 0x27)

/-- The pieces of a code, in lower case. -/
def splitWords (code : String) : List String :=
  (tokens isSeparator code.toList).map (fun w => String.ofList (w.map Char.toLower))

/-- `normalize_words`. -/
def normalizeWords (code : String) : Except CodeError (List String) :=
  if (splitWords code).any (fun w => w == "") then .error .malformed else .ok (splitWords code)

/-- `word_index`. -/
def Mnemonic.wordIndex (M : Mnemonic) (word : String) : Option ℕ :=
  M.words.findIdx? (fun w => w == word)

/-- `entropy_to_code`; `none` where its `expect` would panic. -/
def entropyToCode (M : Mnemonic) (sha256 : List UInt8 → Bytes32) (entropy : Entropy) :
    Option String :=
  match normalizeWords (M.toString (entropy.1 ++ [checksumByte sha256 entropy.1])) with
  | .error _ => none
  | .ok words => some (" ".intercalate words)

/-- `code_to_entropy`.  The `out` buffer of 64 bytes is the bytes written to it. -/
def codeToEntropy (M : Mnemonic) (sha256 : List UInt8 → Bytes32) (code : String) :
    Except CodeError Entropy :=
  match normalizeWords code with
  | .error e => .error e
  | .ok words =>
    if words.length ≠ 5 then .error (.wrongWordCount words.length)
    else
      match words.find? (fun w => (M.wordIndex w).isNone) with
      | some w => .error (.unknownWord w)
      | none =>
        -- every word has an index by now
        if 41 ≤ (M.wordIndex (words.getD 4 "")).getD 0 then .error .lastWordInvalid
        else
          match M.decode ("-".intercalate words) with
          | .error _ => .error .malformed
          | .ok out =>
            if out.length ≠ 6 then .error (.wrongWordCount words.length)
            else if h : (out.take inviteCodeEntropy).length = inviteCodeEntropy then
              if checksumByte sha256 (out.take inviteCodeEntropy) ≠ out.getD inviteCodeEntropy 0 then
                .error .checksumMismatch
              else .ok ⟨out.take inviteCodeEntropy, h⟩
            else .error .malformed

/-! ### Bytes and digits -/

/-- Any two bytes are a 16-bit number. -/
theorem exists_leBytes2 (a b : UInt8) : ∃ y < 2 ^ 16, leBytes2 y = [a, b] := by
  have ha := a.toNat_lt
  have hb := b.toNat_lt
  refine ⟨a.toNat + 2 ^ 8 * b.toNat, by omega, ?_⟩
  simp only [leBytes2, List.cons.injEq, and_true, ← UInt8.toNat_inj, UInt8.toNat_ofNat']
  omega

/-- Any four bytes are a 32-bit number. -/
theorem exists_leBytes4 (a b c d : UInt8) : ∃ x < 2 ^ 32, leBytes4 x = [a, b, c, d] := by
  obtain ⟨lo, hlo, hlob⟩ := exists_leBytes2 a b
  obtain ⟨hi, hhi, hhib⟩ := exists_leBytes2 c d
  refine ⟨lo + 2 ^ 16 * hi, by omega, ?_⟩
  have hlow : leBytes2 (lo + 2 ^ 16 * hi) = leBytes2 lo := by
    simp only [leBytes2, List.cons.injEq, and_true, ← UInt8.toNat_inj, UInt8.toNat_ofNat']
    omega
  have hhigh : (lo + 2 ^ 16 * hi) / 2 ^ 16 = hi := by omega
  rw [leBytes4, hlow, hhigh, hlob, hhib]
  rfl

/-- Entropy and its checksum byte are a 32-bit and a 16-bit number. -/
theorem exists_groups (entropy : Entropy) (checksum : UInt8) : ∃ x < 2 ^ 32, ∃ y < 2 ^ 16,
    entropy.1 ++ [checksum] = leBytes4 x ++ leBytes2 y := by
  obtain ⟨bytes, hlen⟩ := entropy
  obtain ⟨a, b, c, d, e, rfl⟩ : ∃ a b c d e, bytes = [a, b, c, d, e] := by
    match bytes, hlen with
    | [a, b, c, d, e], _ => exact ⟨a, b, c, d, e, rfl⟩
  obtain ⟨x, hx, hxb⟩ := exists_leBytes4 a b c d
  obtain ⟨y, hy, hyb⟩ := exists_leBytes2 e checksum
  exact ⟨x, hx, y, hy, by rw [hxb, hyb]; rfl⟩

/-- The digits of a group of three. -/
theorem digits3_of_lt {i j k : ℕ} (hi : i < mnBase) (hj : j < mnBase) :
    digits3 (i + mnBase * (j + mnBase * k)) = [i, j, k] := by
  have hpos : 0 < mnBase := by decide
  rw [digits3, digits2, Nat.add_mul_mod_self_left, Nat.mod_eq_of_lt hi,
    Nat.add_mul_div_left _ _ hpos, Nat.div_eq_of_lt hi, Nat.zero_add, Nat.add_mul_mod_self_left,
    Nat.mod_eq_of_lt hj, Nat.add_mul_div_left _ _ hpos, Nat.div_eq_of_lt hj, Nat.zero_add]

/-- The digits of a group of two. -/
theorem digits2_of_lt {l m : ℕ} (hl : l < mnBase) : digits2 (l + mnBase * m) = [l, m] := by
  have hpos : 0 < mnBase := by decide
  rw [digits2, Nat.add_mul_mod_self_left, Nat.mod_eq_of_lt hl, Nat.add_mul_div_left _ _ hpos,
    Nat.div_eq_of_lt hl, Nat.zero_add]

/-- The five digits, and how large they get: the last is below 41. -/
theorem digits_bounds {x y : ℕ} (hx : x < 2 ^ 32) (hy : y < 2 ^ 16) :
    ∃ i j k l m, digits3 x ++ digits2 y = [i, j, k, l, m] ∧ i < mnBase ∧ j < mnBase ∧
      k < mnBase ∧ l < mnBase ∧ m < 41 ∧ y = l + mnBase * m := by
  refine ⟨_, _, _, _, _, rfl, ?_⟩
  unfold mnBase
  omega

/-! ### Letter case -/

theorem toLower_of_isLower {c : Char} (h : c.isLower = true) : c.toLower = c :=
  Char.toLower_eq_of_not_isUpper (Char.not_isUpper_of_isLower h)

/-- The other case of a letter is a letter. -/
theorem isAlpha_of_toLower_eq {c c' : Char} (hc : c.isAlpha = true)
    (h : c'.toLower = c.toLower) : c'.isAlpha = true := by
  rw [← Char.isLower_toLower_eq_isAlpha, h, Char.isLower_toLower_eq_isAlpha, hc]

/-! ### Words -/

/-- As the words of the list are: not empty, in lower case. -/
def Lowercase (w : String) : Prop := w.toList ≠ [] ∧ ∀ c ∈ w.toList, c.isLower = true

theorem isSeparator_of_isAlpha {c : Char} (h : c.isAlpha = true) : isSeparator c = false := by
  simp [isSeparator, h]

theorem Lowercase.isAlpha {w : String} (h : Lowercase w) {c : Char} (hc : c ∈ w.toList) :
    c.isAlpha = true := by
  simp [Char.isAlpha, h.2 c hc]

theorem Lowercase.word {w : String} (h : Lowercase w) : Word isSeparator w.toList :=
  ⟨h.1, fun _ hc => isSeparator_of_isAlpha (h.isAlpha hc)⟩

theorem Lowercase.map_toLower {w : String} (h : Lowercase w) :
    w.toList.map Char.toLower = w.toList := by
  have hid : ∀ c ∈ w.toList, c.toLower = c :=
    fun c hc => toLower_of_isLower (h.2 c hc)
  rw [List.map_congr_left hid, List.map_id']

/-- `normalize_words` does not fail: no token is empty. -/
theorem normalizeWords_eq (code : String) : normalizeWords code = .ok (splitWords code) := by
  have hnone : (splitWords code).any (fun w => w == "") = false := by
    rw [List.any_eq_false]
    intro w hw
    obtain ⟨t, ht, rfl⟩ := List.mem_map.mp hw
    have hne := ne_nil_of_mem_tokens ht
    simpa using hne
  rw [normalizeWords, hnone]
  rfl

/-- So the `expect` of `entropy_to_code` holds, whatever the encoder prints. -/
theorem entropyToCode_isSome (M : Mnemonic) (sha256 : List UInt8 → Bytes32) (entropy : Entropy) :
    (entropyToCode M sha256 entropy).isSome = true := by
  rw [entropyToCode, normalizeWords_eq]
  rfl

/-- A code is split into `ws` if its tokens are these words in some case. -/
theorem splitWords_of_tokens {code : String} {ws : List String}
    (h : (tokens isSeparator code.toList).map (fun t => t.map Char.toLower) =
      ws.map String.toList) : splitWords code = ws := by
  have hmap : splitWords code =
      ((tokens isSeparator code.toList).map (fun t => t.map Char.toLower)).map String.ofList := by
    rw [List.map_map]
    rfl
  rw [hmap, h, List.map_map]
  simp

theorem map_toLower_words {ws : List String} (hws : ∀ w ∈ ws, Lowercase w) :
    (ws.map String.toList).map (fun t => t.map Char.toLower) = ws.map String.toList := by
  rw [List.map_map]
  refine List.map_congr_left (fun w hw => ?_)
  exact (hws w hw).map_toLower

theorem words_of_lowercase {ws : List String} (hws : ∀ w ∈ ws, Lowercase w) :
    ∀ t ∈ ws.map String.toList, Word isSeparator t := by
  intro t ht
  obtain ⟨w, hw, rfl⟩ := List.mem_map.mp ht
  exact (hws w hw).word

/-- Words joined by a separator are split again. -/
theorem splitWords_joined {sep : String} {a : Char} (hsep : sep.toList = [a])
    (ha : isSeparator a = true) {ws : List String} (hws : ∀ w ∈ ws, Lowercase w) :
    splitWords (sep.intercalate ws) = ws := by
  apply splitWords_of_tokens
  have htok : tokens isSeparator ([a].intercalate (ws.map String.toList) ++ []) =
      ws.map String.toList ++ tokens isSeparator [] :=
    tokens_intercalate ha (words_of_lowercase hws) (by simp)
  rw [List.append_nil, tokens_nil, List.append_nil] at htok
  rw [String.toList_intercalate, hsep, htok, map_toLower_words hws]

/-- The encoder's form: dashes, and two between the groups. -/
theorem splitWords_dashed {ws vs : List String} (hws : ∀ w ∈ ws, Lowercase w)
    (hvs : ∀ w ∈ vs, Lowercase w) :
    splitWords ("-".intercalate ws ++ "--" ++ "-".intercalate vs) = ws ++ vs := by
  apply splitWords_of_tokens
  have hlast : tokens isSeparator (['-'].intercalate (vs.map String.toList) ++ []) =
      vs.map String.toList ++ tokens isSeparator [] :=
    tokens_intercalate (by decide) (words_of_lowercase hvs) (by simp)
  rw [List.append_nil, tokens_nil, List.append_nil] at hlast
  have hfirst : tokens isSeparator (['-'].intercalate (ws.map String.toList) ++
        '-' :: '-' :: ['-'].intercalate (vs.map String.toList)) =
      ws.map String.toList ++
        tokens isSeparator ('-' :: '-' :: ['-'].intercalate (vs.map String.toList)) :=
    tokens_intercalate (by decide) (words_of_lowercase hws) (by simp; decide)
  rw [tokens_cons_sep (by decide), tokens_cons_sep (by decide), hlast] at hfirst
  rw [String.toList_append, String.toList_append, String.toList_intercalate,
    String.toList_intercalate, show ("-" : String).toList = ['-'] from rfl,
    show ("--" : String).toList = ['-', '-'] from rfl, List.append_assoc, List.cons_append,
    List.cons_append, List.nil_append, hfirst, List.map_append, map_toLower_words hws, map_toLower_words hvs,
    List.map_append]

/-! ### Respelling -/

/-- `s` is the text with letters in either case and any separators for the spaces. -/
inductive Respelled : List Char → List Char → Prop
  | nil : Respelled [] []
  | letter {c c' : Char} {text s : List Char} : c.isAlpha = true → c'.toLower = c.toLower →
      Respelled text s → Respelled (c :: text) (c' :: s)
  | space {sep text s : List Char} : sep ≠ [] → (∀ x ∈ sep, isSeparator x = true) →
      Respelled text s → Respelled (' ' :: text) (sep ++ s)

/-- The same, with separators before and after. -/
def Respelling (code s : String) : Prop :=
  ∃ pre mid post, s.toList = pre ++ mid ++ post ∧ (∀ x ∈ pre, isSeparator x = true) ∧
    (∀ x ∈ post, isSeparator x = true) ∧ Respelled code.toList mid

/-- A respelled text comes apart where the text does. -/
theorem respelled_append {text text' s : List Char} (h : Respelled (text ++ text') s) :
    ∃ s₁ s₂, s = s₁ ++ s₂ ∧ Respelled text s₁ ∧ Respelled text' s₂ := by
  induction text generalizing s with
  | nil => exact ⟨[], s, rfl, .nil, h⟩
  | cons c text ih =>
    rw [List.cons_append] at h
    cases h with
    | letter hc hlow hrest =>
      obtain ⟨s₁, s₂, rfl, h₁, h₂⟩ := ih hrest
      exact ⟨_ :: s₁, s₂, rfl, .letter hc hlow h₁, h₂⟩
    | space hne hsep hrest =>
      obtain ⟨s₁, s₂, rfl, h₁, h₂⟩ := ih hrest
      exact ⟨_ ++ s₁, s₂, by rw [List.append_assoc], .space hne hsep h₁, h₂⟩

/-- A respelled word is a word, and the same in lower case. -/
theorem respelled_word {text s : List Char} (htext : ∀ c ∈ text, c.isLower = true)
    (h : Respelled text s) :
    s.map Char.toLower = text ∧ (∀ x ∈ s, isSeparator x = false) := by
  induction h with
  | nil => exact ⟨rfl, by simp⟩
  | @letter c c' text s hc hlow hrest ih =>
    obtain ⟨hmap, hsep⟩ := ih (fun x hx => htext x (List.mem_cons_of_mem c hx))
    have hc' : c.toLower = c := toLower_of_isLower (htext c List.mem_cons_self)
    refine ⟨by rw [List.map_cons, hlow, hc', hmap], ?_⟩
    intro x hx
    rcases List.mem_cons.mp hx with rfl | hx
    · exact isSeparator_of_isAlpha (isAlpha_of_toLower_eq hc hlow)
    · exact hsep x hx
  | space hne hsep hrest ih => exact absurd (htext ' ' List.mem_cons_self) (by decide)

/-- The tokens of a respelled code, whatever separators follow it. -/
theorem tokens_respelled {ws : List String} (hws : ∀ w ∈ ws, Lowercase w) {s post : List Char}
    (hpost : ∀ x ∈ post, isSeparator x = true)
    (h : Respelled ([' '].intercalate (ws.map String.toList)) s) :
    (tokens isSeparator (s ++ post)).map (fun t => t.map Char.toLower) =
      ws.map String.toList := by
  induction ws generalizing s with
  | nil =>
    cases h
    rw [List.nil_append, tokens_of_seps hpost]
    rfl
  | cons w ws ih =>
    have hw := hws w List.mem_cons_self
    have hrec := fun {s} => @ih (fun v hv => hws v (List.mem_cons_of_mem w hv)) s
    -- the first word, followed by nothing but separators or by the rest of the code
    have hword : ∀ {s₁ rest}, Respelled w.toList s₁ → (∀ x ∈ rest.head?, isSeparator x = true) →
        (tokens isSeparator (s₁ ++ rest)).map (fun t => t.map Char.toLower) =
          w.toList :: (tokens isSeparator rest).map (fun t => t.map Char.toLower) := by
      intro s₁ rest h₁ hrest
      obtain ⟨hmap, hsep⟩ := respelled_word hw.2 h₁
      have hne : s₁ ≠ [] := by
        rintro rfl
        exact hw.1 hmap.symm
      rw [tokens_append_word hne hsep hrest, List.map_cons, hmap]
    cases ws with
    | nil =>
      rw [List.map_cons, List.map_nil, List.intercalate_singleton] at h
      have hhead : ∀ x ∈ post.head?, isSeparator x = true :=
        fun x hx => hpost x (List.mem_of_mem_head? hx)
      rw [hword h hhead, tokens_of_seps hpost]
      rfl
    | cons w' ws =>
      have hjoin : [' '].intercalate ((w :: w' :: ws).map String.toList) =
          w.toList ++ ' ' :: [' '].intercalate ((w' :: ws).map String.toList) := by
        simp [List.intercalate]
      rw [hjoin] at h
      obtain ⟨s₁, s₂, rfl, h₁, h₂⟩ := respelled_append h
      cases h₂ with
      | letter hc _ _ => exact absurd hc (by decide)
      | @space sep _ s₂ hne hsep h₂ =>
        have hhead : ∀ x ∈ (sep ++ (s₂ ++ post)).head?, isSeparator x = true := by
          intro x hx
          rw [List.head?_append_of_ne_nil _ hne] at hx
          exact hsep x (List.mem_of_mem_head? hx)
        rw [List.append_assoc, List.append_assoc, hword h₁ hhead, tokens_append_of_seps hsep,
          hrec h₂]
        rfl

/-- A respelled code has the words of the code. -/
theorem splitWords_respelling {ws : List String} (hws : ∀ w ∈ ws, Lowercase w) {s : String}
    (h : Respelling (" ".intercalate ws) s) : splitWords s = ws := by
  obtain ⟨pre, mid, post, hs, hpre, hpost, hmid⟩ := h
  rw [String.toList_intercalate, show (" " : String).toList = [' '] from rfl] at hmid
  apply splitWords_of_tokens
  rw [hs, List.append_assoc, tokens_append_of_seps hpre]
  exact tokens_respelled hws hpost hmid

/-! ### The word list -/

section Codec

variable {M : Mnemonic} {sha256 : List UInt8 → Bytes32}

/-- A word of the list is found at its own index. -/
theorem wordIndex_getD (hM : M.Documented) {i : ℕ} (hi : i < 1633) :
    M.wordIndex (M.words.getD i "") = some i := by
  have hlt : i < M.words.length := by rw [hM.count]; exact hi
  have hget : M.words.getD i "" = M.words[i] := List.getD_eq_getElem _ _ hlt
  rw [Mnemonic.wordIndex, List.findIdx?_eq_some_iff_getElem, hget]
  refine ⟨hlt, by simp, fun j hj => ?_⟩
  have hne : M.words[j] ≠ M.words[i] := by
    intro heq
    have hij := (hM.nodup.getElem_inj_iff).mp heq
    omega
  simpa using hne

/-- A word with an index is the word of the list there. -/
theorem wordIndex_some (hM : M.Documented) {w : String} {i : ℕ}
    (h : M.wordIndex w = some i) : i < 1633 ∧ w = M.words.getD i "" := by
  obtain ⟨hlt, heq, -⟩ := List.findIdx?_eq_some_iff_getElem.mp h
  refine ⟨by rw [← hM.count]; exact hlt, ?_⟩
  rw [List.getD_eq_getElem _ _ hlt]
  exact (beq_iff_eq.mp heq).symm

theorem wordsAt_lowercase (hM : M.Documented) {indices : List ℕ}
    (h : ∀ i ∈ indices, i < 1633) : ∀ w ∈ M.wordsAt indices, Lowercase w := by
  intro w hw
  obtain ⟨i, hi, rfl⟩ := List.mem_map.mp hw
  have hlt : i < M.words.length := by rw [hM.count]; exact h i hi
  rw [List.getD_eq_getElem _ _ hlt]
  exact hM.lowercase _ (List.getElem_mem hlt)

theorem digits_lt {x y : ℕ} (hx : x < 2 ^ 32) (hy : y < 2 ^ 16) :
    ∀ i ∈ digits3 x ++ digits2 y, i < 1633 := by
  obtain ⟨i, j, k, l, m, heq, hi, hj, hk, hl, hm, -⟩ := digits_bounds hx hy
  rw [heq]
  unfold mnBase at hi hj hk hl
  simp only [List.mem_cons, List.not_mem_nil, or_false]
  rintro n (rfl | rfl | rfl | rfl | rfl) <;> omega

/-! ### Encoding and decoding -/

/-- The code of entropy whose six bytes are `x` and `y`. -/
theorem entropyToCode_eq (hM : M.Documented) {entropy : Entropy} {x y : ℕ} (hx : x < 2 ^ 32)
    (hy : y < 2 ^ 16)
    (hbytes : entropy.1 ++ [checksumByte sha256 entropy.1] = leBytes4 x ++ leBytes2 y) :
    entropyToCode M sha256 entropy =
      some (" ".intercalate (M.wordsAt (digits3 x ++ digits2 y))) := by
  have hlow : ∀ ds ∈ [digits3 x, digits2 y], ∀ w ∈ M.wordsAt ds, Lowercase w := by
    intro ds hds
    refine wordsAt_lowercase hM (fun i hi => digits_lt hx hy i ?_)
    simp only [List.mem_cons, List.not_mem_nil, or_false] at hds
    rcases hds with rfl | rfl
    · exact List.mem_append_left _ hi
    · exact List.mem_append_right _ hi
  have hsplit : normalizeWords (M.toString (leBytes4 x ++ leBytes2 y)) =
      .ok (M.wordsAt (digits3 x ++ digits2 y)) := by
    rw [normalizeWords_eq, hM.encode x hx y hy,
      splitWords_dashed (hlow _ (by simp)) (hlow _ (by simp)), Mnemonic.wordsAt,
      Mnemonic.wordsAt, Mnemonic.wordsAt, List.map_append]
  rw [entropyToCode, hbytes, hsplit]

/-- Five words of the list, the last among its first 41, that decode to entropy and its
    checksum are accepted. -/
theorem codeToEntropy_of_decode (hM : M.Documented) {entropy : Entropy} {i j k l m : ℕ}
    (hall : ∀ n ∈ [i, j, k, l, m], n < 1633) (hm : m < 41) {s : String}
    (hs : splitWords s = M.wordsAt [i, j, k, l, m])
    (hdec : M.decode ("-".intercalate (M.wordsAt [i, j, k, l, m])) =
      .ok (entropy.1 ++ [checksumByte sha256 entropy.1])) :
    codeToEntropy M sha256 s = .ok entropy := by
  have hknown : (M.wordsAt [i, j, k, l, m]).find? (fun w => (M.wordIndex w).isNone) = none := by
    rw [List.find?_eq_none]
    intro w hw
    obtain ⟨n, hn, rfl⟩ := List.mem_map.mp hw
    rw [wordIndex_getD hM (hall n hn)]
    simp
  have hlast : (M.wordIndex ((M.wordsAt [i, j, k, l, m]).getD 4 "")).getD 0 = m := by
    show (M.wordIndex (M.words.getD m "")).getD 0 = m
    rw [wordIndex_getD hM (hall m (by simp))]
    rfl
  have hlen : (M.wordsAt [i, j, k, l, m]).length = 5 := rfl
  -- the six bytes come apart into the entropy and its checksum
  have hfive : entropy.1.length = inviteCodeEntropy := entropy.2
  have htake : (entropy.1 ++ [checksumByte sha256 entropy.1]).take inviteCodeEntropy =
      entropy.1 := List.take_left' hfive
  have hcheck : (entropy.1 ++ [checksumByte sha256 entropy.1]).getD inviteCodeEntropy 0 =
      checksumByte sha256 entropy.1 := by
    rw [List.getD_append_right _ _ _ _ (by omega), hfive]
    simp
  have hsix : (entropy.1 ++ [checksumByte sha256 entropy.1]).length = 6 := by
    rw [List.length_append, hfive]
    rfl
  simp only [codeToEntropy, normalizeWords_eq, hs, hlen, hknown, hlast, hdec, hsix, htake, hcheck,
    ne_eq, not_true_eq_false, if_false, hfive, dif_pos]
  rw [if_neg (by omega)]

/-- Whatever is split into the words of a code decodes to its entropy. -/
theorem codeToEntropy_of_words (hM : M.Documented) {entropy : Entropy} {x y : ℕ}
    (hx : x < 2 ^ 32) (hy : y < 2 ^ 16)
    (hbytes : entropy.1 ++ [checksumByte sha256 entropy.1] = leBytes4 x ++ leBytes2 y)
    {s : String} (hs : splitWords s = M.wordsAt (digits3 x ++ digits2 y)) :
    codeToEntropy M sha256 s = .ok entropy := by
  obtain ⟨i, j, k, l, m, hdig, -, -, -, -, hm, -⟩ := digits_bounds hx hy
  have hall := digits_lt hx hy
  have hinv := hM.invert x hx y hy
  rw [hdig] at hs hall hinv
  rw [← hbytes] at hinv
  exact codeToEntropy_of_decode hM hall hm hs hinv

/-- **Codes round-trip.** A code is five words of the list, the last among its first 41, and
    every respelling of it decodes to the entropy it was made from. -/
theorem code_round_trip (hM : M.Documented) (entropy : Entropy) :
    ∃ words, entropyToCode M sha256 entropy = some (" ".intercalate words) ∧
      words.length = 5 ∧ (∀ w ∈ words, w ∈ M.words) ∧
      (∃ last i, words.getLast? = some last ∧ M.wordIndex last = some i ∧ i < 41) ∧
      ∀ s, Respelling (" ".intercalate words) s → codeToEntropy M sha256 s = .ok entropy := by
  obtain ⟨x, hx, y, hy, hbytes⟩ := exists_groups entropy (checksumByte sha256 entropy.1)
  have hlt := digits_lt hx hy
  refine ⟨M.wordsAt (digits3 x ++ digits2 y), entropyToCode_eq hM hx hy hbytes, rfl, ?_, ?_, ?_⟩
  · intro w hw
    obtain ⟨i, hi, rfl⟩ := List.mem_map.mp hw
    have hi : i < M.words.length := by rw [hM.count]; exact hlt i hi
    rw [List.getD_eq_getElem _ _ hi]
    exact List.getElem_mem hi
  · obtain ⟨i, j, k, l, m, hdig, -, -, -, -, hm, -⟩ := digits_bounds hx hy
    rw [hdig] at hlt ⊢
    exact ⟨M.words.getD m "", m, rfl, wordIndex_getD hM (hlt m (by simp)), hm⟩
  · intro s hs
    exact codeToEntropy_of_words hM hx hy hbytes
      (splitWords_respelling (wordsAt_lowercase hM hlt) hs)

/-! ### Which codes are accepted -/

/-- Words that all have an index are words of the list. -/
theorem exists_wordsAt (hM : M.Documented) {words : List String}
    (h : words.find? (fun w => (M.wordIndex w).isNone) = none) :
    ∃ indices, words = M.wordsAt indices ∧ ∀ i ∈ indices, i < 1633 := by
  induction words with
  | nil => exact ⟨[], rfl, by simp⟩
  | cons w words ih =>
    rw [List.find?_eq_none] at h
    have hw : M.wordIndex w ≠ none := by simpa using h w List.mem_cons_self
    obtain ⟨i, hi⟩ := Option.ne_none_iff_exists'.mp hw
    obtain ⟨hlt, rfl⟩ := wordIndex_some hM hi
    obtain ⟨indices, rfl, hall⟩ :=
      ih (List.find?_eq_none.mpr (fun v hv => h v (List.mem_cons_of_mem _ hv)))
    refine ⟨i :: indices, rfl, fun n hn => ?_⟩
    rcases List.mem_cons.mp hn with rfl | hn
    · exact hlt
    · exact hall n hn

/-- What `code_to_entropy` accepts: five words of the list, the last among its first 41, that
    decode to entropy and its checksum. -/
theorem codeToEntropy_ok (hM : M.Documented) {s : String} {entropy : Entropy}
    (h : codeToEntropy M sha256 s = .ok entropy) : ∃ i j k l m,
    splitWords s = M.wordsAt [i, j, k, l, m] ∧ (∀ n ∈ [i, j, k, l, m], n < 1633) ∧ m < 41 ∧
      M.decode ("-".intercalate (M.wordsAt [i, j, k, l, m])) =
        .ok (entropy.1 ++ [checksumByte sha256 entropy.1]) := by
  simp only [codeToEntropy, normalizeWords_eq] at h
  -- each check in turn: the count, the words, the last word, the bytes, the checksum
  split at h
  · exact absurd h (by simp)
  · rename_i hlen
    split at h
    · exact absurd h (by simp)
    · rename_i hknown
      obtain ⟨indices, hwords, hall⟩ := exists_wordsAt hM hknown
      have hfive : indices.length = 5 := by
        have hlen : (splitWords s).length = 5 := by simpa using hlen
        rwa [hwords, Mnemonic.wordsAt, List.length_map] at hlen
      obtain ⟨i, j, k, l, m, rfl⟩ : ∃ i j k l m, indices = [i, j, k, l, m] := by
        match indices, hfive with
        | [i, j, k, l, m], _ => exact ⟨i, j, k, l, m, rfl⟩
      rw [hwords] at h
      split at h
      · exact absurd h (by simp)
      · rename_i hlast
        have hlast : (M.wordIndex (M.words.getD m "")).getD 0 < 41 := Nat.lt_of_not_le hlast
        rw [wordIndex_getD hM (hall m (by simp))] at hlast
        split at h
        · exact absurd h (by simp)
        · rename_i out hdec
          split at h
          · exact absurd h (by simp)
          · rename_i hsix
            split at h
            · rename_i htake
              split at h
              · exact absurd h (by simp)
              · rename_i hsum
                have hent : entropy.1 = out.take inviteCodeEntropy := by
                  rw [← Except.ok.inj h]
                have hsum : checksumByte sha256 (out.take inviteCodeEntropy) =
                    out.getD inviteCodeEntropy 0 := by simpa using hsum
                refine ⟨i, j, k, l, m, hwords, hall, hlast, ?_⟩
                rw [hdec, hent, hsum]
                have hout : out.length = 6 := by simpa using hsix
                match out, hout with
                | [a, b, c, d, e, f], _ => rfl
            · exact absurd h (by simp)

/-- Five words that decode are the digits of a 32-bit and a 16-bit number. -/
theorem digits_of_decode (hC : M.Checked) {i j k l m : ℕ} {bytes : List UInt8}
    (hall : ∀ n ∈ [i, j, k, l, m], n < 1633)
    (hdec : M.decode ("-".intercalate (M.wordsAt [i, j, k, l, m])) = .ok bytes) :
    ∃ x < 2 ^ 32, ∃ y < 2 ^ 16, digits3 x ++ digits2 y = [i, j, k, l, m] := by
  have hrefused : ¬ ∃ e, M.decode ("-".intercalate (M.wordsAt [i, j, k, l, m])) = .error e := by
    rintro ⟨e, he⟩
    rw [hdec] at he
    exact absurd he (by simp)
  have hdigits : ∀ n ∈ [i, j, k, l, m], n < mnBase := by
    intro n hn
    by_contra hbig
    exact hrefused (hC.digits i j k l m hall ⟨n, hn, Nat.le_of_not_lt hbig⟩)
  have hx : i + mnBase * (j + mnBase * k) < 2 ^ 32 := by
    by_contra hbig
    exact hrefused (hC.group i j k l m hdigits (Nat.le_of_not_lt hbig))
  have hy : l + mnBase * m < 2 ^ 16 := by
    by_contra hbig
    exact hrefused (hC.remainder i j k l m hdigits (Nat.le_of_not_lt hbig))
  refine ⟨_, hx, _, hy, ?_⟩
  rw [digits3_of_lt (hdigits i (by simp)) (hdigits j (by simp)),
    digits2_of_lt (hdigits l (by simp))]
  rfl

/-- An accepted code has the words of the code of its entropy. -/
theorem splitWords_of_accepted (hM : M.Documented) (hC : M.Checked) {s code : String}
    {entropy : Entropy} (h : codeToEntropy M sha256 s = .ok entropy)
    (hcode : entropyToCode M sha256 entropy = some code) : splitWords code = splitWords s := by
  obtain ⟨i, j, k, l, m, hwords, hall, -, hdec⟩ := codeToEntropy_ok hM h
  obtain ⟨x, hx, y, hy, hdig⟩ := digits_of_decode hC hall hdec
  -- the six bytes are those of the two numbers, so the encoder prints their digits
  have hbytes : entropy.1 ++ [checksumByte sha256 entropy.1] = leBytes4 x ++ leBytes2 y := by
    rw [← hdig, hM.invert x hx y hy] at hdec
    exact (Except.ok.inj hdec).symm
  rw [entropyToCode_eq hM hx hy hbytes, Option.some.injEq] at hcode
  rw [← hcode, hwords, ← hdig]
  exact splitWords_joined rfl (by decide : isSeparator ' ' = true)
    (wordsAt_lowercase hM (digits_lt hx hy))

/-- **Only canonical codes are accepted.** An accepted code is spelled with the words of the code
    of its entropy, so there is one sequence of words for each. -/
theorem accepted_canonical (hM : M.Documented) (hC : M.Checked) {s : String} {entropy : Entropy}
    (h : codeToEntropy M sha256 s = .ok entropy) :
    ∃ code, entropyToCode M sha256 entropy = some code ∧
      normalizeWords s = normalizeWords code ∧
      ∀ s', codeToEntropy M sha256 s' = .ok entropy → normalizeWords s' = normalizeWords s := by
  obtain ⟨code, hcode⟩ := Option.isSome_iff_exists.mp (entropyToCode_isSome M sha256 entropy)
  have hwords : ∀ {t}, codeToEntropy M sha256 t = .ok entropy →
      normalizeWords t = normalizeWords code := by
    intro t ht
    rw [normalizeWords_eq, normalizeWords_eq, splitWords_of_accepted hM hC ht hcode]
  exact ⟨code, hcode, hwords h, fun s' hs' => (hwords hs').trans (hwords h).symm⟩

end Codec

/-! ### Two codes of the list -/

/-- The words of the list that the codes below use, with their indices. -/
def knownWords : List (ℕ × List Char) :=
  [(0, ['a', 'c', 'a', 'd', 'e', 'm', 'y']), (11, ['a', 'i', 'r', 'p', 'o', 'r', 't']),
    (21, ['a', 'l', 'i', 'b', 'i']), (40, ['a', 'r', 'c', 'h', 'i', 'v', 'e']),
    (148, ['c', 'l', 'e', 'a', 'n']), (644, ['s', 'a', 'n', 'd', 'r', 'a']),
    (670, ['s', 'i', 'r', 'e', 'n'])]

/-- Three letters for an index. -/
def letters (i : ℕ) : List Char :=
  [Char.ofNat (97 + i / 676), Char.ofNat (97 + i / 26 % 26), Char.ofNat (97 + i % 26)]

/-- The word at an index, with letters for those that are not needed. -/
def wordAt (i : ℕ) : List Char :=
  ((knownWords.find? (fun p => p.1 == i)).map Prod.snd).getD (letters i)

/-- The index of such a word. -/
def indexOf (w : List Char) : ℕ :=
  match w with
  | [a, b, c] => 676 * (a.toNat - 97) + 26 * (b.toNat - 97) + (c.toNat - 97)
  | _ => ((knownWords.find? (fun p => p.2 == w)).map Prod.fst).getD 0

/-- The crate, with that list. -/
def sampleMnemonic : Mnemonic where
  words := (List.range 1633).map (fun i => String.ofList (wordAt i))
  toString bytes :=
    match bytes with
    | [a, b, c, d, e, f] =>
      let x := a.toNat + 2 ^ 8 * b.toNat + 2 ^ 16 * (c.toNat + 2 ^ 8 * d.toNat)
      let y := e.toNat + 2 ^ 8 * f.toNat
      "-".intercalate ((digits3 x).map (fun i => String.ofList (wordAt i))) ++ "--" ++
        "-".intercalate ((digits2 y).map (fun i => String.ofList (wordAt i)))
    | _ => ""
  decode s :=
    match (splitWords s).map (fun w => indexOf w.toList) with
    | [i, j, k, l, m] =>
      if [i, j, k, l, m].any (fun n => mnBase ≤ n) then .error ()
      else if 2 ^ 32 ≤ i + mnBase * (j + mnBase * k) then .error ()
      else if 2 ^ 16 ≤ l + mnBase * m then .error ()
      else .ok (leBytes4 (i + mnBase * (j + mnBase * k)) ++ leBytes2 (l + mnBase * m))
    | _ => .error ()

/-- What holds of the seven words and of every three letters holds of every word. -/
theorem wordAt_cases {P : ℕ → List Char → Prop} (hknown : ∀ p ∈ knownWords, P p.1 p.2)
    (hletters : ∀ i < 1633, P i (letters i)) {i : ℕ} (h : i < 1633) : P i (wordAt i) := by
  unfold wordAt
  cases hfind : knownWords.find? (fun p => p.1 == i) with
  | none => exact hletters i h
  | some p =>
    have hi : p.1 = i := by simpa using List.find?_some hfind
    have hp := hknown p (List.mem_of_find?_eq_some hfind)
    rw [hi] at hp
    exact hp

theorem letter_facts : ∀ n < 26, (Char.ofNat (97 + n)).toNat = 97 + n ∧
    (Char.ofNat (97 + n)).isLower = true := by
  decide

theorem indexOf_wordAt {i : ℕ} (h : i < 1633) : indexOf (wordAt i) = i := by
  refine wordAt_cases (P := fun i w => indexOf w = i) (by decide +kernel) (fun i hi => ?_) h
  simp only [letters, indexOf, (letter_facts (i / 676) (by omega)).1,
    (letter_facts (i / 26 % 26) (by omega)).1, (letter_facts (i % 26) (by omega)).1]
  omega

theorem lowercase_wordAt {i : ℕ} (h : i < 1633) : Lowercase (String.ofList (wordAt i)) := by
  rw [Lowercase, String.toList_ofList]
  have hknown : ∀ p ∈ knownWords, (p.2 ≠ [] && p.2.all Char.isLower) = true := by decide
  refine wordAt_cases (P := fun _ w => w ≠ [] ∧ ∀ c ∈ w, c.isLower = true)
    (fun p hp => by simpa using hknown p hp) (fun i hi => ⟨by simp [letters], ?_⟩) h
  simp only [letters, List.mem_cons, List.not_mem_nil, or_false]
  rintro c (rfl | rfl | rfl)
  · exact (letter_facts _ (by omega)).2
  · exact (letter_facts _ (by omega)).2
  · exact (letter_facts _ (by omega)).2

/-- The words of the sample list. -/
theorem sample_wordsAt {indices : List ℕ} (h : ∀ i ∈ indices, i < 1633) :
    sampleMnemonic.wordsAt indices = indices.map (fun i => String.ofList (wordAt i)) := by
  refine List.map_congr_left (fun i hi => ?_)
  have hlt : i < sampleMnemonic.words.length := by
    simpa [sampleMnemonic] using h i hi
  rw [List.getD_eq_getElem _ _ hlt]
  simp [sampleMnemonic]

/-- Among digits none is past the last of them. -/
theorem any_past_digits {i j k l m : ℕ} (h : ∀ n ∈ [i, j, k, l, m], n < mnBase) :
    [i, j, k, l, m].any (fun n => mnBase ≤ n) = false := by
  rw [List.any_eq_false]
  intro n hn
  simpa using h n hn

/-- The sample crate decodes any five words to what their digits say, where they fit. -/
theorem sample_decode {i j k l m : ℕ} (h : ∀ n ∈ [i, j, k, l, m], n < 1633) :
    sampleMnemonic.decode ("-".intercalate (sampleMnemonic.wordsAt [i, j, k, l, m])) =
      if [i, j, k, l, m].any (fun n => mnBase ≤ n) then .error ()
      else if 2 ^ 32 ≤ i + mnBase * (j + mnBase * k) then .error ()
      else if 2 ^ 16 ≤ l + mnBase * m then .error ()
      else .ok (leBytes4 (i + mnBase * (j + mnBase * k)) ++ leBytes2 (l + mnBase * m)) := by
  have hlow : ∀ w ∈ [i, j, k, l, m].map (fun n => String.ofList (wordAt n)), Lowercase w := by
    intro w hw
    obtain ⟨n, hn, rfl⟩ := List.mem_map.mp hw
    exact lowercase_wordAt (h n hn)
  have hindex : ([i, j, k, l, m].map (fun n => String.ofList (wordAt n))).map
      (fun w => indexOf w.toList) = [i, j, k, l, m] := by
    rw [List.map_map]
    refine (List.map_congr_left (fun n hn => ?_)).trans (List.map_id _)
    simp only [Function.comp, String.toList_ofList, id]
    exact indexOf_wordAt (h n hn)
  have hsplit := splitWords_joined (show ("-" : String).toList = ['-'] from rfl) (by decide) hlow
  rw [sample_wordsAt h]
  simp only [sampleMnemonic, hsplit, hindex]

theorem sample_documented : sampleMnemonic.Documented where
  count := by simp [sampleMnemonic]
  nodup := by
    simp only [sampleMnemonic]
    refine List.Nodup.map_on (fun i hi j hj heq => ?_) List.nodup_range
    have hchars : wordAt i = wordAt j := String.ofList_inj.mp heq
    rw [← indexOf_wordAt (List.mem_range.mp hi), hchars, indexOf_wordAt (List.mem_range.mp hj)]
  lowercase := by
    simp only [sampleMnemonic]
    intro w hw
    obtain ⟨i, hi, rfl⟩ := List.mem_map.mp hw
    exact lowercase_wordAt (List.mem_range.mp hi)
  encode := by
    intro x hx y hy
    have hlt := digits_lt hx hy
    have hxval : (UInt8.ofNat x).toNat + 2 ^ 8 * (UInt8.ofNat (x / 2 ^ 8)).toNat +
        2 ^ 16 * ((UInt8.ofNat (x / 2 ^ 16)).toNat +
          2 ^ 8 * (UInt8.ofNat (x / 2 ^ 16 / 2 ^ 8)).toNat) = x := by
      simp only [UInt8.toNat_ofNat']
      omega
    have hyval : (UInt8.ofNat y).toNat + 2 ^ 8 * (UInt8.ofNat (y / 2 ^ 8)).toNat = y := by
      simp only [UInt8.toNat_ofNat']
      omega
    rw [sample_wordsAt (fun i hi => hlt i (List.mem_append_left _ hi)),
      sample_wordsAt (fun i hi => hlt i (List.mem_append_right _ hi))]
    simp only [sampleMnemonic, leBytes4, leBytes2, List.cons_append, List.nil_append, hxval, hyval]
  invert := by
    intro x hx y hy
    obtain ⟨i, j, k, l, m, hdig, hi, hj, hk, hl, hm, hyval⟩ := digits_bounds hx hy
    have hlt := digits_lt hx hy
    have hxval : x = i + mnBase * (j + mnBase * k) := by
      simp only [digits3, digits2, List.cons_append, List.nil_append, List.cons.injEq] at hdig
      obtain ⟨hi', hj', hk', -⟩ := hdig
      rw [← hi', ← hj', ← hk', Nat.mod_add_div, Nat.mod_add_div]
    have hdigits : ∀ n ∈ [i, j, k, l, m], n < mnBase := by
      unfold mnBase at hi hj hk hl ⊢
      simp only [List.mem_cons, List.not_mem_nil, or_false]
      rintro n (rfl | rfl | rfl | rfl | rfl) <;> omega
    rw [hdig] at hlt ⊢
    rw [sample_decode hlt, ← hxval, ← hyval, any_past_digits hdigits, if_neg (by simp),
      if_neg (by omega), if_neg (by omega)]

theorem sample_checked : sampleMnemonic.Checked where
  digits := by
    intro i j k l m hall hpast
    have hany : [i, j, k, l, m].any (fun n => mnBase ≤ n) = true := by simpa using hpast
    refine ⟨(), ?_⟩
    rw [sample_decode hall, if_pos hany]
  group := by
    intro i j k l m hdigits hbig
    refine ⟨(), ?_⟩
    rw [sample_decode (fun n hn => (hdigits n hn).trans (by decide)), any_past_digits hdigits,
      if_neg (by simp), if_pos hbig]
  remainder := by
    intro i j k l m hdigits hbig
    refine ⟨(), ?_⟩
    rw [sample_decode (fun n hn => (hdigits n hn).trans (by decide)), any_past_digits hdigits,
      if_neg (by simp), if_pos hbig, ite_self]

/-- SHA-256 of the entropies below. -/
def sampleSha256 (bytes : List UInt8) : Bytes32 :=
  if bytes = [0, 0, 0, 0, 0] then
    ⟨[0x88, 0x55, 0x50, 0x8a, 0xad, 0xe1, 0x6e, 0xc5, 0x73, 0xd2, 0x1e, 0x6a, 0x48, 0x5d, 0xfd,
      0x0a, 0x76, 0x24, 0x08, 0x5c, 0x1a, 0x14, 0xb5, 0xec, 0xdd, 0x64, 0x85, 0xde, 0x0c, 0x68,
      0x39, 0xa4], rfl⟩
  else
    ⟨[0x00, 0x70, 0x97, 0xfa, 0xba, 0xc5, 0xab, 0xf1, 0x62, 0x54, 0x45, 0xec, 0x1f, 0x59, 0x96,
      0x24, 0x56, 0x54, 0xc8, 0x77, 0x44, 0x82, 0x3d, 0x07, 0x91, 0x52, 0xc0, 0xfc, 0xd7, 0x7a,
      0xc8, 0xcb], rfl⟩

/-- The first golden vector (`vectors/pairing.json`), carelessly typed. -/
theorem code_round_trip_vector :
    entropyToCode sampleMnemonic sampleSha256 ⟨[0, 0, 0, 0, 0], rfl⟩ =
        some "academy academy academy siren alibi" ∧
      codeToEntropy sampleMnemonic sampleSha256 " Academy academy-ACADEMY, siren\nalibi." =
        .ok ⟨[0, 0, 0, 0, 0], rfl⟩ := by
  have hcode : entropyToCode sampleMnemonic sampleSha256 ⟨[0, 0, 0, 0, 0], rfl⟩ =
      some "academy academy academy siren alibi" := by
    decide +kernel
  obtain ⟨words, hwords, -, -, -, hdecode⟩ :=
    @code_round_trip sampleMnemonic sampleSha256 sample_documented ⟨[0, 0, 0, 0, 0], rfl⟩
  rw [hcode] at hwords
  rw [← Option.some.inj hwords] at hdecode
  refine ⟨hcode, hdecode _ ⟨[' '], "Academy academy-ACADEMY, siren\nalibi".toList, ['.'],
    by decide, List.all_eq_true.mp rfl, List.all_eq_true.mp rfl, ?_⟩⟩
  show Respelled
    ['a', 'c', 'a', 'd', 'e', 'm', 'y', ' ', 'a', 'c', 'a', 'd', 'e', 'm', 'y', ' ', 'a', 'c', 'a',
      'd', 'e', 'm', 'y', ' ', 's', 'i', 'r', 'e', 'n', ' ', 'a', 'l', 'i', 'b', 'i']
    ['A', 'c', 'a', 'd', 'e', 'm', 'y', ' ', 'a', 'c', 'a', 'd', 'e', 'm', 'y', '-', 'A', 'C', 'A',
      'D', 'E', 'M', 'Y', ',', ' ', 's', 'i', 'r', 'e', 'n', '\n', 'a', 'l', 'i', 'b', 'i']
  iterate 7 refine .letter (by decide) (by decide) ?_
  refine @Respelled.space [' '] _ _ (by decide) (List.all_eq_true.mp rfl) ?_
  iterate 7 refine .letter (by decide) (by decide) ?_
  refine @Respelled.space ['-'] _ _ (by decide) (List.all_eq_true.mp rfl) ?_
  iterate 7 refine .letter (by decide) (by decide) ?_
  refine @Respelled.space [',', ' '] _ _ (by decide) (List.all_eq_true.mp rfl) ?_
  iterate 5 refine .letter (by decide) (by decide) ?_
  refine @Respelled.space ['\n'] _ _ (by decide) (List.all_eq_true.mp rfl) ?_
  iterate 5 refine .letter (by decide) (by decide) ?_
  exact .nil

/-- Entropy whose last two words have indices 148 and 0; 644 and 40 say `2^16` more. -/
def airportEntropy : Entropy := ⟨[0x0c, 0xc4, 0xbb, 0x01, 0x94], rfl⟩

theorem airport_accepted :
    codeToEntropy sampleMnemonic sampleSha256 "academy academy airport clean academy" =
      .ok airportEntropy := by
  have hall : ∀ n ∈ [0, 0, 11, 148, 0], n < 1633 := by decide
  refine codeToEntropy_of_decode sample_documented hall (by decide) ?_ ?_
  · rw [sample_wordsAt hall]
    decide +kernel
  · rw [sample_decode hall]
    decide +kernel

theorem accepted_canonical_airport :
    codeToEntropy sampleMnemonic sampleSha256 "academy academy airport clean academy" =
        .ok airportEntropy ∧
      ∀ s', codeToEntropy sampleMnemonic sampleSha256 s' = .ok airportEntropy →
        normalizeWords s' = normalizeWords "academy academy airport clean academy" := by
  obtain ⟨-, -, -, honly⟩ := accepted_canonical sample_documented sample_checked airport_accepted
  exact ⟨airport_accepted, honly⟩

/-- The digits that say more than 16 bits are no second spelling: the crate's check is what
    refuses them, the last word being among the first 41. -/
example : codeToEntropy sampleMnemonic sampleSha256 "academy academy airport sandra archive" =
    .error .malformed := by
  decide +kernel

end Tmite.Proto
