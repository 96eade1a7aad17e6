import Tmite.Client.FwdSpec

namespace Tmite.Client

open Tmite.Core

/-!
# The grammar of forward specs

What `parse_fwd_spec` accepts, compared with the grammar its documentation and its messages
state: `[LOCAL_ADDR:]LOCAL_PORT:TARGET` with a dotted IPv4 address, a port written in digits from
1 to 65535 and a target that passes `valid_target`.

* `parseIpv4_iff` — the address parser accepts exactly the dotted texts of addresses.
* `parseFwdSpec_isOk_iff` — a spec is accepted exactly when it has the documented shape with any
  port `str::parse::<u16>` takes.
* `parseFwdSpec_grammar_iff` — that differs from the documented grammar for a port of value zero
  and for a port with a sign, and for no other spec.
* `fwdSpec_round_trip` — what a spec is written as is read as that spec again.
-/

/-! ### IPv4 literals -/

/-- The dotted text of an address. -/
def Ipv4Addr.text (a : Ipv4Addr) : List Char :=
  ['.'].intercalate [Nat.toDigits 10 a.octets.1.toNat, Nat.toDigits 10 a.octets.2.1.toNat,
    Nat.toDigits 10 a.octets.2.2.1.toNat, Nat.toDigits 10 a.octets.2.2.2.toNat]

theorem not_mem_toDigits {c : Char} (hc : c.isDigit = false) (n : ℕ) :
    c ∉ Nat.toDigits 10 n := by
  intro hmem
  have hdigit := Nat.isDigit_of_mem_toDigits (by decide) (by decide) hmem
  rw [hc] at hdigit
  exact absurd hdigit (by decide)

theorem digitsVal_append (l m : List Char) :
    digitsVal (l ++ m) = m.foldl (fun n c => 10 * n + (c.toNat - 48)) (digitsVal l) := by
  simp only [digitsVal, List.foldl_append]

/-- A digit is the one its value prints as. -/
theorem toDigits_digit {c : Char} (hc : c.isDigit = true) :
    c.toNat - 48 < 10 ∧ Nat.toDigits 10 (c.toNat - 48) = [c] := by
  have hlt : c.toNat - 48 < 10 := by
    simp only [Char.isDigit, Bool.and_eq_true, decide_eq_true_eq] at hc
    have h9 : c.toNat ≤ 57 := hc.2
    omega
  refine ⟨hlt, ?_⟩
  rw [Nat.toDigits_of_lt_base hlt]
  congr 1
  simp only [Char.isDigit, Bool.and_eq_true, decide_eq_true_eq] at hc
  have h0 : 48 ≤ c.toNat := hc.1
  apply Char.toNat_inj.mp
  rw [Nat.toNat_digitChar_of_lt_ten hlt]
  omega

/-- Digits without a leading zero have a positive value. -/
theorem digitsVal_pos {s : List Char} (hs : s ≠ []) (hdigits : ∀ c ∈ s, c.isDigit = true)
    (hzero : s.head? ≠ some '0') : 0 < digitsVal s := by
  induction s using List.reverseRecOn with
  | nil => exact absurd rfl hs
  | append_singleton l c ih =>
    rw [digitsVal_append]
    show 0 < 10 * digitsVal l + (c.toNat - 48)
    by_cases hl : l = []
    · subst hl
      have hc := toDigits_digit (hdigits c (by simp))
      have hne : c.toNat - 48 ≠ 0 := by
        intro h0
        rw [h0] at hc
        have hc0 : c = '0' := by simpa using hc.2.symm
        exact hzero (by rw [hc0]; rfl)
      omega
    · have hpos := ih hl (fun d hd => hdigits d (by simp [hd])) (by
        rw [List.head?_append_of_ne_nil l hl] at hzero
        exact hzero)
      omega

/-- Digits without a leading zero are what their value prints as. -/
theorem toDigits_digitsVal {s : List Char} (hs : s ≠ []) (hdigits : ∀ c ∈ s, c.isDigit = true)
    (hzero : s.head? = some '0' → s.length = 1) : Nat.toDigits 10 (digitsVal s) = s := by
  induction s using List.reverseRecOn with
  | nil => exact absurd rfl hs
  | append_singleton l c ih =>
    obtain ⟨hlt, hdigit⟩ := toDigits_digit (hdigits c (by simp))
    rw [digitsVal_append]
    show Nat.toDigits 10 (10 * digitsVal l + (c.toNat - 48)) = l ++ [c]
    by_cases hl : l = []
    · subst hl
      simpa [digitsVal] using hdigit
    · -- the digits before the last one have no leading zero, so they do not vanish
      have hdl : ∀ d ∈ l, d.isDigit = true := fun d hd => hdigits d (by simp [hd])
      have hhead : l.head? ≠ some '0' := by
        intro h0
        have hlen := hzero (by rw [List.head?_append_of_ne_nil l hl]; exact h0)
        have hpos := List.length_pos_iff.mpr hl
        simp only [List.length_append, List.length_singleton] at hlen
        omega
      rw [← Nat.toDigits_append_toDigits (by decide) (digitsVal_pos hl hdl hhead) hlt, hdigit,
        ih hl hdl (fun h0 => absurd h0 hhead)]

/-- Only zero prints with a leading zero. -/
theorem head_toDigits_ne_zero {n : ℕ} (hn : 0 < n) : (Nat.toDigits 10 n).head? ≠ some '0' := by
  induction n using Nat.strongRecOn with
  | ind n ih =>
    by_cases hlt : n < 10
    · rw [Nat.toDigits_of_lt_base hlt]
      intro h0
      have hval := Nat.toNat_digitChar_of_lt_ten hlt
      rw [Option.some.inj h0] at hval
      have h48 : ('0' : Char).toNat = 48 := rfl
      omega
    · rw [Nat.toDigits_of_base_le (by decide) (Nat.not_lt.mp hlt),
        List.head?_append_of_ne_nil _ Nat.toDigits_ne_nil]
      exact ih (n / 10) (by omega) (by omega)

/-- One number of an address is accepted exactly in the form it prints as. -/
theorem parseOctet_iff {s : List Char} {v : UInt8} :
    parseOctet s = some v ↔ s = Nat.toDigits 10 v.toNat := by
  constructor
  · intro h
    unfold parseOctet at h
    split at h
    · rename_i hshape
      obtain ⟨hne, -, hdigits, hzero, hlt⟩ := hshape
      have hv : v.toNat = digitsVal s := by
        rw [← Option.some.inj h, UInt8.toNat_ofNat']
        exact Nat.mod_eq_of_lt hlt
      rw [hv, toDigits_digitsVal hne (List.all_eq_true.mp hdigits) hzero]
    · exact absurd h (by simp)
  · rintro rfl
    have hlt : v.toNat < 256 := v.toNat_lt
    have hshape : Nat.toDigits 10 v.toNat ≠ [] ∧ (Nat.toDigits 10 v.toNat).length ≤ 3 ∧
        (Nat.toDigits 10 v.toNat).all Char.isDigit ∧
        ((Nat.toDigits 10 v.toNat).head? = some '0' → (Nat.toDigits 10 v.toNat).length = 1) ∧
        digitsVal (Nat.toDigits 10 v.toNat) < 256 := by
      refine ⟨Nat.toDigits_ne_nil, ?_, ?_, ?_, ?_⟩
      · rw [Nat.length_toDigits_le_iff (by decide) (by decide)]
        omega
      · rw [List.all_eq_true]
        exact fun c hc => Nat.isDigit_of_mem_toDigits (by decide) (by decide) hc
      · intro h0
        by_cases hv : 0 < v.toNat
        · exact absurd h0 (head_toDigits_ne_zero hv)
        · rw [Nat.eq_zero_of_not_pos hv]
          rfl
      · rw [digitsVal_toDigits]
        exact hlt
    unfold parseOctet
    rw [if_pos hshape, digitsVal_toDigits]
    simp

/-- **Address parser.** The accepted addresses are the dotted texts, and each is read as the
    address it spells. -/
theorem parseIpv4_iff {s : List Char} {a : Ipv4Addr} : parseIpv4 s = some a ↔ s = a.text := by
  constructor
  · intro h
    unfold parseIpv4 at h
    split at h
    · rename_i o₁ o₂ o₃ o₄ hparts
      have htext : s = ['.'].intercalate [o₁, o₂, o₃, o₄] := by
        rw [← hparts]
        exact (List.intercalate_splitOn '.').symm
      simp only [Option.pure_def, Option.bind_eq_bind, Option.bind_eq_some_iff,
        parseOctet_iff] at h
      obtain ⟨v₁, rfl, v₂, rfl, v₃, rfl, v₄, rfl, ha⟩ := h
      rw [htext, ← Option.some.inj ha]
      rfl
    · exact absurd h (by simp)
  · rintro rfl
    have hdot : ∀ n, '.' ∉ Nat.toDigits 10 n := not_mem_toDigits (by decide)
    have hparts : a.text.splitOnP (· == '.') = [Nat.toDigits 10 a.octets.1.toNat,
        Nat.toDigits 10 a.octets.2.1.toNat, Nat.toDigits 10 a.octets.2.2.1.toNat,
        Nat.toDigits 10 a.octets.2.2.2.toNat] := by
      refine List.splitOn_intercalate '.' ?_ (by simp)
      intro l hl
      simp only [List.mem_cons, List.not_mem_nil, or_false] at hl
      rcases hl with rfl | rfl | rfl | rfl
      · exact hdot _
      · exact hdot _
      · exact hdot _
      · exact hdot _
    unfold parseIpv4
    rw [hparts]
    simp only [parseOctet_iff.mpr rfl, Option.bind_eq_bind, Option.bind_some]
    rfl

/-! ### The grammar -/

/-- `s` is `P:T` or `A:P:T` with an IPv4 literal `A`, a target `T` that passes `valid_target`,
    and a port `P` of the shape `port`. -/
def SpecWith (port : List Char → Prop) (s : String) : Prop :=
  ∃ P T, port P ∧ validTarget T = true ∧
    (s.toList = P ++ ':' :: T.toList ∨
      ∃ a : Ipv4Addr, s.toList = a.text ++ ':' :: (P ++ ':' :: T.toList))

/-- The port the messages ask for: decimal digits with a value from 1 to 65535. -/
def DocPort (P : List Char) : Prop :=
  P.all Char.isDigit ∧ 1 ≤ digitsVal P ∧ digitsVal P ≤ 65535

/-- The other ports that `str::parse::<u16>` takes: zero, in one digit or more, and any number of
    16 bits behind a plus sign. -/
def OddPort (P : List Char) : Prop :=
  (P ≠ [] ∧ P.all Char.isDigit ∧ digitsVal P = 0) ∨
    ∃ ds, P = '+' :: ds ∧ ds ≠ [] ∧ ds.all Char.isDigit ∧ digitsVal ds ≤ 65535

theorem digitsVal_nil : digitsVal [] = 0 := rfl

theorem head_ne_plus {P : List Char} (hdigits : P.all Char.isDigit = true) :
    P.head? ≠ some '+' := by
  intro hhead
  exact absurd (List.all_eq_true.mp hdigits '+' (List.mem_of_mem_head? hhead)) (by decide)

/-- `str::parse::<u16>` takes the documented ports and the odd ones. -/
theorem parseU16_isSome_iff (P : List Char) :
    (parseU16 P).isSome = true ↔ DocPort P ∨ OddPort P := by
  have hparse : ∀ ds : List Char, (if ds ≠ [] ∧ ds.all Char.isDigit ∧ digitsVal ds < 2 ^ 16 then
      some (digitsVal ds) else none).isSome = true ↔
        ds ≠ [] ∧ ds.all Char.isDigit ∧ digitsVal ds ≤ 65535 := by
    intro ds
    rw [Option.isSome_ite]
    constructor
    · exact fun h => ⟨h.1, h.2.1, by omega⟩
    · exact fun h => ⟨h.1, h.2.1, by omega⟩
  unfold parseU16
  by_cases hplus : P.head? = some '+'
  · -- a sign: the rest is read, whatever its value
    obtain ⟨ds, rfl⟩ := List.head?_eq_some_iff.mp hplus
    simp only [List.head?_cons, if_true, List.tail_cons]
    rw [hparse ds]
    constructor
    · exact fun h => .inr (.inr ⟨ds, rfl, h⟩)
    · rintro (h | ⟨-, hdigits, -⟩ | ⟨ds', hds, h⟩)
      · exact absurd hplus (head_ne_plus h.1)
      · exact absurd hplus (head_ne_plus hdigits)
      · rw [(List.cons.inj hds).2]
        exact h
  · simp only [if_neg hplus]
    rw [hparse P]
    constructor
    · rintro ⟨hne, hdigits, hle⟩
      by_cases hpos : 1 ≤ digitsVal P
      · exact .inl ⟨hdigits, hpos, hle⟩
      · exact .inr (.inl ⟨hne, hdigits, by omega⟩)
    · rintro (⟨hdigits, hpos, hle⟩ | ⟨hne, hdigits, hzero⟩ | ⟨ds, rfl, -⟩)
      · refine ⟨?_, hdigits, hle⟩
        rintro rfl
        rw [digitsVal_nil] at hpos
        omega
      · exact ⟨hne, hdigits, by omega⟩
      · exact absurd rfl hplus

/-- No port that is read as one holds a colon. -/
theorem colon_not_mem_port {P : List Char} (h : (parseU16 P).isSome = true) : ':' ∉ P := by
  have hfree : ∀ {ds : List Char}, ds.all Char.isDigit = true → ':' ∉ ds := by
    intro ds hdigits hmem
    exact absurd (List.all_eq_true.mp hdigits ':' hmem) (by decide)
  rcases (parseU16_isSome_iff P).mp h with hdoc | ⟨-, hdigits, -⟩ | ⟨ds, rfl, -, hdigits, -⟩
  · exact hfree hdoc.1
  · exact hfree hdigits
  · rw [List.mem_cons, not_or]
    exact ⟨by decide, hfree hdigits⟩

/-- A port is not both. -/
theorem DocPort.not_odd {P : List Char} (h : DocPort P) : ¬ OddPort P := by
  rintro (⟨-, -, hzero⟩ | ⟨ds, rfl, -⟩)
  · have hpos := h.2.1
    omega
  · exact absurd rfl (head_ne_plus h.1)

/-! ### The colons of a spec -/

theorem colon_not_mem_text (a : Ipv4Addr) : ':' ∉ a.text := by
  have hcolon : ∀ n, ':' ∉ Nat.toDigits 10 n := not_mem_toDigits (by decide)
  simp [Ipv4Addr.text, List.intercalate, hcolon]

/-- The parts of a spec, in the order of its colons. -/
def specParts (addr : Option Ipv4Addr) (P host port : List Char) : List (List Char) :=
  (addr.map Ipv4Addr.text).toList ++ [P, host, port]

/-- A spec of either form splits at its colons into the address, the port, and the two parts of
    the target. -/
theorem SpecWith.split {port : List Char → Prop} {s : String} (h : SpecWith port s)
    (hport : ∀ P, port P → (parseU16 P).isSome = true) :
    ∃ addr P host tport, port P ∧ validTarget (String.ofList (host ++ ':' :: tport)) = true ∧
      s.toList.splitOnP (· == ':') = specParts addr P host tport := by
  obtain ⟨P, T, hP, hT, hform⟩ := h
  obtain ⟨host, tport, hsplit, hhost, htport, -⟩ := validTarget_split hT
  have htext : String.ofList (host ++ ':' :: tport) = T := by
    rw [← hsplit, String.ofList_toList]
  have hcolon := colon_not_mem_port (hport P hP)
  rw [hsplit] at hform
  rcases hform with hs | ⟨a, hs⟩
  · refine ⟨none, P, host, tport, hP, by rw [htext]; exact hT, ?_⟩
    rw [hs]
    show List.splitOn ':' _ = _
    rw [List.splitOn_append_cons_self_of_not_mem hcolon,
      List.splitOn_append_cons_self_of_not_mem hhost, List.splitOn_eq_singleton htport]
    rfl
  · refine ⟨some a, P, host, tport, hP, by rw [htext]; exact hT, ?_⟩
    rw [hs]
    show List.splitOn ':' _ = _
    rw [List.splitOn_append_cons_self_of_not_mem (colon_not_mem_text a),
      List.splitOn_append_cons_self_of_not_mem hcolon,
      List.splitOn_append_cons_self_of_not_mem hhost, List.splitOn_eq_singleton htport]
    rfl

/-- Splitting decides the port and whether an address stands before it. -/
theorem specParts_port {addr addr' : Option Ipv4Addr} {P P' host host' port port' : List Char}
    (h : specParts addr P host port = specParts addr' P' host' port') : P = P' := by
  cases addr with
  | none =>
    cases addr' with
    | none => exact (List.cons.inj h).1
    | some a => exact absurd (congrArg List.length h) (by simp [specParts])
  | some a =>
    cases addr' with
    | none => exact absurd (congrArg List.length h) (by simp [specParts])
    | some a' => exact (List.cons.inj (List.cons.inj h).2).1

/-! ### What is accepted -/

/-- What is accepted once a spec is taken apart. -/
theorem fwdSpecOfParts_ok_iff {spec : String} {laddr : Option (List Char)}
    {port thost tport : List Char} {f : FwdSpec} :
    fwdSpecOfParts spec laddr port thost tport = .ok f ↔
      parseU16 port = some f.localPort ∧
        laddr.elim (some Ipv4Addr.localhost) parseIpv4 = some f.localAddr ∧
        f.target = String.ofList (thost ++ ':' :: tport) ∧ validTarget f.target = true := by
  unfold fwdSpecOfParts
  constructor
  · intro h
    cases hport : parseU16 port with
    | none => simp [hport] at h
    | some p =>
      cases haddr : laddr.elim (some Ipv4Addr.localhost) parseIpv4 with
      | none => simp [hport, haddr] at h
      | some a =>
        by_cases hvalid : validTarget (String.ofList (thost ++ ':' :: tport)) = true
        · simp only [hport, haddr, hvalid, Bool.not_true, Bool.false_eq_true, if_false] at h
          rw [← Except.ok.inj h]
          exact ⟨rfl, rfl, rfl, hvalid⟩
        · rw [Bool.not_eq_true] at hvalid
          simp only [hport, haddr, hvalid, Bool.not_false, if_true] at h
          exact absurd h (by simp)
  · rintro ⟨hport, haddr, htarget, hvalid⟩
    rw [htarget] at hvalid
    simp only [hport, haddr, hvalid, Bool.not_true, Bool.false_eq_true, if_false]
    rw [← htarget]

/-- An accepted spec has one of the two forms, and its target passed the check. -/
theorem parseFwdSpec_ok {s : String} {f : FwdSpec} (h : parseFwdSpec s = .ok f) :
    validTarget f.target = true ∧ SpecWith (fun P => parseU16 P = some f.localPort) s := by
  unfold parseFwdSpec at h
  split at h
  · rename_i port thost tport hparts
    obtain ⟨hport, -, htarget, hvalid⟩ := fwdSpecOfParts_ok_iff.mp h
    have hjoin : s.toList = [':'].intercalate [port, thost, tport] := by
      rw [← hparts]
      exact (List.intercalate_splitOn ':').symm
    refine ⟨hvalid, port, f.target, hport, hvalid, .inl ?_⟩
    rw [hjoin, htarget, String.toList_ofList]
    simp [List.intercalate]
  · rename_i laddr port thost tport hparts
    obtain ⟨hport, haddr, htarget, hvalid⟩ := fwdSpecOfParts_ok_iff.mp h
    have hjoin : s.toList = [':'].intercalate [laddr, port, thost, tport] := by
      rw [← hparts]
      exact (List.intercalate_splitOn ':').symm
    refine ⟨hvalid, port, f.target, hport, hvalid, .inr ⟨f.localAddr, ?_⟩⟩
    rw [hjoin, ← parseIpv4_iff.mp haddr, htarget, String.toList_ofList]
    simp [List.intercalate]
  · exact absurd h (by simp)

/-- A spec of either form is accepted when its port is read as one. -/
theorem SpecWith.isOk {s : String} (h : SpecWith (fun P => (parseU16 P).isSome = true) s) :
    ∃ f, parseFwdSpec s = .ok f := by
  obtain ⟨addr, P, host, tport, hport, hvalid, hparts⟩ := h.split (fun _ hP => hP)
  obtain ⟨p, hp⟩ := Option.isSome_iff_exists.mp hport
  unfold parseFwdSpec
  rw [hparts]
  cases addr with
  | none =>
    exact ⟨⟨.localhost, p, String.ofList (host ++ ':' :: tport)⟩,
      fwdSpecOfParts_ok_iff.mpr ⟨hp, rfl, rfl, hvalid⟩⟩
  | some a =>
    exact ⟨⟨a, p, String.ofList (host ++ ':' :: tport)⟩,
      fwdSpecOfParts_ok_iff.mpr ⟨hp, parseIpv4_iff.mpr rfl, rfl, hvalid⟩⟩

/-- A weaker shape of the port is the shape of more specs. -/
theorem SpecWith.mono {port port' : List Char → Prop} (hport : ∀ P, port P → port' P) {s : String}
    (h : SpecWith port s) : SpecWith port' s := by
  obtain ⟨P, T, hP, hT, hform⟩ := h
  exact ⟨P, T, hport P hP, hT, hform⟩

/-- `parse_fwd_spec` accepts the specs of the two forms whose port is a `u16` to Rust. -/
theorem parseFwdSpec_isOk_iff (s : String) :
    (∃ f, parseFwdSpec s = .ok f) ↔ SpecWith (fun P => (parseU16 P).isSome = true) s := by
  constructor
  · rintro ⟨f, hf⟩
    exact (parseFwdSpec_ok hf).2.mono (fun P hP => by rw [hP]; rfl)
  · exact SpecWith.isOk

/-- **Spec grammar.** `parse_fwd_spec` agrees with the documented grammar on a string exactly when
    the string is not a spec whose port is zero or carries a plus sign. -/
theorem parseFwdSpec_grammar_iff (s : String) :
    ((∃ f, parseFwdSpec s = .ok f) ↔ SpecWith DocPort s) ↔ ¬ SpecWith OddPort s := by
  have hdoc : ∀ P, DocPort P → (parseU16 P).isSome = true :=
    fun P hP => (parseU16_isSome_iff P).mpr (.inl hP)
  have hodd : ∀ P, OddPort P → (parseU16 P).isSome = true :=
    fun P hP => (parseU16_isSome_iff P).mpr (.inr hP)
  rw [parseFwdSpec_isOk_iff]
  constructor
  · -- an odd spec is accepted, and no other reading of its colons makes it a documented one
    intro hagree h
    obtain ⟨addr, P, host, tport, hP, -, hparts⟩ := h.split hodd
    obtain ⟨addr', P', host', tport', hP', -, hparts'⟩ :=
      (hagree.mp (h.mono hodd)).split hdoc
    rw [hparts] at hparts'
    rw [← specParts_port hparts'] at hP'
    exact hP'.not_odd hP
  · intro hnot
    constructor
    · rintro ⟨P, T, hP, hT, hform⟩
      rcases (parseU16_isSome_iff P).mp hP with hP | hP
      · exact ⟨P, T, hP, hT, hform⟩
      · exact absurd ⟨P, T, hP, hT, hform⟩ hnot
    · exact fun h => h.mono hdoc

/-- `0:localhost:22` is accepted, outside the documented grammar. -/
theorem parseFwdSpec_takes_zero :
    (∃ f, parseFwdSpec "0:localhost:22" = .ok f) ∧ ¬ SpecWith DocPort "0:localhost:22" := by
  refine ⟨⟨⟨.localhost, 0, "localhost:22"⟩, by decide +kernel⟩, fun h => ?_⟩
  obtain ⟨addr, P, host, tport, hP, -, hparts⟩ :=
    h.split (fun P hP => (parseU16_isSome_iff P).mpr (.inl hP))
  have hzero : "0:localhost:22".toList.splitOnP (· == ':') =
      specParts none ['0'] "localhost".toList "22".toList := by decide +kernel
  rw [hzero] at hparts
  rw [← specParts_port hparts] at hP
  exact absurd hP.2.1 (by decide)

example : (parseFwdSpec "+22:localhost:22").map FwdSpec.localPort = .ok 22 := by decide +kernel

/-! ### The text of a spec -/

/-- `{local_addr}:{local_port}:{target}`. -/
def FwdSpec.text (f : FwdSpec) : String :=
  String.ofList f.localAddr.text ++ ":" ++ toString f.localPort ++ ":" ++ f.target

theorem FwdSpec.toList_text (f : FwdSpec) : f.text.toList =
    f.localAddr.text ++ ':' :: (Nat.toDigits 10 f.localPort ++ ':' :: f.target.toList) := by
  simp [FwdSpec.text]

theorem parseU16_lt {P : List Char} {n : ℕ} (h : parseU16 P = some n) : n < 2 ^ 16 := by
  unfold parseU16 at h
  generalize (if P.head? = some '+' then P.tail else P) = ds at h
  dsimp only at h
  split at h
  · rename_i hshape
    rw [← Option.some.inj h]
    exact hshape.2.2
  · exact absurd h (by simp)

/-- **A spec in full**: the two colons before the target and the one in it are all there are. -/
theorem parseFwdSpec_text {f : FwdSpec} (hport : f.localPort < 2 ^ 16)
    (htarget : validTarget f.target = true) : parseFwdSpec f.text = .ok f := by
  obtain ⟨host, tport, hsplit, hhost, htport, -⟩ := validTarget_split htarget
  have hparts : f.text.toList.splitOn ':' =
      [f.localAddr.text, Nat.toDigits 10 f.localPort, host, tport] := by
    rw [f.toList_text, hsplit, List.splitOn_append_cons_self_of_not_mem (colon_not_mem_text _),
      List.splitOn_append_cons_self_of_not_mem (not_mem_toDigits (by decide) _),
      List.splitOn_append_cons_self_of_not_mem hhost, List.splitOn_eq_singleton htport]
  have hjoin : f.target = String.ofList (host ++ ':' :: tport) := by
    rw [← hsplit, String.ofList_toList]
  unfold parseFwdSpec
  rw [show f.text.toList.splitOnP (· == ':') = _ from hparts]
  exact fwdSpecOfParts_ok_iff.mpr
    ⟨parseU16_toDigits hport, parseIpv4_iff.mpr rfl, hjoin, htarget⟩

/-- **Round trip.**  A spec written out is read back, without its address as one of the loopback
    address; and whatever text was accepted, the spec it gave is read back from its own text. -/
theorem fwdSpec_round_trip :
    (∀ (a : Ipv4Addr) (p : UInt16) (t : String), validTarget t = true →
      parseFwdSpec (String.ofList a.text ++ ":" ++ toString p.toNat ++ ":" ++ t) =
          .ok ⟨a, p.toNat, t⟩ ∧
        parseFwdSpec (toString p.toNat ++ ":" ++ t) = .ok ⟨.localhost, p.toNat, t⟩) ∧
    ∀ (s : String) (f : FwdSpec), parseFwdSpec s = .ok f → parseFwdSpec f.text = .ok f := by
  refine ⟨fun a p t ht => ⟨?_, parseFwdSpec_port_target p.toNat_lt ht⟩, fun s f hf => ?_⟩
  · exact parseFwdSpec_text (f := ⟨a, p.toNat, t⟩) p.toNat_lt ht
  · obtain ⟨htarget, P, -, hport, -⟩ := parseFwdSpec_ok hf
    exact parseFwdSpec_text (parseU16_lt hport) htarget

theorem fwdSpec_round_trip_localhost :
    parseFwdSpec (String.ofList Ipv4Addr.localhost.text ++ ":" ++ toString (8080 : UInt16).toNat ++
      ":" ++ "db:5432") = .ok ⟨.localhost, 8080, "db:5432"⟩ :=
  (fwdSpec_round_trip.1 .localhost 8080 "db:5432" (by decide)).1

end Tmite.Client
