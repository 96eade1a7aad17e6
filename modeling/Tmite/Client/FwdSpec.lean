import Mathlib.Data.List.Basic
import Mathlib.Data.UInt
import Tmite.Core.Target

namespace Tmite.Client

open Tmite.Core

/-!
# Forward specs (`parse_fwd_spec` of `client/connect.rs`)

`[LOCAL_ADDR:]LOCAL_PORT:TARGET` is split at its colons, so an address in it has none and is never
an IPv6 one.
-/

/-- An IPv4 address; `127.0.0.1` is `Ipv4Addr::LOCALHOST`. -/
structure Ipv4Addr where
  octets : UInt8 × UInt8 × UInt8 × UInt8
deriving DecidableEq

def Ipv4Addr.localhost : Ipv4Addr := ⟨127, 0, 0, 1⟩

structure FwdSpec where
  localAddr : Ipv4Addr
  localPort : ℕ
  target : String
deriving DecidableEq

/-- `ConnectError::BadSpec`. -/
structure BadSpec where
  spec : String
  reason : String
deriving DecidableEq, Repr

/-- One number of an IPv4 address: up to three digits, without leading zeros, below 256. -/
def parseOctet (s : List Char) : Option UInt8 :=
  if s ≠ [] ∧ s.length ≤ 3 ∧ s.all Char.isDigit ∧ (s.head? = some '0' → s.length = 1) ∧
      digitsVal s < 256 then
    some (UInt8.ofNat (digitsVal s))
  else none

/-- `str::parse::<IpAddr>` of a text without colons. -/
def parseIpv4 (s : List Char) : Option Ipv4Addr :=
  match s.splitOnP (· == '.') with
  | [a, b, c, d] => do
    return ⟨← parseOctet a, ← parseOctet b, ← parseOctet c, ← parseOctet d⟩
  | _ => none

/-- `parse_fwd_spec` once the spec is taken apart. -/
def fwdSpecOfParts (spec : String) (laddr : Option (List Char)) (port thost tport : List Char) :
    Except BadSpec FwdSpec :=
  let target := String.ofList (thost ++ ':' :: tport)
  match parseU16 port with
  | none => .error ⟨spec, "local port must be 1-65535"⟩
  | some localPort =>
    match laddr.elim (some Ipv4Addr.localhost) parseIpv4 with
    | none => .error ⟨spec, "invalid local address"⟩
    | some localAddr =>
      if !validTarget target then .error ⟨spec, "target must be host:port"⟩
      else .ok ⟨localAddr, localPort, target⟩

/-- `parse_fwd_spec`. -/
def parseFwdSpec (spec : String) : Except BadSpec FwdSpec :=
  match spec.toList.splitOnP (· == ':') with
  | [port, thost, tport] => fwdSpecOfParts spec none port thost tport
  | [laddr, port, thost, tport] => fwdSpecOfParts spec (some laddr) port thost tport
  | _ => .error ⟨spec, "expected [ADDR:]PORT:TARGET"⟩

/-! ### A port and a target -/

theorem digitsVal_toDigits (n : ℕ) : digitsVal (Nat.toDigits 10 n) = n :=
  Nat.ofDigitChars_ten_toDigits

/-- A number below 2^16 is read back from its digits. -/
theorem parseU16_toDigits {n : ℕ} (h : n < 2 ^ 16) : parseU16 (Nat.toDigits 10 n) = some n := by
  have hdigit : ∀ c ∈ Nat.toDigits 10 n, c.isDigit = true := fun c hc =>
    Nat.isDigit_of_mem_toDigits (by decide) (by decide) hc
  -- `u16::from_str` would take a sign
  have hplus : (Nat.toDigits 10 n).head? ≠ some '+' := by
    intro hhead
    exact absurd (hdigit '+' (List.mem_of_mem_head? hhead)) (by decide)
  simp only [parseU16, if_neg hplus, digitsVal_toDigits]
  exact if_pos ⟨Nat.toDigits_ne_nil, List.all_eq_true.mpr hdigit, h⟩

/-- **A port in front of a valid target** is a spec of that target, to the byte. -/
theorem parseFwdSpec_port_target {p : ℕ} {target : String} (hp : p < 2 ^ 16)
    (htarget : validTarget target = true) :
    parseFwdSpec (toString p ++ ":" ++ target) = .ok ⟨.localhost, p, target⟩ := by
  obtain ⟨host, port, htext, hhost, hport, -⟩ := validTarget_split htarget
  have hdigits : ∀ c ∈ Nat.toDigits 10 p, (c == ':') = false := by
    intro c hc
    rw [beq_eq_false_iff_ne]
    rintro rfl
    exact absurd (Nat.isDigit_of_mem_toDigits (by decide) (by decide) hc) (by decide)
  have hfree : ∀ {l : List Char}, ':' ∉ l → ∀ c ∈ l, (c == ':') = false := by
    intro l hl c hc
    rw [beq_eq_false_iff_ne]
    rintro rfl
    exact hl hc
  have hspec : (toString p ++ ":" ++ target).toList =
      Nat.toDigits 10 p ++ ':' :: (host ++ ':' :: port) := by
    rw [String.toList_append, String.toList_append, htext]
    simp
  -- the target's own colon is the only other one, so there are three parts
  have hparts : (toString p ++ ":" ++ target).toList.splitOnP (· == ':') =
      [Nat.toDigits 10 p, host, port] := by
    rw [hspec, List.splitOnP_append_cons_of_forall_mem hdigits ':' rfl,
      List.splitOnP_append_cons_of_forall_mem (hfree hhost) ':' rfl,
      List.splitOnP_eq_singleton (hfree hport)]
  have hjoin : String.ofList (host ++ ':' :: port) = target := by
    rw [← htext, String.ofList_toList]
  unfold parseFwdSpec
  rw [hparts]
  simp only [fwdSpecOfParts, parseU16_toDigits hp, hjoin, htarget, Option.elim_none]
  rfl

example : parseFwdSpec "0:::1:22" = .error ⟨"0:::1:22", "expected [ADDR:]PORT:TARGET"⟩ := by
  decide +kernel
example : (parseFwdSpec "10.0.0.7:8080:db:5432").map FwdSpec.target = .ok "db:5432" := by
  decide +kernel

end Tmite.Client
