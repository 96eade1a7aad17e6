import Tmite.Proto.Limits
import Mathlib.Data.List.TakeDrop
import Mathlib.Data.List.TakeWhile

namespace Tmite.Core

open Tmite.Proto

/-!
# Forward targets

`valid_target` (`daemon/main_ep.rs`) is the shape check on `host:port` strings that
`dispatch_allow` runs before a rule is stored and `handle_stream` runs before the ACL is
asked.  The pieces of Rust's `str` it uses are modelled on the character list.
-/

/-- `char::is_whitespace`: the Unicode `White_Space` property. -/
def isWhitespace (c : Char) : Bool :=
  let n := c.toNat
  (9 ≤ n && n ≤ 13) || n == 0x20 || n == 0x85 || n == 0xA0 || n == 0x1680 ||
    (0x2000 ≤ n && n ≤ 0x200A) || n == 0x2028 || n == 0x2029 || n == 0x202F ||
    n == 0x205F || n == 0x3000

/-- `str::rsplit_once(':')`: what stands before and after the last colon. -/
def rsplitOnceColon (s : List Char) : Option (List Char × List Char) :=
  match s.reverse.span (· != ':') with
  | (_, []) => none
  | (after, _ :: before) => some (before.reverse, after.reverse)

/-- The value of a string of decimal digits. -/
def digitsVal (ds : List Char) : ℕ := ds.foldl (fun n c => 10 * n + (c.toNat - 48)) 0

/-- `str::parse::<u16>`: at least one decimal digit after an optional leading `+`, with a
    value that fits.  Leading zeros are allowed. -/
def parseU16 (s : List Char) : Option ℕ :=
  let ds := if s.head? = some '+' then s.tail else s
  if ds ≠ [] ∧ ds.all Char.isDigit ∧ digitsVal ds < 2 ^ 16 then some (digitsVal ds) else none

/-- `valid_target`: `host:port` with a single colon, at most 256 bytes, no whitespace. -/
def validTarget (target : String) : Bool :=
  if target.isEmpty || maxTargetLen < target.utf8ByteSize then false
  else if target.toList.any isWhitespace then false
  else
    match rsplitOnceColon target.toList with
    | none => false
    | some (host, port) =>
      !host.isEmpty && !host.contains ':' && !port.isEmpty && (parseU16 port).isSome

/-! ### What passes -/

theorem rsplitOnceColon_some {s host port : List Char}
    (h : rsplitOnceColon s = some (host, port)) : s = host ++ ':' :: port ∧ ':' ∉ port := by
  unfold rsplitOnceColon at h
  rw [List.span_eq_takeWhile_dropWhile] at h
  split at h
  · exact absurd h (by simp)
  · rename_i after sep before hspan
    simp only [Prod.mk.injEq] at hspan
    obtain ⟨hafter, hbefore⟩ := hspan
    simp only [Option.some.injEq, Prod.mk.injEq] at h
    obtain ⟨rfl, rfl⟩ := h
    -- what stops the scan from the right is a colon
    have hsep : sep = ':' := by
      have hhead := List.head_dropWhile_not (· != ':') (l := s.reverse) (by rw [hbefore]; simp)
      simp only [hbefore, List.head_cons] at hhead
      simpa using hhead
    have hall : ∀ c ∈ after, c ≠ ':' := by
      intro c hc
      rw [← hafter] at hc
      simpa using List.mem_takeWhile_imp hc
    refine ⟨?_, fun hmem => hall ':' (List.mem_reverse.mp hmem) rfl⟩
    have hrev : s.reverse = after ++ ':' :: before := by
      rw [hsep] at hbefore
      rw [← hafter, ← hbefore, List.takeWhile_append_dropWhile]
    rw [← List.reverse_reverse s, hrev]
    simp

/-- A valid target is a host and a port around its only colon, and is short. -/
theorem validTarget_split {target : String} (h : validTarget target = true) :
    ∃ host port, target.toList = host ++ ':' :: port ∧ ':' ∉ host ∧ ':' ∉ port ∧
      target.utf8ByteSize ≤ maxTargetLen := by
  unfold validTarget at h
  split at h
  · exact absurd h (by simp)
  · rename_i hshort
    split at h
    · exact absurd h (by simp)
    · split at h
      · exact absurd h (by simp)
      · rename_i host port hsplit
        obtain ⟨htext, hport⟩ := rsplitOnceColon_some hsplit
        simp only [Bool.and_eq_true, Bool.not_eq_true', List.contains_eq_mem,
          decide_eq_false_iff_not] at h
        simp only [Bool.or_eq_true, decide_eq_true_eq, not_or] at hshort
        exact ⟨host, port, htext, h.1.1.2, hport, Nat.not_lt.mp hshort.2⟩

example : validTarget "localhost:22" = true := by decide
example : validTarget "::1:22" = false := by decide

end Tmite.Core
