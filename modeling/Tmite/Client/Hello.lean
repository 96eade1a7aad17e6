import Tmite.Client.FwdGrammar
import Tmite.Client.Shutdown
import Tmite.Proto.FrameSize
import Mathlib.Algebra.Order.BigOperators.Group.List
import Mathlib.Algebra.Order.Ring.Nat

namespace Tmite.Client

open Tmite.Core Tmite.Proto

/-!
# Announcing the forwards (the `SESSION` hello of `connect::run`)

`run` announces all its forwards in one control frame, which it encodes after the listeners are
bound and before it dials.  The frame grows with every forward and nothing bounds their number,
so a list that is too long ends the command there, with the error of an unreachable server.

`hello_sendable_iff` gives the exact lists that can be announced.
-/

/-! ### The hello -/

/-- `SocketAddr::to_string` of a spec's address and port. -/
def FwdSpec.localText (f : FwdSpec) : String :=
  String.ofList (f.localAddr.text ++ ':' :: Nat.toDigits 10 f.localPort)

/-- The `SESSION` frame that `run` builds from its specs. -/
def helloFrame (specs : List FwdSpec) : DataFrame :=
  .session (specs.map fun f => ⟨f.localText, f.target⟩)

/-- `run` encodes the hello. -/
def encodeHello (toVec : DataFrame → List UInt8) (specs : List FwdSpec) :
    Except String (List UInt8) :=
  (encodeFrame toVec (helloFrame specs).msgType (helloFrame specs)).mapError FrameError.display

/-- The forwards can be announced: the hello encodes, and `run` goes on to its dial. -/
structure HelloSendable (toVec : DataFrame → List UInt8) (specs : List FwdSpec) : Prop where
  encodes : (encodeHello toVec specs).isOk = true
  dials : ∀ s : Quitting, s.params.specs = specs →
    s.runStep .hello (.hello ((encodeHello toVec s.params.specs).map fun _ => ())) =
      some { s with run := .dial }

/-! ### Its size -/

/-- The bytes that a forward takes in the hello: the members' names and punctuation, the local
    address, and the target with its escapes. -/
def FwdSpec.helloSize (f : FwdSpec) : ℕ :=
  25 + f.localText.length + textSize f.target.toList

/-- Nothing in an address and a port is escaped. -/
theorem textSize_localText (f : FwdSpec) : textSize f.localText.toList = f.localText.length := by
  have hdigits : ∀ n, textSize (Nat.toDigits 10 n) = (Nat.toDigits 10 n).length := fun n =>
    textSize_digits fun c hc => Nat.isDigit_of_mem_toDigits (by decide) (by decide) hc
  have hdot : escapedSize '.' = 1 := by decide
  have hcolon : escapedSize ':' = 1 := by decide
  rw [← String.length_toList]
  simp only [FwdSpec.localText, String.toList_ofList, Ipv4Addr.text, List.intercalate,
    List.intersperse_cons_cons, List.intersperse_singleton, List.flatten_cons, List.flatten_nil,
    List.append_nil, List.cons_append, List.nil_append, List.append_assoc, textSize_append,
    textSize_cons, hdigits, hdot, hcolon, List.length_append, List.length_cons]
  omega

/-- The hello of a non-empty list encodes exactly when its forwards leave room. -/
theorem encodeHello_isOk_iff {toVec : DataFrame → List UInt8} (hvec : toVec = DataFrame.json)
    {specs : List FwdSpec} (hne : specs ≠ []) :
    (encodeHello toVec specs).isOk = true ↔ (specs.map FwdSpec.helloSize).sum ≤ 4065 := by
  obtain ⟨f, fs, rfl⟩ := List.exists_cons_of_ne_nil hne
  have hsizes : ∀ l : List FwdSpec,
      (l.map fun f => SessionForward.size ⟨f.localText, f.target⟩) = l.map FwdSpec.helloSize := by
    intro l
    refine List.map_congr_left fun g _ => ?_
    simp only [SessionForward.size, textSize_localText, FwdSpec.helloSize]
  have hlen : (helloFrame (f :: fs)).json.length =
      31 + ((f :: fs).map FwdSpec.helloSize).sum := by
    rw [← hsizes]
    show (DataFrame.session (⟨f.localText, f.target⟩ :: _)).json.length = _
    rw [length_session, List.map_cons, List.map_map]
    rfl
  have hok : (encodeHello toVec (f :: fs)).isOk =
      (encodeFrame toVec (helloFrame (f :: fs)).msgType (helloFrame (f :: fs))).isOk := by
    unfold encodeHello
    cases encodeFrame toVec (helloFrame (f :: fs)).msgType (helloFrame (f :: fs)) with
    | error e => rfl
    | ok b => rfl
  rw [hok, encodeFrame_isOk, hvec, hlen]
  unfold maxControlFrame
  omega

/-- **Hellos that fit.** For every non-empty list of accepted specs, and the JSON that
    `serde_json` prints: the list can be announced exactly when its forwards take no more than
    4065 bytes of the hello. -/
theorem hello_sendable_iff {toVec : DataFrame → List UInt8} (hvec : toVec = DataFrame.json)
    {texts : List String} {specs : List FwdSpec}
    (hparsed : List.Forall₂ (fun text f => parseFwdSpec text = .ok f) texts specs)
    (hne : texts ≠ []) :
    HelloSendable toVec specs ↔ (specs.map FwdSpec.helloSize).sum ≤ 4065 := by
  have hspecs : specs ≠ [] := by
    rintro rfl
    exact hne (List.forall₂_nil_right_iff.mp hparsed)
  rw [← encodeHello_isOk_iff hvec hspecs]
  constructor
  · exact fun h => h.encodes
  · intro henc
    refine ⟨henc, fun s hs => ?_⟩
    obtain ⟨b, hb⟩ := exists_of_isOk henc
    rw [hs, hb]
    rfl

/-! ### A list that is too long -/

/-- Forwards to `localhost:22` on `n` ports of their own. -/
def manySpecs (n : ℕ) : List FwdSpec :=
  (List.range n).map fun i => ⟨.localhost, 2001 + i, "localhost:22"⟩

/-- As they are typed. -/
def manyTexts (n : ℕ) : List String :=
  (List.range n).map fun i => toString (2001 + i) ++ ":" ++ "localhost:22"

theorem manyTexts_parsed {n : ℕ} (hn : n ≤ 1000) :
    List.Forall₂ (fun text f => parseFwdSpec text = .ok f) (manyTexts n) (manySpecs n) := by
  rw [manyTexts, manySpecs, List.forall₂_map_left_iff, List.forall₂_map_right_iff,
    List.forall₂_same]
  intro i hi
  rw [List.mem_range] at hi
  exact parseFwdSpec_port_target (by omega) (by decide)

theorem manySpecs_size (n : ℕ) : n * 37 ≤ ((manySpecs n).map FwdSpec.helloSize).sum := by
  have htarget : textSize "localhost:22".toList = 12 := by decide +kernel
  have heach : ∀ x ∈ (manySpecs n).map FwdSpec.helloSize, 37 ≤ x := by
    intro x hx
    simp only [manySpecs, List.map_map, List.mem_map, Function.comp_apply] at hx
    obtain ⟨i, -, rfl⟩ := hx
    simp only [FwdSpec.helloSize, htarget]
    omega
  have hsum := List.card_nsmul_le_sum _ 37 heach
  rw [List.length_map, nsmul_eq_mul, Nat.cast_id] at hsum
  have hlen : (manySpecs n).length = n := by
    rw [manySpecs, List.length_map, List.length_range]
  rw [hlen] at hsum
  exact hsum

/-- Each of 120 forwards is accepted, and `run` ends at the hello. -/
theorem hello_too_large_for_many :
    List.Forall₂ (fun text f => parseFwdSpec text = .ok f) (manyTexts 120) (manySpecs 120) ∧
      manyTexts 120 ≠ [] ∧ ¬ HelloSendable DataFrame.json (manySpecs 120) := by
  have hne : manySpecs 120 ≠ [] := by simp [manySpecs]
  refine ⟨manyTexts_parsed (by decide), by simp [manyTexts], fun h => ?_⟩
  have hfits := (encodeHello_isOk_iff rfl hne).mp h.encodes
  have hsize := manySpecs_size 120
  omega

/-- Two forwards are announced. -/
theorem hello_sendable_two :
    HelloSendable DataFrame.json
      [⟨.localhost, 2222, "localhost:22"⟩, ⟨.localhost, 5433, "db.internal:5432"⟩] := by
  have hparsed : List.Forall₂ (fun text f => parseFwdSpec text = .ok f)
      ["2222:localhost:22", "5433:db.internal:5432"]
      [⟨.localhost, 2222, "localhost:22"⟩, ⟨.localhost, 5433, "db.internal:5432"⟩] :=
    .cons (by decide +kernel) (.cons (by decide +kernel) .nil)
  exact (hello_sendable_iff rfl hparsed (by simp)).mpr (by decide +kernel)

end Tmite.Client
