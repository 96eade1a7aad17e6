import Tmite.Daemon.Invite

namespace Tmite.Pairing

open Tmite.Core Tmite.Daemon

/-!
# The two texts the operators compare

Pairing rests on two people comparing a node id.  The client prints its own key with
`grouped_hex` of the key's bytes (`show_node_id`); the admin's terminal is sent the key as a text
in the `pair_request` event and prints `grouped_node_id` of it, which reads the text two bytes at
a time, leaves out what is not a hex byte, and groups what it has read.

* `groupedHex_digits` — the groups hold every digit of the bytes, in order.
* `groupedNodeId_display` — reading a displayed key back loses nothing.
* `screens_agree_iff` — so the two texts are equal exactly for equal keys.
-/

universe v
variable {Text : Type v}

/-! ### `grouped_hex` (`net.rs`) -/

/-- `[u8]::chunks(8)` of a text in ASCII. -/
def chunks8 : List Char → List (List Char)
  | [] => []
  | a :: b :: c :: d :: e :: f :: g :: h :: rest => [a, b, c, d, e, f, g, h] :: chunks8 rest
  | short => [short]

/-- `grouped_hex`. -/
def groupedHex (id : List UInt8) : String :=
  String.ofList ([' '].intercalate (chunks8 (hex id).toList))

theorem flatten_chunks8 (cs : List Char) : (chunks8 cs).flatten = cs := by
  fun_induction chunks8 cs with
  | case1 => rfl
  | case2 a b c d e f g h rest ih => simp [ih]
  | case3 short => simp

/-- Joining with blanks adds nothing but blanks. -/
theorem filter_intercalate (ls : List (List Char)) :
    ([' '].intercalate ls).filter (· != ' ') = ls.flatten.filter (· != ' ') := by
  induction ls with
  | nil => rfl
  | cons l ls ih =>
    cases ls with
    | nil => simp
    | cons m ms =>
      have hblank : [' '].filter (· != ' ') = [] := by decide
      rw [List.intercalate_cons_cons, List.filter_append, List.filter_append, ih, hblank,
        List.append_nil, ← List.filter_append, ← List.flatten_cons]

theorem hexDigit_ne_blank : ∀ n < 16, (hexDigit n != ' ') = true := by decide

theorem hex_ne_blank (id : List UInt8) : ∀ c ∈ (hex id).toList, (c != ' ') = true := by
  intro c hc
  rw [hex, String.toList_ofList, List.mem_flatMap] at hc
  obtain ⟨b, -, hc⟩ := hc
  have hb := b.toNat_lt
  simp only [hexByte, List.mem_cons, List.not_mem_nil, or_false] at hc
  rcases hc with rfl | rfl
  · exact hexDigit_ne_blank _ (by omega)
  · exact hexDigit_ne_blank _ (by omega)

/-- Without its blanks the grouped text is the plain one. -/
theorem groupedHex_digits (id : List UInt8) :
    (groupedHex id).toList.filter (· != ' ') = (hex id).toList := by
  rw [groupedHex, String.toList_ofList, filter_intercalate, flatten_chunks8]
  exact List.filter_eq_self.mpr (hex_ne_blank id)

/-! ### `grouped_node_id` (`main.rs`) -/

/-- `char::to_digit(16)`. -/
def hexVal (c : Char) : Option ℕ :=
  let n := c.toNat
  if 48 ≤ n && n ≤ 57 then some (n - 48)
  else if 97 ≤ n && n ≤ 102 then some (n - 87)
  else if 65 ≤ n && n ≤ 70 then some (n - 55)
  else none

/-- `u8::from_str_radix(_, 16)`: hex digits of either case after an optional plus sign. -/
def u8FromStrRadix16 (s : List Char) : Option UInt8 :=
  let ds := if s.head? = some '+' then s.tail else s
  match ds.mapM hexVal with
  | some (d :: rest) =>
    let n := (d :: rest).foldl (fun n v => 16 * n + v) 0
    if n < 256 then some (UInt8.ofNat n) else none
  | _ => none

/-- The slices `node_id[i..i + 2]` for every second byte `i`; `none` when one of them ends past
    the text or inside a character, where the slice panics. -/
def bytePairs : List Char → Option (List (List Char))
  | [] => some []
  | [c] => if c.utf8Size = 2 then some [[c]] else none
  | c :: d :: rest =>
    if c.utf8Size = 2 then (bytePairs (d :: rest)).map ([c] :: ·)
    else if c.utf8Size = 1 ∧ d.utf8Size = 1 then (bytePairs rest).map ([c, d] :: ·)
    else none

/-- `grouped_node_id`; `none` is a panic. -/
def groupedNodeId (nodeId : String) : Option String :=
  (bytePairs nodeId.toList).map (fun pairs => groupedHex (pairs.filterMap u8FromStrRadix16))

/-- A digit as `{b:02x}` prints it is one byte long, is no sign, and is read back. -/
theorem hexDigit_read : ∀ n < 16, (hexDigit n).utf8Size = 1 ∧ hexDigit n ≠ '+' ∧
    hexVal (hexDigit n) = some n := by
  decide

/-- The two digits of a byte are read as that byte. -/
theorem u8FromStrRadix16_hexByte (b : UInt8) : u8FromStrRadix16 (hexByte b) = some b := by
  have hb := b.toNat_lt
  obtain ⟨-, hplus, hhigh⟩ := hexDigit_read (b.toNat / 16) (by omega)
  obtain ⟨-, -, hlow⟩ := hexDigit_read (b.toNat % 16) (by omega)
  have hhead : (hexByte b).head? ≠ some '+' := by
    simpa [hexByte] using hplus
  have hdigits : (hexByte b).mapM hexVal = some [b.toNat / 16, b.toNat % 16] := by
    simp [hexByte, hhigh, hlow]
  have hval : 16 * (16 * 0 + b.toNat / 16) + b.toNat % 16 = b.toNat := by omega
  simp only [u8FromStrRadix16, if_neg hhead, hdigits, List.foldl_cons, List.foldl_nil, hval]
  rw [if_pos (by omega), UInt8.ofNat_toNat]

/-- The text of a list of bytes is sliced into their pairs of digits. -/
theorem bytePairs_hex (id : List UInt8) :
    bytePairs (id.flatMap hexByte) = some (id.map hexByte) := by
  induction id with
  | nil => rfl
  | cons b id ih =>
    have hb := b.toNat_lt
    have hhigh := (hexDigit_read (b.toNat / 16) (by omega)).1
    have hlow := (hexDigit_read (b.toNat % 16) (by omega)).1
    rw [List.flatMap_cons]
    show bytePairs (hexDigit (b.toNat / 16) :: hexDigit (b.toNat % 16) ::
      id.flatMap hexByte) = _
    rw [bytePairs, hhigh, hlow, ih]
    rfl

/-- **Read back.** The admin's terminal shows the bytes of the key whose text it was sent. -/
theorem groupedNodeId_display (a : PublicKey) :
    groupedNodeId a.display = some (groupedHex a.asBytes.1) := by
  have hread : (a.asBytes.1.map hexByte).filterMap u8FromStrRadix16 = a.asBytes.1 := by
    rw [List.filterMap_map]
    have hall : u8FromStrRadix16 ∘ hexByte = some := funext u8FromStrRadix16_hexByte
    rw [hall, List.filterMap_some]
  simp only [groupedNodeId, PublicKey.display, hex, String.toList_ofList, bytePairs_hex,
    Option.map_some, hread]

/-! ### The comparison -/

/-- The node id that `invite_cmd` prints for an event of the daemon. -/
def adminScreen : InviteEvent → Option String
  | .pairRequest _ nodeId => groupedNodeId nodeId
  | _ => none

/-- `PairPromptUi::show_node_id`. -/
def clientScreen (own : PublicKey) : String := groupedHex own.asBytes.1

theorem clientScreen_inj {a b : PublicKey} (h : clientScreen a = clientScreen b) : a = b := by
  have hdigits := congrArg (fun s : String => s.toList.filter (· != ' ')) h
  simp only [clientScreen, groupedHex_digits, String.toList_inj] at hdigits
  exact display_inj hdigits

/-- **Both screens show the key.** The event a handler sends for the client with key `a` is shown
    to the admin as a text, which is the text a client with key `b` prints exactly when `a` is
    `b`. -/
theorem screens_agree_iff (T : Toml PersistedState Text) (cfg : InviteCfg)
    (sh : InviteShared Text) (i : ℕ) (a b : PublicKey) :
    ∃ e, (sh.perform T cfg i a .emit).events = sh.events ++ [e] ∧
      (adminScreen e = some (clientScreen b) ↔ a = b) := by
  refine ⟨.pairRequest cfg.inviteId a.display, rfl, ?_⟩
  show groupedNodeId a.display = _ ↔ _
  rw [groupedNodeId_display]
  constructor
  · exact fun h => clientScreen_inj (Option.some.inj h)
  · rintro rfl
    rfl

example : (groupedHex vectorKey0.asBytes.1).toList.take 20 = "e0926cdd 295644ad c9".toList := by
  decide +kernel

end Tmite.Pairing
