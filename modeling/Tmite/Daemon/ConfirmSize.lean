import Tmite.Daemon.InviteSlot
import Tmite.Daemon.IpcReplies
import Tmite.Proto.FrameSize

namespace Tmite.Daemon

open Tmite.Core Tmite.Proto Transition Serde

/-!
# Confirming a recorded peer

`dispatch_invite` accepts every name that is not blank, of any length, and the name travels back
to the client inside `PAIR_CONFIRM`.  The handler encodes that frame after `add_peer`, and drops
the error when it is too large: the peer is then recorded and its client is told nothing.

`confirm_sendable_iff` gives the exact names and node ids for which this cannot happen.
-/

universe v
variable {Text : Type v}

/-- The bytes of a `PAIR_CONFIRM` that are left for its name and its node id. -/
def confirmRoom : ℕ := maxControlFrame - confirmOverhead

/-- The confirmation of an invite can be sent: it encodes, and a handler that has recorded its
    peer writes it whenever the connection takes it. -/
structure ConfirmSendable (T : Toml PersistedState Text) (cfg : InviteCfg) : Prop where
  encodes : (encodeFrame cfg.toVec (cfg.frame .confirm).msgType (cfg.frame .confirm)).isOk = true
  written : ∀ clock (sh : InviteShared Text) remote, sh.endpointClosed = false →
    handlerNext T cfg clock sh remote (.verdict .confirm) (.write true) =
      some (.ackWait .confirm clock, .write (cfg.frame .confirm))

/-- The confirmation encodes exactly when the name and the digits of the node id leave room. -/
theorem confirm_encodes_iff {cfg : InviteCfg} (hvec : cfg.toVec = PairingFrame.json) :
    (encodeFrame cfg.toVec (cfg.frame .confirm).msgType (cfg.frame .confirm)).isOk = true ↔
      textSize cfg.name.toList + bytesSize cfg.serverNodeId.asBytes.1 ≤ confirmRoom := by
  rw [encodeFrame_isOk, hvec]
  show (PairingFrame.pairConfirm cfg.serverNodeId.asBytes cfg.name).json.length ≤ _ ↔ _
  rw [length_confirm]
  unfold confirmRoom maxControlFrame confirmOverhead
  omega

/-- **Confirmations that fit.** With the JSON that `serde_json` prints, the confirmation of an
    invite can be sent exactly when the escaped name and the decimal digits of the server's node
    id take no more than 4019 bytes together. -/
theorem confirm_sendable_iff (T : Toml PersistedState Text) (cfg : InviteCfg)
    (hvec : cfg.toVec = PairingFrame.json) :
    ConfirmSendable T cfg ↔
      textSize cfg.name.toList + bytesSize cfg.serverNodeId.asBytes.1 ≤ 4019 := by
  have hroom : confirmRoom = 4019 := rfl
  rw [← hroom, ← confirm_encodes_iff hvec]
  constructor
  · exact fun h => h.encodes
  · intro henc
    refine ⟨henc, fun clock sh remote hopen => ?_⟩
    have hcan : sh.canWrite cfg (cfg.frame .confirm) true = true := by
      simp only [InviteShared.canWrite, hopen, henc, Bool.not_false, Bool.and_self]
    simp only [handlerNext, hcan, if_true]

/-- An invite for `laptop` can be confirmed. -/
theorem confirm_sendable_laptop : ConfirmSendable (.self PersistedState) laptopInvite :=
  (confirm_sendable_iff (.self PersistedState) laptopInvite rfl).mpr (by decide +kernel)

/-! ### A name that is too long -/

/-- A name of 4000 letters. -/
def longName : String := String.ofList (List.replicate 4000 'a')

/-- The invite of `laptopInvite` under that name. -/
def longInvite : InviteCfg := { laptopInvite with name := longName }

theorem trim_replicate {c : Char} (hc : isWhitespace c = false) (n : ℕ) :
    trim (String.ofList (List.replicate n c)) = String.ofList (List.replicate n c) := by
  simp only [trim, String.toList_ofList, List.dropWhile_replicate, hc, Bool.false_eq_true, if_false,
    List.reverse_replicate]

theorem isEmpty_replicate (c : Char) (n : ℕ) :
    (String.ofList (List.replicate (n + 1) c)).isEmpty = false := by
  rw [Bool.eq_false_iff, Ne, String.isEmpty_iff, ← String.toList_inj, String.toList_ofList]
  simp [List.replicate_succ]

/-- `dispatch_invite` has nothing against it. -/
theorem inviteName_longName (paramsError : Value → String) :
    inviteName paramsError (.obj [("name", .str longName)]) = .ok longName := by
  have htrim : trim longName = longName := trim_replicate (by decide) 4000
  have hparams : InviteParams.fromValue (.obj [("name", .str longName)]) =
      some ⟨longName, none⟩ := rfl
  have hne : longName.isEmpty = false := isEmpty_replicate 'a' 3999
  simp only [inviteName, hparams, htrim, hne, Bool.false_eq_true, if_false]

theorem textSize_replicate {c : Char} (hc : escapedSize c = 1) (n : ℕ) :
    textSize (List.replicate n c) = n := by
  induction n with
  | zero => rfl
  | succ n ih =>
    rw [List.replicate_succ, textSize_cons, hc, ih]
    omega

theorem textSize_longName : textSize longName.toList = 4000 := by
  have htext : longName.toList = List.replicate 4000 'a' := String.toList_ofList
  rw [htext]
  exact textSize_replicate (by decide) 4000

theorem longInvite_not_encodes :
    (encodeFrame longInvite.toVec (longInvite.frame .confirm).msgType
      (longInvite.frame .confirm)).isOk = false := by
  have hname : longInvite.name = longName := rfl
  have hid : 32 ≤ bytesSize longInvite.serverNodeId.asBytes.1 := by decide +kernel
  have hroom : confirmRoom = 4019 := rfl
  rw [Bool.eq_false_iff, Ne, confirm_encodes_iff rfl, hname, textSize_longName, hroom]
  omega

/-- The run of `pairedRun` up to the verdict: the peer is recorded. -/
def recordRun : List (InviteAct PersistedState) :=
  .loop (.build true) :: (takeConn vectorKey0 ++ reachPrompt 0 ++ answerPrompt 0 true ++
    ([.conn 0 .go, .conn 0 .go, .conn 0 (.record "t" "t" none), .conn 0 .go] :
      List (InviteAct PersistedState)))

/-- The name is accepted, its confirmation does not encode, and a run records the peer and goes on
    to wait for the client's ack of a frame it has not written. -/
theorem confirm_lost_for_long_name :
    inviteName (fun _ => "") (.obj [("name", .str longName)]) = .ok longInvite.name ∧
      ¬ ConfirmSendable (.self PersistedState) longInvite ∧
      ∃ s c, Reach (Invite.system (.self PersistedState) longInvite) anyStep s ∧
        s.conns[0]? = some c ∧ c.pc = .ackWait .confirm s.clock ∧
        s.shared.adds.countP AddPeer.ok = 1 ∧ s.shared.wrote = [⟨0, .pairWait⟩] := by
  refine ⟨inviteName_longName _, fun h => ?_, ?_⟩
  · have henc := h.encodes
    rw [longInvite_not_encodes] at henc
    exact absurd henc (by simp)
  · have hrun : (exec (Invite.system (.self PersistedState) longInvite) (fun _ _ => true)
        (.start .fresh 0) recordRun).map (fun s => (s.conns, s.shared.wrote,
          s.shared.adds.countP AddPeer.ok)) =
        some ([⟨vectorKey0, .verdict .confirm⟩], [⟨0, .pairWait⟩], 1) := by
      decide +kernel
    obtain ⟨s, hr, hs⟩ := reach_of_exec_map (fun _ _ _ => trivial) hrun (.init ⟨.fresh, 0, rfl⟩)
    obtain ⟨hconns, hs⟩ := Prod.mk.inj hs
    obtain ⟨hwrote, hadds⟩ := Prod.mk.inj hs
    -- the last write finds a frame that does not encode
    have hcan : s.shared.canWrite longInvite (longInvite.frame .confirm) true = false := by
      simp only [InviteShared.canWrite, longInvite_not_encodes, Bool.and_false]
    have hstep : handlerNext (.self PersistedState) longInvite s.clock s.shared vectorKey0
        (.verdict .confirm) (.write true) = some (.ackWait .confirm s.clock, .none) := by
      simp only [handlerNext, hcan, Bool.false_eq_true, if_false]
    have hnext : s.next (.self PersistedState) longInvite (.conn 0 (.write true)) =
        some { s with conns := [⟨vectorKey0, .ackWait .confirm s.clock⟩] } := by
      simp only [Invite.next, hconns, List.getElem?_cons_zero, Option.bind_some, hstep,
        Option.map_some]
      rfl
    exact ⟨{ s with conns := [⟨vectorKey0, .ackWait .confirm s.clock⟩] },
      ⟨vectorKey0, .ackWait .confirm s.clock⟩,
      .step (a := .conn 0 (.write true)) hr trivial hnext, rfl, rfl, hadds, hwrote⟩

end Tmite.Daemon
