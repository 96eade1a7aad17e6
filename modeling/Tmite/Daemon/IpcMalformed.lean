import Mathlib.Logic.Relation
import Tmite.Daemon.IpcReplies

namespace Tmite.Daemon

open Tmite.Core Tmite.Proto Transition TaskList Serde

/-!
# A malformed line (`handle_conn` of `daemon/ipc.rs`)

A line that `parse_request` rejects is answered with `bad_request`, and the read loop ends, to close
the connection.  But the channel of replies is closed only when its last sender is gone, and each
request that was read before has one.  The writer goes on with whatever these send.

* `malformed_ends` — no line is read after a malformed one, and nothing is written after its answer
  if every request that came before is settled: it has its reply, and no handler of its invite is
  about to send a prompt.  Any other request can have something written.
-/

universe v
variable {Text : Type v}

/-! ### The connection, with the answer marked -/

/-- A connection, and where on its channel the answer to a malformed line stands. -/
structure MarkedSession (Text : Type v) where
  session : IpcSession Text
  badAt : Option ℕ

namespace MarkedSession

def start : MarkedSession Text := ⟨.start, none⟩

/-- Where the answer stands after a step. -/
def mark (s : MarkedSession Text) : IpcAct Text → Option ℕ
  | .line (.malformed _) => some s.session.sent.length
  | _ => s.badAt

def next (T : Toml PersistedState Text) (paramsError : Value → String) (s : MarkedSession Text)
    (a : IpcAct Text) : Option (MarkedSession Text) :=
  (s.session.next T paramsError a).map fun session => ⟨session, s.mark a⟩

/-- The answer to a malformed line is the last that is written. -/
def Silent (s : MarkedSession Text) : Prop := ∀ i, s.badAt = some i → s.session.written ≤ i + 1

/-- What a connection can come to. -/
def Later (T : Toml PersistedState Text) (paramsError : Value → String) :
    MarkedSession Text → MarkedSession Text → Prop :=
  Relation.ReflTransGen fun s s' => ∃ a, s.next T paramsError a = some s'

end MarkedSession

def markedSystem (T : Toml PersistedState Text) (paramsError : Value → String) :
    System (MarkedSession Text) (IpcAct Text) where
  init s := s = .start
  next := MarkedSession.next T paramsError

/-- The request has its reply, and no handler of its invite is about to send a prompt. -/
def IpcTask.Settled (t : IpcTask Text) : Prop :=
  t.replied = true ∧ ∀ cfg inv, t.invite = some (cfg, inv) → ∀ c ∈ inv.conns, c.pc ≠ .emit

/-- A malformed line comes when every request before it is settled. -/
def SettledFirst (s : MarkedSession Text) : IpcAct Text → Prop
  | .line (.malformed _) => ∀ t ∈ s.session.tasks, t.Settled
  | _ => True

instance (t : IpcTask Text) : Decidable t.Settled :=
  decidable_of_iff (t.replied = true ∧ ∀ i ∈ t.invite, ∀ c ∈ i.2.conns, c.pc ≠ .emit)
    (and_congr_right fun _ => Prod.forall)

instance (s : MarkedSession Text) (a : IpcAct Text) : Decidable (SettledFirst s a) :=
  match a with
  | .line (.malformed _) => inferInstanceAs (Decidable (∀ t ∈ s.session.tasks, t.Settled))
  | .line .blank | .line (.request _) | .eof | .dispatch _ _ | .create _ _ _ _ | .invite _ _
  | .reply _ | .write _ => inferInstanceAs (Decidable True)

/-! ### An invite after its result

The endpoint is closed before the result is sent, so no handler can tell its client to wait, and
none gets to its prompt. -/

/-- The endpoint has been closed, or has not been built. -/
def LoopPc.over : LoopPc → Bool
  | .finishing _ => true
  | .removing => true
  | .done => true
  | _ => false

structure ClosedInv (inv : Invite Text) : Prop where
  unbuilt : inv.loop = .build → inv.conns = []
  closed : inv.loop.over = true → inv.shared.endpointClosed = true ∨ inv.conns = []

section Invite

variable {T : Toml PersistedState Text} {cfg : InviteCfg} {inv inv' : Invite Text}

theorem LoopPc.over_of_sent {pc : LoopPc} (h : pc.sent = true) : pc.over = true := by
  cases pc <;> first | rfl | exact absurd h (by simp [LoopPc.sent])

theorem perform_endpointClosed (T : Toml PersistedState Text) (cfg : InviteCfg)
    (sh : InviteShared Text) (i : ℕ) (remote : PublicKey) (eff : Effect Text) :
    (sh.perform T cfg i remote eff).endpointClosed = sh.endpointClosed := by
  cases eff <;> rfl

theorem closedInv_loop {ev : LoopEvent} (h : ClosedInv inv)
    (hn : inv.next T cfg (.loop ev) = some inv') : ClosedInv inv' := by
  obtain ⟨pc, eff, -, hmove, rfl⟩ := next_loop hn
  have hpc := perform_loop_pc cfg { inv with loop := pc } eff
  refine ⟨fun hbuild => absurd (hpc.symm.trans hbuild) hmove.ne_build, fun hover => ?_⟩
  rw [hpc] at hover
  obtain ⟨hunbuilt, hclosed⟩ := h
  generalize inv.loop = pc₀ at hmove hunbuilt hclosed
  cases hmove with
  | buildFailed => exact .inr (hunbuilt rfl)
  | close o => exact .inl rfl
  | finish o =>
    simp only [Invite.perform]
    split <;> exact hclosed rfl
  | remove => exact hclosed rfl
  | _ => exact absurd hover (by simp [LoopPc.over])

theorem closedInv (h : Reach (Invite.system T cfg) anyStep inv) : ClosedInv inv := by
  refine Invite.reach_invariant (fun _ _ => ⟨fun _ => rfl, fun _ => .inr rfl⟩)
    (fun s s' hsame hi => ?_) (fun _ _ _ _ hi _ hn => closedInv_loop hi hn)
    (fun s i ev s' _ hi _ hn => ?_) h
  · obtain ⟨_, _, _, _, _, rfl⟩ := hsame
    exact ⟨hi.unbuilt, hi.closed⟩
  · obtain ⟨c, pc, eff, hc, -, rfl⟩ := next_conn hn
    have hsome : s.conns ≠ [] := List.ne_nil_of_mem (List.mem_of_getElem? hc)
    refine ⟨fun hbuild => absurd (hi.unbuilt hbuild) hsome, fun hover => .inl ?_⟩
    rw [perform_endpointClosed]
    exact (hi.closed hover).resolve_right hsome

/-- After the result no handler gets to its prompt. -/
theorem no_emit_next {a : InviteAct Text} (hinv : ClosedInv inv) (hsent : inv.loop.sent = true)
    (hnone : ∀ c ∈ inv.conns, c.pc ≠ .emit) (h : inv.next T cfg a = some inv') :
    ∀ c ∈ inv'.conns, c.pc ≠ .emit := by
  cases a with
  | loop ev =>
    obtain ⟨pc, eff, -, -, rfl⟩ := next_loop h
    intro d hd hemit
    obtain ⟨c, hc, -, hpc⟩ := perform_conns_old (p := fun pc => pc = .emit) hd
      (by intro w since; simp) (by simp) (by simp) (by simpa using hemit)
    exact hnone c hc (by simpa using hpc)
  | conn i ev =>
    obtain ⟨c, pc, eff, hc, hmove, rfl⟩ := next_conn h
    have hmem := List.mem_of_getElem? hc
    intro d hd hemit
    obtain hold | rfl := List.mem_or_eq_of_mem_set hd
    · exact hnone d hold hemit
    · -- only `PAIR_WAIT` leads there, and it cannot be written
      have hemit : pc = .emit := hemit
      rw [hemit] at hmove
      generalize c.pc = pc₀ at hmove
      cases hmove with
      | handshake hs => cases hs
      | sentWait hwrite =>
        obtain hclosed | hnil := hinv.closed (LoopPc.over_of_sent hsent)
        · simp [InviteShared.canWrite, hclosed] at hwrite
        · exact absurd hnil (List.ne_nil_of_mem hmem)
      | refuse hr => cases hr
  | _ =>
    obtain ⟨_, _, _, _, _, rfl⟩ := next_other h (by simp) (by simp)
    exact hnone

end Invite

/-! ### Settled tasks -/

section Task

variable {T : Toml PersistedState Text} {k : ℕ} {t t' : IpcTask Text} {a : IpcAct Text}
  {new : List IpcReply}

theorem DispatchMove.not_line (h : DispatchMove T k t a t' new) (l : IpcInput) : a ≠ .line l := by
  cases h <;> simp

/-- A settled task sends nothing, and stays settled. -/
theorem DispatchMove.settled (h : DispatchMove T k t a t' new) (hvalid : t.Valid T)
    (hsettled : t.Settled) : new = [] ∧ t'.Settled := by
  obtain ⟨hreplied, hnone⟩ := hsettled
  cases h with
  | dispatch outcome r hrep => exact absurd (hreplied.symm.trans hrep) (by simp)
  | create cfg state clock hrep => exact absurd (hreplied.symm.trans hrep) (by simp)
  | invite cfg inv inv' a hinv hn =>
    obtain ⟨hreach, hsent⟩ := hvalid cfg inv hinv
    have hquiet := hnone cfg inv hinv
    constructor
    · obtain ⟨events, hevents, ⟨i, ev, c, -, hc, hpc, -⟩ | ⟨-, hlast⟩⟩ := next_events hn
      · exact absurd hpc (hquiet c (List.mem_of_getElem? hc))
      · rw [hevents, List.drop_left, hlast (hsent hreplied), List.map_nil]
    · refine ⟨hreplied, fun cfg' inv₁ heq => ?_⟩
      simp only [Option.some.injEq, Prod.mk.injEq] at heq
      obtain ⟨rfl, rfl⟩ := heq
      exact no_emit_next (closedInv hreach) (hsent hreplied) hquiet hn
  | reply cfg inv r hrep => exact absurd (hreplied.symm.trans hrep) (by simp)

end Task

/-! ### Every run -/

/-- The invariant of a connection, whatever is read. -/
structure MarkInv (T : Toml PersistedState Text) (s : MarkedSession Text) : Prop where
  valid : ∀ t ∈ s.session.tasks, t.Valid T
  written : s.session.written ≤ s.session.sent.length
  reading : s.badAt ≠ none → s.session.reading = false
  answer : ∀ i, s.badAt = some i → ∃ e, s.session.sent[i]? = some (.error 0 .badRequest e)

/-- After a malformed line all is settled, and its answer is the last that was sent. -/
def Ended (s : MarkedSession Text) : Prop :=
  ∀ i, s.badAt = some i →
    s.session.sent.length = i + 1 ∧ ∀ t ∈ s.session.tasks, t.Settled

section Run

variable {T : Toml PersistedState Text} {paramsError : Value → String} {s s' : MarkedSession Text}

theorem mark_of_not_line {a : IpcAct Text} (h : ∀ l, a ≠ .line l) : s.mark a = s.badAt := by
  cases a with
  | line l => exact absurd rfl (h l)
  | _ => rfl

/-- **One step**, of any kind. -/
theorem MarkInv.step {a : IpcAct Text} (h : MarkInv T s) (hs' : s.next T paramsError a = some s') :
    MarkInv T s' := by
  obtain ⟨session, hsession, rfl⟩ := Option.map_eq_some_iff.mp hs'
  obtain ⟨l, rfl, hreading, rfl⟩ | ⟨rfl, rfl⟩ | ⟨k, t, t', new, ht, hmove, rfl⟩ |
    ⟨ok, rfl, hlt, rfl⟩ := ipcSession_step hsession
  · cases l with
    | blank => exact ⟨h.valid, h.written, h.reading, h.answer⟩
    | request r =>
      refine ⟨fun t ht => ?_, h.written, h.reading, h.answer⟩
      rcases List.mem_append.mp ht with ht | ht
      · exact h.valid t ht
      · intro cfg inv hinv
        rw [List.mem_singleton.mp ht] at hinv
        exact absurd hinv (by simp)
    | malformed e =>
      refine ⟨h.valid, ?_, fun _ => rfl, fun i hi => ⟨e, ?_⟩⟩
      · have hle := h.written
        simp only [List.length_append]
        omega
      · cases hi
        simp
  · exact ⟨h.valid, h.written, fun _ => rfl, h.answer⟩
  · rw [mark_of_not_line hmove.not_line]
    refine ⟨fun x hx => ?_, ?_, h.reading, fun i hi => ?_⟩
    · obtain hold | rfl := List.mem_or_eq_of_mem_set hx
      · exact h.valid x hold
      · exact hmove.valid (h.valid t (List.mem_of_getElem? ht))
    · have hle := h.written
      simp only [IpcSession.advance, List.length_append]
      omega
    · obtain ⟨e, he⟩ := h.answer i hi
      refine ⟨e, ?_⟩
      show (s.session.sent ++ new)[i]? = _
      rw [List.getElem?_append_left (List.getElem?_eq_some_iff.mp he).1]
      exact he
  · cases ok with
    | true => exact ⟨h.valid, hlt, h.reading, h.answer⟩
    | false => exact ⟨h.valid, h.written, h.reading, h.answer⟩

theorem markInv {C : MarkedSession Text → IpcAct Text → Prop}
    (h : Reach (markedSystem T paramsError) C s) : MarkInv T s := by
  refine h.invariant ?_ (fun s a s' _ hinv _ hs' => hinv.step hs')
  rintro _ rfl
  exact ⟨by simp [MarkedSession.start, IpcSession.start], Nat.zero_le _, fun h => absurd rfl h,
    by simp [MarkedSession.start]⟩

/-- **One step** keeps the end, if a malformed line comes when all is settled. -/
theorem Ended.step {a : IpcAct Text} (h : Ended s) (hinv : MarkInv T s)
    (hguard : SettledFirst s a) (hs' : s.next T paramsError a = some s') : Ended s' := by
  obtain ⟨session, hsession, rfl⟩ := Option.map_eq_some_iff.mp hs'
  obtain ⟨l, rfl, hreading, rfl⟩ | ⟨rfl, rfl⟩ | ⟨k, t, t', new, ht, hmove, rfl⟩ |
    ⟨ok, rfl, hlt, rfl⟩ := ipcSession_step hsession
  · intro i hi
    cases l with
    | malformed e =>
      cases hi
      exact ⟨by simp, hguard⟩
    | _ =>
      -- the read loop is over after a malformed line
      have hi : s.badAt = some i := hi
      rw [hinv.reading (by rw [hi]; simp)] at hreading
      exact absurd hreading (by simp)
  · exact h
  · rw [mark_of_not_line hmove.not_line]
    intro i hi
    obtain ⟨hlen, hall⟩ := h i hi
    have hmem := List.mem_of_getElem? ht
    obtain ⟨rfl, ht'⟩ := hmove.settled (hinv.valid t hmem) (hall t hmem)
    refine ⟨by simpa [IpcSession.advance] using hlen, fun x hx => ?_⟩
    obtain hold | rfl := List.mem_or_eq_of_mem_set hx
    · exact hall x hold
    · exact ht'
  · cases ok with
    | true => exact h
    | false => exact h

theorem Ended.silent (h : Ended s) (hinv : MarkInv T s) : s.Silent := by
  intro i hi
  have hlen := (h i hi).1
  have hwritten := hinv.written
  omega

/-- Once a malformed line is read there is no other. -/
theorem MarkInv.line_none (h : MarkInv T s) (hbad : s.badAt ≠ none) (l : IpcInput) :
    s.next T paramsError (.line l) = none := by
  have hreading := h.reading hbad
  cases l <;> simp [MarkedSession.next, IpcSession.next, hreading]

/-- What ended stays so, whatever comes. -/
theorem Ended.later (h : Ended s) (hinv : MarkInv T s) (hbad : s.badAt ≠ none)
    (hlater : s.Later T paramsError s') : s'.Silent := by
  have hall : Ended s' ∧ MarkInv T s' ∧ s'.badAt ≠ none := by
    induction hlater with
    | refl => exact ⟨h, hinv, hbad⟩
    | tail _ hnext ih =>
      rename_i s₁ s₂ _
      obtain ⟨hended, hinv₁, hbad₁⟩ := ih
      obtain ⟨a, hs₂⟩ := hnext
      -- an enabled step is not a line
      have ha : ∀ l, a ≠ .line l := by
        rintro l rfl
        rw [hinv₁.line_none hbad₁ l] at hs₂
        exact absurd hs₂ (by simp)
      refine ⟨hended.step hinv₁ ?_ hs₂, hinv₁.step hs₂, ?_⟩
      · cases a with
        | line l => exact absurd rfl (ha l)
        | _ => trivial
      · obtain ⟨session, -, rfl⟩ := Option.map_eq_some_iff.mp hs₂
        show s₁.mark a ≠ none
        rw [mark_of_not_line ha]
        exact hbad₁
  exact hall.1.silent hall.2.1

end Run

/-! ### A request that is not settled -/

section Unsettled

variable {T : Toml PersistedState Text} {paramsError : Value → String}
  {s s' s₁ : MarkedSession Text} {t : IpcTask Text} {k : ℕ}

/-- The connection goes on to `s'` without a line or a write. -/
structure Grows (T : Toml PersistedState Text) (paramsError : Value → String)
    (s s' : MarkedSession Text) : Prop where
  later : s.Later T paramsError s'
  badAt : s'.badAt = s.badAt
  written : s'.session.written = s.session.written
  writing : s'.session.writing = s.session.writing
  sent : s.session.sent.length ≤ s'.session.sent.length

theorem Grows.refl (s : MarkedSession Text) : Grows T paramsError s s :=
  ⟨.refl, rfl, rfl, rfl, le_refl _⟩

theorem Grows.trans (h : Grows T paramsError s s₁) (h' : Grows T paramsError s₁ s') :
    Grows T paramsError s s' where
  later := Relation.ReflTransGen.trans h.later h'.later
  badAt := h'.badAt.trans h.badAt
  written := h'.written.trans h.written
  writing := h'.writing.trans h.writing
  sent := h.sent.trans h'.sent

/-- A task moves. -/
theorem grows_advance (a : IpcAct Text) (t' : IpcTask Text) (new : List IpcReply)
    (ha : ∀ l, a ≠ .line l)
    (h : s.session.next T paramsError a = some (s.session.advance k t' new)) :
    Grows T paramsError s ⟨s.session.advance k t' new, s.badAt⟩ where
  later := by
    refine Relation.ReflTransGen.single ⟨a, ?_⟩
    show (s.session.next T paramsError a).map _ = _
    rw [h, Option.map_some, mark_of_not_line ha]
  badAt := rfl
  written := rfl
  writing := rfl
  sent := by
    show _ ≤ (s.session.sent ++ new).length
    rw [List.length_append]
    omega

/-- The invite of a task moves. -/
theorem grows_invite (paramsError : Value → String) {cfg : InviteCfg} {inv inv' : Invite Text}
    {a : InviteAct Text} (ht : s.session.tasks[k]? = some t) (hinv : t.invite = some (cfg, inv))
    (hn : inv.next T cfg a = some inv') :
    Grows T paramsError s ⟨s.session.advance k { t with invite := some (cfg, inv') }
      ((inv'.shared.events.drop inv.shared.events.length).map (.event t.request.id)), s.badAt⟩ := by
  refine grows_advance (.invite k a) _ _ (by simp) ?_
  show s.session.tasks[k]?.bind _ = _
  rw [ht, Option.bind_some, hinv, Option.bind_some, hn]
  rfl

/-- The loop of an invite goes to its end, on its connection. -/
theorem grows_loop (paramsError : Value → String) {cfg : InviteCfg}
    {acts : List (InviteAct Text)} {inv' : Invite Text} :
    ∀ {s : MarkedSession Text} {t : IpcTask Text} {inv : Invite Text},
      s.session.tasks[k]? = some t → t.invite = some (cfg, inv) →
      exec (Invite.system T cfg) loopOnly inv acts = some inv' →
      ∃ s', Grows T paramsError s s' ∧
        s'.session.tasks[k]? = some { t with invite := some (cfg, inv') } := by
  induction acts with
  | nil =>
    intro s t inv ht hinv hexec
    cases hexec
    refine ⟨s, .refl s, ?_⟩
    rw [ht, ← hinv]
  | cons a acts ih =>
    intro s t inv ht hinv hexec
    simp only [exec] at hexec
    split at hexec
    · obtain ⟨inv₁, hn, hexec⟩ := Option.bind_eq_some_iff.mp hexec
      have hgrows := grows_invite paramsError ht hinv hn
      have hset : (s.session.tasks.set k { t with invite := some (cfg, inv₁) })[k]? =
          some { t with invite := some (cfg, inv₁) } :=
        List.getElem?_set_self (List.getElem?_eq_some_iff.mp ht).1
      obtain ⟨s', hrest, ht'⟩ := ih (s := ⟨s.session.advance k _ _, s.badAt⟩) hset rfl hexec
      exact ⟨s', hgrows.trans hrest, ht'⟩
    · exact absurd hexec (by simp)

/-- A task without its reply can get it. -/
theorem grows_reply (paramsError : Value → String) (hvalid : t.Valid T)
    (ht : s.session.tasks[k]? = some t) (hrep : t.replied = false) :
    ∃ s', Grows T paramsError s s' ∧ s.session.sent.length < s'.session.sent.length := by
  cases hinv : t.invite with
  | none =>
    -- the method fails, say
    have hreply : ∃ r, IpcSession.dispatchReply paramsError t.request (.error ⟨.internal, ""⟩) =
        some r := by
      unfold IpcSession.dispatchReply
      split
      · exact ⟨_, rfl⟩
      · cases inviteName paramsError t.request.params <;> exact ⟨_, rfl⟩
      · exact ⟨_, rfl⟩
    obtain ⟨r, hr⟩ := hreply
    refine ⟨_, grows_advance (k := k) (.dispatch k (.error ⟨.internal, ""⟩))
      { t with replied := true } [.terminal t.request.id r] (by simp) ?_, ?_⟩
    · show s.session.tasks[k]?.bind _ = _
      rw [ht, Option.bind_some, if_neg (by simp [hrep, hinv]), hr]
      rfl
    · simp [IpcSession.advance]
  | some i =>
    obtain ⟨cfg, inv⟩ := i
    -- the loop goes to its end, and its result arrives
    obtain ⟨acts, inv', hexec, hdone⟩ := loop_can_finish T cfg inv
    obtain ⟨s₁, hgrows, ht₁⟩ := grows_loop paramsError ht hinv hexec
    have hlen := (resultInv (reach_of_exec (fun _ _ _ => trivial) (hvalid cfg inv hinv).1
      hexec)).length
    rw [hdone] at hlen
    obtain ⟨r, hr⟩ := List.length_eq_one_iff.mp hlen
    refine ⟨_, hgrows.trans (grows_advance (k := k) (.reply k)
      { t with invite := some (cfg, inv'), replied := true }
      [.terminal t.request.id (.ok r.toValue)] (by simp) ?_), ?_⟩
    · show s₁.session.tasks[k]?.bind _ = _
      rw [ht₁]
      simp [hrep, hr]
      rfl
    · have hle := hgrows.sent
      simp only [IpcSession.advance, List.length_append, List.length_singleton]
      omega

/-- **A request that is not settled** can send something. -/
theorem grows_unsettled (paramsError : Value → String) (hinv : MarkInv T s)
    (ht : t ∈ s.session.tasks) (h : ¬ t.Settled) :
    ∃ s', Grows T paramsError s s' ∧ s.session.sent.length < s'.session.sent.length := by
  obtain ⟨k, hk⟩ := List.mem_iff_getElem?.mp ht
  cases hrep : t.replied with
  | false => exact grows_reply paramsError (hinv.valid t ht) hk hrep
  | true =>
    -- a handler sends its prompt
    have hemit : ∃ cfg inv, t.invite = some (cfg, inv) ∧ ∃ c ∈ inv.conns, c.pc = .emit := by
      by_contra hnone
      refine h ⟨hrep, fun cfg inv hi c hc hpc => ?_⟩
      exact hnone ⟨cfg, inv, hi, c, hc, hpc⟩
    obtain ⟨cfg, inv, hi, c, hc, hpc⟩ := hemit
    obtain ⟨i, hci⟩ := List.mem_iff_getElem?.mp hc
    have hn : inv.next T cfg (.conn i .go) = some { inv with
        shared := inv.shared.perform T cfg i c.remote .emit
        conns := inv.conns.set i { c with pc := .select } } := by
      show inv.conns[i]?.bind _ = _
      rw [hci, Option.bind_some, hpc]
      rfl
    refine ⟨_, grows_invite paramsError hk hi hn, ?_⟩
    simp [IpcSession.advance, InviteShared.perform]

/-- The writer catches up. -/
theorem later_writes (T : Toml PersistedState Text) (paramsError : Value → String)
    (hwriting : s.session.writing = true) :
    ∀ n, s.session.written + n ≤ s.session.sent.length →
      s.Later T paramsError
        ⟨{ s.session with written := s.session.written + n }, s.badAt⟩ := by
  intro n
  induction n with
  | zero => exact fun _ => .refl
  | succ n ih =>
    intro hle
    refine Relation.ReflTransGen.tail (ih (by omega)) ⟨.write true, ?_⟩
    have hlt : s.session.written + n < s.session.sent.length := by omega
    simp [MarkedSession.next, IpcSession.next, MarkedSession.mark, hwriting, hlt]
    rfl

end Unsettled

/-! ### The end of a conversation -/

/-- **A malformed line ends the conversation** in every run in which it comes when all requests
    before it are settled: nothing is written after its answer.  No line is read after it in any
    case; and while the writer runs, a request that is not settled can have something written. -/
theorem malformed_ends {T : Toml PersistedState Text} {paramsError : Value → String}
    {s : MarkedSession Text} (h : Reach (markedSystem T paramsError) SettledFirst s) :
    s.Silent ∧
    (∀ i, s.badAt = some i → (∃ e, s.session.sent[i]? = some (.error 0 .badRequest e)) ∧
      ∀ l, s.next T paramsError (.line l) = none) ∧
    ∀ e s', s.next T paramsError (.line (.malformed e)) = some s' → s.session.writing = true →
      ((∀ t ∈ s.session.tasks, t.Settled) ↔ ∀ s'', s'.Later T paramsError s'' → s''.Silent) := by
  have hinv := markInv h
  have hended : Ended s := by
    refine h.invariant ?_ (fun s a s' hreach hended hguard hs' =>
      hended.step (markInv hreach) hguard hs')
    rintro _ rfl i hi
    exact absurd hi (by simp [MarkedSession.start])
  refine ⟨hended.silent hinv, fun i hi => ⟨hinv.answer i hi, hinv.line_none (by rw [hi]; simp)⟩,
    fun e s' hs' hwriting => ⟨fun hsettled s'' hlater => ?_, fun hsilent => ?_⟩⟩
  · obtain ⟨session, -, rfl⟩ := Option.map_eq_some_iff.mp hs'
    have hguard : SettledFirst s (.line (.malformed e)) := hsettled
    exact (hended.step hinv hguard hs').later (hinv.step hs') (by simp [MarkedSession.mark]) hlater
  · by_contra hnot
    simp only [not_forall] at hnot
    obtain ⟨t, ht, hunsettled⟩ := hnot
    have hinv' := hinv.step hs'
    obtain ⟨session, hsession, rfl⟩ := Option.map_eq_some_iff.mp hs'
    simp only [IpcSession.next] at hsession
    split at hsession
    · cases hsession
      obtain ⟨s₁, hgrows, hmore⟩ := grows_unsettled paramsError hinv' ht hunsettled
      -- written to the end, that is past the answer
      have hwritten := hgrows.written
      have hle := hinv'.written
      have hwrites := later_writes T paramsError (hgrows.writing.trans hwriting)
        (s₁.session.sent.length - s₁.session.written) (by omega)
      have hlast : s₁.session.written + (s₁.session.sent.length - s₁.session.written) ≤
          s.session.sent.length + 1 :=
        hsilent _ (hgrows.later.trans hwrites) s.session.sent.length hgrows.badAt
      simp only [List.length_append, List.length_singleton] at hmore
      omega
    · exact absurd hsession (by simp)

/-- A client asks for the status, and then sends what is no request. -/
def statusRequest : IpcRequest := ⟨7, "daemon.status", .obj []⟩

/-- The reply is sent before the malformed line is read. -/
theorem malformed_ends_answered : ∃ s : MarkedSession PersistedState,
    Reach (markedSystem (.self PersistedState) (fun _ => "")) SettledFirst s ∧
    (s.badAt, s.session.written) = (some 1, 2) ∧ s.Silent := by
  have hrun : (exec (markedSystem (.self PersistedState) (fun _ => ""))
      (fun s a => decide (SettledFirst s a)) .start
      [.line (.request statusRequest), .dispatch 0 (.ok (.obj [])),
        .line (.malformed "expected value"), .write true, .write true]).map
      (fun s => (s.badAt, s.session.written)) = some (some 1, 2) := by
    decide +kernel
  obtain ⟨s, hs, hview⟩ := reach_of_exec_map (fun _ _ => of_decide_eq_true) hrun (.init rfl)
  exact ⟨s, hs, hview, (malformed_ends hs).1⟩

/-- The malformed line is read first, and the reply to the request written after its answer. -/
theorem reply_after_malformed : ¬ ∀ s : MarkedSession PersistedState,
    Reach (markedSystem (.self PersistedState) (fun _ => "")) anyStep s → s.Silent := by
  intro hall
  have hrun : (exec (markedSystem (.self PersistedState) (fun _ => "")) (fun _ _ => true) .start
      [.line (.request statusRequest), .line (.malformed "expected value"), .write true,
        .dispatch 0 (.ok (.obj [])), .write true]).map (fun s => (s.badAt, s.session.written)) =
      some (some 0, 2) := by
    decide +kernel
  obtain ⟨s, hs, hview⟩ := reach_of_exec_map (fun _ _ _ => trivial) hrun (.init rfl)
  simp only [Prod.mk.injEq] at hview
  have hle := hall s hs 0 hview.1
  omega

end Tmite.Daemon
