import Mathlib.Algebra.BigOperators.Fin
import Mathlib.Algebra.Order.BigOperators.Group.Finset
import Tmite.Client.ConnLedger

namespace Tmite.Client

open Tmite.Daemon Transition TaskList

/-!
# The terminal mirrors the registry

Every interleaving of the connections, the byte tick and the terminal task sends a lawful list of
events, whose ledger is that of the connections: the invariant has a part for the registry
(`RegistryOk`), for the ledger (`LedgerOk`), for the byte counts on their way (`CountsOk`) and for
the model (`ViewOk`).  `model_mirrors_registry` puts them together.
-/

/-! ### Steps -/

/-- Admitted, and not yet closed. -/
def Conn.isOpen (c : Conn) : Bool :=
  match c.pc with
  | .admitted => true
  | .closing => c.handle.started
  | _ => false

/-- Who a connection is, to the terminal. -/
def Conn.key (c : Conn) : ℕ × String × ℕ := (c.handle.id, c.handle.peer, c.handle.spec)

/-- What the tick has read and not sent. -/
def TickPc.pending : TickPc → List (ℕ × ℕ × ℕ)
  | scan _ acc => acc
  | readTx _ _ acc => acc
  | readRx _ _ _ acc => acc
  | send rows => rows
  | _ => []

/-- The tick's steps, other than sending. -/
inductive TickMove (s : TuiPlane) : TickPc → Prop
  | quiet {pc : TickPc} (h : pc.pending = s.tick.pending)
      (hread : ∀ i tx todo acc, pc ≠ .readRx i tx todo acc) : TickMove s pc
  | readTx {i : ℕ} {todo : List ℕ} {acc : List (ℕ × ℕ × ℕ)} {c : Conn}
      (h : s.tick = .readTx i todo acc) (hc : s.conns[i]? = some c) :
      TickMove s (.readRx i c.handle.tx todo acc)
  | readRx {i tx : ℕ} {todo : List ℕ} {acc : List (ℕ × ℕ × ℕ)} {c : Conn}
      (h : s.tick = .readRx i tx todo acc) (hc : s.conns[i]? = some c) :
      TickMove s (.scan todo (acc ++ [(c.handle.id, tx, c.handle.rx)]))

/-- The steps of the system. -/
inductive TuiMove (s : TuiPlane) : TuiPlane → Prop
  | create {spec : ℕ} {peer : String} (h : spec < s.specs.length) : TuiMove s (s.create spec peer)
  | admitConn {i : ℕ} {c : Conn} (hc : s.conns[i]? = some c) (hpc : c.pc = .created) :
      TuiMove s (s.admitConn i c)
  | opened {i : ℕ} {c : Conn} (hc : s.conns[i]? = some c) (hpc : c.pc = .admitting) :
      TuiMove s { s.send (.connectionOpened c.handle.id c.handle.peer c.handle.spec) with
        conns := s.conns.set i { c with pc := .admitted } }
  | count {i tx rx : ℕ} {c : Conn} (hc : s.conns[i]? = some c) (hpc : c.pc = .admitted) :
      TuiMove s { s with
        conns := s.conns.set i { c with
          handle := { c.handle with tx := c.handle.tx + tx, rx := c.handle.rx + rx } } }
  | close {i : ℕ} {c : Conn} (hc : s.conns[i]? = some c) (hpc : c.pc = .created ∨ c.pc = .admitted) :
      TuiMove s (s.close i c)
  | closed {i : ℕ} {c : Conn} (hc : s.conns[i]? = some c) (hpc : c.pc = .closing) :
      TuiMove s { s.send (.connectionClosed c.handle.id) with
        conns := s.conns.set i { c with pc := .closed } }
  | tick {pc : TickPc} (h : TickMove s pc) : TuiMove s { s with tick := pc }
  | bytes {id tx rx : ℕ} {rows : List (ℕ × ℕ × ℕ)} (h : s.tick = .send ((id, tx, rx) :: rows)) :
      TuiMove s { s.send (.connectionBytes id tx rx) with tick := .send rows }
  | other {e : UiEvent} (h : e.isOther = true) : TuiMove s (s.send e)
  | recv {now : ℕ} {e : UiEvent} (h : s.sent[s.applied]? = some e) :
      TuiMove s { s with applied := s.applied + 1, model := s.model.apply now e }

theorem tickNext_cases {s s' : TuiPlane} (h : s.tickNext = some s') : TuiMove s s' := by
  unfold TuiPlane.tickNext at h
  split at h
  · rename_i acc htick
    cases h
    exact .tick (.quiet (by rw [htick]; rfl) (by simp))
  · rename_i i todo acc htick
    obtain ⟨c, hc, rfl⟩ := Option.map_eq_some_iff.mp h
    refine .tick (.quiet ?_ ?_)
    · rw [htick]
      split <;> rfl
    · split <;> simp
  · rename_i i todo acc htick
    obtain ⟨c, hc, rfl⟩ := Option.map_eq_some_iff.mp h
    exact .tick (.readTx htick hc)
  · rename_i i tx todo acc htick
    obtain ⟨c, hc, rfl⟩ := Option.map_eq_some_iff.mp h
    exact .tick (.readRx htick hc)
  · rename_i htick
    cases h
    exact .tick (.quiet (by rw [htick]; rfl) (by simp))
  · rename_i id tx rx rows htick
    cases h
    exact .bytes htick
  · cases h

theorem next_cases {s s' : TuiPlane} {a : TuiAct} (h : s.next a = some s') : TuiMove s s' := by
  cases a with
  | create spec peer =>
    simp only [TuiPlane.next, Option.ite_none_right_eq_some, Option.some.injEq] at h
    obtain ⟨⟨-, hspec⟩, rfl⟩ := h
    exact .create hspec
  | admitConn i =>
    obtain ⟨c, hc, h⟩ := Option.bind_eq_some_iff.mp h
    simp only [Option.ite_none_right_eq_some, Option.some.injEq] at h
    obtain ⟨hpc, rfl⟩ := h
    exact .admitConn hc hpc
  | sendOpened i =>
    obtain ⟨c, hc, h⟩ := Option.bind_eq_some_iff.mp h
    simp only [Option.ite_none_right_eq_some, Option.some.injEq] at h
    obtain ⟨hpc, rfl⟩ := h
    exact .opened hc hpc
  | count i tx rx =>
    obtain ⟨c, hc, h⟩ := Option.bind_eq_some_iff.mp h
    simp only [Option.ite_none_right_eq_some, Option.some.injEq] at h
    obtain ⟨hpc, rfl⟩ := h
    exact .count hc hpc
  | close i =>
    obtain ⟨c, hc, h⟩ := Option.bind_eq_some_iff.mp h
    simp only [Option.ite_none_right_eq_some, Option.some.injEq] at h
    obtain ⟨⟨-, hpc⟩, rfl⟩ := h
    exact .close hc hpc
  | sendClosed i =>
    obtain ⟨c, hc, h⟩ := Option.bind_eq_some_iff.mp h
    simp only [Option.ite_none_right_eq_some, Option.some.injEq] at h
    obtain ⟨hpc, rfl⟩ := h
    exact .closed hc hpc
  | tick order =>
    simp only [TuiPlane.next, Option.ite_none_right_eq_some, Option.some.injEq] at h
    obtain ⟨⟨hidle, -⟩, rfl⟩ := h
    exact .tick (.quiet (by rw [hidle]; rfl) (by simp))
  | tickNext => exact tickNext_cases h
  | tickStop =>
    simp only [TuiPlane.next, Option.ite_none_right_eq_some, Option.some.injEq] at h
    obtain ⟨hidle, rfl⟩ := h
    exact .tick (.quiet (by rw [hidle]; rfl) (by simp))
  | other e =>
    simp only [TuiPlane.next, Option.ite_none_right_eq_some, Option.some.injEq] at h
    obtain ⟨hother, rfl⟩ := h
    exact .other hother
  | recv now =>
    obtain ⟨e, he, rfl⟩ := Option.map_eq_some_iff.mp h
    exact .recv he

/-! ### The registry -/

/-- The connections and the registry's map of them. -/
structure RegistryOk (s : TuiPlane) : Prop where
  ids : ∀ (i : ℕ) (c : Conn), s.conns[i]? = some c → c.handle.id = i
  nextId : s.registry.nextId = s.conns.length
  specs : ∀ c ∈ s.conns, c.handle.spec < s.specs.length
  /-- A connection that has not called `close` is in the map. -/
  registered : ∀ c ∈ s.conns, c.pc = .created ∨ c.pc = .admitting ∨ c.pc = .admitted →
    ∃ e ∈ s.registry.conns, e.1 = c.handle.id
  unstarted : ∀ c ∈ s.conns, c.pc = .created → c.handle.started = false
  started : ∀ c ∈ s.conns, c.pc = .admitting ∨ c.pc = .admitted → c.handle.started = true

section

variable {s s' : TuiPlane}

theorem RegistryOk.start (name node : String) (specs : List ForwardRow) :
    RegistryOk (.start name node specs) := by
  refine ⟨?_, rfl, ?_, ?_, ?_, ?_⟩ <;> simp [TuiPlane.start]

/-- Nobody else has the id of a connection. -/
theorem RegistryOk.ids_ne (h : RegistryOk s) {i j : ℕ} {c x : Conn} (hc : s.conns[i]? = some c)
    (hx : s.conns[j]? = some x) (hij : i ≠ j) : x.handle.id ≠ c.handle.id := by
  rw [h.ids i c hc, h.ids j x hx]
  exact hij.symm

/-- A connection moves on and keeps its id and spec; the map keeps its entry while it needs it, and
    those of the others. -/
theorem RegistryOk.set (h : RegistryOk s) {i : ℕ} {c c' : Conn} (hc : s.conns[i]? = some c)
    (hconns : s'.conns = s.conns.set i c') (hnextId : s'.registry.nextId = s.registry.nextId)
    (hspecs : s'.specs = s.specs) (hid : c'.handle.id = c.handle.id)
    (hspec : c'.handle.spec = c.handle.spec)
    (hmap : ∀ e ∈ s.registry.conns,
      (e.1 = c.handle.id → c'.pc = .created ∨ c'.pc = .admitting ∨ c'.pc = .admitted) →
        e ∈ s'.registry.conns)
    (hregistered : c'.pc = .created ∨ c'.pc = .admitting ∨ c'.pc = .admitted →
      c.pc = .created ∨ c.pc = .admitting ∨ c.pc = .admitted)
    (hunstarted : c'.pc = .created → c'.handle.started = false)
    (hstarted : c'.pc = .admitting ∨ c'.pc = .admitted → c'.handle.started = true) :
    RegistryOk s' := by
  have hmem := List.mem_of_getElem? hc
  -- in the new list: the connection as it is now, and the others, with their own ids
  have hentry : ∀ x ∈ s'.conns, x = c' ∨ x ∈ s.conns ∧ x.handle.id ≠ c.handle.id := by
    intro x hx
    rw [hconns] at hx
    obtain ⟨j, hj⟩ := List.mem_iff_getElem?.mp hx
    obtain ⟨rfl, rfl⟩ | ⟨hij, hj⟩ := getElem?_set_cases hj
    · exact .inl rfl
    · exact .inr ⟨List.mem_of_getElem? hj, h.ids_ne hc hj hij⟩
  refine ⟨?_, ?_, ?_, ?_, ?_, ?_⟩
  · intro j x hx
    rw [hconns] at hx
    obtain ⟨rfl, rfl⟩ | ⟨-, hx⟩ := getElem?_set_cases hx
    · rw [hid]
      exact h.ids i c hc
    · exact h.ids j x hx
  · rw [hnextId, hconns, List.length_set]
    exact h.nextId
  · intro x hx
    rw [hspecs]
    obtain rfl | ⟨hx, -⟩ := hentry x hx
    · rw [hspec]
      exact h.specs c hmem
    · exact h.specs x hx
  · intro x hx hpc
    obtain rfl | ⟨hx, hne⟩ := hentry x hx
    · obtain ⟨e, he, heq⟩ := h.registered c hmem (hregistered hpc)
      exact ⟨e, hmap e he fun _ => hpc, by rw [heq, hid]⟩
    · obtain ⟨e, he, heq⟩ := h.registered x hx hpc
      exact ⟨e, hmap e he fun hec => absurd (heq.symm.trans hec) hne, heq⟩
  · intro x hx hpc
    obtain rfl | ⟨hx, -⟩ := hentry x hx
    · exact hunstarted hpc
    · exact h.unstarted x hx hpc
  · intro x hx hpc
    obtain rfl | ⟨hx, -⟩ := hentry x hx
    · exact hstarted hpc
    · exact h.started x hx hpc

theorem RegistryOk.create (h : RegistryOk s) {spec : ℕ} (hspec : spec < s.specs.length)
    (peer : String) : RegistryOk (s.create spec peer) := by
  refine ⟨?_, ?_, ?_, ?_, ?_, ?_⟩
  · intro i c hc
    obtain hc | ⟨rfl, rfl⟩ := getElem?_concat_cases hc
    · exact h.ids i c hc
    · exact h.nextId
  · simp only [TuiPlane.create, RegistryInner.insert, List.length_append, List.length_singleton,
      h.nextId]
  · intro c hc
    obtain hc | hc := List.mem_append.mp hc
    · exact h.specs c hc
    · rw [List.mem_singleton.mp hc]
      exact hspec
  · intro c hc hpc
    obtain hc | hc := List.mem_append.mp hc
    · obtain ⟨e, he, hid⟩ := h.registered c hc hpc
      -- an old id is not the new one
      obtain ⟨j, hj⟩ := List.mem_iff_getElem?.mp hc
      have hlt := (List.getElem?_eq_some_iff.mp hj).1
      have hne : e.1 ≠ s.registry.nextId := by
        rw [hid, h.ids j c hj, h.nextId]
        omega
      exact ⟨e, List.mem_cons_of_mem _ (List.mem_filter.mpr ⟨he, by simpa using hne⟩), hid⟩
    · rw [List.mem_singleton.mp hc]
      exact ⟨_, List.mem_cons_self, rfl⟩
  · intro c hc hpc
    obtain hc | hc := List.mem_append.mp hc
    · exact h.unstarted c hc hpc
    · rw [List.mem_singleton.mp hc]
  · intro c hc hpc
    obtain hc | hc := List.mem_append.mp hc
    · exact h.started c hc hpc
    · rw [List.mem_singleton.mp hc] at hpc
      simp at hpc

/-- A connection that calls `close` is in the map, so it gets to send its event. -/
theorem RegistryOk.close_eq (h : RegistryOk s) {i : ℕ} {c : Conn} (hc : s.conns[i]? = some c)
    (hpc : c.pc = .created ∨ c.pc = .admitted) :
    s.close i c = { s with
      registry := (s.registry.remove c.handle.id).1
      conns := s.conns.set i { c with pc := .closing } } := by
  have hremoved : (s.registry.remove c.handle.id).2 = true := by
    obtain ⟨e, he, hid⟩ := h.registered c (List.mem_of_getElem? hc)
      (hpc.imp_right Or.inr)
    exact List.any_eq_true.mpr ⟨e, he, by simpa using hid⟩
  rw [TuiPlane.close]
  simp only [hremoved, if_true]

theorem RegistryOk.next (h : RegistryOk s) (hmove : TuiMove s s') : RegistryOk s' := by
  cases hmove with
  | create hspec => exact h.create hspec _
  | @admitConn i c hc hpc =>
    have hstarted := h.unstarted c (List.mem_of_getElem? hc) hpc
    refine h.set hc rfl rfl rfl rfl rfl (fun e he _ => he) ?_ ?_ ?_ <;> simp [hpc, hstarted]
  | @opened i c hc hpc =>
    have hstarted := h.started c (List.mem_of_getElem? hc) (.inl hpc)
    refine h.set hc rfl rfl rfl rfl rfl (fun e he _ => he) ?_ ?_ ?_ <;> simp [hpc, hstarted]
  | @count i tx rx c hc hpc =>
    have hstarted := h.started c (List.mem_of_getElem? hc) (.inr hpc)
    refine h.set hc rfl rfl rfl rfl rfl (fun e he _ => he) ?_ ?_ ?_ <;> simp [hpc, hstarted]
  | @close i c hc hpc =>
    rw [h.close_eq hc hpc]
    refine h.set hc rfl rfl rfl rfl rfl (fun e he hkeep => ?_) ?_ ?_ ?_ <;> try simp
    -- what is removed is the entry of the connection itself
    have hne : e.1 ≠ c.handle.id := fun heq => by simpa using hkeep heq
    exact List.mem_filter.mpr ⟨he, by simpa using hne⟩
  | closed hc hpc =>
    refine h.set hc rfl rfl rfl rfl rfl (fun e he _ => he) ?_ ?_ ?_ <;> simp
  | tick _ => exact ⟨h.ids, h.nextId, h.specs, h.registered, h.unstarted, h.started⟩
  | bytes _ => exact ⟨h.ids, h.nextId, h.specs, h.registered, h.unstarted, h.started⟩
  | other _ => exact ⟨h.ids, h.nextId, h.specs, h.registered, h.unstarted, h.started⟩
  | recv _ => exact ⟨h.ids, h.nextId, h.specs, h.registered, h.unstarted, h.started⟩

/-! ### The ledger -/

/-- What was sent is lawful, and says who is open and who is closed. -/
structure LedgerOk (s : TuiPlane) : Prop where
  lawful : Lawful s.sent
  forwards : (Ledger.ofEvents s.sent).forwards = s.specs.length
  rows : ∀ r, r ∈ (Ledger.ofEvents s.sent).rows ↔ ∃ c ∈ s.conns, c.isOpen = true ∧ c.key = r
  closed : ∀ id, id ∈ (Ledger.ofEvents s.sent).closed ↔
    ∃ c ∈ s.conns, c.pc = .closed ∧ c.handle.id = id

theorem LedgerOk.start (name node : String) (specs : List ForwardRow) :
    LedgerOk (.start name node specs) := by
  refine ⟨?_, rfl, ?_, ?_⟩
  · have hserver : Lawful [UiEvent.server name node] := .concat .nil trivial
    exact .concat hserver rfl
  · simp [TuiPlane.start, Ledger.ofEvents, Ledger.add]
  · simp [TuiPlane.start, Ledger.ofEvents, Ledger.add]

/-- A connection moves on without an event. -/
theorem LedgerOk.set (h : LedgerOk s) {i : ℕ} {c c' : Conn} (hc : s.conns[i]? = some c)
    (hconns : s'.conns = s.conns.set i c') (hsent : s'.sent = s.sent) (hspecs : s'.specs = s.specs)
    (hkey : c'.key = c.key) (hopen : c'.isOpen = c.isOpen) (hpc : c.pc ≠ .closed)
    (hpc' : c'.pc ≠ .closed) : LedgerOk s' := by
  refine ⟨by rw [hsent]; exact h.lawful, by rw [hsent, hspecs]; exact h.forwards, ?_, ?_⟩
  · intro r
    rw [hsent, hconns, h.rows, exists_mem_set hc, exists_mem_split hc, hopen, hkey]
  · intro id
    rw [hsent, hconns, h.closed, exists_mem_set hc, exists_mem_split hc]
    simp only [hpc, hpc', false_and]

/-- An event that changes nothing in the ledger. -/
theorem LedgerOk.send (h : LedgerOk s) {e : UiEvent} (hfollows : Follows s.sent e)
    (hadd : (Ledger.ofEvents s.sent).add e = Ledger.ofEvents s.sent) (hconns : s'.conns = s.conns)
    (hsent : s'.sent = s.sent ++ [e]) (hspecs : s'.specs = s.specs) : LedgerOk s' := by
  refine ⟨?_, ?_, ?_, ?_⟩
  · rw [hsent]
    exact .concat h.lawful hfollows
  · rw [hsent, Ledger.ofEvents_concat, hadd, hspecs]
    exact h.forwards
  · rw [hsent, Ledger.ofEvents_concat, hadd, hconns]
    exact h.rows
  · rw [hsent, Ledger.ofEvents_concat, hadd, hconns]
    exact h.closed

theorem LedgerOk.create (h : LedgerOk s) (spec : ℕ) (peer : String) :
    LedgerOk (s.create spec peer) := by
  refine ⟨h.lawful, h.forwards, fun r => ?_, fun id => ?_⟩
  · rw [show (s.create spec peer).sent = s.sent from rfl, h.rows]
    simp [TuiPlane.create, Conn.isOpen, or_and_right, exists_or]
  · rw [show (s.create spec peer).sent = s.sent from rfl, h.closed]
    simp [TuiPlane.create, or_and_right, exists_or]

/-- Who has not closed is not among the closed. -/
theorem LedgerOk.not_closed (h : LedgerOk s) (hreg : RegistryOk s) {i : ℕ} {c : Conn}
    (hc : s.conns[i]? = some c) (hpc : c.pc ≠ .closed) :
    c.handle.id ∉ (Ledger.ofEvents s.sent).closed := by
  intro hmem
  obtain ⟨hclosed, -⟩ | ⟨j, x, hij, hx, -, hid⟩ := (exists_mem_split hc).mp ((h.closed _).mp hmem)
  · exact hpc hclosed
  · exact hreg.ids_ne hc hx hij hid

theorem LedgerOk.opened (h : LedgerOk s) (hreg : RegistryOk s) {i : ℕ} {c : Conn}
    (hc : s.conns[i]? = some c) (hpc : c.pc = .admitting) :
    LedgerOk { s.send (.connectionOpened c.handle.id c.handle.peer c.handle.spec) with
      conns := s.conns.set i { c with pc := .admitted } } := by
  -- the only connection with this id is still admitting, so it has no row
  have hnew : c.handle.id ∉ (Ledger.ofEvents s.sent).rows.map Prod.fst := by
    intro hmem
    obtain ⟨r, hr, hid⟩ := List.mem_map.mp hmem
    obtain ⟨hopen, -⟩ | ⟨j, x, hij, hx, -, rfl⟩ := (exists_mem_split hc).mp ((h.rows r).mp hr)
    · simp [Conn.isOpen, hpc] at hopen
    · exact hreg.ids_ne hc hx hij hid
  have hclosed := h.not_closed hreg hc (by simp [hpc])
  have hspec : c.handle.spec < (Ledger.ofEvents s.sent).forwards := by
    rw [h.forwards]
    exact hreg.specs c (List.mem_of_getElem? hc)
  refine ⟨.concat h.lawful ⟨hspec, hnew, hclosed⟩, ?_, ?_, ?_⟩
  · simp only [TuiPlane.send, Ledger.ofEvents_concat]
    exact h.forwards
  · intro r
    simp only [TuiPlane.send, Ledger.ofEvents_concat, Ledger.add, List.mem_append,
      List.mem_singleton]
    rw [exists_mem_set hc, h.rows, exists_mem_split hc]
    simp only [Conn.isOpen, hpc, Bool.false_eq_true, false_and, false_or, true_and]
    rw [or_comm, eq_comm]
    rfl
  · intro id
    simp only [TuiPlane.send, Ledger.ofEvents_concat, Ledger.add]
    rw [exists_mem_set hc, h.closed, exists_mem_split hc]
    simp only [hpc, reduceCtorEq, false_and]

theorem LedgerOk.closing (h : LedgerOk s) (hreg : RegistryOk s) {i : ℕ} {c : Conn}
    (hc : s.conns[i]? = some c) (hpc : c.pc = .closing) :
    LedgerOk { s.send (.connectionClosed c.handle.id) with
      conns := s.conns.set i { c with pc := .closed } } := by
  have hclosed := h.not_closed hreg hc (by simp [hpc])
  refine ⟨.concat h.lawful hclosed, ?_, ?_, ?_⟩
  · simp only [TuiPlane.send, Ledger.ofEvents_concat]
    exact h.forwards
  · intro r
    simp only [TuiPlane.send, Ledger.ofEvents_concat, Ledger.add, List.mem_filter]
    rw [exists_mem_set hc, h.rows, exists_mem_split hc]
    -- the filter by id takes out its own row and no other
    constructor
    · rintro ⟨⟨-, rfl⟩ | hother, hne⟩
      · simp [Conn.key] at hne
      · exact .inr hother
    · rintro (⟨hopen, -⟩ | ⟨j, x, hij, hx, hopen, rfl⟩)
      · simp [Conn.isOpen] at hopen
      · exact ⟨.inr ⟨j, x, hij, hx, hopen, rfl⟩, by simpa [Conn.key] using hreg.ids_ne hc hx hij⟩
  · intro id
    simp only [TuiPlane.send, Ledger.ofEvents_concat, Ledger.add, List.mem_append,
      List.mem_singleton]
    rw [exists_mem_set hc, h.closed, exists_mem_split hc]
    simp only [hpc, reduceCtorEq, false_and, false_or, true_and]
    rw [or_comm, eq_comm]

theorem LedgerOk.next (h : LedgerOk s) (hreg : RegistryOk s) (hmove : TuiMove s s')
    (hbytes : ∀ id tx rx rows, s.tick = .send ((id, tx, rx) :: rows) →
      Follows s.sent (.connectionBytes id tx rx)) : LedgerOk s' := by
  cases hmove with
  | create _ => exact h.create _ _
  | @admitConn i c hc hpc =>
    have hstarted := hreg.unstarted c (List.mem_of_getElem? hc) hpc
    refine h.set hc rfl rfl rfl rfl ?_ ?_ ?_ <;> simp [Conn.isOpen, hpc, hstarted]
  | opened hc hpc => exact h.opened hreg hc hpc
  | count hc hpc => refine h.set hc rfl rfl rfl rfl ?_ ?_ ?_ <;> simp [Conn.isOpen, hpc]
  | @close i c hc hpc =>
    rw [hreg.close_eq hc hpc]
    have hmem := List.mem_of_getElem? hc
    -- a refused connection has no row before its event; an admitted one keeps it until then
    obtain hpc | hpc := hpc
    · have hstarted := hreg.unstarted c hmem hpc
      refine h.set hc rfl rfl rfl rfl ?_ ?_ ?_ <;> simp [Conn.isOpen, hpc, hstarted]
    · have hstarted := hreg.started c hmem (.inr hpc)
      refine h.set hc rfl rfl rfl rfl ?_ ?_ ?_ <;> simp [Conn.isOpen, hpc, hstarted]
  | closed hc hpc => exact h.closing hreg hc hpc
  | tick _ => exact ⟨h.lawful, h.forwards, h.rows, h.closed⟩
  | bytes htick => exact h.send (hbytes _ _ _ _ htick) rfl rfl rfl rfl
  | @other e hother =>
    -- not about a connection: it may come at any time and leaves the ledger alone
    refine h.send ?_ ?_ rfl rfl rfl
    · cases e <;> trivial
    · cases e <;> first | rfl | simp [UiEvent.isOther] at hother
  | recv _ => exact ⟨h.lawful, h.forwards, h.rows, h.closed⟩

/-! ### The byte counts -/

/-- What connection `id` has counted. -/
def counter (conns : List Conn) (d : Side) (id : ℕ) : ℕ :=
  (conns[id]?.map fun c => c.handle.bytes d).getD 0

/-- The counts that were sent, and those on their way. -/
def TuiPlane.counts (s : TuiPlane) : List (ℕ × ℕ × ℕ) :=
  s.sent.filterMap UiEvent.counts ++ s.tick.pending

/-- The counts do not exceed their counters, and those of a connection do not fall. -/
structure CountsOk (s : TuiPlane) : Prop where
  counted : ∀ b ∈ s.counts, ∀ d : Side, d.of b.2.1 b.2.2 ≤ counter s.conns d b.1
  rising : s.counts.Pairwise (fun a b => a.1 = b.1 → ∀ d : Side, d.of a.2.1 a.2.2 ≤ d.of b.2.1 b.2.2)
  /-- The first of two counters has been read. -/
  reading : ∀ i tx todo acc, s.tick = .readRx i tx todo acc →
    tx ≤ counter s.conns .tx i ∧ ∀ b ∈ s.counts, b.1 = i → b.2.1 ≤ tx

theorem CountsOk.start (name node : String) (specs : List ForwardRow) :
    CountsOk (.start name node specs) := by
  have hcounts : (TuiPlane.start name node specs).counts = [] := rfl
  refine ⟨by simp [hcounts], by simp [hcounts], ?_⟩
  intro i tx todo acc hread
  cases hread

theorem counter_of_getElem? {conns : List Conn} {i : ℕ} {c : Conn} (h : conns[i]? = some c)
    (d : Side) : counter conns d i = c.handle.bytes d := by
  rw [counter, h]
  rfl

theorem counter_le_set {conns : List Conn} {i : ℕ} {c c' : Conn} (hc : conns[i]? = some c)
    (d : Side) (hle : c.handle.bytes d ≤ c'.handle.bytes d) (id : ℕ) :
    counter conns d id ≤ counter (conns.set i c') d id := by
  by_cases hid : i = id
  · subst hid
    rw [counter_of_getElem? hc, counter, List.getElem?_set_self (List.getElem?_eq_some_iff.mp hc).1]
    exact hle
  · rw [counter, counter, List.getElem?_set_ne hid]

theorem counter_le_concat (conns : List Conn) (c : Conn) (d : Side) (id : ℕ) :
    counter conns d id ≤ counter (conns ++ [c]) d id := by
  cases hid : conns[id]? with
  | none =>
    rw [counter, hid]
    exact Nat.zero_le _
  | some x => rw [counter_of_getElem? hid, counter_of_getElem? (getElem?_concat_of_some hid)]

/-- Counters grow and nothing new is on its way. -/
theorem CountsOk.grow (h : CountsOk s)
    (hcounter : ∀ d id, counter s.conns d id ≤ counter s'.conns d id)
    (hcounts : s'.counts = s.counts) (htick : ∀ i tx todo acc, s'.tick = .readRx i tx todo acc →
      s.tick = .readRx i tx todo acc) : CountsOk s' := by
  refine ⟨?_, by rw [hcounts]; exact h.rising, ?_⟩
  · intro b hb d
    rw [hcounts] at hb
    exact (h.counted b hb d).trans (hcounter d b.1)
  · intro i tx todo acc hread
    obtain ⟨hle, hbefore⟩ := h.reading i tx todo acc (htick i tx todo acc hread)
    rw [hcounts]
    exact ⟨hle.trans (hcounter .tx i), hbefore⟩

/-- A connection moves on, and an event that is not about bytes may be sent. -/
theorem CountsOk.set (h : CountsOk s) {i : ℕ} {c c' : Conn} (hc : s.conns[i]? = some c)
    (hconns : s'.conns = s.conns.set i c') (htick : s'.tick = s.tick)
    (hsent : s'.sent.filterMap UiEvent.counts = s.sent.filterMap UiEvent.counts)
    (hle : ∀ d, c.handle.bytes d ≤ c'.handle.bytes d) : CountsOk s' := by
  refine h.grow (fun d id => ?_) ?_ ?_
  · rw [hconns]
    exact counter_le_set hc d (hle d) id
  · rw [TuiPlane.counts, TuiPlane.counts, hsent, htick]
  · rw [htick]
    exact fun _ _ _ _ hread => hread

theorem CountsOk.tick (h : CountsOk s) (hreg : RegistryOk s) {pc : TickPc} (hmove : TickMove s pc) :
    CountsOk { s with tick := pc } := by
  cases hmove with
  | quiet hpending hread =>
    refine h.grow (fun _ _ => Nat.le_refl _) ?_ ?_
    · rw [TuiPlane.counts, hpending]
      rfl
    · intro i tx todo acc htick
      exact absurd htick (hread i tx todo acc)
  | @readTx i todo acc c htick hc =>
    have hcounts : TuiPlane.counts { s with tick := .readRx i c.handle.tx todo acc } = s.counts := by
      rw [TuiPlane.counts, TuiPlane.counts, htick]
      rfl
    refine ⟨by rw [hcounts]; exact h.counted, by rw [hcounts]; exact h.rising, ?_⟩
    intro j tx todo' acc' hread
    cases hread
    rw [hcounts]
    have hcounter : counter s.conns .tx i = c.handle.tx := counter_of_getElem? hc .tx
    -- every count before this one was read from a counter no larger than now
    refine ⟨hcounter.ge, ?_⟩
    rintro b hb rfl
    rw [← hcounter]
    exact h.counted b hb .tx
  | @readRx i tx todo acc c htick hc =>
    obtain ⟨hle, hbefore⟩ := h.reading i tx todo acc htick
    have hid := hreg.ids i c hc
    have hcounter : counter s.conns .rx i = c.handle.rx := counter_of_getElem? hc .rx
    have hcounts : TuiPlane.counts { s with tick := .scan todo (acc ++ [(c.handle.id, tx, c.handle.rx)]) }
        = s.counts ++ [(i, tx, c.handle.rx)] := by
      rw [TuiPlane.counts, TuiPlane.counts, htick, hid, List.append_assoc]
      rfl
    refine ⟨?_, ?_, ?_⟩
    · intro b hb d
      rw [hcounts] at hb
      obtain hb | hb := List.mem_append.mp hb
      · exact h.counted b hb d
      · rw [List.mem_singleton.mp hb]
        cases d with
        | tx => exact hle
        | rx => exact hcounter.ge
    · rw [hcounts, List.pairwise_append]
      refine ⟨h.rising, List.pairwise_singleton _ _, fun a ha b hb hab d => ?_⟩
      rw [List.mem_singleton.mp hb] at hab ⊢
      cases d with
      | tx => exact hbefore a ha hab
      | rx =>
        have hcounted := h.counted a ha .rx
        rw [hab, hcounter] at hcounted
        exact hcounted
    · intro j tx' todo' acc' hread
      cases hread

/-- What the tick sends may follow what was sent. -/
theorem CountsOk.follows (h : CountsOk s) {id tx rx : ℕ} {rows : List (ℕ × ℕ × ℕ)}
    (htick : s.tick = .send ((id, tx, rx) :: rows)) :
    Follows s.sent (.connectionBytes id tx rx) := by
  intro b hb hid
  have hrising := h.rising
  rw [TuiPlane.counts, htick] at hrising
  exact (List.pairwise_append.mp hrising).2.2 b hb _ List.mem_cons_self hid

theorem CountsOk.next (h : CountsOk s) (hreg : RegistryOk s) (hmove : TuiMove s s') :
    CountsOk s' := by
  cases hmove with
  | create _ =>
    refine h.grow (fun d id => counter_le_concat _ _ d id) rfl ?_
    exact fun _ _ _ _ hread => hread
  | admitConn hc _ => exact h.set hc rfl rfl rfl (fun _ => Nat.le_refl _)
  | opened hc _ => exact h.set hc rfl rfl (filterMap_counts_concat rfl) (fun _ => Nat.le_refl _)
  | count hc _ =>
    refine h.set hc rfl rfl rfl (fun d => ?_)
    cases d <;> exact Nat.le_add_right _ _
  | close hc hpc =>
    rw [hreg.close_eq hc hpc]
    exact h.set hc rfl rfl rfl (fun _ => Nat.le_refl _)
  | closed hc _ => exact h.set hc rfl rfl (filterMap_counts_concat rfl) (fun _ => Nat.le_refl _)
  | tick htick => exact h.tick hreg htick
  | @bytes id tx rx rows htick =>
    refine h.grow (fun _ _ => Nat.le_refl _) ?_ ?_
    · rw [TuiPlane.counts, TuiPlane.counts, htick]
      simp [TuiPlane.send, TickPc.pending, UiEvent.counts]
    · intro i tx' todo acc hread
      cases hread
  | @other e hother =>
    refine h.grow (fun _ _ => Nat.le_refl _) ?_ ?_
    · have hcounts : e.counts = none := by
        cases e <;> first | rfl | simp [UiEvent.isOther] at hother
      rw [TuiPlane.counts, TuiPlane.send, filterMap_counts_concat hcounts]
      rfl
    · exact fun _ _ _ _ hread => hread
  | recv _ => exact ⟨h.counted, h.rising, h.reading⟩

/-! ### The model -/

/-- The model shows what it has taken from the channel. -/
structure ViewOk (s : TuiPlane) : Prop where
  applied : s.applied ≤ s.sent.length
  shows : Shows s.model (s.sent.take s.applied)

theorem ViewOk.send (h : ViewOk s) {e : UiEvent} (hsent : s'.sent = s.sent ++ [e])
    (happlied : s'.applied = s.applied) (hmodel : s'.model = s.model) : ViewOk s' := by
  refine ⟨?_, ?_⟩
  · rw [happlied, hsent, List.length_append]
    exact h.applied.trans (Nat.le_add_right _ _)
  · rw [happlied, hmodel, hsent, List.take_append_of_le_length h.applied]
    exact h.shows

/-- The next event may follow those applied. -/
theorem LedgerOk.follows (h : LedgerOk s) {e : UiEvent} (he : s.sent[s.applied]? = some e) :
    s.sent.take (s.applied + 1) = s.sent.take s.applied ++ [e] ∧
      Follows (s.sent.take s.applied) e := by
  have htake : s.sent.take (s.applied + 1) = s.sent.take s.applied ++ [e] := by
    rw [List.take_add_one, he]
    rfl
  have hlawful := h.lawful.take (s.applied + 1)
  rw [htake] at hlawful
  exact ⟨htake, hlawful.of_concat.2⟩

theorem ViewOk.next (h : ViewOk s) (hledger : LedgerOk s) (hreg : RegistryOk s)
    (hmove : TuiMove s s') : ViewOk s' := by
  cases hmove with
  | create _ => exact ⟨h.applied, h.shows⟩
  | admitConn _ _ => exact ⟨h.applied, h.shows⟩
  | opened _ _ => exact h.send rfl rfl rfl
  | count _ _ => exact ⟨h.applied, h.shows⟩
  | close hc hpc =>
    rw [hreg.close_eq hc hpc]
    exact ⟨h.applied, h.shows⟩
  | closed _ _ => exact h.send rfl rfl rfl
  | tick _ => exact ⟨h.applied, h.shows⟩
  | bytes _ => exact h.send rfl rfl rfl
  | other _ => exact h.send rfl rfl rfl
  | @recv now e he =>
    obtain ⟨htake, hfollows⟩ := hledger.follows he
    refine ⟨(List.getElem?_eq_some_iff.mp he).1, ?_⟩
    rw [htake]
    exact h.shows.apply hfollows now

/-- What every run keeps. -/
structure TuiInv (s : TuiPlane) : Prop where
  registry : RegistryOk s
  ledger : LedgerOk s
  counts : CountsOk s
  view : ViewOk s

theorem TuiInv.next (h : TuiInv s) {a : TuiAct} (hn : s.next a = some s') : TuiInv s' := by
  have hmove := next_cases hn
  exact ⟨h.registry.next hmove,
    h.ledger.next h.registry hmove (fun _ _ _ _ htick => h.counts.follows htick),
    h.counts.next h.registry hmove, h.view.next h.ledger h.registry hmove⟩

theorem tuiInv_of_reach (h : Reach tuiSystem anyStep s) : TuiInv s := by
  refine h.invariant ?_ (fun _ _ _ _ hs _ hn => hs.next hn)
  rintro _ ⟨name, node, specs, rfl⟩
  exact ⟨.start name node specs, .start name node specs, .start name node specs,
    ⟨Nat.zero_le _, .default⟩⟩

/-! ### What the terminal shows -/

theorem RegistryOk.ids_nodup (h : RegistryOk s) : (s.conns.map fun c => c.handle.id).Nodup := by
  have hids : (s.conns.map fun c => c.handle.id) = List.range s.conns.length := by
    refine List.ext_getElem (by simp) fun i hi hi' => ?_
    rw [List.getElem_map, List.getElem_range]
    exact h.ids i _ (List.getElem?_eq_getElem _)
  rw [hids]
  exact List.nodup_range

/-- The bytes all connections have counted. -/
def TuiPlane.counted (s : TuiPlane) (d : Side) : ℕ := (s.conns.map fun c => c.handle.bytes d).sum

/-- Distinct connections have not counted more than all of them. -/
theorem sum_counter_le (conns : List Conn) (d : Side) {ids : List ℕ} (h : ids.Nodup) :
    (ids.map (counter conns d)).sum ≤ (conns.map fun c => c.handle.bytes d).sum := by
  -- an id is a place in `conns`: sum over places, where one past the end counts nothing
  have hall : ∑ i ∈ Finset.range conns.length, counter conns d i =
      (conns.map fun c => c.handle.bytes d).sum := by
    rw [Finset.sum_range, ← Fin.sum_univ_fun_getElem]
    exact Finset.sum_congr rfl fun i _ => counter_of_getElem? (List.getElem?_eq_getElem i.2) d
  rw [← hall, ← List.sum_toFinset _ h]
  refine Finset.sum_le_sum_of_ne_zero fun i _ hi => ?_
  rw [Finset.mem_range]
  by_contra hlen
  exact hi (by rw [counter, List.getElem?_eq_none (Nat.le_of_not_lt hlen)]; rfl)

theorem TuiInv.shown_le (h : TuiInv s) (d : Side) : s.model.shown d ≤ s.counted d := by
  have hwell := (h.ledger.lawful.take s.applied).wellFormed
  have hshows := h.view.shows
  have hcounted : ∀ b ∈ (s.sent.take s.applied).filterMap UiEvent.counts,
      d.of b.2.1 b.2.2 ≤ counter s.conns d b.1 := by
    intro b hb
    refine h.counts.counted b (List.mem_append_left _ ?_) d
    exact (List.take_sublist _ _).filterMap _ |>.subset hb
  have hrows : (s.model.connections.map (ConnRow.bytes d)).sum ≤
      ((s.model.connections.map ConnRow.id).map (counter s.conns d)).sum := by
    rw [List.map_map]
    exact List.sum_le_sum fun row hrow => hshows.row_le hcounted hrow
  have hids : s.model.connections.map ConnRow.id =
      (Ledger.ofEvents (s.sent.take s.applied)).rows.map Prod.fst := by
    rw [← hshows.rows, List.map_map]
    rfl
  -- nobody is shown and closed, so no counter is used twice below
  have hnodup : ((Ledger.ofEvents (s.sent.take s.applied)).closed ++
      s.model.connections.map ConnRow.id).Nodup := by
    rw [hids]
    refine hwell.closed_nodup.append hwell.rows_nodup ?_
    intro id hclosed hrow
    obtain ⟨r, hr, rfl⟩ := List.mem_map.mp hrow
    exact hwell.disjoint r hr hclosed
  calc s.model.shown d
      ≤ ((Ledger.ofEvents (s.sent.take s.applied)).closed.map (counter s.conns d)).sum +
          ((s.model.connections.map ConnRow.id).map (counter s.conns d)).sum :=
        Nat.add_le_add (hshows.total _ d hcounted) hrows
    _ = (((Ledger.ofEvents (s.sent.take s.applied)).closed ++
          s.model.connections.map ConnRow.id).map (counter s.conns d)).sum := by
        rw [List.map_append, List.sum_append]
    _ ≤ s.counted d := sum_counter_le s.conns d hnodup

/-- A step takes nothing back of what was shown. -/
theorem TuiInv.shown_mono (h : TuiInv s) {a : TuiAct} (hn : s.next a = some s') (d : Side) :
    s.model.shown d ≤ s'.model.shown d := by
  cases next_cases hn with
  | @recv now e he =>
    obtain ⟨-, hfollows⟩ := h.ledger.follows he
    exact h.view.shows.shown_le (h.ledger.lawful.take _) hfollows now d
  | close hc hpc => rw [h.registry.close_eq hc hpc]
  | _ => exact Nat.le_refl _

theorem sum_modify_succ {l : List ℕ} {i : ℕ} (h : i < l.length) :
    (l.modify i (· + 1)).sum = l.sum + 1 := by
  induction l generalizing i with
  | nil => simp at h
  | cons n l ih =>
    cases i with
    | zero =>
      simp only [List.modify_zero_cons, List.sum_cons]
      omega
    | succ i =>
      rw [List.modify_succ_cons, List.sum_cons, List.sum_cons, ih (by simpa using h)]
      omega

/-- Counting rows forward by forward misses none. -/
theorem sum_activePerForward {m : ConnectModel}
    (h : ∀ row ∈ m.connections, row.spec < m.forwards.length) :
    m.activePerForward.sum = m.connections.length := by
  have hfold : ∀ (rows : List ConnRow) (counts : List ℕ), (∀ row ∈ rows, row.spec < counts.length) →
      (rows.foldl (fun counts c => counts.modify c.spec (· + 1)) counts).sum =
        counts.sum + rows.length := by
    intro rows
    induction rows with
    | nil => intro counts _; rfl
    | cons row rows ih =>
      intro counts hspecs
      rw [List.foldl_cons, ih, sum_modify_succ (hspecs row List.mem_cons_self), List.length_cons]
      · omega
      · intro row' hrow'
        rw [List.length_modify]
        exact hspecs row' (List.mem_cons_of_mem row hrow')
  rw [ConnectModel.activePerForward, hfold _ _ (by simpa using h), List.sum_replicate]
  simp

theorem TuiInv.activePerForward (h : TuiInv s) :
    s.model.activePerForward.sum = s.model.connections.length := by
  refine sum_activePerForward fun row hrow => ?_
  rw [h.view.shows.forwards]
  refine (h.ledger.lawful.take s.applied).wellFormed.specs row.key ?_
  rw [← h.view.shows.rows]
  exact List.mem_map_of_mem hrow

/-- Everything sent has been applied. -/
def TuiPlane.Drained (s : TuiPlane) : Prop := s.applied = s.sent.length

theorem TuiInv.rows (h : TuiInv s) (hdrained : s.Drained) :
    (s.model.connections.map ConnRow.key).Perm ((s.conns.filter Conn.isOpen).map Conn.key) := by
  have hrows : s.model.connections.map ConnRow.key = (Ledger.ofEvents s.sent).rows := by
    rw [h.view.shows.rows, hdrained, List.take_length]
  have hnodup : (s.model.connections.map ConnRow.key).Nodup := by
    rw [hrows]
    exact .of_map _ h.ledger.lawful.wellFormed.rows_nodup
  have hopen : ((s.conns.filter Conn.isOpen).map Conn.key).Nodup := by
    refine .of_map Prod.fst ?_
    rw [List.map_map]
    exact h.registry.ids_nodup.sublist (List.filter_sublist.map _)
  -- two lists without repetition: it is enough that they have the same members
  rw [List.perm_ext_iff_of_nodup hnodup hopen]
  intro r
  rw [hrows, h.ledger.rows]
  simp only [List.mem_map, List.mem_filter, and_assoc]

theorem TuiInv.closedTotal (h : TuiInv s) (hdrained : s.Drained) :
    s.model.closedTotal = s.conns.countP (fun c => c.pc = .closed) := by
  have hperm : (Ledger.ofEvents s.sent).closed.Perm
      ((s.conns.filter (fun c => c.pc = .closed)).map fun c => c.handle.id) := by
    refine (List.perm_ext_iff_of_nodup h.ledger.lawful.wellFormed.closed_nodup ?_).mpr fun id => ?_
    · exact h.registry.ids_nodup.sublist (List.filter_sublist.map _)
    · rw [h.ledger.closed]
      simp only [List.mem_map, List.mem_filter, decide_eq_true_eq, and_assoc]
  rw [h.view.shows.closed, hdrained, List.take_length, hperm.length_eq, List.length_map,
    List.countP_eq_length_filter]

/-- **The terminal mirrors the registry.**  Whatever the connections, the tick and the terminal task
    do, and in whatever order: once the channel is drained there is one row for each connection
    that is admitted and not closed, and the closed ones are counted; the rows are all counted by
    forward; and the bytes shown, either way, are bytes that were counted and never fall. -/
theorem model_mirrors_registry (h : Reach tuiSystem anyStep s) :
    (s.Drained →
      (s.model.connections.map ConnRow.key).Perm ((s.conns.filter Conn.isOpen).map Conn.key) ∧
      s.model.closedTotal = s.conns.countP (fun c => c.pc = .closed)) ∧
    s.model.activePerForward.sum = s.model.connections.length ∧
    ∀ d, s.model.shown d ≤ s.counted d ∧
      ∀ acts s', exec tuiSystem (fun _ _ => true) s acts = some s' →
        s.model.shown d ≤ s'.model.shown d := by
  have hinv := tuiInv_of_reach h
  refine ⟨fun hdrained => ⟨hinv.rows hdrained, hinv.closedTotal hdrained⟩, hinv.activePerForward,
    fun d => ⟨hinv.shown_le d, fun acts s' hexec => ?_⟩⟩
  refine exec_mono (f := fun s => s.model.shown d) (C := anyStep) (fun _ _ _ => trivial) ?_ h hexec
  intro s a s' hs hn
  exact (tuiInv_of_reach hs).shown_mono hn d

end

/-- Two connections.  The first is admitted, counted and closed while the tick is on its way with
    its counts; the second is refused.  Then a third one is admitted, and its counts are read
    before the terminal knows of it. -/
def staleTickTasks : List TuiAct :=
  [.create 0 "127.0.0.1:5", .admitConn 0, .sendOpened 0, .count 0 100 200, .tick [(0, 0)], .tickNext,
    .tickNext, .count 0 1 2, .tickNext, .tickNext, .tickNext, .tickNext, .tick [(0, 0)], .tickNext,
    .tickNext, .tickNext, .tickNext, .create 1 "127.0.0.1:6", .close 0, .sendClosed 0, .tickNext,
    .close 1, .sendClosed 1, .tickNext, .create 1 "127.0.0.1:7", .admitConn 2, .tick [(2, 2)], .tickNext,
    .tickNext, .tickNext, .tickNext, .tickNext, .sendOpened 2, .count 2 7 7]

/-- And the terminal takes all of it. -/
def staleTickRun : List TuiAct := staleTickTasks ++ (List.range 9).map .recv

def TuiPlane.view (s : TuiPlane) : List ConnRow × ℕ × ℕ × ℕ × ℕ × ℕ :=
  (s.model.connections, s.model.closedTotal, s.model.totalTx, s.model.totalRx, s.applied,
    s.sent.length)

theorem model_mirrors_registry_stale_tick : ∃ s, Reach tuiSystem anyStep s ∧ s.Drained ∧
    s.view = ([⟨2, "127.0.0.1:7", 1, 8, 0, 0⟩], 2, 100, 202, 9, 9) ∧
    s.model.closedTotal = s.conns.countP (fun c => c.pc = .closed) ∧
    s.model.shown .rx ≤ s.counted .rx := by
  have hrun : (exec tuiSystem (fun _ _ => true)
      (.start "lab" "z6h7" [⟨"127.0.0.1:2222", "localhost:22"⟩, ⟨"127.0.0.1:5432", "db:5432"⟩])
      staleTickRun).map TuiPlane.view = some ([⟨2, "127.0.0.1:7", 1, 8, 0, 0⟩], 2, 100, 202, 9, 9) := by
    decide +kernel
  obtain ⟨s, hs, hview⟩ := reach_of_exec_map (C := anyStep) (fun _ _ _ => trivial) hrun
    (.init ⟨_, _, _, rfl⟩)
  have hdrained : s.Drained := by
    simp only [TuiPlane.view, Prod.mk.injEq] at hview
    rw [TuiPlane.Drained, hview.2.2.2.2.1, hview.2.2.2.2.2]
  obtain ⟨hmirror, -, hbytes⟩ := model_mirrors_registry hs
  exact ⟨s, hs, hdrained, hview, (hmirror hdrained).2, (hbytes .rx).1⟩

/-! ### Sixty-four bits -/

/-- The ids and the counters, `u64` in the source, are that small. -/
structure TuiPlane.FitsU64 (s : TuiPlane) : Prop where
  nextId : s.registry.nextId < UInt64.size
  handles : ∀ c ∈ s.conns, c.handle.id < UInt64.size ∧ ∀ d, c.handle.bytes d < UInt64.size
  rows : ∀ row ∈ s.model.connections, row.id < UInt64.size ∧ ∀ d, row.bytes d < UInt64.size
  closedTotal : s.model.closedTotal < UInt64.size
  totals : ∀ d, s.model.total d < UInt64.size

/-- The connections a ledger knows of. -/
def Ledger.ids (l : Ledger) : List ℕ := l.rows.map Prod.fst ++ l.closed

theorem Ledger.ids_add {l : Ledger} {id : ℕ} (h : id ∈ l.ids) (e : UiEvent) :
    id ∈ (l.add e).ids := by
  cases e with
  | connectionOpened id' peer spec =>
    simp only [Ledger.ids, Ledger.add, List.map_append, List.mem_append] at h ⊢
    exact h.imp_left .inl
  | connectionClosed id' =>
    -- what is no longer open is closed
    simp only [Ledger.ids, Ledger.add, List.mem_append, List.mem_map, List.mem_filter, bne_iff_ne,
      List.mem_singleton] at h ⊢
    by_cases hid : id = id'
    · exact .inr (.inr hid)
    · refine h.imp ?_ .inl
      rintro ⟨r, hr, rfl⟩
      exact ⟨r, ⟨hr, hid⟩, rfl⟩
  | _ => exact h

/-- Later events take none away. -/
theorem Ledger.ids_take {es : List UiEvent} {n id : ℕ}
    (h : id ∈ (Ledger.ofEvents (es.take n)).ids) : id ∈ (Ledger.ofEvents es).ids := by
  have hfold : ∀ (later : List UiEvent) (l : Ledger), id ∈ l.ids →
      id ∈ (later.foldl add l).ids := by
    intro later
    induction later with
    | nil => exact fun _ hl => hl
    | cons e later ih => exact fun l hl => ih _ (ids_add hl e)
  have hsplit : Ledger.ofEvents es = (es.drop n).foldl add (Ledger.ofEvents (es.take n)) := by
    rw [ofEvents, ofEvents, ← List.foldl_append, List.take_append_drop]
  rw [hsplit]
  exact hfold _ _ h

section

variable {s : TuiPlane}

theorem TuiInv.id_lt (h : TuiInv s) {id : ℕ}
    (hid : id ∈ (Ledger.ofEvents (s.sent.take s.applied)).ids) : id < s.conns.length := by
  have hconn : ∃ c ∈ s.conns, c.handle.id = id := by
    rcases List.mem_append.mp (Ledger.ids_take hid) with hrow | hclosed
    · obtain ⟨r, hr, rfl⟩ := List.mem_map.mp hrow
      obtain ⟨c, hc, -, rfl⟩ := (h.ledger.rows r).mp hr
      exact ⟨c, hc, rfl⟩
    · obtain ⟨c, hc, -, hcid⟩ := (h.ledger.closed id).mp hclosed
      exact ⟨c, hc, hcid⟩
  obtain ⟨c, hc, rfl⟩ := hconn
  obtain ⟨i, hi⟩ := List.getElem?_of_mem hc
  rw [h.registry.ids i c hi]
  exact (List.getElem?_eq_some_iff.mp hi).1

/-- **As long as there are fewer than 2^64 connections and counted bytes**, either way, no addition
    of the source wraps around: its `u64`s are the numbers here. -/
theorem fitsU64_of_reach (h : Reach tuiSystem anyStep s) (hconns : s.conns.length < UInt64.size)
    (hbytes : ∀ d, s.counted d < UInt64.size) : s.FitsU64 := by
  have hinv := tuiInv_of_reach h
  have hshown : ∀ d, s.model.shown d < UInt64.size := fun d => (hinv.shown_le d).trans_lt (hbytes d)
  refine ⟨?_, fun c hc => ⟨?_, fun d => ?_⟩, fun row hrow => ⟨?_, fun d => ?_⟩, ?_, fun d => ?_⟩
  · rw [hinv.registry.nextId]
    exact hconns
  · obtain ⟨i, hi⟩ := List.getElem?_of_mem hc
    rw [hinv.registry.ids i c hi]
    exact (List.getElem?_eq_some_iff.mp hi).1.trans hconns
  · refine lt_of_le_of_lt ?_ (hbytes d)
    exact List.single_le_sum (fun _ _ => Nat.zero_le _) _ (List.mem_map_of_mem hc)
  · refine (hinv.id_lt (List.mem_append_left _ ?_)).trans hconns
    rw [← hinv.view.shows.rows, List.map_map]
    exact List.mem_map_of_mem hrow
  · refine lt_of_le_of_lt ?_ (hshown d)
    exact (List.single_le_sum (fun _ _ => Nat.zero_le _) _ (List.mem_map_of_mem hrow)).trans
      (Nat.le_add_left _ _)
  · -- the closed ones have distinct ids, and these are places in `conns`
    rw [hinv.view.shows.closed]
    refine lt_of_le_of_lt ?_ hconns
    rw [← List.length_range (n := s.conns.length)]
    refine (hinv.ledger.lawful.take s.applied).wellFormed.closed_nodup.length_le_of_subset ?_
    intro id hid
    exact List.mem_range.mpr (hinv.id_lt (List.mem_append_right _ hid))
  · exact lt_of_le_of_lt (Nat.le_add_right _ _) (hshown d)

end

end Tmite.Client
