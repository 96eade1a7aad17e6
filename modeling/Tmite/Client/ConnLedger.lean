import Mathlib.Algebra.Ring.Nat
import Mathlib.Data.List.Nodup
import Tmite.Client.ConnModel
import Tmite.Daemon.StoreInv

namespace Tmite.Client

open Tmite.Daemon

/-!
# What the events of a `connect` say

A list of events has a `Ledger`: the connections it leaves open and those it has closed.  The list is
`Lawful` if it opens and closes every connection at most once, in this order, and its byte counts
do not fall.  `Shows` is what a model has to do with the events applied to it, at whatever times:
its rows and totals are those of the ledger (`Shows.apply`), and the bytes it shows only grow
(`Shows.shown_le`).
-/

/-! ### Both directions at once -/

/-- Which of the two byte counters. -/
inductive Side
  | tx
  | rx
deriving DecidableEq, Repr

def Side.of : Side → ℕ → ℕ → ℕ
  | tx, n, _ => n
  | rx, _, n => n

def ConnRow.bytes (d : Side) (row : ConnRow) : ℕ := d.of row.txBytes row.rxBytes

def ConnHandle.bytes (d : Side) (h : ConnHandle) : ℕ := d.of h.tx h.rx

/-- The bytes of the connections that are closed. -/
def ConnectModel.total (d : Side) (m : ConnectModel) : ℕ := d.of m.totalTx m.totalRx

/-- The bytes the terminal shows. -/
def ConnectModel.shown (d : Side) (m : ConnectModel) : ℕ :=
  m.total d + (m.connections.map (ConnRow.bytes d)).sum

/-- The id, the counts and nothing else of a byte event. -/
def UiEvent.counts : UiEvent → Option (ℕ × ℕ × ℕ)
  | connectionBytes id tx rx => some (id, tx, rx)
  | _ => none

/-! ### Ledgers -/

/-- Who a row is about. -/
def ConnRow.key (row : ConnRow) : ℕ × String × ℕ := (row.id, row.peer, row.spec)

structure Ledger where
  /-- The number of forwards. -/
  forwards : ℕ
  /-- The open connections: id, peer and spec. -/
  rows : List (ℕ × String × ℕ)
  closed : List ℕ

namespace Ledger

def add (l : Ledger) : UiEvent → Ledger
  | .forwards forwards => { l with forwards := forwards.length }
  | .connectionOpened id peer spec => { l with rows := l.rows ++ [(id, peer, spec)] }
  | .connectionClosed id =>
    { l with rows := l.rows.filter (fun r => r.1 != id), closed := l.closed ++ [id] }
  | _ => l

/-- The ledger of a list of events. -/
def ofEvents (es : List UiEvent) : Ledger := es.foldl add ⟨0, [], []⟩

@[simp] theorem ofEvents_concat (es : List UiEvent) (e : UiEvent) :
    ofEvents (es ++ [e]) = (ofEvents es).add e := by
  rw [ofEvents, List.foldl_append]
  rfl

end Ledger

/-- What may come after the events `es`. -/
def Follows (es : List UiEvent) : UiEvent → Prop
  | .forwards _ => (Ledger.ofEvents es).rows = []
  | .connectionOpened id _ spec => spec < (Ledger.ofEvents es).forwards ∧
      id ∉ (Ledger.ofEvents es).rows.map Prod.fst ∧ id ∉ (Ledger.ofEvents es).closed
  | .connectionClosed id => id ∉ (Ledger.ofEvents es).closed
  | .connectionBytes id tx rx => ∀ b ∈ es.filterMap UiEvent.counts, b.1 = id →
      ∀ d : Side, d.of b.2.1 b.2.2 ≤ d.of tx rx
  | _ => True

/-- Every event may come where it comes. -/
inductive Lawful : List UiEvent → Prop
  | nil : Lawful []
  | concat {es : List UiEvent} {e : UiEvent} : Lawful es → Follows es e → Lawful (es ++ [e])

theorem Lawful.of_concat {es : List UiEvent} {e : UiEvent} (h : Lawful (es ++ [e])) :
    Lawful es ∧ Follows es e := by
  generalize hl : es ++ [e] = l at h
  cases h with
  | nil => simp at hl
  | concat hes hfollows =>
    obtain ⟨rfl, he⟩ := List.append_inj' hl rfl
    cases he
    exact ⟨hes, hfollows⟩

theorem Lawful.take {es : List UiEvent} (h : Lawful es) (n : ℕ) : Lawful (es.take n) := by
  induction h with
  | nil => rw [List.take_nil]; exact .nil
  | @concat es e hes hfollows ih =>
    by_cases hn : n ≤ es.length
    · rw [List.take_append_of_le_length hn]
      exact ih
    · rw [List.take_of_length_le (by simp; omega)]
      exact .concat hes hfollows

/-- A connection has one place in the ledger. -/
structure Ledger.WellFormed (l : Ledger) : Prop where
  rows_nodup : (l.rows.map Prod.fst).Nodup
  closed_nodup : l.closed.Nodup
  disjoint : ∀ r ∈ l.rows, r.1 ∉ l.closed
  specs : ∀ r ∈ l.rows, r.2.2 < l.forwards

theorem Lawful.wellFormed {es : List UiEvent} (h : Lawful es) :
    (Ledger.ofEvents es).WellFormed := by
  induction h with
  | nil => exact ⟨List.nodup_nil, List.nodup_nil, by simp [Ledger.ofEvents], by simp [Ledger.ofEvents]⟩
  | @concat es e hes hfollows ih =>
    rw [Ledger.ofEvents_concat]
    -- each guard of `Follows` is there for the field its event could break
    cases e with
    | forwards forwards =>
      have hrows : (Ledger.ofEvents es).rows = [] := hfollows
      refine ⟨ih.rows_nodup, ih.closed_nodup, ih.disjoint, fun r hr => ?_⟩
      simp only [Ledger.add, hrows, List.not_mem_nil] at hr
    | connectionOpened id peer spec =>
      obtain ⟨hspec, hrow, hclosed⟩ := hfollows
      refine ⟨?_, ih.closed_nodup, fun r hr => ?_, fun r hr => ?_⟩
      · simp only [Ledger.add, List.map_append, List.map_cons, List.map_nil]
        exact ih.rows_nodup.append (List.nodup_singleton id) (by simpa using hrow)
      · obtain hr | hr := List.mem_append.mp hr
        · exact ih.disjoint r hr
        · rw [List.mem_singleton.mp hr]
          exact hclosed
      · obtain hr | hr := List.mem_append.mp hr
        · exact ih.specs r hr
        · rw [List.mem_singleton.mp hr]
          exact hspec
    | connectionClosed id =>
      have hclosed : id ∉ (Ledger.ofEvents es).closed := hfollows
      refine ⟨?_, ?_, fun r hr => ?_, fun r hr => ?_⟩
      · exact ih.rows_nodup.sublist (List.filter_sublist.map Prod.fst)
      · exact ih.closed_nodup.append (List.nodup_singleton id) (by simpa using hclosed)
      · obtain ⟨hr, hid⟩ := List.mem_filter.mp hr
        simp only [Ledger.add, List.mem_append, List.mem_singleton, not_or]
        exact ⟨ih.disjoint r hr, by simpa using hid⟩
      · exact ih.specs r (List.mem_filter.mp hr).1
    -- the others are not in the ledger
    | _ => exact ih

/-! ### Models -/

/-- What a model shows after the events `es`. -/
structure Shows (m : ConnectModel) (es : List UiEvent) : Prop where
  forwards : m.forwards.length = (Ledger.ofEvents es).forwards
  rows : m.connections.map ConnRow.key = (Ledger.ofEvents es).rows
  closed : m.closedTotal = (Ledger.ofEvents es).closed.length
  /-- A row has the counts of a byte event, or none yet. -/
  counts : ∀ row ∈ m.connections, (∀ d, row.bytes d = 0) ∨
    (row.id, row.txBytes, row.rxBytes) ∈ es.filterMap UiEvent.counts
  /-- Closed connections count with what the last byte events said. -/
  total : ∀ (c : ℕ → ℕ) (d : Side),
    (∀ b ∈ es.filterMap UiEvent.counts, d.of b.2.1 b.2.2 ≤ c b.1) →
      m.total d ≤ ((Ledger.ofEvents es).closed.map c).sum

theorem Shows.default : Shows {} [] :=
  ⟨rfl, rfl, rfl, by simp, fun c d _ => by cases d <;> exact Nat.le_refl 0⟩

section

variable {m : ConnectModel} {es : List UiEvent}

theorem mem_modifyFirst {α : Type} {p : α → Bool} {f : α → α} {l : List α} {x : α}
    (h : x ∈ modifyFirst p f l) : x ∈ l ∨ ∃ y ∈ l, p y = true ∧ x = f y := by
  induction l with
  | nil => simp [modifyFirst] at h
  | cons y l ih =>
    rw [modifyFirst] at h
    split at h <;> rename_i hp
    · obtain rfl | h := List.mem_cons.mp h
      · exact .inr ⟨y, List.mem_cons_self, hp, rfl⟩
      · exact .inl (List.mem_cons_of_mem y h)
    · obtain rfl | h := List.mem_cons.mp h
      · exact .inl List.mem_cons_self
      · obtain h | ⟨z, hz, hp, rfl⟩ := ih h
        · exact .inl (List.mem_cons_of_mem y h)
        · exact .inr ⟨z, List.mem_cons_of_mem y hz, hp, rfl⟩

/-- A row's counts are at most what its connection has counted. -/
theorem Shows.row_le (h : Shows m es) {c : ℕ → ℕ} {d : Side}
    (hc : ∀ b ∈ es.filterMap UiEvent.counts, d.of b.2.1 b.2.2 ≤ c b.1) {row : ConnRow}
    (hrow : row ∈ m.connections) : row.bytes d ≤ c row.id := by
  obtain hzero | hcounts := h.counts row hrow
  · rw [hzero d]
    exact Nat.zero_le _
  · exact hc _ hcounts

theorem filterMap_counts_concat {e : UiEvent} (h : e.counts = none) :
    (es ++ [e]).filterMap UiEvent.counts = es.filterMap UiEvent.counts := by
  simp [h]

/-- The events a step of `apply` takes no account of here. -/
theorem Shows.other (h : Shows m es) {m' : ConnectModel} {e : UiEvent} (hother : e.isOther = true)
    (hforwards : m'.forwards = m.forwards) (hconns : m'.connections = m.connections)
    (hclosed : m'.closedTotal = m.closedTotal) (htotal : ∀ d, m'.total d = m.total d) :
    Shows m' (es ++ [e]) := by
  have hadd : (Ledger.ofEvents es).add e = Ledger.ofEvents es := by
    cases e <;> first | rfl | simp [UiEvent.isOther] at hother
  have hcounts : (es ++ [e]).filterMap UiEvent.counts = es.filterMap UiEvent.counts := by
    refine filterMap_counts_concat ?_
    cases e <;> first | rfl | simp [UiEvent.isOther] at hother
  refine ⟨?_, ?_, ?_, ?_, ?_⟩
  · rw [Ledger.ofEvents_concat, hadd, hforwards, h.forwards]
  · rw [Ledger.ofEvents_concat, hadd, hconns, h.rows]
  · rw [Ledger.ofEvents_concat, hadd, hclosed, h.closed]
  · rw [hconns, hcounts]
    exact h.counts
  · intro c d hc
    rw [hcounts] at hc
    rw [Ledger.ofEvents_concat, hadd, htotal]
    exact h.total c d hc

theorem find?_id {id : ℕ} {row : ConnRow}
    (h : m.connections.find? (fun c => c.id == id) = some row) :
    row ∈ m.connections ∧ row.id = id :=
  ⟨List.mem_of_find?_eq_some h, by simpa using List.find?_some h⟩

/-- What a closed connection adds to the totals. -/
theorem total_closed (d : Side) (m : ConnectModel) (now id : ℕ) :
    (m.apply now (.connectionClosed id)).total d = m.total d +
      ((m.connections.find? (fun c => c.id == id)).map (ConnRow.bytes d)).getD 0 := by
  cases d <;> rfl

theorem Shows.forwardsEvent (h : Shows m es) (now : ℕ) (forwards : List ForwardRow) :
    Shows (m.apply now (.forwards forwards)) (es ++ [.forwards forwards]) := by
  refine ⟨?_, ?_, ?_, ?_, ?_⟩
  · rw [Ledger.ofEvents_concat]
    rfl
  · rw [Ledger.ofEvents_concat]
    exact h.rows
  · rw [Ledger.ofEvents_concat]
    exact h.closed
  · rw [filterMap_counts_concat rfl]
    exact h.counts
  · intro c d hc
    rw [filterMap_counts_concat rfl] at hc
    rw [Ledger.ofEvents_concat]
    exact h.total c d hc

/-- An opened connection gets its row. -/
theorem Shows.apply_opened (h : Shows m es) {id spec : ℕ} {peer : String}
    (hfollows : Follows es (.connectionOpened id peer spec)) (now : ℕ) :
    m.apply now (.connectionOpened id peer spec) =
      { m with connections := m.connections ++ [⟨id, peer, spec, now, 0, 0⟩] } :=
  if_pos (by rw [h.forwards]; exact hfollows.1)

theorem Shows.openedEvent (h : Shows m es) {id spec : ℕ} {peer : String}
    (hfollows : Follows es (.connectionOpened id peer spec)) (now : ℕ) :
    Shows (m.apply now (.connectionOpened id peer spec)) (es ++ [.connectionOpened id peer spec]) := by
  rw [h.apply_opened hfollows]
  refine ⟨?_, ?_, ?_, ?_, ?_⟩
  · rw [Ledger.ofEvents_concat]
    exact h.forwards
  · rw [Ledger.ofEvents_concat, List.map_append, h.rows]
    rfl
  · rw [Ledger.ofEvents_concat]
    exact h.closed
  · intro row hrow
    rw [filterMap_counts_concat rfl]
    obtain hrow | hrow := List.mem_append.mp hrow
    · exact h.counts row hrow
    · rw [List.mem_singleton.mp hrow]
      exact .inl fun d => by cases d <;> rfl
  · intro c d hc
    rw [filterMap_counts_concat rfl] at hc
    rw [Ledger.ofEvents_concat]
    exact h.total c d hc

theorem Shows.bytesEvent (h : Shows m es) (now id tx rx : ℕ) :
    Shows (m.apply now (.connectionBytes id tx rx)) (es ++ [.connectionBytes id tx rx]) := by
  have hcounts : (es ++ [UiEvent.connectionBytes id tx rx]).filterMap UiEvent.counts =
      es.filterMap UiEvent.counts ++ [(id, tx, rx)] := by
    simp [UiEvent.counts]
  refine ⟨?_, ?_, ?_, ?_, ?_⟩
  · rw [Ledger.ofEvents_concat]
    exact h.forwards
  · rw [Ledger.ofEvents_concat, ConnectModel.apply, map_modifyFirst]
    · exact h.rows
    · exact fun _ => rfl
  · rw [Ledger.ofEvents_concat]
    exact h.closed
  · intro row hrow
    rw [hcounts]
    obtain hrow | ⟨row, hrow, hid, rfl⟩ := mem_modifyFirst hrow
    · exact (h.counts row hrow).imp_right (List.mem_append_left _)
    · rw [beq_iff_eq] at hid
      exact .inr (List.mem_append_right _ (by simp [hid]))
  · intro c d hc
    rw [hcounts] at hc
    rw [Ledger.ofEvents_concat]
    exact h.total c d fun b hb => hc b (List.mem_append_left _ hb)

theorem Shows.closedEvent (h : Shows m es) (now id : ℕ) :
    Shows (m.apply now (.connectionClosed id)) (es ++ [.connectionClosed id]) := by
  refine ⟨?_, ?_, ?_, ?_, ?_⟩
  · rw [Ledger.ofEvents_concat]
    exact h.forwards
  · rw [Ledger.ofEvents_concat]
    simp only [ConnectModel.apply, Ledger.add, ← h.rows, List.filter_map]
    rfl
  · rw [Ledger.ofEvents_concat]
    simp only [ConnectModel.apply, Ledger.add, List.length_append, List.length_singleton, h.closed]
  · intro row hrow
    rw [filterMap_counts_concat rfl]
    exact h.counts row (List.mem_filter.mp hrow).1
  · intro c d hc
    rw [filterMap_counts_concat rfl] at hc
    rw [total_closed, Ledger.ofEvents_concat]
    simp only [Ledger.add, List.map_append, List.map_cons, List.map_nil, List.sum_append,
      List.sum_cons, List.sum_nil, Nat.add_zero]
    -- the row that goes adds what its connection has counted, at most
    refine Nat.add_le_add (h.total c d hc) ?_
    cases hfind : m.connections.find? (fun c => c.id == id) with
    | none => exact Nat.zero_le _
    | some row =>
      obtain ⟨hrow, rfl⟩ := find?_id hfind
      exact h.row_le hc hrow

/-- **The model follows the ledger**, whatever the time. -/
theorem Shows.apply (h : Shows m es) {e : UiEvent} (hfollows : Follows es e) (now : ℕ) :
    Shows (m.apply now e) (es ++ [e]) := by
  cases e with
  | forwards forwards => exact h.forwardsEvent now forwards
  | connectionOpened id peer spec => exact h.openedEvent hfollows now
  | connectionBytes id tx rx => exact h.bytesEvent now id tx rx
  | connectionClosed id => exact h.closedEvent now id
  | server name node => exact h.other rfl rfl rfl rfl (fun d => by cases d <;> rfl)
  | sessionState status => exact h.other rfl rfl rfl rfl (fun d => by cases d <;> rfl)
  | started => exact h.other rfl rfl rfl rfl (fun d => by cases d <;> rfl)
  | paths paths => exact h.other rfl rfl rfl rfl (fun d => by cases d <;> rfl)
  | notice msg => exact h.other rfl rfl rfl rfl (fun d => by cases d <;> rfl)

/-! ### Bytes only grow -/

theorem sum_modifyFirst_le {α : Type} {p : α → Bool} {f : α → α} {g : α → ℕ} {l : List α}
    (h : ∀ x ∈ l, p x = true → g x ≤ g (f x)) : (l.map g).sum ≤ ((modifyFirst p f l).map g).sum := by
  induction l with
  | nil => exact Nat.le_refl _
  | cons x l ih =>
    rw [modifyFirst]
    split <;> rename_i hp
    · simp only [List.map_cons, List.sum_cons]
      exact Nat.add_le_add_right (h x List.mem_cons_self hp) _
    · simp only [List.map_cons, List.sum_cons]
      exact Nat.add_le_add_left (ih fun y hy => h y (List.mem_cons_of_mem x hy)) _

/-- Rows with distinct ids add up to the one that goes and those that stay. -/
theorem sum_find?_filter (g : ConnRow → ℕ) (id : ℕ) {l : List ConnRow}
    (h : (l.map ConnRow.id).Nodup) : (l.map g).sum =
      ((l.find? (fun c => c.id == id)).map g).getD 0 + ((l.filter (fun c => c.id != id)).map g).sum := by
  induction l with
  | nil => rfl
  | cons row l ih =>
    rw [List.map_cons, List.nodup_cons] at h
    obtain ⟨hrow, hl⟩ := h
    by_cases hid : row.id = id
    -- the row that is found is the only one with this id, so the rest stays
    · have hrest : l.filter (fun c => c.id != id) = l := by
        rw [List.filter_eq_self]
        intro c hc
        rw [bne_iff_ne]
        intro hcid
        exact hrow (List.mem_map.mpr ⟨c, hc, by rw [hcid, hid]⟩)
      simp [hid, hrest]
    · have hfilter : (row :: l).filter (fun c => c.id != id) =
          row :: l.filter (fun c => c.id != id) :=
        List.filter_cons_of_pos (by simpa using hid)
      have hfind : (row :: l).find? (fun c => c.id == id) = l.find? (fun c => c.id == id) :=
        List.find?_cons_of_neg (by simpa using hid)
      rw [hfilter, hfind, List.map_cons, List.sum_cons, ih hl, List.map_cons, List.sum_cons]
      omega

theorem Shows.ids_nodup (h : Shows m es) (hes : Lawful es) : (m.connections.map ConnRow.id).Nodup := by
  have hnodup := hes.wellFormed.rows_nodup
  rw [← h.rows, List.map_map] at hnodup
  exact hnodup

/-- **No byte is taken back.** -/
theorem Shows.shown_le (h : Shows m es) (hes : Lawful es) {e : UiEvent} (hfollows : Follows es e)
    (now : ℕ) (d : Side) : m.shown d ≤ (m.apply now e).shown d := by
  cases e with
  | connectionOpened id peer spec =>
    rw [h.apply_opened hfollows, ConnectModel.shown, ConnectModel.shown, List.map_append, List.sum_append]
    exact Nat.add_le_add_left (Nat.le_add_right _ _) _
  | connectionBytes id tx rx =>
    -- the row has the counts of an earlier event, and counts do not fall
    refine Nat.add_le_add_left (sum_modifyFirst_le fun row hrow hid => ?_) _
    rw [beq_iff_eq] at hid
    obtain hzero | hcounts := h.counts row hrow
    · rw [hzero d]
      exact Nat.zero_le _
    · exact hfollows _ hcounts hid d
  | connectionClosed id =>
    -- what the rows lose, the total gains
    have hsum := sum_find?_filter (ConnRow.bytes d) id (h.ids_nodup hes)
    rw [ConnectModel.shown, ConnectModel.shown, total_closed, hsum]
    simp only [ConnectModel.apply]
    omega
  | _ => exact Nat.le_refl _

end

end Tmite.Client
