import DataBroker.Queue.Cursor

/-!
# Ascending ids

A new message gets the successor of the last entry of `order`, which is a small id again when that
entry is a tombstone. As long as new ids are larger than the stored ones, the entries of `order` that
are not tombstones are ascending and are the ids of the stored messages, and no unlocked message has
an id below the cursor (`Ranked`).
-/

namespace DataBroker

namespace Queue

/-- The tombstones apart, the ids ascend from left to right. -/
def Ascending (order : List U128) : Prop := (order.filter (· ≠ 0)).Pairwise (· < ·)

section Order

variable {order pre suf : List U128} {id k : U128}

theorem Ascending.split (ascending : Ascending (pre ++ id :: suf)) (ne_zero : id ≠ 0) :
    (∀ k ∈ pre, k ≠ 0 → k < id) ∧ ∀ k ∈ suf, k ≠ 0 → id < k := by
  unfold Ascending at ascending
  rw [List.filter_append, List.filter_cons_of_pos (by simpa using ne_zero)] at ascending
  obtain ⟨-, after, before⟩ := List.pairwise_append.1 ascending
  constructor
  · intro k mem nonzero
    exact before k (List.mem_filter.2 ⟨mem, by simpa using nonzero⟩) id List.mem_cons_self
  · intro k mem nonzero
    exact (List.pairwise_cons.1 after).1 k (List.mem_filter.2 ⟨mem, by simpa using nonzero⟩)

theorem ascending_concat (ne_zero : id ≠ 0) :
    Ascending (order ++ [id]) ↔ Ascending order ∧ ∀ k ∈ order, k ≠ 0 → k < id := by
  unfold Ascending
  rw [List.filter_append, List.filter_cons_of_pos (by simpa using ne_zero), List.filter_nil,
    List.pairwise_append]
  constructor
  · rintro ⟨ascending, -, before⟩
    refine ⟨ascending, fun k mem nonzero => ?_⟩
    exact before k (List.mem_filter.2 ⟨mem, by simpa using nonzero⟩) id (List.mem_singleton_self id)
  · rintro ⟨ascending, larger⟩
    refine ⟨ascending, List.pairwise_singleton _ id, fun k mem k' last => ?_⟩
    obtain ⟨listed, nonzero⟩ := List.mem_filter.1 mem
    rw [List.mem_singleton.1 last]
    exact larger k listed (by simpa using nonzero)

theorem ascending_drain : Ascending (drain order) ↔ Ascending order := by
  rw [Ascending, filter_drain, Ascending]

theorem Ascending.bury (ascending : Ascending order) (id : U128) : Ascending (bury order id) :=
  ascending.sublist (filter_bury_sublist order id)

/-- An id has one entry only. -/
theorem Ascending.notMem_bury (ascending : Ascending order) (ne_zero : id ≠ 0) :
    id ∉ Queue.bury order id :=
  notMem_bury_of_once (List.Pairwise.imp BitVec.ne_of_lt ascending) ne_zero

/-- Burying `id` leaves the other ids, and no entry of its own. -/
theorem Ascending.mem_bury_iff (ascending : Ascending order) (nonzero : k ≠ 0) :
    k ∈ Queue.bury order id ↔ k ∈ order ∧ k ≠ id := by
  constructor
  · intro mem
    refine ⟨mem_of_mem_bury mem nonzero, ?_⟩
    rintro rfl
    exact ascending.notMem_bury nonzero mem
  · exact fun h => mem_bury h.1 h.2

/-- The first entry is the smallest. -/
theorem Ascending.firstEntry_le (ascending : Ascending order) (mem : k ∈ order) (nonzero : k ≠ 0) :
    ∃ first, firstEntry order = some first ∧ first ≤ k := by
  have inside : k ∈ order.filter (· ≠ 0) := List.mem_filter.2 ⟨mem, by simpa using nonzero⟩
  unfold Ascending at ascending
  rw [firstEntry, ← List.head?_filter]
  generalize order.filter (· ≠ 0) = entries at *
  cases entries with
  | nil => cases inside
  | cons first rest =>
    refine ⟨first, rfl, ?_⟩
    rcases List.mem_cons.1 inside with rfl | inside
    · exact BitVec.le_refl k
    · exact BitVec.le_of_lt ((List.pairwise_cons.1 ascending).1 k inside)

/-- The entry behind `id` is at most every larger one. -/
theorem Ascending.entryAfter_le (ascending : Ascending order) (listed : id ∈ order)
    (ne_zero : id ≠ 0) (mem : k ∈ order) (larger : id < k) :
    ∃ next, entryAfter order id = some next ∧ (next ≠ 0 → next ≤ k) := by
  obtain ⟨pre, suf, rfl, fresh⟩ := List.eq_append_cons_of_mem listed
  rw [entryAfter_append fresh]
  obtain ⟨before, -⟩ := ascending.split ne_zero
  have positive : k ≠ 0 := by
    rintro rfl
    exact absurd larger (by simp)
  have behind : k ∈ suf := by
    rcases List.mem_append.1 mem with mem | mem
    · exact absurd (before k mem positive) (BitVec.lt_asymm larger)
    · exact (List.mem_cons.1 mem).resolve_left (BitVec.ne_of_lt larger).symm
  cases suf with
  | nil => cases behind
  | cons next suf =>
    refine ⟨next, rfl, fun nonzero => ?_⟩
    rcases List.mem_cons.1 behind with rfl | behind
    · exact BitVec.le_refl k
    · rw [← List.singleton_append (l := next :: suf), ← List.append_assoc] at ascending
      exact BitVec.le_of_lt ((ascending.split nonzero).2 k behind positive)

/-- A cursor that skips a tombstone stays at or below an entry that it was at or below. -/
theorem Ascending.skipTombstone_le (ascending : Ascending order) {next : U128} (mem : k ∈ order)
    (nonzero : k ≠ 0) (below : next ≠ 0 → next ≤ k) :
    ∃ cursor, skipTombstone order (some next) = some cursor ∧ cursor ≤ k := by
  unfold skipTombstone
  by_cases tombstone : next = 0
  · rw [if_pos (by rw [tombstone])]
    exact ascending.firstEntry_le mem nonzero
  · rw [if_neg (by simpa using tombstone)]
    exact ⟨next, rfl, below tombstone⟩

end Order

/-- No unlocked message has an id below the cursor; without a cursor there is none. -/
def CursorFirst (s : Queue) : Prop := ∀ k, s.Free k → ∃ cursor, s.nextId = some cursor ∧ cursor ≤ k

/-- The ids ascend along `order`, which lists the stored ones only, and the cursor is not behind an
unlocked message. -/
structure Ranked (s : Queue) : Prop extends Rooted s where
  ascending : Ascending s.order
  stored : ∀ id ∈ s.order, id ≠ 0 → id ∈ s.queue
  cursor : s.CursorFirst

/-- The id of a new message is larger than the stored ones, and not below the cursor. -/
def LargestNew (s : Queue) : Prop :=
  (∀ e ∈ s.queue.entries, e.1 < newId s.order) ∧ s.nextId.elim True (· ≤ newId s.order)

instance (s : Queue) : Decidable s.LargestNew :=
  have : Decidable (s.nextId.elim True (· ≤ newId s.order)) :=
    Option.casesOn (motive := fun nextId => Decidable (nextId.elim True (· ≤ newId s.order)))
      s.nextId (.isTrue trivial) fun cursor => inferInstanceAs (Decidable (cursor ≤ _))
  inferInstanceAs (Decidable (_ ∧ _))

/-- A call that stores a message gives it the largest id. -/
def TakesLargest (s : Queue) : Op → Prop
  | .enqueue .. => s.LargestNew
  | .requeue _ id _ => id ∈ s.queue → s.LargestNew
  | _ => True

instance (s : Queue) : (op : Op) → Decidable (s.TakesLargest op)
  | .enqueue .. => inferInstanceAs (Decidable s.LargestNew)
  | .requeue .. => inferInstanceAs (Decidable (_ → _))
  | .lockToRead _ | .dequeue .. | .unlock .. | .updateMessage .. | .isLocked ..
  | .listMessages _ | .getNextBiggestPayload _ => .isTrue trivial

variable {s t : Queue} {id k : U128}

theorem LargestNew.lt (largest : s.LargestNew) (mem : k ∈ s.queue) : k < newId s.order := by
  obtain ⟨m, stored⟩ := Finmap.mem_iff.1 mem
  exact largest.1 ⟨k, m⟩ (Finmap.lookup_eq_some_iff.1 stored)

/-! ## Every call keeps the ids ascending -/

namespace Ranked

theorem new : Ranked new where
  toRooted := .new
  ascending := List.Pairwise.nil
  stored _ mem := by cases mem
  cursor k free := absurd (mem_of_free free) Finmap.notMem_empty

theorem listed_free (ranked : s.Ranked) (free : s.Free k) : k ∈ s.order ∧ k ≠ 0 :=
  ⟨ranked.listed k (mem_of_free free), ranked.free_ne_zero free⟩

theorem enqueued (ranked : s.Ranked) (largest : s.LargestNew) {m : QueueMessage}
    (unlocked : m.lockedBy = none) : (s.enqueued m).Ranked where
  toRooted := ranked.toRooted.enqueued m
  ascending := (ascending_concat (newId_ne_zero s.order)).2
    ⟨ranked.ascending, fun k mem nonzero => largest.lt (ranked.stored k mem nonzero)⟩
  stored k mem nonzero := by
    rcases List.mem_append.1 mem with mem | mem
    · exact mem_enqueued m (ranked.stored k mem nonzero)
    · rw [List.mem_singleton.1 mem]
      exact Finmap.mem_insert.2 (.inl rfl)
  cursor k free := by
    refine ⟨s.nextId.getD (newId s.order), rfl, ?_⟩
    rcases (free_enqueued unlocked k).1 free with rfl | free
    · have ahead := largest.2
      cases at_cursor : s.nextId with
      | none => exact BitVec.le_refl _
      | some cursor =>
        rw [at_cursor] at ahead
        exact ahead
    · obtain ⟨cursor, at_cursor, below⟩ := ranked.cursor k free
      rw [at_cursor]
      exact below

/-- The message under the cursor handed out: the cursor moves on to the next entry. -/
theorem delivered (ranked : s.Ranked) (clientId : U128) {m : QueueMessage}
    (at_id : s.nextId = some id) (stored : s.queue.lookup id = some m) :
    (s.delivered clientId id m).Ranked where
  toRooted := ranked.toRooted.delivered clientId stored
  ascending := by
    rcases order_delivered s clientId id m with order | order <;> rw [order]
    · exact ranked.ascending
    · exact ascending_drain.2 ranked.ascending
  stored k mem nonzero := by
    refine Finmap.mem_insert.2 (.inr (ranked.stored k ?_ nonzero))
    rcases order_delivered s clientId id m with order | order <;> rw [order] at mem
    · exact mem
    · exact (mem_drain nonzero).1 mem
  cursor k free := by
    obtain ⟨ne, free⟩ := (free_delivered s clientId id m k).1 free
    obtain ⟨listed, nonzero⟩ := ranked.listed_free free
    obtain ⟨cursor, at_cursor, below⟩ := ranked.cursor k free
    obtain rfl : id = cursor := by simpa [at_id] using at_cursor
    have mem := HashMap.mem_of_lookup stored
    obtain ⟨next, behind, upto⟩ := ranked.ascending.entryAfter_le (ranked.listed id mem)
      (ranked.ne_zero mem) listed (BitVec.lt_of_le_ne below ne.symm)
    show ∃ cursor, skipTombstone s.order (entryAfter s.order id) = some cursor ∧ cursor ≤ k
    rw [behind]
    exact ranked.ascending.skipTombstone_le listed nonzero upto

/-- A message taken out: its entry becomes a tombstone. -/
theorem erase (ranked : s.Ranked) (queue : t.queue = s.queue.erase id)
    (order : t.order = Queue.bury s.order id ∨ t.order = drain (Queue.bury s.order id))
    (cursor : t.CursorFirst) : t.Ranked where
  toRooted := ranked.toRooted.erase queue order
  ascending := by
    rcases order with order | order <;> rw [order]
    · exact ranked.ascending.bury id
    · exact ascending_drain.2 (ranked.ascending.bury id)
  stored k mem nonzero := by
    have buried : k ∈ Queue.bury s.order id := by
      rcases order with order | order <;> rw [order] at mem
      · exact mem
      · exact (mem_drain nonzero).1 mem
    have ne : k ≠ id := by
      rintro rfl
      exact ranked.ascending.notMem_bury nonzero buried
    rw [queue]
    exact Finmap.mem_erase.2 ⟨ne, ranked.stored k (mem_of_mem_bury buried nonzero) nonzero⟩
  cursor := cursor

theorem removed (ranked : s.Ranked) (clientId : U128) (mem : id ∈ s.queue) :
    (s.removed clientId id).Ranked := by
  refine ranked.erase rfl (order_removed s clientId id) fun k free => ?_
  obtain ⟨ne, free⟩ := (free_removed s clientId id k).1 free
  obtain ⟨listed, nonzero⟩ := ranked.listed_free free
  obtain ⟨cursor, at_cursor, below⟩ := ranked.cursor k free
  show ∃ cursor, s.cursorWithout id = some cursor ∧ cursor ≤ k
  unfold cursorWithout
  split_ifs with here
  · obtain rfl : id = cursor := by simpa [here] using at_cursor
    obtain ⟨next, behind, upto⟩ := ranked.ascending.entryAfter_le (ranked.listed id mem)
      (ranked.ne_zero mem) listed (BitVec.lt_of_le_ne below ne.symm)
    rw [behind]
    exact (ranked.ascending.bury id).skipTombstone_le (mem_bury listed ne) nonzero upto
  · rw [at_cursor]
    exact (ranked.ascending.bury id).skipTombstone_le (mem_bury listed ne) nonzero fun _ => below

theorem acked (ranked : s.Ranked) {clientId : U128} {ids : List U128}
    (first : s.lockedIds clientId = id :: ids) : (s.acked clientId id ids).Ranked :=
  ranked.erase rfl (.inr rfl) fun k free => ranked.cursor k ((free_acked first k).1 free).2

theorem released (ranked : s.Ranked) (clientId id : U128) : (s.released clientId id).Ranked where
  toRooted := ranked.toRooted.released clientId id
  ascending := ranked.ascending
  stored k mem nonzero := by
    have stored := ranked.stored k mem nonzero
    rw [← Finmap.lookup_isSome] at stored ⊢
    rw [lookup_released]
    split_ifs
    · simpa using stored
    · exact stored
  cursor k free := by
    rcases (free_released s clientId id k).1 free with ⟨rfl, -⟩ | free
    · cases at_cursor : s.nextId with
      | none => exact ⟨k, by simp only [Queue.released, at_cursor], BitVec.le_refl k⟩
      | some next =>
        refine ⟨if k < next then k else next, by simp only [Queue.released, at_cursor], ?_⟩
        split_ifs with back
        · exact BitVec.le_refl k
        · exact BitVec.not_lt.1 back
    · obtain ⟨cursor, at_cursor, below⟩ := ranked.cursor k free
      refine ⟨if id < cursor then id else cursor, by simp only [Queue.released, at_cursor], ?_⟩
      split_ifs with back
      · exact BitVec.le_trans (BitVec.le_of_lt back) below
      · exact below

/-- The messages overwritten in place. -/
theorem congr (ranked : s.Ranked) (keys : ∀ k, k ∈ t.queue ↔ k ∈ s.queue) (order : t.order = s.order)
    (free : ∀ k, t.Free k ↔ s.Free k) (cursor : t.nextId = s.nextId) : t.Ranked where
  toRooted := ranked.toRooted.of_keys (fun k => (keys k).1) (.inl order)
  ascending := by rw [order]; exact ranked.ascending
  stored k mem nonzero := (keys k).2 (ranked.stored k (by rwa [order] at mem) nonzero)
  cursor k unlocked := by rw [cursor]; exact ranked.cursor k ((free k).1 unlocked)

theorem step (ranked : s.Ranked) {op : Op} (largest : s.TakesLargest op) : (s.step op).Ranked := by
  have effect := step_effect ranked.toRooted op
  generalize s.step op = t at effect ⊢
  cases effect with
  | idle => exact ranked
  | measured => exact ranked.congr (fun _ => Iff.rfl) rfl (fun _ => Iff.rfl) rfl
  | enqueued => exact ranked.enqueued largest rfl
  | delivered clientId id m cursor stored unlocked =>
    exact ranked.delivered clientId cursor stored
  | removed clientId id m stored => exact ranked.removed clientId (HashMap.mem_of_lookup stored)
  | acked clientId id ids messageId unnamed first => exact ranked.acked first
  | released clientId id => exact ranked.released clientId id
  | requeued clientId id now m stored =>
    have mem := HashMap.mem_of_lookup stored
    exact (ranked.enqueued (largest mem) rfl).removed clientId (mem_enqueued _ mem)
  | updated id m payload stored =>
    refine ranked.congr (fun k => ?_) rfl (free_updated payload stored) rfl
    rw [← Finmap.lookup_isSome, lookup_updated, ← Finmap.lookup_isSome]
    split_ifs with same
    · exact iff_of_true rfl (by rw [same, stored]; rfl)
    · rfl

end Ranked

end Queue

end DataBroker
