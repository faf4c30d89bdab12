import DataBroker.Queue.Ascending

/-!
# The keys in order

The entries of `order` that are not tombstones are to be the keys of `queue` in ascending order, and
the cursor is to be at one of them (`Keyed`). A new message with a smaller id than a stored one
breaks this, and so does a cursor that stays at an acknowledged message or goes back to a removed
one. `keyed_iff_keepsKeyed` says that nothing else does.
-/

namespace DataBroker

namespace Queue

/-- `order` lists the keys in ascending order, and the cursor is at a key. -/
structure Keyed (s : Queue) : Prop where
  ascending : Ascending s.order
  keys : ∀ id, id ∈ s.order ∧ id ≠ 0 ↔ id ∈ s.queue
  nonzero : 0 ∉ s.queue
  cursor : ∀ id, s.nextId = some id → id ∈ s.order ∧ id ≠ 0

/-- What a call has to see to.
* A new message needs an id larger than the others. The one that is requeued does not count, but its
id is not to be taken again.
* A message that is acknowledged is not under the cursor, which does not move.
* A lock is given up on a stored message, or the cursor is not behind it. -/
def KeepsKeyed (s : Queue) : Op → Prop
  | .enqueue .. => ∀ k ∈ s.queue, k < newId s.order
  | .dequeue clientId messageId => (∀ id ∈ messageId, id ∉ s.queue) →
      ∀ id, (s.lockedIds clientId).head? = some id → s.nextId ≠ some id
  | .unlock clientId messageId => s.order ≠ [] → ∀ id, s.toRelease clientId messageId = some id →
      id ∈ s.queue ∨ ∃ next, s.nextId = some next ∧ next ≤ id
  | .requeue _ id _ => id ∈ s.queue →
      newId s.order ≠ id ∧ ∀ k ∈ s.queue, k ≠ id → k < newId s.order
  | _ => True

variable {s t : Queue} {id k : U128}

namespace Keyed

theorem new : Keyed new where
  ascending := List.Pairwise.nil
  keys id := iff_of_false (fun h => List.not_mem_nil h.1) Finmap.notMem_empty
  nonzero := Finmap.notMem_empty
  cursor _ at_cursor := by cases at_cursor

theorem mem_queue (h : s.Keyed) (at_cursor : s.nextId = some id) : id ∈ s.queue :=
  (h.keys id).1 (h.cursor id at_cursor)

/-- Behind a call that leaves the messages alone only the cursor has to be looked at. -/
theorem congr_iff (h : s.Keyed) (keys : ∀ k, k ∈ t.queue ↔ k ∈ s.queue)
    (order : t.order = s.order ∨ t.order = drain s.order) :
    t.Keyed ↔ ∀ id, t.nextId = some id → id ∈ s.queue := by
  have ascending : Ascending t.order := by
    rcases order with order | order <;> rw [order]
    · exact h.ascending
    · exact ascending_drain.2 h.ascending
  have listed : ∀ k, k ∈ t.order ∧ k ≠ 0 ↔ k ∈ s.queue := by
    intro k
    rw [← h.keys k]
    rcases order with order | order <;> rw [order]
    exact and_congr_left fun nonzero => mem_drain nonzero
  constructor
  · intro h' id at_cursor
    exact (listed id).1 (h'.cursor id at_cursor)
  · intro cursor
    refine ⟨ascending, fun k => (listed k).trans (keys k).symm, ?_, fun id at_cursor => ?_⟩
    · exact fun zero => h.nonzero ((keys 0).1 zero)
    · exact (listed id).2 (cursor id at_cursor)

theorem congr (h : s.Keyed) (keys : ∀ k, k ∈ t.queue ↔ k ∈ s.queue) (order : t.order = s.order)
    (cursor : t.nextId = s.nextId) : t.Keyed := by
  rw [h.congr_iff keys (.inl order), cursor]
  exact fun _ => h.mem_queue

/-- Behind a removal as well. -/
theorem erase_iff (h : s.Keyed) (queue : t.queue = s.queue.erase id)
    (order : t.order = bury s.order id ∨ t.order = drain (bury s.order id)) :
    t.Keyed ↔ ∀ next, t.nextId = some next → next ∈ s.queue ∧ next ≠ id := by
  have buried : Ascending (bury s.order id) := h.ascending.bury id
  have ascending : Ascending t.order := by
    rcases order with order | order <;> rw [order]
    · exact buried
    · exact ascending_drain.2 buried
  have listed : ∀ k, k ∈ t.order ∧ k ≠ 0 ↔ k ∈ s.queue ∧ k ≠ id := by
    intro k
    rw [← h.keys k, and_right_comm]
    apply and_congr_left
    intro nonzero
    rcases order with order | order <;> rw [order]
    · exact h.ascending.mem_bury_iff nonzero
    · exact (mem_drain nonzero).trans (h.ascending.mem_bury_iff nonzero)
  constructor
  · intro h' next at_cursor
    exact (listed next).1 (h'.cursor next at_cursor)
  · intro cursor
    refine ⟨ascending, fun k => ?_, fun zero => ?_, fun next at_cursor => ?_⟩
    · rw [listed k, queue, Finmap.mem_erase, and_comm]
    · rw [queue] at zero
      exact h.nonzero (Finmap.mem_erase.1 zero).2
    · exact (listed next).2 (cursor next at_cursor)

theorem cursor_enqueued (h : s.Keyed) {m : QueueMessage}
    (at_cursor : (s.enqueued m).nextId = some k) : k ∈ (s.enqueued m).order ∧ k ≠ 0 := by
  obtain rfl := Option.some.inj at_cursor
  simp only [Queue.enqueued, List.mem_append, List.mem_singleton]
  cases cursor : s.nextId with
  | none => exact ⟨.inr rfl, newId_ne_zero s.order⟩
  | some next => exact (h.cursor next cursor).imp_left .inl

theorem enqueued_iff (h : s.Keyed) (m : QueueMessage) :
    (s.enqueued m).Keyed ↔ ∀ k ∈ s.queue, k < newId s.order := by
  have nonzero := newId_ne_zero s.order
  have ascending : Ascending (s.enqueued m).order ↔ ∀ k ∈ s.queue, k < newId s.order := by
    rw [Queue.enqueued, ascending_concat nonzero, and_iff_right h.ascending]
    simp only [← h.keys, and_imp]
  rw [← ascending]
  refine ⟨fun h' => h'.ascending, fun ascends => ⟨ascends, fun k => ?_, ?_, ?_⟩⟩
  · simp only [Queue.enqueued, List.mem_append, List.mem_singleton, Finmap.mem_insert, ← h.keys]
    constructor
    · rintro ⟨mem, ne⟩
      exact mem.symm.imp_right fun mem => ⟨mem, ne⟩
    · rintro (rfl | ⟨mem, ne⟩)
      · exact ⟨.inr rfl, nonzero⟩
      · exact ⟨.inl mem, ne⟩
  · intro zero
    rcases Finmap.mem_insert.1 zero with zero | zero
    · exact nonzero zero.symm
    · exact h.nonzero zero
  · exact fun id => h.cursor_enqueued

/-- A cursor moved off a removed message is at an entry that is left. -/
theorem mem_of_cursorWithout (inside : ∀ next, s.nextId = some next → next ∈ s.order)
    (at_cursor : s.cursorWithout id = some k) : k ∈ bury s.order id ∧ k ≠ 0 := by
  refine mem_of_skipTombstone (fun next => ?_) at_cursor
  split_ifs with here
  · exact mem_bury_of_entryAfter
  · intro elsewhere
    apply mem_bury (inside next elsewhere)
    rintro rfl
    exact here elsewhere

theorem removed (h : s.Keyed) (clientId id : U128) : (s.removed clientId id).Keyed := by
  apply (h.erase_iff rfl (order_removed s clientId id)).2
  intro next at_cursor
  obtain ⟨left, nonzero⟩ := mem_of_cursorWithout (fun k at_k => (h.cursor k at_k).1) at_cursor
  obtain ⟨listed, ne⟩ := (h.ascending.mem_bury_iff nonzero).1 left
  exact ⟨(h.keys next).1 ⟨listed, nonzero⟩, ne⟩

/-- The id of a requeued message is taken away once, even if its copy has got it again. -/
theorem bury_enqueued (h : s.Keyed) (mem : id ∈ s.queue) (m : QueueMessage) :
    bury (s.enqueued m).order id = bury s.order id ++ [newId s.order] :=
  bury_append_of_mem ((h.keys id).2 mem).1

theorem mem_requeued (h : s.Keyed) (clientId : U128) (mem : id ∈ s.queue) (m : QueueMessage)
    (ne : k ≠ 0) : k ∈ (s.requeued clientId id m).order ↔
      k ∈ s.order ∧ k ≠ id ∨ k = newId s.order := by
  rw [← h.ascending.mem_bury_iff ne, ← List.mem_singleton, ← List.mem_append,
    ← h.bury_enqueued mem m]
  rcases order_removed (s.enqueued m) clientId id with order | order <;> rw [requeued, order]
  exact mem_drain ne

/-- The new id has to be larger than the ids that are left. -/
theorem ascending_requeued (h : s.Keyed) (clientId : U128) (mem : id ∈ s.queue)
    (m : QueueMessage) : Ascending (s.requeued clientId id m).order ↔
      ∀ k ∈ s.queue, k ≠ id → k < newId s.order := by
  have inner : Ascending (s.requeued clientId id m).order ↔
      Ascending (bury s.order id ++ [newId s.order]) := by
    rw [← h.bury_enqueued mem m]
    rcases order_removed (s.enqueued m) clientId id with order | order <;> rw [requeued, order]
    exact ascending_drain
  rw [inner, ascending_concat (newId_ne_zero s.order), and_iff_right (h.ascending.bury id)]
  constructor
  · intro larger k stored ne
    obtain ⟨mem, k_ne_zero⟩ := (h.keys k).2 stored
    exact larger k (mem_bury mem ne) k_ne_zero
  · intro larger k mem k_ne_zero
    obtain ⟨mem, ne⟩ := (h.ascending.mem_bury_iff k_ne_zero).1 mem
    exact larger k ((h.keys k).1 ⟨mem, k_ne_zero⟩) ne

theorem requeued_iff (h : s.Keyed) (clientId : U128) (mem : id ∈ s.queue) (m : QueueMessage) :
    (s.requeued clientId id m).Keyed ↔
      newId s.order ≠ id ∧ ∀ k ∈ s.queue, k ≠ id → k < newId s.order := by
  have nonzero := newId_ne_zero s.order
  have left : ∀ k ≠ 0, k ∈ (s.requeued clientId id m).order ↔
      k ∈ s.order ∧ k ≠ id ∨ k = newId s.order := fun k => h.mem_requeued clientId mem m
  have stored : ∀ k, k ∈ (s.requeued clientId id m).queue ↔
      k ≠ id ∧ (k = newId s.order ∨ k ∈ s.queue) := fun k =>
    Finmap.mem_erase.trans (and_congr_right fun _ => Finmap.mem_insert)
  rw [← h.ascending_requeued clientId mem m]
  constructor
  · intro h'
    refine ⟨?_, h'.ascending⟩
    rintro rfl
    exact ((stored _).1 ((h'.keys _).1 ⟨(left _ nonzero).2 (.inr rfl), nonzero⟩)).1 rfl
  · rintro ⟨other, ascends⟩
    refine ⟨ascends, fun k => ?_, fun zero => ?_, fun next at_cursor => ?_⟩
    · rw [stored k, ← h.keys k]
      constructor
      · rintro ⟨mem, ne⟩
        rcases (left k ne).1 mem with ⟨mem, apart⟩ | rfl
        · exact ⟨apart, .inr ⟨mem, ne⟩⟩
        · exact ⟨other, .inl rfl⟩
      · rintro ⟨apart, rfl | ⟨mem, ne⟩⟩
        · exact ⟨(left _ nonzero).2 (.inr rfl), nonzero⟩
        · exact ⟨(left k ne).2 (.inl ⟨mem, apart⟩), ne⟩
    · rcases ((stored 0).1 zero).2 with zero | zero
      · exact nonzero zero.symm
      · exact h.nonzero zero
    · obtain ⟨inside, ne⟩ := mem_of_cursorWithout (fun _ at_k => (h.cursor_enqueued at_k).1) at_cursor
      rw [h.bury_enqueued mem m, List.mem_append, List.mem_singleton,
        h.ascending.mem_bury_iff ne] at inside
      exact ⟨(left next ne).2 inside, ne⟩

theorem of_inert (h : s.Keyed) {op : Op} (inert : s.Inert op) : s.KeepsKeyed op := by
  cases op with
  | enqueue => exact inert.elim
  | dequeue clientId messageId =>
    intro _ id first at_cursor
    rcases inert.2 with empty | empty
    · simpa [empty] using (h.cursor id at_cursor).1
    · simp [empty] at first
  | unlock clientId messageId =>
    intro nonempty id listed
    rcases inert with empty | nothing
    · exact absurd empty nonempty
    · rw [nothing] at listed
      cases listed
  | requeue clientId id => exact fun stored => absurd stored inert
  | _ => trivial

theorem released_iff (h : s.Keyed) (clientId id : U128) :
    (s.released clientId id).Keyed ↔
      id ∈ s.queue ∨ ∃ next, s.nextId = some next ∧ next ≤ id := by
  rw [h.congr_iff (mem_released s clientId id) (.inl rfl)]
  cases cursor : s.nextId with
  | none => simp [Queue.released, cursor]
  | some next =>
    have stored := h.mem_queue cursor
    simp only [Queue.released, cursor, Option.some.injEq, forall_eq', exists_eq_left']
    split_ifs with back
    · exact ⟨.inl, fun h => h.resolve_right fun ahead => BitVec.not_le.2 back ahead⟩
    · exact iff_of_true stored (.inr (BitVec.not_lt.1 back))

theorem step_iff (h : s.Keyed) (rooted : s.Rooted) (op : Op) :
    (s.step op).Keyed ↔ s.KeepsKeyed op := by
  have effect := step_effect rooted op
  generalize moved : s.step op = t at effect ⊢
  cases effect with
  | idle op inert => exact iff_of_true h (h.of_inert inert)
  | measured => exact iff_of_true (h.congr (fun _ => Iff.rfl) rfl rfl) trivial
  | enqueued => exact h.enqueued_iff _
  | delivered clientId id m cursor stored =>
    refine iff_of_true ((h.congr_iff (HashMap.mem_insert_of_lookup stored)
      (order_delivered s clientId id m)).2 fun next at_cursor => ?_) trivial
    exact (h.keys next).1 (mem_of_skipTombstone (fun k => mem_of_entryAfter) at_cursor)
  | removed clientId id m stored =>
    apply iff_of_true (h.removed clientId id)
    intro unnamed
    exact absurd (HashMap.mem_of_lookup stored) (unnamed id rfl)
  | acked clientId id ids messageId unnamed first =>
    rw [h.erase_iff rfl (.inr rfl), KeepsKeyed, first, List.head?_cons]
    constructor
    · intro moved _ next first at_cursor
      exact (moved next at_cursor).2 (Option.some.inj first).symm
    · intro elsewhere next at_cursor
      refine ⟨h.mem_queue at_cursor, ?_⟩
      rintro rfl
      exact elsewhere unnamed next rfl at_cursor
  | released clientId id messageId listed =>
    by_cases empty : s.order = []
    · rw [step, Op.call, unlock_empty clientId messageId empty] at moved
      rw [← moved]
      exact iff_of_true h fun nonempty => absurd empty nonempty
    · rw [h.released_iff]
      refine ⟨fun fits _ id' listed' => ?_, fun fits => fits empty id listed⟩
      obtain rfl := Option.some.inj (listed.symm.trans listed')
      exact fits
  | requeued clientId id now m stored =>
    have mem := HashMap.mem_of_lookup stored
    rw [h.requeued_iff clientId mem]
    exact ⟨fun fits _ => fits, fun fits => fits mem⟩
  | updated id m payload stored =>
    exact iff_of_true (h.congr (HashMap.mem_insert_of_lookup stored) rfl rfl) trivial

end Keyed

/-- The entries of `order` are the keys in ascending order, with the cursor at one of them,
throughout a run if and only if every call of it keeps them so. -/
theorem keyed_iff_keepsKeyed (ops : List Op) :
    Transition.EveryState step Keyed new ops ↔ Transition.EveryStep step KeepsKeyed new ops :=
  Transition.everyState_iff_everyStep (rooted_run ops) .new fun _ op rooted h =>
    h.step_iff rooted op

/-- The last message of two is removed. The tombstone that it leaves at the end of `order` makes the
next message get the id of the first one, which is then listed twice. -/
theorem tombstone_repeats_id :
    ¬ ∀ ops, ops.length < 2 ^ 128 - 1 → Transition.EveryState step Keyed new ops := by
  intro keyed
  have last := (keyed [.enqueue [1] 7 0, .enqueue [2] 7 0, .dequeue 9 (some 2), .enqueue [3] 7 0]
    (by decide)).last.ascending
  unfold Ascending at last
  exact absurd last (by decide)

end Queue

end DataBroker
