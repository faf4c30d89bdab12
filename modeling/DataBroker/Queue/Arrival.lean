import DataBroker.Queue.Ascending

/-!
# Arrival

When a message was enqueued, or last requeued, is recorded beside the queue as the stamp of its id.
As long as new messages get the largest id, ids and stamps are in the same order, and `lockToRead`
hands out the message that has waited longest (`fifo_of_takesLargest`).
-/

namespace DataBroker

/-- A queue with the time at which each of its messages came in. -/
structure Stamped extends Queue where
  stamp : U128 → ℕ
  clock : ℕ

namespace Stamped

open Queue

/-- The call stores a message under a new id. -/
def Stores (s : Queue) : Op → Prop
  | .enqueue .. => True
  | .requeue _ id _ => id ∈ s.queue
  | _ => False

instance (s : Queue) : (op : Op) → Decidable (Stores s op)
  | .enqueue .. => .isTrue trivial
  | .requeue _ id _ => inferInstanceAs (Decidable (id ∈ s.queue))
  | .lockToRead _ | .dequeue .. | .unlock .. | .updateMessage .. | .isLocked ..
  | .listMessages _ | .getNextBiggestPayload _ => .isFalse id

def new : Stamped := ⟨Queue.new, fun _ => 0, 0⟩

def step (s : Stamped) (op : Op) : Stamped where
  toQueue := s.toQueue.step op
  stamp := if Stores s.toQueue op then Function.update s.stamp (newId s.order) s.clock else s.stamp
  clock := s.clock + 1

/-- What `lockToRead` returns is the unlocked message with the earliest stamp. -/
def Fifo (s : Stamped) : Prop :=
  ∀ c bytes returned, ((lockToRead c).run s.toQueue).1 = .ok (bytes, returned) →
    ∃ id m, returned = some id ∧ s.queue.lookup id = some m ∧ m.lockedBy = none ∧
      bytes = getMetaAsVec id (m.lock c) ++ m.payload ∧
      ∀ k m', s.queue.lookup k = some m' → m'.lockedBy = none → k ≠ id → s.stamp id < s.stamp k

/-- The stamps are in the order of the ids, and in the past. -/
structure InOrder (s : Stamped) : Prop where
  ranked : s.Ranked
  ordered : ∀ j ∈ s.queue, ∀ k ∈ s.queue, j < k → s.stamp j < s.stamp k
  past : ∀ k ∈ s.queue, s.stamp k < s.clock

/-- A message that is stored after a call was stored before it or is the new one. -/
theorem mem_step {s : Queue} (h : s.Rooted) {op : Op} {k : U128} (mem : k ∈ (s.step op).queue) :
    k ∈ s.queue ∨ Stores s op ∧ k = newId s.order := by
  have effect := step_effect h op
  generalize s.step op = t at effect mem
  cases effect with
  | idle => exact .inl mem
  | measured => exact .inl mem
  | enqueued => exact (Finmap.mem_insert.1 mem).symm.imp_right fun e => ⟨trivial, e⟩
  | delivered clientId id m cursor stored =>
    exact .inl ((HashMap.mem_insert_of_lookup stored k).1 mem)
  | removed => exact .inl (Finmap.mem_erase.1 mem).2
  | acked => exact .inl (Finmap.mem_erase.1 mem).2
  | released clientId id =>
    rw [← Finmap.lookup_isSome, lookup_released] at mem
    rw [← Finmap.lookup_isSome]
    split_ifs at mem
    · exact .inl (by simpa using mem)
    · exact .inl mem
  | requeued clientId id now m stored =>
    have kept := (Finmap.mem_erase.1 mem).2
    exact (Finmap.mem_insert.1 kept).symm.imp_right fun e => ⟨HashMap.mem_of_lookup stored, e⟩
  | updated id m payload stored =>
    exact .inl ((HashMap.mem_insert_of_lookup stored k).1 mem)

theorem largest_of_stores {s : Queue} {op : Op} (largest : s.TakesLargest op)
    (stores : Stores s op) : s.LargestNew := by
  cases op with
  | enqueue => exact largest
  | requeue => exact largest stores
  | _ => cases stores

namespace InOrder

variable {s : Stamped} {op : Op} {k : U128}

theorem stamp_new (stores : Stores s.toQueue op) :
    (s.step op).stamp (newId s.order) = s.clock := by
  unfold Stamped.step
  dsimp only
  rw [if_pos stores, Function.update_self]

/-- A message that was stored keeps its stamp: the new one does not take its id. -/
theorem stamp_old (largest : s.TakesLargest op) (mem : k ∈ s.queue) :
    (s.step op).stamp k = s.stamp k := by
  unfold step
  dsimp only
  split_ifs with stores
  · have below := (largest_of_stores largest stores).lt mem
    exact Function.update_of_ne (BitVec.ne_of_lt below) _ _
  · rfl

theorem step (h : s.InOrder) (largest : s.TakesLargest op) : (s.step op).InOrder where
  ranked := h.ranked.step largest
  ordered j memj k memk lt := by
    rcases mem_step h.ranked.toRooted memj with oldj | ⟨stores, rfl⟩
    · rcases mem_step h.ranked.toRooted memk with oldk | ⟨stores, rfl⟩
      · rw [stamp_old largest oldj, stamp_old largest oldk]
        exact h.ordered j oldj k oldk lt
      · rw [stamp_old largest oldj, stamp_new stores]
        exact h.past j oldj
    · rcases mem_step h.ranked.toRooted memk with oldk | ⟨-, rfl⟩
      · exact absurd lt (BitVec.lt_asymm ((largest_of_stores largest stores).lt oldk))
      · exact absurd lt (BitVec.lt_irrefl _)
  past k mem := by
    show (s.step op).stamp k < s.clock + 1
    rcases mem_step h.ranked.toRooted mem with old | ⟨stores, rfl⟩
    · rw [stamp_old largest old]
      exact (h.past k old).trans (Nat.lt_succ_self _)
    · rw [stamp_new stores]
      exact Nat.lt_succ_self _

theorem new : InOrder new where
  ranked := .new
  ordered _ mem := absurd mem Finmap.notMem_empty
  past _ mem := absurd mem Finmap.notMem_empty

/-- The message under the cursor has the smallest id of the unlocked ones, and so the earliest
stamp. -/
theorem fifo (h : s.InOrder) : s.Fifo := by
  intro c bytes returned ok
  rcases lockToRead_cases s.toQueue c with ⟨⟨e, refused⟩, -⟩ | ⟨id, m, nonempty, cursor, stored, free⟩
  · rw [refused] at ok
    cases ok
  rw [run_lockToRead c nonempty cursor stored free] at ok
  have same := Outcome.ok.inj ok
  refine ⟨id, m, (congrArg Prod.snd same).symm, stored, free, (congrArg Prod.fst same).symm,
    fun k m' stored' free' ne => ?_⟩
  obtain ⟨first, at_first, below⟩ := h.ranked.cursor k (free_iff.2 ⟨m', stored', free'⟩)
  obtain rfl : id = first := by simpa [cursor] using at_first
  exact h.ordered id (HashMap.mem_of_lookup stored) k (HashMap.mem_of_lookup stored')
    (BitVec.lt_of_le_ne below ne.symm)

end InOrder

/-- As long as every new message gets an id that is larger than the stored ones and not below the
cursor, messages are handed out in the order of their arrival. -/
theorem fifo_of_takesLargest (ops : List Op)
    (largest : Transition.EveryStep step (fun s op => s.TakesLargest op) new ops) :
    Transition.EveryState step Fifo new ops :=
  (largest.invariant InOrder.new fun _ _ (h : InOrder _) largest => h.step largest).mono
    fun _ h => h.fifo

/-- The second of three messages is given up by one client while the others are locked. -/
theorem fifo_after_nack : Transition.EveryState step Fifo new
    [.enqueue [1] 7 0, .enqueue [2] 7 0, .enqueue [3] 7 0, .lockToRead 1, .lockToRead 2,
      .unlock 2 none, .requeue 1 1 0] :=
  fifo_of_takesLargest _ (by decide)

/-- The last of three messages is removed. The tombstone at the end of `order` makes the next
message get the id of the first one, and with it the place under the cursor. -/
theorem newest_overtakes :
    ¬ ∀ ops, ops.length < 2 ^ 128 - 1 → Transition.EveryState step Fifo new ops := by
  intro fifo
  have last := (fifo [.enqueue [1] 7 0, .enqueue [2] 7 0, .enqueue [3] 7 0, .dequeue 9 (some 3),
    .enqueue [4] 7 0] (by decide)).last
  obtain ⟨id, m, returned, -, -, -, earliest⟩ := last 1
    (getMetaAsVec 1 ((QueueMessage.new [4] 7 0).lock 1) ++ [4]) (some 1) (by decide)
  obtain rfl : (1 : U128) = id := by simpa using returned
  have overtaken := earliest 2 (QueueMessage.new [2] 7 0) (by decide) rfl (by decide)
  exact absurd overtaken (by decide)

end Stamped

end DataBroker
