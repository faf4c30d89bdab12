import DataBroker.Queue.Calls
import Mathlib.Data.List.TakeWhile

/-!
# Tombstones

A removed message leaves a `0` in `order`. `removeZeroes` drops the zeros at the front once there
are enough of them, but a message that is removed by its id is only followed by it if the caller has
the message on its list. `reclaims_iff_leavesFront` says in which runs the zeros at the front stay fewer
than `magicDrainVec`, and that an empty queue has no more entries in `order` then.
-/

namespace DataBroker

namespace Queue

/-- The number of tombstones in front of the first entry. -/
def leadingZeros (order : List U128) : ℕ := (order.takeWhile (· = 0)).length

/-! ## The front of the order vector -/

section Order

variable {order : List U128} {id : U128} {n : ℕ}

theorem leadingZeros_lt_iff : leadingZeros order < n ↔ ∃ k < n, order[k]? ≠ some 0 := by
  induction order generalizing n with
  | nil =>
    constructor
    · intro positive
      exact ⟨0, positive, by simp⟩
    · rintro ⟨k, below, -⟩
      exact Nat.zero_lt_of_lt below
  | cons x order ih =>
    by_cases zero : x = 0
    · have more : leadingZeros (x :: order) = leadingZeros order + 1 := by
        simp [leadingZeros, zero]
      cases n with
      | zero => simp
      | succ n =>
        rw [more, Nat.add_lt_add_iff_right, ih, Nat.exists_lt_succ_left]
        simp [zero]
    · have none_zero : leadingZeros (x :: order) = 0 := by
        rw [leadingZeros, List.takeWhile_cons_of_neg (by simpa using zero), List.length_nil]
      rw [none_zero]
      constructor
      · intro positive
        exact ⟨0, positive, by simpa using zero⟩
      · rintro ⟨k, below, -⟩
        exact Nat.zero_lt_of_lt below

/-- Draining leaves few of them. -/
theorem leadingZeros_drain (order : List U128) : leadingZeros (drain order) < magicDrainVec := by
  unfold drain
  split_ifs with long
  · split
    next i found =>
      obtain ⟨inside, nonzero, -⟩ := List.findIdx?_eq_some_iff_getElem.1 found
      have entry : order[i]? ≠ some 0 := by
        rw [List.getElem?_eq_getElem inside]
        simpa using nonzero
      split_ifs with enough
      · exact leadingZeros_lt_iff.2 ⟨0, by decide, by rwa [List.getElem?_drop, Nat.add_zero]⟩
      · exact leadingZeros_lt_iff.2 ⟨i, by omega, entry⟩
    next => decide
  · exact (List.takeWhile_sublist _).length_le.trans_lt (not_le.1 long)

theorem leadingZeros_append (front : leadingZeros order < n) (ne_zero : id ≠ 0) :
    leadingZeros (order ++ [id]) < n := by
  obtain ⟨k, below, entry⟩ := leadingZeros_lt_iff.1 front
  refine leadingZeros_lt_iff.2 ⟨k, below, ?_⟩
  rw [List.getElem?_append]
  split_ifs with inside
  · exact entry
  · rw [List.getElem?_singleton]
    split_ifs
    · simpa using ne_zero
    · simp

/-- One of the first places of `order` is not taken by a tombstone, that of `id` apart; it may be
behind the last entry. -/
def LeavesEntry (order : List U128) (id : U128) : Prop :=
  ∃ k < magicDrainVec, k ≠ order.idxOf id ∧ order[k]? ≠ some 0

instance (order : List U128) (id : U128) : Decidable (LeavesEntry order id) :=
  inferInstanceAs (Decidable (∃ k < magicDrainVec, _))

theorem leadingZeros_bury (listed : id ∈ order) :
    leadingZeros (bury order id) < magicDrainVec ↔ LeavesEntry order id := by
  rw [leadingZeros_lt_iff, LeavesEntry]
  refine exists_congr fun k => and_congr_right fun _ => ?_
  have inside := List.idxOf_lt_length_of_mem listed
  rw [bury, List.getElem?_set]
  split_ifs with here
  · simp [here]
  · exact ⟨fun entry => ⟨Ne.symm here, entry⟩, And.right⟩

end Order

/-- The call takes a message out of the queue. -/
def Op.Removes : Op → Prop
  | .dequeue .. => True
  | .requeue .. => True
  | _ => False

/-- Behind a call that has taken a message out there are few tombstones at the front. -/
def Reclaims (s : Queue) (op : Op) : Prop :=
  op.Removes → (op.call.run s).1 = .ok () → leadingZeros (s.step op).order < magicDrainVec

/-- A stored message that is removed by its id is on the list of the caller, or something else is
left at the front. -/
def LeavesFront (s : Queue) : Op → Prop
  | .dequeue clientId (some id) =>
    id ∈ s.queue → id ∈ s.lockedIds clientId ∨ LeavesEntry s.order id
  | .requeue clientId id _ =>
    id ∈ s.queue → id ∈ s.lockedIds clientId ∨ LeavesEntry s.order id
  | _ => True

variable {s : Queue} {op : Op}

/-- Nothing has to be left at the front by a call that takes no message by its id. -/
theorem leavesFront_of_absent (absent : ∀ clientId id now,
      op = .dequeue clientId (some id) ∨ op = .requeue clientId id now → id ∉ s.queue) :
    s.LeavesFront op := by
  cases op with
  | dequeue clientId messageId =>
    cases messageId with
    | none => trivial
    | some id => exact fun mem => absurd mem (absent clientId id 0 (.inl rfl))
  | requeue clientId id now => exact fun mem => absurd mem (absent clientId id now (.inr rfl))
  | _ => trivial

theorem leavesFront_of_inert (inert : s.Inert op) : s.LeavesFront op := by
  apply leavesFront_of_absent
  rintro clientId id now (rfl | rfl)
  · exact inert.1 id rfl
  · exact inert

theorem leavesFront_of_unnamed {clientId : U128} {messageId : Option U128}
    (unnamed : ∀ m ∈ messageId, m ∉ s.queue) : s.LeavesFront (.dequeue clientId messageId) := by
  apply leavesFront_of_absent
  rintro c m now (e | e)
  · exact unnamed m (by simpa using (Op.dequeue.inj e).2)
  · cases e

theorem leadingZeros_removed (clientId : U128) {id : U128} (listed : id ∈ s.order) :
    leadingZeros (s.removed clientId id).order < magicDrainVec ↔
      id ∈ s.lockedIds clientId ∨ LeavesEntry s.order id := by
  by_cases mine : id ∈ s.lockedIds clientId
  · rw [removed, if_pos mine]
    exact iff_of_true (leadingZeros_drain _) (.inl mine)
  · rw [removed, if_neg mine, leadingZeros_bury listed, or_iff_right mine]

/-- The copy that `requeue` appends does not matter: the places behind `order` count as free. -/
theorem leavesEntry_append {order : List U128} {id new : U128} (listed : id ∈ order) (ne_zero : new ≠ 0) :
    LeavesEntry (order ++ [new]) id ↔ LeavesEntry order id := by
  unfold LeavesEntry
  rw [List.idxOf_append_of_mem listed]
  refine exists_congr fun k => and_congr_right fun _ => and_congr_right fun _ => not_congr ?_
  rw [List.getElem?_append]
  split_ifs with inside
  · rfl
  · rw [List.getElem?_singleton, List.getElem?_eq_none (not_lt.1 inside)]
    split_ifs
    · simpa using ne_zero
    · rfl

theorem leadingZeros_requeued (clientId : U128) {id : U128} (listed : id ∈ s.order) (m : QueueMessage) :
    leadingZeros (s.requeued clientId id m).order < magicDrainVec ↔
      id ∈ s.lockedIds clientId ∨ LeavesEntry s.order id := by
  rw [requeued, leadingZeros_removed clientId (List.mem_append_left _ listed),
    ← leavesEntry_append listed (newId_ne_zero s.order)]
  rfl

theorem leadingZeros_step (rooted : s.Rooted) (few : leadingZeros s.order < magicDrainVec) (op : Op) :
    leadingZeros (s.step op).order < magicDrainVec ↔ s.LeavesFront op := by
  have effect := step_effect rooted op
  generalize s.step op = t at effect ⊢
  cases effect with
  | idle op inert => exact iff_of_true few (leavesFront_of_inert inert)
  | measured => exact iff_of_true few trivial
  | enqueued => exact iff_of_true (leadingZeros_append few (newId_ne_zero s.order)) trivial
  | delivered clientId id m =>
    refine iff_of_true ?_ trivial
    rcases order_delivered s clientId id m with order | order <;> rw [order]
    · exact few
    · exact leadingZeros_drain _
  | removed clientId id m stored =>
    have mem := HashMap.mem_of_lookup stored
    rw [leadingZeros_removed clientId (rooted.listed id mem)]
    exact ⟨fun front _ => front, fun front => front mem⟩
  | acked clientId id ids messageId unnamed =>
    exact iff_of_true (leadingZeros_drain _) (leavesFront_of_unnamed unnamed)
  | released => exact iff_of_true few trivial
  | requeued clientId id now m stored =>
    have mem := HashMap.mem_of_lookup stored
    rw [leadingZeros_requeued clientId (rooted.listed id mem)]
    exact ⟨fun front _ => front, fun front => front mem⟩
  | updated => exact iff_of_true few trivial

/-- A call that does not succeed leaves few of them as well. -/
theorem ok_or_leadingZeros (rooted : s.Rooted) (few : leadingZeros s.order < magicDrainVec) (op : Op) :
    (op.call.run s).1 = .ok () ∨ leadingZeros (s.step op).order < magicDrainVec := by
  have answer := call_answer rooted op
  unfold step
  generalize op.call.run s = result at answer ⊢
  cases answer with
  | done => exact .inl rfl
  | refused => exact .inr few
  | panicked => exact .inr (leadingZeros_drain _)

theorem reclaims_iff (rooted : s.Rooted) (few : leadingZeros s.order < magicDrainVec) (op : Op) :
    s.Reclaims op ↔ s.LeavesFront op := by
  rw [← leadingZeros_step rooted few]
  refine ⟨fun reclaims => ?_, fun left _ _ => left⟩
  by_cases removes : op.Removes
  · exact (ok_or_leadingZeros rooted few op).elim (reclaims removes) id
  · apply (leadingZeros_step rooted few op).2
    cases op with
    | dequeue => exact absurd trivial removes
    | requeue => exact absurd trivial removes
    | _ => trivial

/-! ## An empty queue -/

/-- A message is stored under an id that no stored message has. -/
def StoresNew (s : Queue) : Op → Prop
  | .enqueue .. => newId s.order ∉ s.queue
  | .requeue _ id _ => id ∈ s.queue → newId s.order ∉ s.queue
  | _ => True

/-- Every entry of `order` that is not a tombstone is the one entry of a stored message. -/
structure Indexed (s : Queue) : Prop where
  stored : ∀ id ∈ s.order, id ≠ 0 → id ∈ s.queue
  once : (s.order.filter (· ≠ 0)).Nodup

namespace Indexed

variable {t : Queue} {id : U128}

theorem new : Indexed new where
  stored _ mem := by cases mem
  once := List.nodup_nil

theorem enqueued (h : s.Indexed) (fresh : newId s.order ∉ s.queue) (m : QueueMessage) :
    (s.enqueued m).Indexed where
  stored id mem ne_zero := by
    rcases List.mem_append.1 mem with old | last
    · exact mem_enqueued m (h.stored id old ne_zero)
    · exact Finmap.mem_insert.2 (.inl (List.mem_singleton.1 last))
  once := by
    have nonzero := newId_ne_zero s.order
    rw [Queue.enqueued, List.filter_append, List.filter_cons_of_pos (by simpa using nonzero),
      List.filter_nil]
    refine List.nodup_append.2 ⟨h.once, List.nodup_singleton _, ?_⟩
    rintro id mem _ last rfl
    obtain rfl := List.mem_singleton.1 last
    exact fresh (h.stored _ (List.mem_of_mem_filter mem) nonzero)

/-- Draining drops no entry. -/
theorem of_keys (h : s.Indexed) (keys : ∀ k ∈ s.queue, k ∈ t.queue)
    (order : t.order = s.order ∨ t.order = drain s.order) : t.Indexed where
  stored k mem ne_zero := by
    apply keys k (h.stored k _ ne_zero)
    rcases order with order | order <;> rw [order] at mem
    · exact mem
    · exact (mem_drain ne_zero).1 mem
  once := by
    rcases order with order | order <;> rw [order]
    · exact h.once
    · rw [filter_drain]
      exact h.once

theorem erase (h : s.Indexed) (queue : t.queue = s.queue.erase id)
    (order : t.order = bury s.order id ∨ t.order = drain (bury s.order id)) : t.Indexed where
  stored k mem ne_zero := by
    have buried : k ∈ bury s.order id := by
      rcases order with order | order <;> rw [order] at mem
      · exact mem
      · exact (mem_drain ne_zero).1 mem
    have ne : k ≠ id := by
      rintro rfl
      exact notMem_bury_of_once h.once ne_zero buried
    rw [queue]
    exact Finmap.mem_erase.2 ⟨ne, h.stored k (mem_of_mem_bury buried ne_zero) ne_zero⟩
  once := by
    have buried := h.once.sublist (filter_bury_sublist s.order id)
    rcases order with order | order <;> rw [order]
    · exact buried
    · rwa [filter_drain]

theorem step (h : s.Indexed) (rooted : s.Rooted) {op : Op} (fresh : s.StoresNew op) :
    (s.step op).Indexed := by
  have effect := step_effect rooted op
  generalize s.step op = t at effect ⊢
  cases effect with
  | idle => exact h
  | measured => exact h.of_keys (fun _ => id) (.inl rfl)
  | enqueued => exact h.enqueued fresh _
  | delivered clientId id m cursor stored =>
    exact h.of_keys (fun k => (HashMap.mem_insert_of_lookup stored k).2)
      (order_delivered s clientId id m)
  | removed clientId id => exact h.erase rfl (order_removed s clientId id)
  | acked => exact h.erase rfl (.inr rfl)
  | released clientId id => exact h.of_keys (fun k => (mem_released s clientId id k).2) (.inl rfl)
  | requeued clientId id now m stored =>
    exact (h.enqueued (fresh (HashMap.mem_of_lookup stored)) _).erase rfl
      (order_removed _ clientId id)
  | updated id m payload stored =>
    exact h.of_keys (fun k => (HashMap.mem_insert_of_lookup stored k).2) (.inl rfl)

/-- Without messages there are tombstones only, and these are all at the front. -/
theorem length_lt (h : s.Indexed) (few : leadingZeros s.order < magicDrainVec)
    (empty : s.queue = ∅) : s.order.length < magicDrainVec := by
  have zeros : ∀ id ∈ s.order, decide (id = 0) = true := by
    intro id mem
    by_contra nonzero
    have stored := h.stored id mem (by simpa using nonzero)
    rw [empty] at stored
    exact Finmap.notMem_empty stored
  rwa [leadingZeros, List.takeWhile_eq_self_iff.2 zeros] at few

end Indexed

/-- The tombstones at the front stay few behind all removals of a run if and only if every call of
it leaves something at the front. If besides no message is stored in place of another, an empty
queue has few entries in `order`. -/
theorem reclaims_iff_leavesFront (ops : List Op) :
    (Transition.EveryStep step Reclaims new ops ↔ Transition.EveryStep step LeavesFront new ops) ∧
      (Transition.EveryStep step LeavesFront new ops → Transition.EveryStep step StoresNew new ops →
        Transition.EveryState step (fun s => s.queue = ∅ → s.order.length < magicDrainVec) new ops) := by
  constructor
  · apply Transition.EveryStep.iff (I := fun s => s.Rooted ∧ leadingZeros s.order < magicDrainVec)
    · exact ⟨.new, by decide⟩
    · exact fun s op h => reclaims_iff h.1 h.2 op
    · intro s op h reclaims
      exact ⟨h.1.step op, (leadingZeros_step h.1 h.2 op).2 ((reclaims_iff h.1 h.2 op).1 reclaims)⟩
  · intro front fresh
    have kept : Transition.EveryState step
        (fun s => s.Rooted ∧ leadingZeros s.order < magicDrainVec ∧ s.Indexed) new ops := by
      apply (front.and fresh).invariant ⟨.new, by decide, .new⟩
      intro s op h leaves
      exact ⟨h.1.step op, (leadingZeros_step h.1 h.2.1 op).2 leaves.1, h.2.2.step h.1 leaves.2⟩
    exact kept.mono fun s h => h.2.2.length_lt h.2.1

/-! ## Removals by strangers -/

/-- A message comes in and is removed by a client that has not locked it, `n` times over. -/
def strangerRounds (n : ℕ) : List Op :=
  (List.replicate n [.enqueue [] 7 0, .dequeue 9 (some 1)]).flatten

theorem newId_replicate (n : ℕ) : newId (List.replicate n 0) = 1 := by
  cases n with
  | zero => rfl
  | succ n => rw [List.replicate_succ', newId, List.getLast?_concat]; rfl

theorem order_round {n : ℕ} (order : s.order = List.replicate n 0) (unlocked : s.lockedIds 9 = []) :
    let t := Transition.run step s [.enqueue [] 7 0, .dequeue 9 (some 1)]
    t.order = List.replicate (n + 1) 0 ∧ t.lockedIds 9 = [] := by
  have id : newId s.order = 1 := by rw [order, newId_replicate]
  let u := s.enqueued (QueueMessage.new [] 7 0)
  have after : u.order = List.replicate n 0 ++ [1] := by rw [← order, ← id]; rfl
  have stored : u.queue.lookup 1 = some (QueueMessage.new [] 7 0) := by
    rw [lookup_enqueued, if_pos id.symm]
  have run : Transition.run step s [.enqueue [] 7 0, .dequeue 9 (some 1)] = u.removed 9 1 := by
    rw [Transition.run_cons, Transition.run_cons, Transition.run_nil, step_enqueue, step, Op.call,
      Method.run_discard_snd, run_dequeue_id 9 (by rw [after]; simp) stored]
  have alone : 1 ∉ u.lockedIds 9 := by
    rw [show u.lockedIds 9 = s.lockedIds 9 from rfl, unlocked]
    simp
  rw [run]
  constructor
  · rw [removed, if_neg alone, after, bury_append (by simp), ← List.replicate_succ']
  · rw [lockedIds_removed, if_pos rfl, show u.lockedIds 9 = s.lockedIds 9 from rfl, unlocked]
    rfl

/-- Every round leaves one more tombstone. -/
theorem order_strangerRounds (n : ℕ) :
    let t := Transition.run step new (strangerRounds n)
    t.order = List.replicate n 0 ∧ t.lockedIds 9 = [] := by
  induction n with
  | zero => exact ⟨rfl, rfl⟩
  | succ n ih =>
    have rounds : strangerRounds (n + 1) =
        strangerRounds n ++ [.enqueue [] 7 0, .dequeue 9 (some 1)] := by
      simp [strangerRounds, List.replicate_succ']
    rw [rounds, Transition.run_append]
    exact order_round ih.1 ih.2

/-- Ten such rounds leave ten tombstones. -/
theorem strangers_leave_tombstones : ¬ ∀ ops, Transition.EveryStep step Reclaims new ops := by
  intro reclaims
  have all := reclaims ((strangerRounds 9 ++ [.enqueue [] 7 0]) ++ [.dequeue 9 (some 1)])
  have last := (Transition.EveryStep.append_right all).1
  exact absurd (last trivial (by decide)) (by decide)

end Queue

end DataBroker
