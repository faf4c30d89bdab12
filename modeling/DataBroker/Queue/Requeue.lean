import DataBroker.Queue.Refusals

/-!
# Moving a message to the end

`requeue` enqueues a copy and removes the original by its id. The copy may get the id of a stored
message, of the original too, and the original stays on every list but one (`moves_iff`).
-/

namespace DataBroker

namespace Queue

/-- `requeue` succeeds and moves the message `m` to the end: its copy is stored unlocked under a new
id, the last one of `order`; `m` is stored nowhere and on no list; and the other messages, their
order and the other entries of all lists stay. -/
structure Moves (s : Queue) (c m : U128) (now : U64) : Prop where
  succeeds : ((requeue c m now).run s).1 = .ok ()
  size : ((requeue c m now).run s).2.queue.keys.card = s.queue.keys.card
  copy : ∃ id ∉ s.queue, ∃ message, s.queue.lookup m = some message ∧
    ((requeue c m now).run s).2.queue.lookup id =
      some (QueueMessage.new message.payload message.publisherId now) ∧
    ((requeue c m now).run s).2.order.getLast? = some id
  gone : m ∉ ((requeue c m now).run s).2.queue
  unlisted : ∀ d, m ∉ ((requeue c m now).run s).2.lockedIds d
  messages : ∀ k ∈ s.queue, k ≠ m →
    ((requeue c m now).run s).2.queue.lookup k = s.queue.lookup k
  lists : ∀ d, (((requeue c m now).run s).2.lockedIds d).filter (· ≠ m) =
    (s.lockedIds d).filter (· ≠ m)
  order : ((requeue c m now).run s).2.order.filter (fun k => k ∈ s.queue ∧ k ≠ m) =
    s.order.filter fun k => k ∈ s.queue ∧ k ≠ m

variable {s : Queue} {c m : U128}

/-- Burying and draining leave the places of the other ids. -/
theorem filter_removed (nonzero : 0 ∉ s.queue) (s' : Queue) (c id : U128) :
    ((s'.removed c id).order.filter fun k => k ∈ s.queue ∧ k ≠ id) =
      s'.order.filter fun k => k ∈ s.queue ∧ k ≠ id := by
  have buried : ((bury s'.order id).filter fun k => k ∈ s.queue ∧ k ≠ id) =
      s'.order.filter fun k => k ∈ s.queue ∧ k ≠ id := by
    by_cases listed : id ∈ s'.order
    · obtain ⟨pre, suf, split, fresh⟩ := List.eq_append_cons_of_mem listed
      rw [split, bury_append fresh, List.filter_append, List.filter_append,
        List.filter_cons_of_neg (by simpa using fun h => absurd h nonzero),
        List.filter_cons_of_neg (by simp)]
    · rw [bury_of_notMem listed]
  rcases order_removed s' c id with order | order <;> rw [order]
  · exact buried
  · obtain ⟨k, split⟩ := eq_append_drain (bury s'.order id)
    rw [← buried]
    conv_rhs => rw [split]
    rw [List.filter_append,
      List.filter_replicate_of_neg (by simpa using fun h => absurd h nonzero), List.nil_append]

theorem getLast?_drain {order : List U128} {id : U128} (last : order.getLast? = some id)
    (ne_zero : id ≠ 0) : (drain order).getLast? = some id := by
  obtain ⟨k, split⟩ := eq_append_drain order
  rw [split] at last
  cases left : drain order with
  | nil =>
    rw [left, List.append_nil, List.getLast?_replicate] at last
    split_ifs at last
    exact absurd (Option.some.inj last).symm ne_zero
  | cons k rest =>
    rw [left, List.getLast?_append_of_ne_nil _ (List.cons_ne_nil k rest)] at last
    exact last

/-- The copy is the last entry: `m` was listed further in front. -/
theorem getLast?_requeued (listed : m ∈ s.order) (message : QueueMessage) :
    (s.requeued c m message).order.getLast? = some (newId s.order) := by
  have buried : bury (s.enqueued message).order m = bury s.order m ++ [newId s.order] :=
    bury_append_of_mem listed
  have last : (bury (s.enqueued message).order m).getLast? = some (newId s.order) := by
    rw [buried, List.getLast?_append, List.getLast?_singleton, Option.some_or]
  rcases order_removed (s.enqueued message) c m with order | order <;> rw [requeued, order]
  · exact last
  · exact getLast?_drain last (newId_ne_zero s.order)

theorem unlisted_requeued {message : QueueMessage} (unlocked : message.lockedBy = none) :
    (∀ d, m ∉ (s.requeued c m message).lockedIds d) ↔ s.OnlyListedBy c m := by
  simp only [← ids_locks, locks_requeued c m unlocked]
  rw [← Locks.onlyOn_iff, onlyListedBy_iff]
  rfl

theorem keys_requeued (mem : m ∈ s.queue) (message : QueueMessage)
    (fresh : newId s.order ∉ s.queue) :
    (s.requeued c m message).queue.keys.card = s.queue.keys.card := by
  have other : newId s.order ≠ m := fun e => fresh (e ▸ mem)
  have keys : (s.requeued c m message).queue.keys =
      insert (newId s.order) (s.queue.keys.erase m) := by
    ext k
    rw [Finmap.mem_keys, Finset.mem_insert, Finset.mem_erase, Finmap.mem_keys]
    refine (Finmap.mem_erase.trans (and_congr_right fun _ => Finmap.mem_insert)).trans ⟨?_, ?_⟩
    · rintro ⟨ne, rfl | old⟩
      · exact .inl rfl
      · exact .inr ⟨ne, old⟩
    · rintro (rfl | ⟨ne, old⟩)
      · exact ⟨other, .inl rfl⟩
      · exact ⟨ne, .inr old⟩
  rw [keys, Finset.card_insert_of_notMem fun mem => fresh (Finmap.mem_keys.1 (Finset.mem_of_mem_erase mem)),
    Finset.card_erase_add_one (Finmap.mem_keys.2 mem)]

theorem moves_iff_of_mem (rooted : s.Rooted) (mem : m ∈ s.queue) (now : U64) :
    s.Moves c m now ↔ newId s.order ∉ s.queue ∧ s.OnlyListedBy c m := by
  obtain ⟨message, stored⟩ := Finmap.mem_iff.1 mem
  have listed := rooted.listed m mem
  have run := run_requeue c now listed stored
  have last := getLast?_requeued (c := c) listed
    (QueueMessage.new message.payload message.publisherId now)
  constructor
  · intro h
    obtain ⟨id, fresh, -, -, -, at_end⟩ := h.copy
    have unlisted := h.unlisted
    rw [run] at at_end unlisted
    obtain rfl := Option.some.inj (last.symm.trans at_end)
    exact ⟨fresh, (unlisted_requeued rfl).1 unlisted⟩
  · rintro ⟨fresh, only⟩
    have other : newId s.order ≠ m := fun e => fresh (e ▸ mem)
    constructor
    · rw [run]
    · rw [run]
      exact keys_requeued mem _ fresh
    · refine ⟨newId s.order, fresh, message, stored, ?_, ?_⟩
      · rw [run, lookup_requeued, if_neg other, if_pos rfl]
      · rw [run, last]
    · rw [run]
      exact fun left => (Finmap.mem_erase.1 left).1 rfl
    · rw [run]
      exact (unlisted_requeued rfl).2 only
    · intro k old ne
      have ne_new : k ≠ newId s.order := fun e => fresh (e ▸ old)
      rw [run, lookup_requeued, if_neg ne, if_neg ne_new]
    · intro d
      rw [run]
      exact filter_lockedIds_removed _ c m d
    · rw [run]
      apply (filter_removed rooted.nonzero _ c m).trans
      show (s.order ++ [newId s.order]).filter _ = _
      rw [List.filter_append, List.filter_cons_of_neg (by simp [fresh]), List.filter_nil,
        List.append_nil]

/-- A stored message is moved to the end if and only if the id behind the last entry of `order` is
not stored and no list but the caller's has the message, which lists it at most once. -/
theorem moves_iff (ops : List Op) :
    Transition.EveryState step (fun s => ∀ c, ∀ m ∈ s.queue, ∀ now,
      s.Moves c m now ↔ newId s.order ∉ s.queue ∧ s.OnlyListedBy c m) new ops :=
  (rooted_run ops).mono fun _ rooted _ _ mem now => moves_iff_of_mem rooted mem now

/-- The last message of two is removed and the first one requeued. Its copy gets its own id and goes
with it. -/
theorem requeue_loses_message :
    ¬ ∀ ops, ops.length < 2 ^ 128 - 1 → Transition.EveryState step
      (fun s => ∀ c, ∀ m ∈ s.queue, ∀ now, s.Moves c m now) new ops := by
  intro moves
  have last := (moves [.enqueue [1] 7 0, .enqueue [2] 7 0, .dequeue 9 (some 2)] (by decide)).last
  exact absurd (last 1 1 (by decide) 0).size (by decide)

end Queue

end DataBroker
