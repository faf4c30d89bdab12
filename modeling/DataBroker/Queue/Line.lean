import DataBroker.Queue.Cursor

/-!
# The waiting line

Without `unlock`, removals by id and `requeue` the vector `order` is in two parts: first the
tombstones and the locked messages, then the unlocked ones in the order in which they came in, with
the cursor at the first of them. `InLine` says so, and a call of `enqueue` that gets a fresh id,
`lockToRead` and `dequeue` without an id keep it.
-/

namespace DataBroker

namespace Queue

/-- `order` is `done`, the tombstones and the locked messages, followed by the line `wait`. -/
structure InLine (s : Queue) (done wait : List U128) : Prop where
  order : s.order = done ++ wait
  cursor : s.nextId = wait.head?
  free : ∀ id ∈ wait, s.Free id
  nodup : wait.Nodup
  settled : ∀ id ∈ done, id ≠ 0 → (s.locks.holder id).isSome
  once : (done.filter (· ≠ 0)).Nodup

theorem holder_of_free {s : Queue} {id : U128} (free : s.Free id) : s.locks.holder id = none := by
  rw [Locks.holder, free, Option.join_some]

theorem not_free_of_holder {s : Queue} {id : U128} (held : (s.locks.holder id).isSome) :
    ¬ s.Free id := fun free => by simp [holder_of_free free] at held

variable {s : Queue} {done wait : List U128}

theorem InLine.zero_notMem (h : s.InLine done wait) (rooted : s.Rooted) : 0 ∉ wait := fun zero =>
  rooted.free_ne_zero (h.free 0 zero) rfl

theorem InLine.notMem_done (h : s.InLine done wait) (rooted : s.Rooted) {id : U128}
    (free : s.Free id) : id ∉ done := fun mem =>
  not_free_of_holder (h.settled id mem (rooted.free_ne_zero free)) free

/-- Draining drops only tombstones at the front, and there are none in the line. -/
theorem exists_drain_append (done : List U128) (zero : 0 ∉ wait) :
    ∃ k, drain (done ++ wait) = done.drop k ++ wait := by
  obtain ⟨k, split⟩ := eq_append_drain (done ++ wait)
  have short : k ≤ done.length := by
    by_contra long
    have entry : (done ++ wait)[done.length]? = some 0 := by
      rw [split, List.getElem?_append_left (by simpa using long)]
      exact List.getElem?_replicate_of_lt (by omega)
    rw [List.getElem?_append_right le_rfl, Nat.sub_self] at entry
    exact zero (List.mem_of_getElem? entry)
  refine ⟨k, ?_⟩
  have dropped := congrArg (List.drop k) split
  rw [List.drop_append_of_le_length short, List.drop_left' List.length_replicate] at dropped
  exact dropped.symm

/-- A part of `done` will do. -/
theorem InLine.shorten {t : Queue} (h : s.InLine done wait) (k : ℕ)
    (order : t.order = done.drop k ++ wait) (queue : t.queue = s.queue) (locked : t.locked = s.locked)
    (cursor : t.nextId = s.nextId) : t.InLine (done.drop k) wait := by
  have locks : t.locks = s.locks :=
    locks_ext (fun _ => by simp only [Queue.locks, queue]) fun _ => by
      simp only [ids_locks, lockedIds, locked]
  refine ⟨order, cursor.trans h.cursor, ?_, h.nodup, ?_, ?_⟩
  · simpa only [Free, locks] using h.free
  · intro id mem ne
    rw [locks]
    exact h.settled id (List.mem_of_mem_drop mem) ne
  · exact h.once.sublist ((List.drop_sublist k done).filter _)

theorem InLine.new : new.InLine [] [] :=
  ⟨rfl, rfl, by simp, List.nodup_nil, by simp, List.nodup_nil⟩

theorem InLine.enqueued (h : s.InLine done wait) (fresh : newId s.order ∉ s.queue)
    {m : QueueMessage} (unlocked : m.lockedBy = none) :
    (s.enqueued m).InLine done (wait ++ [newId s.order]) where
  order := by simp only [Queue.enqueued, h.order, List.append_assoc]
  cursor := by
    simp only [Queue.enqueued, h.cursor]
    cases wait <;> rfl
  free id mem := by
    rw [free_enqueued unlocked]
    rcases List.mem_append.1 mem with mem | mem
    · exact .inr (h.free id mem)
    · exact .inl (List.mem_singleton.1 mem)
  nodup := by
    refine List.nodup_append.2 ⟨h.nodup, List.nodup_singleton _, ?_⟩
    rintro id mem _ new rfl
    rw [List.mem_singleton] at new
    exact fresh (new ▸ mem_of_free (h.free id mem))
  settled id mem ne := by
    have held := h.settled id mem ne
    have other : id ≠ newId s.order := by
      rintro rfl
      simp [holder_eq_none fresh] at held
    rwa [locks_enqueued unlocked, Locks.holder_put, if_neg other]
  once := h.once

/-- The first of the line is handed out. -/
theorem InLine.delivered {rest : List U128} {id : U128} (h : s.InLine done (id :: rest))
    (rooted : s.Rooted) (clientId : U128) (m : QueueMessage) :
    ∃ done', (s.delivered clientId id m).InLine done' rest := by
  have free := h.free id List.mem_cons_self
  have fresh : id ∉ done := h.notMem_done rooted free
  have behind : s.cursorAfter id = rest.head? := by
    rw [cursorAfter, h.order, entryAfter_append fresh, skipTombstone]
    refine if_neg fun zero => h.zero_notMem rooted ?_
    exact List.mem_cons_of_mem _ (List.mem_of_mem_head? zero)
  obtain ⟨gone, nodup⟩ := List.nodup_cons.1 h.nodup
  have kept : InLine { s.delivered clientId id m with order := s.order } (done ++ [id]) rest := by
    have locks := locks_delivered s clientId id m
    refine ⟨by simp [h.order], behind, fun k mem => ?_, nodup, fun k mem ne => ?_, ?_⟩
    · have ne : k ≠ id := fun e => gone (e ▸ mem)
      exact (free_delivered s clientId id m k).2 ⟨ne, h.free k (List.mem_cons_of_mem _ mem)⟩
    · change ((s.delivered clientId id m).locks.holder k).isSome
      rw [locks, Locks.holder_grant]
      split_ifs with same
      · rfl
      · exact h.settled k ((List.mem_append.1 mem).resolve_right (by simpa using same)) ne
    · rw [List.filter_append]
      refine List.nodup_append.2 ⟨h.once, (List.nodup_singleton id).sublist List.filter_sublist, ?_⟩
      rintro a mem _ last rfl
      exact fresh (List.mem_singleton.1 (List.mem_of_mem_filter last) ▸ List.mem_of_mem_filter mem)
  by_cases last : s.cursorAfter id = none
  · obtain ⟨k, drained⟩ := exists_drain_append (done ++ [id]) fun zero =>
      h.zero_notMem rooted (List.mem_cons_of_mem id zero)
    refine ⟨_, kept.shorten k ?_ rfl rfl rfl⟩
    rw [← drained]
    simp [Queue.delivered, last, h.order]
  · refine ⟨_, kept.shorten 0 ?_ rfl rfl rfl⟩
    simp [Queue.delivered, last, h.order]

/-- The holder of a message acknowledges it. -/
theorem InLine.acked (h : s.InLine done wait) (rooted : s.Rooted) {clientId id : U128}
    {ids : List U128} (first : s.lockedIds clientId = id :: ids)
    (held : (s.locks.holder id).isSome) (stored : id ∈ s.queue) :
    ∃ done', (s.acked clientId id ids).InLine done' wait := by
  have waiting : id ∉ wait := fun mem => not_free_of_holder held (h.free id mem)
  have mem : id ∈ done := by
    have listed := rooted.listed id stored
    rw [h.order] at listed
    exact (List.mem_append.1 listed).resolve_right waiting
  obtain ⟨pre, suf, rfl, fresh⟩ := List.eq_append_cons_of_mem mem
  have order : bury s.order id = (pre ++ 0 :: suf) ++ wait := by
    rw [h.order, List.append_assoc, List.cons_append, bury_append fresh, List.append_assoc,
      List.cons_append]
  have ne_zero := rooted.ne_zero stored
  have later : id ∉ suf := by
    have once := h.once
    rw [List.filter_append, List.filter_cons_of_pos (by simpa using ne_zero)] at once
    have := (List.nodup_cons.1 (List.nodup_append.1 once).2.1).1
    exact fun mem => this (List.mem_filter.2 ⟨mem, by simpa using ne_zero⟩)
  have kept : InLine { s.acked clientId id ids with order := bury s.order id }
      (pre ++ 0 :: suf) wait := by
    have locks := locks_acked first
    refine ⟨order, h.cursor, fun k mem => ?_, h.nodup, fun k mem ne => ?_, ?_⟩
    · have ne : k ≠ id := fun e => waiting (e ▸ mem)
      exact (free_acked first k).2 ⟨ne, h.free k mem⟩
    · change ((s.acked clientId id ids).locks.holder k).isSome
      have part : k ∈ pre ∨ k ∈ suf := by
        rcases List.mem_append.1 mem with mem | mem
        · exact .inl mem
        · exact .inr ((List.mem_cons.1 mem).resolve_left ne)
      have other : k ≠ id := by
        rintro rfl
        exact part.elim fresh later
      rw [locks, Locks.holder_remove, if_neg other]
      exact h.settled k (by simp only [List.mem_append, List.mem_cons]; tauto) ne
    · refine h.once.sublist ?_
      rw [List.filter_append, List.filter_append, List.filter_cons_of_neg (by simp)]
      exact (List.Sublist.refl _).append ((List.sublist_cons_self id suf).filter _)
  obtain ⟨k, drained⟩ := exists_drain_append (pre ++ 0 :: suf) (h.zero_notMem rooted)
  refine ⟨_, kept.shorten k ?_ rfl rfl rfl⟩
  rw [← drained, ← order]
  rfl

end Queue

end DataBroker
