import DataBroker.Queue.Ownership

/-!
# The cursor

`lockToRead` looks at one message only, the one under the cursor `nextId`. Every call that takes a
message away from under the cursor moves it by the entries of `order`, without looking at the
locks: to the entry behind, or from a tombstone to the first entry that is left. `CursorFits` says
of each call when the cursor ends up at an unlocked message, and `served_iff_cursorFits` that a run
whose calls all do so is exactly a run in which unlocked messages can always be handed out.
-/

namespace DataBroker

namespace Queue

/-- A message that is not locked is stored under `id`. -/
def Free (s : Queue) (id : U128) : Prop := s.locks.status id = some none

instance (s : Queue) (id : U128) : Decidable (s.Free id) := inferInstanceAs (Decidable (_ = _))

theorem free_iff {s : Queue} {id : U128} :
    s.Free id ↔ ∃ m, s.queue.lookup id = some m ∧ m.lockedBy = none := by
  cases stored : s.queue.lookup id with
  | none => simp [Free, locks, stored]
  | some m => simp [Free, status_of_lookup stored]

theorem mem_of_free {s : Queue} {id : U128} (free : s.Free id) : id ∈ s.queue := by
  obtain ⟨m, stored, -⟩ := free_iff.1 free
  exact HashMap.mem_of_lookup stored

theorem Rooted.free_ne_zero {s : Queue} (h : s.Rooted) {id : U128} (free : s.Free id) : id ≠ 0 :=
  h.ne_zero (mem_of_free free)

/-- The cursor is at an unlocked message if there is one. -/
def UsableCursor (s : Queue) : Prop := (∃ id, s.Free id) → ∃ id, s.nextId = some id ∧ s.Free id

/-- If there is an unlocked message, `lockToRead` hands one out to whoever asks. -/
def Served (s : Queue) : Prop :=
  (∃ id m, s.queue.lookup id = some m ∧ m.lockedBy = none) →
    ∀ c, ∃ r, ((lockToRead c).run s).1 = .ok r

theorem served_iff {s : Queue} (h : s.Rooted) : s.Served ↔ s.UsableCursor := by
  constructor
  · rintro served ⟨k, free⟩
    obtain ⟨m, stored, unlocked⟩ := free_iff.1 free
    obtain ⟨r, returned⟩ := served ⟨k, m, stored, unlocked⟩ 0
    rcases lockToRead_cases s 0 with ⟨⟨e, he⟩, -⟩ | ⟨id, m, -, cursor, stored, unlocked⟩
    · rw [he] at returned
      cases returned
    · exact ⟨id, cursor, free_iff.2 ⟨m, stored, unlocked⟩⟩
  · rintro usable ⟨k, m, stored, unlocked⟩ c
    obtain ⟨id, cursor, free⟩ := usable ⟨k, free_iff.2 ⟨m, stored, unlocked⟩⟩
    obtain ⟨m, stored, unlocked⟩ := free_iff.1 free
    exact ⟨_, by rw [run_lockToRead c (h.nonempty stored) cursor stored unlocked]⟩

/-! ## When a call leaves the cursor usable -/

/-- No message but the one under `id` is unlocked. -/
def NoneFreeBut (s : Queue) (id : U128) : Prop :=
  ∀ e ∈ s.queue.entries, e.2.lockedBy = none → e.1 = id

instance (s : Queue) (id : U128) : Decidable (s.NoneFreeBut id) :=
  inferInstanceAs (Decidable (∀ e ∈ s.queue.entries, _))

theorem noneFreeBut_iff {s : Queue} {id : U128} : s.NoneFreeBut id ↔ ∀ k, s.Free k → k = id := by
  constructor
  · intro h k free
    obtain ⟨m, stored, unlocked⟩ := free_iff.1 free
    exact h ⟨k, m⟩ (Finmap.lookup_eq_some_iff.1 stored) unlocked
  · intro h e he unlocked
    exact h e.1 (free_iff.2 ⟨e.2, Finmap.lookup_eq_some_iff.2 he, unlocked⟩)

/-- With `id` taken away `next` is at an unlocked message, if there is one left. -/
def Lands (s : Queue) (id : U128) (next : Option U128) : Prop :=
  s.NoneFreeBut id ∨ next.elim False fun k => s.Free k ∧ k ≠ id

instance (s : Queue) (id : U128) : (next : Option U128) → Decidable (s.Lands id next)
  | none => inferInstanceAs (Decidable (_ ∨ False))
  | some k => inferInstanceAs (Decidable (_ ∨ s.Free k ∧ k ≠ id))

/-- What has to be seen to when a call moves the cursor, or does not.
* A new message is only found from a cursor that is free to take it or already at an unlocked one.
* The message handed out has to be followed in `order` by an unlocked one, and so has a message
removed by its id from under the cursor; behind it may be a tombstone if the first message left in
`order` is another one that is not locked. Acknowledging does not move the cursor.
* A lock given up moves the cursor back only to a smaller id; where it stays, it has to be at an
unlocked message. -/
def CursorFits (s : Queue) : Op → Prop
  | .enqueue .. => s.nextId.elim True fun next => next = newId s.order ∨ s.Free next
  | .lockToRead _ => s.nextId.elim True fun id => s.Free id → s.Lands id (s.cursorAfter id)
  | .dequeue clientId messageId => (s.toRemove clientId messageId).elim True fun id =>
      s.nextId = some id → s.Lands id (if messageId = some id then s.cursorWithout id else some id)
  | .unlock clientId messageId => (s.toRelease clientId messageId).elim True fun id =>
      s.nextId.elim True fun next =>
        if id < next then id ∈ s.queue ∨ s.NoneFreeBut id
        else id ∈ s.queue → next = id ∨ s.Free next
  | .requeue _ id now => (s.queue.lookup id).elim True fun m =>
      let s := s.enqueued (QueueMessage.new m.payload m.publisherId now)
      s.Lands id (s.cursorWithout id)
  | _ => True

theorem free_enqueued {s : Queue} {m : QueueMessage} (unlocked : m.lockedBy = none) (k : U128) :
    (s.enqueued m).Free k ↔ k = newId s.order ∨ s.Free k := by
  rw [Free, locks_enqueued unlocked, Locks.put, Free]
  dsimp only
  split_ifs with same <;> simp [same]

theorem free_delivered (s : Queue) (clientId id : U128) (m : QueueMessage) (k : U128) :
    (s.delivered clientId id m).Free k ↔ k ≠ id ∧ s.Free k := by
  rw [Free, locks_delivered, Locks.grant, Free]
  dsimp only
  split_ifs with same <;> simp [same]

theorem free_removed (s : Queue) (clientId id k : U128) :
    (s.removed clientId id).Free k ↔ k ≠ id ∧ s.Free k := by
  rw [Free, locks_removed, Locks.remove, Free]
  dsimp only
  split_ifs with same <;> simp [same]

theorem free_acked {s : Queue} {clientId id : U128} {ids : List U128}
    (first : s.lockedIds clientId = id :: ids) (k : U128) :
    (s.acked clientId id ids).Free k ↔ k ≠ id ∧ s.Free k := by
  rw [Free, locks_acked first, Locks.remove, Free]
  dsimp only
  split_ifs with same <;> simp [same]

theorem free_released (s : Queue) (clientId id k : U128) :
    (s.released clientId id).Free k ↔ k = id ∧ id ∈ s.queue ∨ s.Free k := by
  rw [Free, locks_released, Locks.release, Free]
  dsimp only
  split_ifs with same
  · have gone : s.locks.status id = none ↔ id ∉ s.queue := status_eq_none
    cases held : s.locks.status id <;> simp_all
  · simp [same]

theorem free_updated {s : Queue} {id : U128} {m : QueueMessage} (payload : Bytes)
    (stored : s.queue.lookup id = some m) (k : U128) :
    (s.updated id m payload).Free k ↔ s.Free k := by
  rw [Free, locks_updated payload stored, Free]

/-- Without the message `id` the cursor is usable if and only if it landed. -/
theorem usable_taken {s t : Queue} {id : U128} (free : ∀ k, t.Free k ↔ k ≠ id ∧ s.Free k) :
    t.UsableCursor ↔ s.Lands id t.nextId := by
  simp only [UsableCursor, free, Lands, noneFreeBut_iff]
  cases t.nextId with
  | none =>
    simp only [Option.elim_none, or_false, reduceCtorEq, false_and, exists_false, imp_false,
      not_exists, not_and]
    exact ⟨fun h k free => by_contra fun ne => h k ne free, fun h k ne free => ne (h k free)⟩
  | some next =>
    simp only [Option.elim_some, Option.some.injEq, exists_eq_left']
    constructor
    · intro h
      by_cases left : ∃ k, k ≠ id ∧ s.Free k
      · exact .inr (h left).symm
      · exact .inl fun k free => by_contra fun ne => left ⟨k, ne, free⟩
    · rintro (none_left | landed) ⟨k, ne, free⟩
      · exact absurd (none_left k free) ne
      · exact landed.symm

/-- Taking away a message that the cursor is not at leaves it usable. -/
theorem UsableCursor.taken {s t : Queue} (h : s.Rooted) (usable : s.UsableCursor) {id : U128}
    (free : ∀ k, t.Free k ↔ k ≠ id ∧ s.Free k) (elsewhere : s.nextId ≠ some id)
    (cursor : ∀ next, s.nextId = some next → next ≠ 0 → t.nextId = some next) : t.UsableCursor := by
  rintro ⟨k, left⟩
  obtain ⟨next, at_next, unlocked⟩ := usable ⟨k, ((free k).1 left).2⟩
  have ne : next ≠ id := fun e => elsewhere (e ▸ at_next)
  exact ⟨next, cursor next at_next (h.free_ne_zero unlocked), (free next).2 ⟨ne, unlocked⟩⟩

/-- Where some message is unlocked, the cursor has to be at one. -/
theorem usable_iff_of_free {t : Queue} {k : U128} (free : t.Free k) :
    t.UsableCursor ↔ t.nextId.elim False t.Free := by
  cases cursor : t.nextId with
  | none => simpa [UsableCursor, cursor] using ⟨k, free⟩
  | some next => exact ⟨fun h => by simpa [cursor] using h ⟨k, free⟩, fun h _ => ⟨next, cursor, h⟩⟩

theorem usable_congr {s t : Queue} (free : ∀ k, t.Free k ↔ s.Free k) (cursor : t.nextId = s.nextId) :
    t.UsableCursor ↔ s.UsableCursor := by
  simp only [UsableCursor, free, cursor]

theorem usable_enqueued (s : Queue) {m : QueueMessage} (unlocked : m.lockedBy = none) :
    (s.enqueued m).UsableCursor ↔
      s.nextId.elim True fun next => next = newId s.order ∨ s.Free next := by
  have stored := (free_enqueued (s := s) unlocked (newId s.order)).2 (.inl rfl)
  rw [usable_iff_of_free stored]
  simp only [enqueued, Option.elim_some]
  cases s.nextId with
  | none => exact iff_of_true stored trivial
  | some next => exact free_enqueued unlocked next

theorem usable_released {s : Queue} (usable : s.UsableCursor) (clientId id : U128) :
    (s.released clientId id).UsableCursor ↔ s.nextId.elim True fun next =>
      if id < next then id ∈ s.queue ∨ s.NoneFreeBut id
      else id ∈ s.queue → next = id ∨ s.Free next := by
  have free := free_released s clientId id
  by_cases mem : id ∈ s.queue
  · have stored := (free id).2 (.inl ⟨rfl, mem⟩)
    rw [usable_iff_of_free stored]
    cases cursor : s.nextId with
    | none => simpa [released, cursor] using stored
    | some next =>
      simp only [released, cursor, Option.elim_some]
      split_ifs with back
      · exact iff_of_true stored (.inl mem)
      · exact (free next).trans (by simp [mem])
  · have same : ∀ k, (s.released clientId id).Free k ↔ s.Free k := fun k =>
      (free k).trans (by simp [mem])
    cases cursor : s.nextId with
    | none =>
      refine iff_of_true ?_ trivial
      rintro ⟨k, unlocked⟩
      obtain ⟨next, at_next, -⟩ := usable ⟨k, (same k).1 unlocked⟩
      rw [cursor] at at_next
      cases at_next
    | some next =>
      simp only [Option.elim_some]
      split_ifs with back
      · have gone : ¬ s.Free id := fun unlocked => mem (mem_of_free unlocked)
        have back_at : (s.released clientId id).nextId = some id := by
          simp only [released, cursor, if_pos back]
        unfold UsableCursor
        simp only [back_at, same, mem, false_or, noneFreeBut_iff, Option.some.injEq,
          exists_eq_left', gone, imp_false, not_exists]
        refine ⟨fun h k unlocked => absurd unlocked (h k), fun h k unlocked => ?_⟩
        exact gone (h k unlocked ▸ unlocked)
      · refine iff_of_true ((usable_congr same ?_).2 usable) fun h => absurd h mem
        simp only [released, cursor, if_neg back]

theorem Rooted.not_free_of_empty {s : Queue} (h : s.Rooted) (empty : s.order = []) (k : U128) :
    ¬ s.Free k := fun free => by simpa [empty] using h.listed k (mem_of_free free)

theorem cursorFits_of_inert {s : Queue} (h : s.Rooted) {op : Op} (inert : s.Inert op) :
    s.CursorFits op := by
  have none_free : s.order = [] → ∀ id, s.NoneFreeBut id := fun empty id =>
    noneFreeBut_iff.2 fun k free => absurd free (h.not_free_of_empty empty k)
  cases op with
  | enqueue => exact inert.elim
  | lockToRead clientId =>
    unfold CursorFits
    cases cursor : s.nextId with
    | none => trivial
    | some id =>
      intro free
      rcases inert with empty | stuck
      · exact absurd free (h.not_free_of_empty empty id)
      · obtain ⟨m, stored, unlocked⟩ := free_iff.1 free
        exact absurd unlocked (stuck id m cursor stored)
  | dequeue clientId messageId =>
    obtain ⟨unnamed, empty | empty⟩ := inert <;>
      rw [CursorFits, toRemove_unnamed clientId unnamed]
    · cases (s.lockedIds clientId).head? with
      | none => trivial
      | some id => exact fun _ => .inl (none_free empty id)
    · rw [empty]
      trivial
  | unlock clientId messageId =>
    cases listed : s.toRelease clientId messageId with
    | none => simp only [CursorFits, listed, Option.elim_none]
    | some id =>
      have empty : s.order = [] := inert.resolve_right (by simp [listed])
      have absent : id ∉ s.queue := fun mem => by simpa [empty] using h.listed id mem
      cases cursor : s.nextId with
      | none => simp only [CursorFits, listed, cursor, Option.elim_none, Option.elim_some]
      | some next =>
        simp only [CursorFits, listed, cursor, Option.elim_some]
        split_ifs
        · exact .inr (none_free empty id)
        · exact fun mem => absurd mem absent
  | requeue clientId id now =>
    rw [CursorFits, Finmap.lookup_eq_none.2 inert]
    trivial
  | _ => trivial

theorem usable_step {s : Queue} (h : s.Rooted) (usable : s.UsableCursor) (op : Op) :
    (s.step op).UsableCursor ↔ s.CursorFits op := by
  have effect := step_effect h op
  generalize s.step op = t at effect ⊢
  cases effect with
  | idle op inert => exact iff_of_true usable (cursorFits_of_inert h inert)
  | measured => exact iff_of_true usable trivial
  | enqueued payload publisherId now =>
    exact usable_enqueued s rfl
  | delivered clientId id m cursor stored free =>
    have unlocked : s.Free id := free_iff.2 ⟨m, stored, free⟩
    rw [usable_taken (free_delivered s clientId id m), CursorFits, cursor]
    exact ⟨fun h _ => h, fun h => h unlocked⟩
  | removed clientId id m stored =>
    have mem := HashMap.mem_of_lookup stored
    rw [CursorFits, toRemove, if_pos mem, Option.elim_some, if_pos rfl]
    by_cases cursor : s.nextId = some id
    · rw [usable_taken (free_removed s clientId id)]
      exact ⟨fun h _ => h, fun h => h cursor⟩
    · refine iff_of_true (usable.taken h (free_removed s clientId id) cursor ?_) fun e =>
        absurd e cursor
      intro next at_next ne
      simp only [removed, cursorWithout, if_neg cursor]
      rw [at_next, skipTombstone, if_neg (by simpa using ne)]
  | acked clientId id ids messageId unnamed first =>
    rw [CursorFits, toRemove_unnamed clientId unnamed, first, List.head?_cons, Option.elim_some]
    by_cases cursor : s.nextId = some id
    · rw [usable_taken (free_acked first), acked, cursor]
      split_ifs with named
      · have gone : ¬ s.Free id := fun unlocked => unnamed id named (mem_of_free unlocked)
        have none_free : s.NoneFreeBut id := noneFreeBut_iff.2 fun k unlocked => by
          obtain ⟨next, at_next, free⟩ := usable ⟨k, unlocked⟩
          obtain rfl : id = next := by simpa [cursor] using at_next
          exact absurd free gone
        exact iff_of_true (.inl none_free) fun _ => .inl none_free
      · exact ⟨fun h _ => h, fun h => h rfl⟩
    · exact iff_of_true (usable.taken h (free_acked first) cursor fun next at_next _ => at_next)
        fun e => absurd e cursor
  | released clientId id messageId listed =>
    rw [CursorFits, listed, Option.elim_some]
    exact usable_released usable clientId id
  | requeued clientId id now m stored =>
    rw [CursorFits, stored, Option.elim_some]
    exact usable_taken (free_removed _ clientId id)
  | updated id m payload stored =>
    exact iff_of_true ((usable_congr (free_updated payload stored) rfl).2 usable) trivial

theorem usable_new : new.UsableCursor := by
  rintro ⟨id, free⟩
  exact absurd (mem_of_free free) Finmap.notMem_empty

/-- Unlocked messages can be handed out throughout a run if and only if every call of it leaves the
cursor where it fits. -/
theorem served_iff_cursorFits (ops : List Op) :
    Transition.EveryState step Served new ops ↔ Transition.EveryStep step CursorFits new ops :=
  Transition.everyState_iff_everyStep (rooted_run ops) ((served_iff .new).2 usable_new)
    fun s op rooted served => by
      rw [served_iff (rooted.step op)]
      exact usable_step rooted ((served_iff rooted).1 served) op

/-- Of three messages the second is removed and the first is locked. From the tombstone behind it
the cursor goes back to the first one, and the third is never handed out. -/
theorem lock_before_tombstone_wedges : ¬ ∀ ops, Transition.EveryState step Served new ops := by
  intro served
  have third := (served [.enqueue [1] 7 0, .enqueue [2] 7 0, .enqueue [3] 7 0,
    .dequeue 9 (some 2), .lockToRead 1]).last
  obtain ⟨r, returned⟩ := third ⟨3, QueueMessage.new [3] 7 0, by decide, rfl⟩ 2
  have refused : ((lockToRead 2).run (Transition.run step new [.enqueue [1] 7 0, .enqueue [2] 7 0,
      .enqueue [3] 7 0, .dequeue 9 (some 2), .lockToRead 1])).1 =
      .err (invalidData "Queue message already locked") := by decide
  rw [refused] at returned
  cases returned

end Queue

end DataBroker
