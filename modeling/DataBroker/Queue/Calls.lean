import DataBroker.Queue.Order
import DataBroker.Lib.Transition

/-!
# What a call does

Each method is run once here, on every input, and its result is written down as an update of the
receiver: `enqueued`, `delivered`, `removed`, `acked`, `released`, `updated`. `Effect` collects the
updates a call can make; every later invariant is a case analysis on it.
-/

namespace DataBroker

namespace Queue

/-! ## The updates -/

/-- `m` stored at the end of the queue. -/
def enqueued (s : Queue) (m : QueueMessage) : Queue := { s with
  order := s.order ++ [newId s.order]
  queue := s.queue.insert (newId s.order) m
  nextId := some (s.nextId.getD (newId s.order)) }

/-- The cursor after the message `id` was handed out. -/
def cursorAfter (s : Queue) (id : U128) : Option U128 :=
  skipTombstone s.order (entryAfter s.order id)

/-- The message `m` under the cursor `id` handed out to a client. -/
def delivered (s : Queue) (clientId id : U128) (m : QueueMessage) : Queue := { s with
  order := if s.cursorAfter id = none then drain s.order else s.order
  queue := s.queue.insert id (m.lock clientId)
  locked := s.locked.insert clientId (s.lockedIds clientId ++ [id])
  nextId := s.cursorAfter id }

/-- The cursor after `id` was removed by its id. -/
def cursorWithout (s : Queue) (id : U128) : Option U128 :=
  skipTombstone (bury s.order id) (if s.nextId = some id then entryAfter s.order id else s.nextId)

/-- The message `id` removed by its id: only the caller's list forgets it. -/
def removed (s : Queue) (clientId id : U128) : Queue := { s with
  order := if id ∈ s.lockedIds clientId then drain (bury s.order id) else bury s.order id
  queue := s.queue.erase id
  locked :=
    if id ∈ s.lockedIds clientId then s.locked.insert clientId ((s.lockedIds clientId).erase id)
    else s.locked
  nextId := s.cursorWithout id }

/-- The id a client locked first, and whatever is stored under it, removed. -/
def acked (s : Queue) (clientId id : U128) (ids : List U128) : Queue := { s with
  order := drain (bury s.order id)
  queue := s.queue.erase id
  locked := s.locked.insert clientId ids }

/-- The lock a client has on `id` released. -/
def released (s : Queue) (clientId id : U128) : Queue := { s with
  queue := match s.queue.lookup id with
    | some m => s.queue.insert id m.unlock
    | none => s.queue
  locked := s.locked.insert clientId ((s.lockedIds clientId).erase id)
  nextId := match s.nextId with
    | some next => some (if id < next then id else next)
    | none => some id }

/-- The payload of `m`, stored under `id`, replaced. -/
def updated (s : Queue) (id : U128) (m : QueueMessage) (payload : Bytes) : Queue :=
  { s with queue := s.queue.insert id { m with payload := payload } }

theorem order_delivered (s : Queue) (clientId id : U128) (m : QueueMessage) :
    (s.delivered clientId id m).order = s.order ∨
      (s.delivered clientId id m).order = drain s.order := by
  unfold delivered
  dsimp only
  split_ifs
  · exact .inr rfl
  · exact .inl rfl

theorem order_removed (s : Queue) (clientId id : U128) :
    (s.removed clientId id).order = bury s.order id ∨
      (s.removed clientId id).order = drain (bury s.order id) := by
  unfold removed
  dsimp only
  split_ifs
  · exact .inr rfl
  · exact .inl rfl

/-! ## The methods -/

theorem run_enqueue (s : Queue) (payload : Bytes) (publisherId : U128) (now : U64) :
    (enqueue payload publisherId now).run s =
      (.ok (), s.enqueued (QueueMessage.new payload publisherId now)) := by
  cases h : s.nextId <;> simp [enqueue, Method.run_bind, enqueued, h]

theorem run_removeZeroes (s : Queue) :
    removeZeroes.run s = (.ok (), { s with order := drain s.order }) := rfl

/-- A message can be handed out: the cursor is at a stored message that is not locked. -/
theorem run_lockToRead {s : Queue} {id : U128} {m : QueueMessage} (clientId : U128)
    (nonempty : s.order ≠ []) (cursor : s.nextId = some id) (stored : s.queue.lookup id = some m)
    (free : m.lockedBy = none) :
    (lockToRead clientId).run s =
      (.ok (getMetaAsVec id (m.lock clientId) ++ m.payload, some id),
        s.delivered clientId id m) := by
  have mem : id ∈ s.queue := HashMap.mem_of_lookup stored
  by_cases next : s.cursorAfter id = none <;>
    simp_all [lockToRead, Method.run_bind, delivered, cursorAfter, QueueMessage.isLocked,
      QueueMessage.lock, run_removeZeroes, List.isEmpty_iff]

/-- The cursor is not at a message that could be handed out. -/
def Stuck (s : Queue) : Prop :=
  ∀ id m, s.nextId = some id → s.queue.lookup id = some m → m.lockedBy ≠ none

theorem lockToRead_cases (s : Queue) (clientId : U128) :
    (∃ e, (lockToRead clientId).run s = (.err e, s)) ∧ (s.order = [] ∨ s.Stuck) ∨
      ∃ id m, s.order ≠ [] ∧ s.nextId = some id ∧ s.queue.lookup id = some m ∧
        m.lockedBy = none := by
  by_cases empty : s.order = []
  · exact .inl ⟨⟨_, by simp [lockToRead, Method.run_bind, empty]; rfl⟩, .inl empty⟩
  cases cursor : s.nextId with
  | none =>
    refine .inl ⟨⟨_, by simp [lockToRead, Method.run_bind, cursor]; rfl⟩, .inr fun id m at_id => ?_⟩
    rw [cursor] at at_id
    cases at_id
  | some id =>
    have stuck : (∀ m, s.queue.lookup id = some m → m.lockedBy ≠ none) → s.Stuck := by
      intro h id' m at_id
      obtain rfl : id = id' := by simpa [cursor] using at_id
      exact h m
    cases stored : s.queue.lookup id with
    | none =>
      have absent : id ∉ s.queue := Finmap.lookup_eq_none.1 stored
      refine .inl ⟨⟨_, by simp [lockToRead, Method.run_bind, cursor, empty, absent]; rfl⟩, ?_⟩
      exact .inr (stuck fun m e => by rw [stored] at e; cases e)
    | some m =>
      have mem : id ∈ s.queue := HashMap.mem_of_lookup stored
      cases free : m.lockedBy with
      | none => exact .inr ⟨id, m, empty, rfl, stored, free⟩
      | some owner =>
        refine .inl ⟨⟨invalidData "Queue message already locked", ?_⟩, .inr (stuck fun m' e => ?_)⟩
        · simp [lockToRead, Method.run_bind, cursor, empty, mem, stored, QueueMessage.isLocked, free]
        · obtain rfl : m = m' := by simpa [stored] using e
          simp [free]

theorem run_dequeueById {s : Queue} {id : U128} {m : QueueMessage} (clientId : U128)
    (listed : id ∈ s.order) (stored : s.queue.lookup id = some m) :
    (dequeueById clientId id).run s = (.ok m.payload.length, s.removed clientId id) := by
  have position : s.order.idxOf? id = some (s.order.idxOf id) := idxOf?_of_mem listed
  by_cases mine : id ∈ s.lockedIds clientId
  · have held : (s.lockedIds clientId).idxOf? id = some ((s.lockedIds clientId).idxOf id) :=
      idxOf?_of_mem mine
    simp only [lockedIds] at mine held
    by_cases cursor : s.nextId = some id <;>
      simp [dequeueById, Method.run_bind, position, cursor, stored, lockedIds, mine, held, removed,
        bury, cursorWithout, entryAfter, run_removeZeroes]
  · simp only [lockedIds] at mine
    by_cases cursor : s.nextId = some id <;>
      simp [dequeueById, Method.run_bind, position, cursor, stored, lockedIds, mine, removed, bury,
        cursorWithout, entryAfter]

/-- The message under the first id of the client's list goes. A list entry that is not stored any
more is dropped all the same, and then unwrapping the missing message panics. -/
theorem run_dequeueLocked {s : Queue} {clientId id : U128} {ids : List U128}
    (first : s.locked.lookup clientId = some (id :: ids)) :
    (dequeueLocked clientId).run s =
      (match s.queue.lookup id with
        | some m => .ok m.payload.length
        | none => .panic, s.acked clientId id ids) := by
  by_cases listed : id ∈ s.order
  · have position : s.order.idxOf? id = some (s.order.idxOf id) := idxOf?_of_mem listed
    cases stored : s.queue.lookup id <;>
      simp [dequeueLocked, Method.run_bind, first, position, stored, acked, bury, run_removeZeroes]
  · have position : s.order.idxOf? id = none := List.idxOf?_eq_none_iff.2 listed
    cases stored : s.queue.lookup id <;>
      simp [dequeueLocked, Method.run_bind, first, position, stored, acked,
        bury_of_notMem listed, run_removeZeroes]

theorem dequeueLocked_err {s : Queue} {clientId : U128} (none_locked : s.lockedIds clientId = []) :
    ∃ e, (dequeueLocked clientId).run s = (.err e, s) := by
  cases first : s.locked.lookup clientId with
  | none => exact ⟨_, by simp [dequeueLocked, Method.run_bind, first]; rfl⟩
  | some ids =>
    obtain rfl : ids = [] := by simpa [lockedIds, first] using none_locked
    exact ⟨_, by simp [dequeueLocked, Method.run_bind, first]; rfl⟩

theorem run_dequeue_id {s : Queue} {id : U128} {m : QueueMessage} (clientId : U128)
    (listed : id ∈ s.order) (stored : s.queue.lookup id = some m) :
    (dequeue clientId (some id)).run s = (.ok m.payload.length, s.removed clientId id) := by
  have nonempty : s.order ≠ [] := List.ne_nil_of_mem listed
  have mem : id ∈ s.queue := HashMap.mem_of_lookup stored
  simp [dequeue, Method.run_bind, nonempty, mem, run_dequeueById clientId listed stored]

theorem run_dequeue_locked {s : Queue} (clientId : U128) (nonempty : s.order ≠ []) :
    (dequeue clientId none).run s = (dequeueLocked clientId).run s := by
  simp [dequeue, Method.run_bind, nonempty]

/-- An id that is not stored is taken as if none was given. -/
theorem run_dequeue_absent {s : Queue} {id : U128} (clientId : U128) (absent : id ∉ s.queue) :
    (dequeue clientId (some id)).run s = (dequeue clientId none).run s := by
  by_cases empty : s.order = [] <;> simp [dequeue, Method.run_bind, empty, absent]

theorem dequeue_empty {s : Queue} (clientId : U128) (messageId : Option U128)
    (empty : s.order = []) :
    (dequeue clientId messageId).run s = (.err (invalidData "Queue is empty"), s) := by
  simp [dequeue, Method.run_bind, empty]

theorem unlock_empty {s : Queue} (clientId : U128) (messageId : Option U128)
    (empty : s.order = []) :
    (unlock clientId messageId).run s = (.err (invalidData "Queue is empty"), s) := by
  simp [unlock, Method.run_bind, empty]

/-- The id that `unlock` releases: the given one if the client has it locked, else none; without an
id, the one the client locked first. -/
def toRelease (s : Queue) (clientId : U128) : Option U128 → Option U128
  | some id => if id ∈ s.lockedIds clientId then some id else none
  | none => (s.lockedIds clientId).head?

theorem eq_of_toRelease {s : Queue} {clientId id m : U128}
    (h : s.toRelease clientId (some m) = some id) : m = id := by
  simp only [toRelease, Option.ite_none_right_eq_some, Option.some.injEq] at h
  exact h.2

theorem mem_of_toRelease {s : Queue} {clientId id : U128} {messageId : Option U128}
    (h : s.toRelease clientId messageId = some id) : id ∈ s.lockedIds clientId := by
  cases messageId with
  | none => exact List.mem_of_mem_head? h
  | some m =>
    simp only [toRelease, Option.ite_none_right_eq_some, Option.some.injEq] at h
    exact h.2 ▸ h.1

theorem run_unlockFound {s : Queue} {clientId id : U128} {ids : List U128}
    (entry : s.locked.lookup clientId = some ids) (mem : id ∈ ids) :
    (unlockFound clientId ids id).run s = (.ok (), s.released clientId id) := by
  have position := idxOf?_of_mem mem
  cases stored : s.queue.lookup id <;> cases cursor : s.nextId
  · simp [unlockFound, Method.run_bind, position, stored, cursor, released, lockedIds, entry]
  · simp [unlockFound, Method.run_bind, position, stored, cursor, released, lockedIds, entry]
    split_ifs <;> simp
  · simp [unlockFound, Method.run_bind, position, stored, cursor, released, lockedIds, entry]
  · simp [unlockFound, Method.run_bind, position, stored, cursor, released, lockedIds, entry]
    split_ifs <;> simp

theorem run_unlock {s : Queue} {clientId id : U128} {messageId : Option U128}
    (nonempty : s.order ≠ []) (h : s.toRelease clientId messageId = some id) :
    (unlock clientId messageId).run s = (.ok (), s.released clientId id) := by
  have mem := mem_of_toRelease h
  cases entry : s.locked.lookup clientId with
  | none => simp [lockedIds, entry] at mem
  | some ids =>
    have same : s.lockedIds clientId = ids := by simp [lockedIds, entry]
    rw [same] at mem
    have released := run_unlockFound entry mem
    cases messageId with
    | none =>
      rw [toRelease, same] at h
      simp [unlock, Method.run_bind, nonempty, entry, h, released]
    | some m =>
      obtain rfl : m = id := by
        simp only [toRelease, Option.ite_none_right_eq_some, Option.some.injEq] at h
        exact h.2
      simp [unlock, Method.run_bind, nonempty, entry, mem, released]

/-- A client whose list is empty releases nothing and is answered all the same. -/
theorem unlock_idle {s : Queue} {clientId : U128} (nonempty : s.order ≠ [])
    (entry : s.locked.lookup clientId = some []) : (unlock clientId none).run s = (.ok (), s) := by
  simp [unlock, Method.run_bind, nonempty, entry]

theorem unlock_refused {s : Queue} {clientId : U128} {messageId : Option U128}
    (nothing : s.toRelease clientId messageId = none)
    (refused : s.order = [] ∨ clientId ∉ s.locked ∨ messageId ≠ none) :
    ∃ e, (unlock clientId messageId).run s = (.err e, s) := by
  by_cases empty : s.order = []
  · exact ⟨_, unlock_empty clientId messageId empty⟩
  cases entry : s.locked.lookup clientId with
  | none => exact ⟨_, by simp [unlock, Method.run_bind, empty, entry]; rfl⟩
  | some ids =>
    have listed : clientId ∈ s.locked := HashMap.mem_of_lookup entry
    cases messageId with
    | none => simp [empty, listed] at refused
    | some m =>
      have absent : m ∉ ids := by simpa [toRelease, lockedIds, entry] using nothing
      exact ⟨_, by simp [unlock, Method.run_bind, empty, entry, absent]; rfl⟩

/-- The message `m`, stored under `id`, moved to the end by a client. -/
def requeued (s : Queue) (clientId id : U128) (m : QueueMessage) : Queue :=
  (s.enqueued m).removed clientId id

theorem mem_enqueued {s : Queue} {id : U128} (m : QueueMessage) (h : id ∈ s.queue) :
    id ∈ (s.enqueued m).queue :=
  Finmap.mem_insert.2 (.inr h)

theorem run_requeue {s : Queue} {id : U128} {m : QueueMessage} (clientId : U128) (now : U64)
    (listed : id ∈ s.order) (stored : s.queue.lookup id = some m) :
    (requeue clientId id now).run s =
      (.ok (), s.requeued clientId id (QueueMessage.new m.payload m.publisherId now)) := by
  have nonempty : s.order ≠ [] := List.ne_nil_of_mem listed
  obtain ⟨m', stored'⟩ := Finmap.mem_iff.1 (mem_enqueued
    (QueueMessage.new m.payload m.publisherId now) (HashMap.mem_of_lookup stored))
  have removal := run_dequeue_id clientId (List.mem_append_left _ listed) stored'
  simp [requeue, Method.run_bind, nonempty, stored, run_enqueue, removal, requeued]

theorem requeue_absent {s : Queue} {id : U128} (clientId : U128) (now : U64)
    (absent : id ∉ s.queue) : ∃ e, (requeue clientId id now).run s = (.err e, s) := by
  by_cases empty : s.order = []
  · exact ⟨invalidData "Queue is empty", by simp [requeue, Method.run_bind, empty]⟩
  · have none_stored := Finmap.lookup_eq_none.2 absent
    exact ⟨invalidData "Message is not in queue",
      by simp [requeue, Method.run_bind, empty, none_stored]⟩

theorem run_updateMessage {s : Queue} {id : U128} {m : QueueMessage} (payload : Bytes)
    (nonempty : s.order ≠ []) (stored : s.queue.lookup id = some m) :
    (updateMessage id payload).run s = (.ok (), s.updated id m payload) := by
  simp [updateMessage, Method.run_bind, nonempty, stored, updated]

theorem updateMessage_absent {s : Queue} {id : U128} (payload : Bytes) (absent : id ∉ s.queue) :
    ∃ e, (updateMessage id payload).run s = (.err e, s) := by
  by_cases empty : s.order = []
  · exact ⟨invalidData "Queue is empty", by simp [updateMessage, Method.run_bind, empty]⟩
  · have none_stored := Finmap.lookup_eq_none.2 absent
    exact ⟨invalidData "Message is not in queue",
      by simp [updateMessage, Method.run_bind, empty, none_stored]⟩

theorem run_isLocked (s : Queue) (clientId messageId : U128) :
    (isLocked clientId messageId).run s = (.ok (decide (messageId ∈ s.lockedIds clientId)), s) := by
  cases entry : s.locked.lookup clientId <;>
    simp [isLocked, Method.run_bind, entry, lockedIds]

/-! ## The payload sizes -/

/-- The call succeeds and changes at most `biggestPayloads`. -/
def OnlyMeasures {α : Type} (x : QueueM α) : Prop :=
  ∀ s, ∃ a b, x.run s = (.ok a, { s with biggestPayloads := b })

theorem OnlyMeasures.bind {α β : Type} {x : QueueM α} {f : α → QueueM β} (hx : OnlyMeasures x)
    (hf : ∀ a, OnlyMeasures (f a)) : OnlyMeasures (x >>= f) := by
  intro s
  obtain ⟨a, b, ha⟩ := hx s
  obtain ⟨a', b', ha'⟩ := hf a { s with biggestPayloads := b }
  exact ⟨a', b', by rw [Method.run_bind_ok ha, ha']⟩

theorem OnlyMeasures.pure {α : Type} (a : α) : OnlyMeasures (Pure.pure a : QueueM α) :=
  fun s => ⟨a, s.biggestPayloads, rfl⟩

theorem OnlyMeasures.forM {α : Type} {f : α → QueueM Unit} {l : List α}
    (hf : ∀ a ∈ l, OnlyMeasures (f a)) : OnlyMeasures (l.forM f) := by
  induction l with
  | nil => exact .pure ()
  | cons a l ih =>
    exact (hf a List.mem_cons_self).bind fun _ => ih fun b hb => hf b (List.mem_cons_of_mem _ hb)

/-- Reading entry `i` of the array, `i` being in range. -/
theorem onlyMeasures_read {i : ℕ} (small : i < 5) :
    OnlyMeasures (do Method.unwrap (← get).biggestPayloads[i]? : QueueM ℕ) := by
  intro s
  refine ⟨s.biggestPayloads[i], s.biggestPayloads, ?_⟩
  simp [Method.run_bind, small]

theorem onlyMeasures_setBiggest {i : ℕ} (small : i < 5) (value : ℕ) :
    OnlyMeasures (setBiggest i value) := by
  intro s
  refine ⟨(), s.biggestPayloads.setIfInBounds i value, ?_⟩
  simp [setBiggest, Method.run_bind, small]

theorem onlyMeasures_shiftBiggest {decrId : ℕ} (small : decrId < 5) :
    OnlyMeasures (shiftBiggest decrId) := by
  refine .forM fun id mem => ?_
  have := List.mem_range.1 mem
  exact (onlyMeasures_read (by omega)).bind fun next => onlyMeasures_setBiggest (by omega) next

theorem onlyMeasures_placePayload (len : ℕ) {n : ℕ} (small : n ≤ 5) :
    OnlyMeasures (placePayload len n) := by
  induction n with
  | zero => exact .pure ()
  | succ decrId ih =>
    apply (onlyMeasures_read (by omega)).bind
    intro biggest
    split_ifs
    · exact (onlyMeasures_shiftBiggest (by omega)).bind fun _ =>
        onlyMeasures_setBiggest (by omega) len
    · exact ih (by omega)

theorem onlyMeasures_findBiggestPayloads (iter : Iteration U128 QueueMessage) :
    OnlyMeasures (findBiggestPayloads iter) := fun s =>
  OnlyMeasures.forM (fun e _ => onlyMeasures_placePayload e.2.payload.length le_rfl) s

/-- The entry of `biggest_payloads` for the biggest payload. -/
def biggest (s : Queue) : ℕ := s.biggestPayloads[4]

/-- `get_next_biggest_payload` returns the entry that the array had before the call. -/
theorem run_getNextBiggestPayload (iter : Iteration U128 QueueMessage) (s : Queue) :
    ∃ measured, (getNextBiggestPayload iter).run s =
      (.ok s.biggest, { s with biggestPayloads := measured }) := by
  obtain ⟨done, measured, found⟩ := onlyMeasures_findBiggestPayloads iter s
  refine ⟨measured, ?_⟩
  simp [getNextBiggestPayload, Method.run_bind, found, biggest]

/-! ## The effect of a call -/

/-- The call leaves the queue as it is. An `enqueue` never does, a `dequeue` only if it neither
names a stored message nor finds a locked one. -/
def Inert (s : Queue) : Op → Prop
  | .enqueue .. => False
  | .lockToRead _ => s.order = [] ∨ s.Stuck
  | .dequeue clientId messageId =>
    (∀ id ∈ messageId, id ∉ s.queue) ∧ (s.order = [] ∨ s.lockedIds clientId = [])
  | .unlock clientId messageId => s.order = [] ∨ s.toRelease clientId messageId = none
  | .requeue _ id _ => id ∉ s.queue
  | _ => True

/-- The updates that a call can make to the queue. -/
inductive Effect (s : Queue) : Op → Queue → Prop where
  | idle (op : Op) (inert : s.Inert op) : Effect s op s
  | measured (iter : Iteration U128 QueueMessage) (biggest : Vector ℕ 5) :
      Effect s (.getNextBiggestPayload iter) { s with biggestPayloads := biggest }
  | enqueued (payload : Bytes) (publisherId : U128) (now : U64) :
      Effect s (.enqueue payload publisherId now)
        (s.enqueued (QueueMessage.new payload publisherId now))
  | delivered (clientId id : U128) (m : QueueMessage) (cursor : s.nextId = some id)
      (stored : s.queue.lookup id = some m) (free : m.lockedBy = none) :
      Effect s (.lockToRead clientId) (s.delivered clientId id m)
  | removed (clientId id : U128) (m : QueueMessage) (stored : s.queue.lookup id = some m) :
      Effect s (.dequeue clientId (some id)) (s.removed clientId id)
  | acked (clientId id : U128) (ids : List U128) (messageId : Option U128)
      (unnamed : ∀ m ∈ messageId, m ∉ s.queue) (first : s.lockedIds clientId = id :: ids) :
      Effect s (.dequeue clientId messageId) (s.acked clientId id ids)
  | released (clientId id : U128) (messageId : Option U128)
      (listed : s.toRelease clientId messageId = some id) :
      Effect s (.unlock clientId messageId) (s.released clientId id)
  | requeued (clientId id : U128) (now : U64) (m : QueueMessage)
      (stored : s.queue.lookup id = some m) :
      Effect s (.requeue clientId id now)
        (s.requeued clientId id (QueueMessage.new m.payload m.publisherId now))
  | updated (id : U128) (m : QueueMessage) (payload : Bytes) (stored : s.queue.lookup id = some m) :
      Effect s (.updateMessage id payload) (s.updated id m payload)

/-- Every stored message is in `order`, where `0` marks the removed ones. -/
structure Rooted (s : Queue) : Prop where
  listed : ∀ id ∈ s.queue, id ∈ s.order
  nonzero : 0 ∉ s.queue

theorem Rooted.nonempty {s : Queue} (h : s.Rooted) {id : U128} {m : QueueMessage}
    (stored : s.queue.lookup id = some m) : s.order ≠ [] :=
  List.ne_nil_of_mem (h.listed id (HashMap.mem_of_lookup stored))

theorem Rooted.ne_zero {s : Queue} (h : s.Rooted) {id : U128} (mem : id ∈ s.queue) : id ≠ 0 :=
  fun e => h.nonzero (e ▸ mem)

theorem lookup_locked {s : Queue} {clientId id : U128} {ids : List U128}
    (mine : s.lockedIds clientId = id :: ids) :
    s.locked.lookup clientId = some (id :: ids) := by
  cases entry : s.locked.lookup clientId with
  | none => simp [lockedIds, entry] at mine
  | some l => simpa [lockedIds, entry] using mine

/-- How a call ends. A panic is about a listed id that is not stored any more, and the entry for it
is gone then. -/
inductive Answer (s : Queue) : Op → Outcome IoError Unit × Queue → Prop where
  | done {op : Op} {t : Queue} (effect : Effect s op t) : Answer s op (.ok (), t)
  | refused {op : Op} (error : IoError) (inert : s.Inert op) : Answer s op (.err error, s)
  | panicked {clientId id : U128} {ids : List U128} {messageId : Option U128}
      (effect : Effect s (.dequeue clientId messageId) (s.acked clientId id ids))
      (first : s.lockedIds clientId = id :: ids) (gone : id ∉ s.queue) :
      Answer s (.dequeue clientId messageId) (.panic, s.acked clientId id ids)

theorem dequeue_none_answer (s : Queue) (clientId : U128) {messageId : Option U128}
    (unnamed : ∀ m ∈ messageId, m ∉ s.queue)
    (same : (dequeue clientId messageId).run s = (dequeue clientId none).run s) :
    Answer s (.dequeue clientId messageId) ((Op.dequeue clientId messageId).call.run s) := by
  rw [Op.call, Method.run_bind, same]
  by_cases empty : s.order = []
  · rw [dequeue_empty clientId none empty]
    exact .refused _ ⟨unnamed, .inl empty⟩
  rw [run_dequeue_locked clientId empty]
  cases mine : s.lockedIds clientId with
  | nil =>
    obtain ⟨e, he⟩ := dequeueLocked_err mine
    rw [he]
    exact .refused _ ⟨unnamed, .inr mine⟩
  | cons id ids =>
    have effect := Effect.acked clientId id ids messageId unnamed mine
    rw [run_dequeueLocked (lookup_locked mine)]
    cases stored : s.queue.lookup id with
    | none => exact .panicked effect mine (Finmap.lookup_eq_none.1 stored)
    | some m => exact .done effect

theorem unlock_answer (s : Queue) (clientId : U128) (messageId : Option U128) :
    Answer s (.unlock clientId messageId) ((Op.unlock clientId messageId).call.run s) := by
  rw [Op.call]
  cases listed : s.toRelease clientId messageId with
  | none =>
    by_cases idle : s.order ≠ [] ∧ clientId ∈ s.locked ∧ messageId = none
    · obtain ⟨nonempty, known, rfl⟩ := idle
      obtain ⟨ids, entry⟩ := Finmap.mem_iff.1 known
      obtain rfl : ids = [] := by simpa [toRelease, lockedIds, entry] using listed
      rw [unlock_idle nonempty entry]
      exact .done (.idle _ (.inr listed))
    · obtain ⟨e, he⟩ := unlock_refused listed (by tauto)
      rw [he]
      exact .refused e (.inr listed)
  | some id =>
    by_cases empty : s.order = []
    · rw [unlock_empty clientId messageId empty]
      exact .refused _ (.inl empty)
    · rw [run_unlock empty listed]
      exact .done (.released clientId id messageId listed)

theorem step_enqueue (s : Queue) (payload : Bytes) (publisherId : U128) (now : U64) :
    s.step (.enqueue payload publisherId now) =
      s.enqueued (QueueMessage.new payload publisherId now) := by
  rw [step, Op.call, run_enqueue]

/-- Every call has an answer. -/
theorem call_answer {s : Queue} (h : s.Rooted) (op : Op) : Answer s op (op.call.run s) := by
  cases op with
  | enqueue payload publisherId now =>
    rw [Op.call, run_enqueue]
    exact .done (.enqueued payload publisherId now)
  | lockToRead clientId =>
    rw [Op.call, Method.run_bind]
    rcases lockToRead_cases s clientId with ⟨⟨e, he⟩, inert⟩ | ⟨id, m, nonempty, cursor, stored, free⟩
    · rw [he]
      exact .refused e inert
    · rw [run_lockToRead clientId nonempty cursor stored free]
      exact .done (.delivered clientId id m cursor stored free)
  | dequeue clientId messageId =>
    cases messageId with
    | none => exact dequeue_none_answer s clientId (by simp) rfl
    | some id =>
      cases stored : s.queue.lookup id with
      | none =>
        have absent := Finmap.lookup_eq_none.1 stored
        exact dequeue_none_answer s clientId (by simpa using absent)
          (run_dequeue_absent clientId absent)
      | some m =>
        rw [Op.call, Method.run_bind,
          run_dequeue_id clientId (h.listed id (HashMap.mem_of_lookup stored)) stored]
        exact .done (.removed clientId id m stored)
  | unlock clientId messageId => exact unlock_answer s clientId messageId
  | requeue clientId id now =>
    rw [Op.call]
    cases stored : s.queue.lookup id with
    | none =>
      have absent := Finmap.lookup_eq_none.1 stored
      obtain ⟨e, he⟩ := requeue_absent clientId now absent
      rw [he]
      exact .refused e absent
    | some m =>
      rw [run_requeue clientId now (h.listed id (HashMap.mem_of_lookup stored)) stored]
      exact .done (.requeued clientId id now m stored)
  | updateMessage id payload =>
    rw [Op.call]
    cases stored : s.queue.lookup id with
    | none =>
      obtain ⟨e, he⟩ := updateMessage_absent payload (Finmap.lookup_eq_none.1 stored)
      rw [he]
      exact .refused e trivial
    | some m =>
      rw [run_updateMessage payload (h.nonempty stored) stored]
      exact .done (.updated id m payload stored)
  | isLocked clientId messageId =>
    rw [Op.call, Method.run_bind, run_isLocked]
    exact .done (.idle _ trivial)
  | listMessages iter => exact .done (.idle _ trivial)
  | getNextBiggestPayload iter =>
    obtain ⟨biggest, returns⟩ := run_getNextBiggestPayload iter s
    rw [Op.call, Method.run_bind, returns]
    exact .done (.measured iter biggest)

/-- A call has one of the effects. -/
theorem step_effect {s : Queue} (h : s.Rooted) (op : Op) : Effect s op (s.step op) := by
  have answer := call_answer h op
  unfold step
  generalize op.call.run s = result at answer ⊢
  cases answer with
  | done effect => exact effect
  | refused error inert => exact .idle op inert
  | panicked effect => exact effect

/-! ## The messages after an update -/

theorem lookup_enqueued (s : Queue) (m : QueueMessage) (k : U128) :
    (s.enqueued m).queue.lookup k = if k = newId s.order then some m else s.queue.lookup k :=
  HashMap.lookup_insert_eq _ _ _ _

theorem lookup_delivered (s : Queue) (clientId id : U128) (m : QueueMessage) (k : U128) :
    (s.delivered clientId id m).queue.lookup k =
      if k = id then some (m.lock clientId) else s.queue.lookup k :=
  HashMap.lookup_insert_eq _ _ _ _

theorem lookup_removed (s : Queue) (clientId id k : U128) :
    (s.removed clientId id).queue.lookup k = if k = id then none else s.queue.lookup k :=
  HashMap.lookup_erase_eq _ _ _

theorem lookup_acked (s : Queue) (clientId id : U128) (ids : List U128) (k : U128) :
    (s.acked clientId id ids).queue.lookup k = if k = id then none else s.queue.lookup k :=
  HashMap.lookup_erase_eq _ _ _

theorem lookup_released (s : Queue) (clientId id k : U128) :
    (s.released clientId id).queue.lookup k =
      if k = id then (s.queue.lookup k).map QueueMessage.unlock else s.queue.lookup k := by
  unfold released
  cases stored : s.queue.lookup id with
  | none =>
    split_ifs with h
    · rw [h, stored, Option.map_none]
    · rfl
  | some m =>
    rw [HashMap.lookup_insert_eq]
    split_ifs with h
    · rw [h, stored, Option.map_some]
    · rfl

theorem mem_released (s : Queue) (clientId id k : U128) :
    k ∈ (s.released clientId id).queue ↔ k ∈ s.queue := by
  rw [← Finmap.lookup_isSome, lookup_released, ← Finmap.lookup_isSome]
  split_ifs <;> simp

theorem lookup_updated (s : Queue) (id : U128) (m : QueueMessage) (payload : Bytes) (k : U128) :
    (s.updated id m payload).queue.lookup k =
      if k = id then some { m with payload := payload } else s.queue.lookup k :=
  HashMap.lookup_insert_eq _ _ _ _

/-! ## The lists after an update -/

theorem lockedIds_insert (s : Queue) (clientId : U128) (ids : List U128) (c : U128) :
    ((s.locked.insert clientId ids).lookup c).getD [] =
      if c = clientId then ids else s.lockedIds c := by
  rw [HashMap.lookup_insert_eq]
  split_ifs <;> rfl

theorem lockedIds_delivered (s : Queue) (clientId id : U128) (m : QueueMessage) (c : U128) :
    (s.delivered clientId id m).lockedIds c =
      if c = clientId then s.lockedIds c ++ [id] else s.lockedIds c := by
  apply (lockedIds_insert s clientId _ c).trans
  split_ifs with h
  · rw [h]
  · rfl

theorem lockedIds_removed (s : Queue) (clientId id c : U128) :
    (s.removed clientId id).lockedIds c =
      if c = clientId then (s.lockedIds c).erase id else s.lockedIds c := by
  unfold removed lockedIds
  dsimp only
  by_cases mine : id ∈ s.lockedIds clientId
  · rw [lockedIds] at mine
    rw [if_pos mine, HashMap.lookup_insert_eq]
    split_ifs with h
    · rw [h, Option.getD_some]
    · rfl
  · rw [lockedIds] at mine
    rw [if_neg mine]
    split_ifs with h
    · rw [h, List.erase_of_not_mem mine]
    · rfl

theorem lockedIds_acked (s : Queue) (clientId id : U128) (ids : List U128) (c : U128) :
    (s.acked clientId id ids).lockedIds c = if c = clientId then ids else s.lockedIds c :=
  lockedIds_insert s clientId ids c

theorem lockedIds_released (s : Queue) (clientId id c : U128) :
    (s.released clientId id).lockedIds c =
      if c = clientId then (s.lockedIds c).erase id else s.lockedIds c := by
  apply (lockedIds_insert s clientId _ c).trans
  split_ifs with h
  · rw [h]
  · rfl

theorem lockedIds_requeued (s : Queue) (clientId id : U128) (m : QueueMessage) (c : U128) :
    (s.requeued clientId id m).lockedIds c =
      if c = clientId then (s.lockedIds c).erase id else s.lockedIds c :=
  lockedIds_removed (s.enqueued m) clientId id c

theorem lookup_requeued (s : Queue) (clientId id : U128) (m : QueueMessage) (k : U128) :
    (s.requeued clientId id m).queue.lookup k =
      if k = id then none else if k = newId s.order then some m else s.queue.lookup k := by
  rw [requeued, lookup_removed, lookup_enqueued]

/-! ## Stored messages stay in the order vector -/

theorem Rooted.new : Rooted Queue.new where
  listed _ mem := absurd mem Finmap.notMem_empty
  nonzero := Finmap.notMem_empty

theorem Rooted.enqueued {s : Queue} (h : s.Rooted) (m : QueueMessage) : (s.enqueued m).Rooted where
  listed id mem := by
    rcases Finmap.mem_insert.1 mem with rfl | mem
    · exact List.mem_append_right _ List.mem_cons_self
    · exact List.mem_append_left _ (h.listed id mem)
  nonzero mem := by
    rcases Finmap.mem_insert.1 mem with zero | mem
    · exact newId_ne_zero s.order zero.symm
    · exact h.nonzero mem

/-- What burying and draining leave of `order` still lists every other message. -/
theorem Rooted.erase {s t : Queue} (h : s.Rooted) {id : U128}
    (queue : t.queue = s.queue.erase id)
    (order : t.order = bury s.order id ∨ t.order = drain (bury s.order id)) : t.Rooted where
  listed k mem := by
    rw [queue] at mem
    obtain ⟨ne, mem⟩ := Finmap.mem_erase.1 mem
    have buried := mem_bury (h.listed k mem) ne
    rcases order with order | order <;> rw [order]
    · exact buried
    · exact (mem_drain (h.ne_zero mem)).2 buried
  nonzero mem := by
    rw [queue] at mem
    exact h.nonzero (Finmap.mem_erase.1 mem).2

theorem Rooted.removed {s : Queue} (h : s.Rooted) (clientId id : U128) :
    (s.removed clientId id).Rooted := h.erase rfl (order_removed s clientId id)

/-- Overwriting stored messages in place keeps the queue rooted. -/
theorem Rooted.of_keys {s t : Queue} (h : s.Rooted) (keys : ∀ k, k ∈ t.queue → k ∈ s.queue)
    (order : t.order = s.order ∨ t.order = drain s.order) : t.Rooted where
  listed k mem := by
    have listed := h.listed k (keys k mem)
    rcases order with order | order <;> rw [order]
    · exact listed
    · exact (mem_drain (h.ne_zero (keys k mem))).2 listed
  nonzero mem := h.nonzero (keys 0 mem)

theorem Rooted.delivered {s : Queue} (h : s.Rooted) (clientId : U128) {id : U128} {m : QueueMessage}
    (stored : s.queue.lookup id = some m) : (s.delivered clientId id m).Rooted :=
  h.of_keys (fun k => (HashMap.mem_insert_of_lookup stored k).1) (order_delivered s clientId id m)

theorem Rooted.acked {s : Queue} (h : s.Rooted) (clientId id : U128) (ids : List U128) :
    (s.acked clientId id ids).Rooted := h.erase rfl (.inr rfl)

theorem Rooted.released {s : Queue} (h : s.Rooted) (clientId id : U128) :
    (s.released clientId id).Rooted :=
  h.of_keys (fun k => (mem_released s clientId id k).1) (.inl rfl)

theorem Rooted.step {s : Queue} (h : s.Rooted) (op : Op) : (s.step op).Rooted := by
  have effect := step_effect h op
  generalize s.step op = t at effect ⊢
  cases effect with
  | idle => exact h
  | measured => exact h.of_keys (fun _ => id) (.inl rfl)
  | enqueued => exact h.enqueued _
  | delivered clientId id m cursor stored => exact h.delivered clientId stored
  | removed clientId id => exact h.removed clientId id
  | acked clientId id ids => exact h.acked clientId id ids
  | released clientId id => exact h.released clientId id
  | requeued clientId id now m => exact (h.enqueued _).removed clientId id
  | updated id m payload stored =>
    exact h.of_keys (fun k => (HashMap.mem_insert_of_lookup stored k).1) (.inl rfl)

/-- Every state of every run is rooted. -/
theorem rooted_run (ops : List Op) : Transition.EveryState step Rooted new ops :=
  Transition.invariant .new (fun _ op h => h.step op) ops

end Queue

end DataBroker
