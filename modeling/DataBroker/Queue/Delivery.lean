import DataBroker.Queue.Line
import DataBroker.Queue.Isolation

/-!
# Exactly-once delivery

`Delivery` runs a queue for producers that enqueue and consumers that lock the next message and
acknowledge, and keeps a record of it. A message is counted as an occurrence, by its place among
the accepted ones, so that two messages with the same content are told apart; `slot` follows the
occurrence that is stored under an id.

`exactlyOnce_iff_freshIds`: every accepted message is handed out at most once and is acknowledged
by the client that got it, or is still in the queue, if and only if no message is enqueued under
the id of a message that is still stored.
-/

namespace DataBroker

open Queue (newId)

/-- A successful `lockToRead`: who called it, which occurrence it handed out, the bytes sent. -/
structure Handout where
  client : U128
  occurrence : Option ℕ
  bytes : Bytes
deriving DecidableEq

/-- A queue and the record of its use. -/
structure Delivery where
  queue : Queue
  /-- The publisher and the payload of every accepted message. -/
  accepted : List (U128 × Bytes)
  /-- The occurrence stored under an id. -/
  slot : HashMap U128 ℕ
  handouts : List Handout
  /-- Every acknowledgement, with the occurrence it removed if it succeeded. -/
  acks : List (U128 × Option ℕ)

/-- What producers and consumers do. -/
inductive DeliveryOp where
  | enqueue (payload : Bytes) (publisherId : U128) (now : U64)
  | lockToRead (clientId : U128)
  | acknowledge (clientId : U128)

namespace Delivery

def new : Delivery := ⟨Queue.new, [], ∅, [], []⟩

def step (d : Delivery) : DeliveryOp → Delivery
  | .enqueue payload publisherId now =>
    match (Queue.enqueue payload publisherId now).run d.queue with
    | (.ok _, queue) => { d with
        queue
        accepted := d.accepted ++ [(publisherId, payload)]
        slot := d.slot.insert (newId d.queue.order) d.accepted.length }
    | (_, queue) => { d with queue }
  | .lockToRead clientId =>
    match (Queue.lockToRead clientId).run d.queue with
    | (.ok (bytes, messageId), queue) => { d with
        queue
        handouts := d.handouts ++ [⟨clientId, messageId.bind d.slot.lookup, bytes⟩] }
    | (_, queue) => { d with queue }
  | .acknowledge clientId =>
    match (Queue.dequeue clientId none).run d.queue with
    | (.ok _, queue) =>
      let messageId := (d.queue.lockedIds clientId).head?
      { d with
        queue
        slot := messageId.elim d.slot d.slot.erase
        acks := d.acks ++ [(clientId, messageId.bind d.slot.lookup)] }
    | (_, queue) => { d with queue, acks := d.acks ++ [(clientId, none)] }

/-- A client acknowledges only what it has been handed out and not yet acknowledged. -/
def Permitted (d : Delivery) : DeliveryOp → Prop
  | .acknowledge clientId =>
    d.acks.countP (·.1 = clientId) < d.handouts.countP (·.client = clientId)
  | _ => True

instance (d : Delivery) : (op : DeliveryOp) → Decidable (d.Permitted op)
  | .acknowledge _ => inferInstanceAs (Decidable (_ < _))
  | .enqueue .. | .lockToRead _ => .isTrue trivial

/-- The successful reads of the occurrence `n`. -/
def handoutsOf (d : Delivery) (n : ℕ) : List Handout :=
  d.handouts.filter (·.occurrence = some n)

/-- The occurrence `n` of the message `p` was read once, by `client`, who got all of it. -/
def ReadOnce (d : Delivery) (n : ℕ) (p : U128 × Bytes) (client : U128) : Prop :=
  ∃ id now, d.handoutsOf n =
    [⟨client, some n, getMetaAsVec id ⟨p.2, p.1, now, some client⟩ ++ p.2⟩]

/-- The occurrence `n` is stored, with its content and the given holder. -/
def Stored (d : Delivery) (n : ℕ) (p : U128 × Bytes) (holder : Option U128) : Prop :=
  ∃ id m, d.slot.lookup id = some n ∧ d.queue.queue.lookup id = some m ∧
    m.lockedBy = holder ∧ (m.publisherId, m.payload) = p

/-- Where an accepted message is. -/
inductive Fate (d : Delivery) (n : ℕ) (p : U128 × Bytes) : Prop where
  | waiting (stored : d.Stored n p none) (unread : d.handoutsOf n = [])
  | held (client : U128) (stored : d.Stored n p (some client)) (read : d.ReadOnce n p client)
  | acknowledged (client : U128) (read : d.ReadOnce n p client) (acked : (client, some n) ∈ d.acks)

/-- Every accepted message has its fate, and every acknowledgement succeeded. -/
structure ExactlyOnce (d : Delivery) : Prop where
  fate : ∀ n p, d.accepted[n]? = some p → d.Fate n p
  succeeded : ∀ a ∈ d.acks, a.2 ≠ none

/-- A new message does not get the id of a stored one. -/
def FreshId (d : Delivery) : DeliveryOp → Prop
  | .enqueue .. => newId d.queue.order ∉ d.queue.queue
  | _ => True

instance (d : Delivery) : (op : DeliveryOp) → Decidable (d.FreshId op)
  | .enqueue .. => inferInstanceAs (Decidable (_ ∉ _))
  | .lockToRead _ | .acknowledge _ => .isTrue trivial

/-! ## One step -/

theorem step_enqueue (d : Delivery) (payload : Bytes) (publisherId : U128) (now : U64) :
    d.step (.enqueue payload publisherId now) = { d with
      queue := d.queue.enqueued (QueueMessage.new payload publisherId now)
      accepted := d.accepted ++ [(publisherId, payload)]
      slot := d.slot.insert (newId d.queue.order) d.accepted.length } := by
  simp only [step, Queue.run_enqueue]

/-- The record with one more read. -/
def read (d : Delivery) (queue : Queue) (handout : Handout) : Delivery :=
  { d with queue, handouts := d.handouts ++ [handout] }

@[simp] theorem queue_read (d : Delivery) (queue : Queue) (handout : Handout) :
    (d.read queue handout).queue = queue := rfl

@[simp] theorem handouts_read (d : Delivery) (queue : Queue) (handout : Handout) :
    (d.read queue handout).handouts = d.handouts ++ [handout] := rfl

@[simp] theorem acks_read (d : Delivery) (queue : Queue) (handout : Handout) :
    (d.read queue handout).acks = d.acks := rfl

theorem step_lockToRead (d : Delivery) (clientId : U128) :
    d.step (.lockToRead clientId) = d ∨ ∃ id m, d.queue.nextId = some id ∧
      d.queue.queue.lookup id = some m ∧ m.lockedBy = none ∧
      d.step (.lockToRead clientId) = d.read (d.queue.delivered clientId id m)
        ⟨clientId, d.slot.lookup id, getMetaAsVec id (m.lock clientId) ++ m.payload⟩ := by
  rcases Queue.lockToRead_cases d.queue clientId with
    ⟨⟨e, he⟩, -⟩ | ⟨id, m, nonempty, cursor, stored, free⟩
  · refine .inl ?_
    simp only [step, he]
  · refine .inr ⟨id, m, cursor, stored, free, ?_⟩
    simp only [step, read, Queue.run_lockToRead clientId nonempty cursor stored free,
      Option.bind_some]

/-- The acknowledgement of a stored message. -/
theorem step_acknowledge {d : Delivery} {clientId id : U128} {ids : List U128} {m : QueueMessage}
    (rooted : d.queue.Rooted) (first : d.queue.lockedIds clientId = id :: ids)
    (stored : d.queue.queue.lookup id = some m) :
    d.step (.acknowledge clientId) = { d with
      queue := d.queue.acked clientId id ids
      slot := d.slot.erase id
      acks := d.acks ++ [(clientId, d.slot.lookup id)] } := by
  simp only [step, Queue.run_dequeue_locked clientId (rooted.nonempty stored),
    Queue.run_dequeueLocked (Queue.lookup_locked first), stored, first, List.head?_cons,
    Option.elim_some, Option.bind_some]

/-- Any other acknowledgement fails and removes no message. -/
theorem step_acknowledge_failed {d : Delivery} {clientId : U128}
    (missing : ∀ id ∈ (d.queue.lockedIds clientId).head?, id ∉ d.queue.queue) :
    ∃ queue, d.step (.acknowledge clientId) = { d with queue, acks := d.acks ++ [(clientId, none)] } ∧
      ∀ id ∈ queue.queue, id ∈ d.queue.queue := by
  by_cases empty : d.queue.order = []
  · refine ⟨d.queue, ?_, fun _ => id⟩
    simp only [step, Queue.dequeue_empty clientId none empty]
  cases mine : d.queue.lockedIds clientId with
  | nil =>
    obtain ⟨e, he⟩ := Queue.dequeueLocked_err mine
    refine ⟨d.queue, ?_, fun _ => id⟩
    simp only [step, Queue.run_dequeue_locked clientId empty, he]
  | cons id ids =>
    have gone : d.queue.queue.lookup id = none :=
      Finmap.lookup_eq_none.2 (missing id (by rw [mine]; rfl))
    refine ⟨d.queue.acked clientId id ids, ?_, fun k mem => (Finmap.mem_erase.1 mem).2⟩
    simp only [step, Queue.run_dequeue_locked clientId empty,
      Queue.run_dequeueLocked (Queue.lookup_locked mine), gone]

theorem queue_acknowledge (d : Delivery) (clientId : U128) :
    (d.step (.acknowledge clientId)).queue = d.queue.step (.dequeue clientId none) := by
  rw [Queue.step, Queue.Op.call, Method.run_discard_snd, step]
  split <;> simp_all

/-! ## What holds of every run -/

/-- The occurrences stored under the ids are different, and none of them was acknowledged. -/
structure Tracked (d : Delivery) : Prop where
  rooted : d.queue.Rooted
  slotted : ∀ id ∈ d.queue.queue, id ∈ d.slot
  injective : ∀ id id' n, d.slot.lookup id = some n → d.slot.lookup id' = some n → id = id'
  below : ∀ id n, d.slot.lookup id = some n → n < d.accepted.length
  settled : ∀ c n, (c, some n) ∈ d.acks → n < d.accepted.length ∧ ∀ id, d.slot.lookup id ≠ some n

theorem Tracked.new : new.Tracked where
  rooted := .new
  slotted _ mem := absurd mem Finmap.notMem_empty
  injective _ _ _ h := by cases h
  below _ _ h := by cases h
  settled _ _ h := absurd h List.not_mem_nil

theorem Tracked.enqueue {d : Delivery} (h : d.Tracked) (payload : Bytes) (publisherId : U128)
    (now : U64) : (d.step (.enqueue payload publisherId now)).Tracked := by
  rw [step_enqueue]
  have lookup := HashMap.lookup_insert_eq d.slot (newId d.queue.order)
  constructor
  · exact h.rooted.enqueued _
  · intro id mem
    rcases Finmap.mem_insert.1 mem with new | mem
    · exact Finmap.mem_insert.2 (.inl new)
    · exact Finmap.mem_insert.2 (.inr (h.slotted id mem))
  · intro id id' n first second
    simp only [lookup] at first second
    split_ifs at first second with new new' new'
    · rw [new, new']
    · obtain rfl : d.accepted.length = n := by simpa using first
      exact absurd (h.below id' _ second) (lt_irrefl _)
    · obtain rfl : d.accepted.length = n := by simpa using second
      exact absurd (h.below id _ first) (lt_irrefl _)
    · exact h.injective id id' n first second
  · intro id n stored
    simp only [lookup, List.length_append, List.length_singleton] at stored ⊢
    split_ifs at stored
    · obtain rfl : d.accepted.length = n := by simpa using stored
      exact Nat.lt_succ_self _
    · exact Nat.lt_succ_of_lt (h.below id n stored)
  · intro c n acked
    obtain ⟨small, gone⟩ := h.settled c n acked
    simp only [lookup, List.length_append, List.length_singleton]
    refine ⟨Nat.lt_succ_of_lt small, fun id => ?_⟩
    split_ifs
    · simpa using small.ne'
    · exact gone id

theorem Tracked.lockToRead {d : Delivery} (h : d.Tracked) (clientId : U128) :
    (d.step (.lockToRead clientId)).Tracked := by
  rcases step_lockToRead d clientId with same | ⟨id, m, -, stored, -, next⟩
  · rwa [same]
  · rw [next]
    refine ⟨h.rooted.delivered clientId stored, fun k mem => ?_, h.injective, h.below, h.settled⟩
    rcases Finmap.mem_insert.1 mem with rfl | mem
    · exact h.slotted k (HashMap.mem_of_lookup stored)
    · exact h.slotted k mem

theorem Tracked.acknowledge {d : Delivery} (h : d.Tracked) (clientId : U128) :
    (d.step (.acknowledge clientId)).Tracked := by
  have rooted := h.rooted.step (.dequeue clientId none)
  rw [← queue_acknowledge] at rooted
  by_cases found : ∃ id ids m, d.queue.lockedIds clientId = id :: ids ∧
      d.queue.queue.lookup id = some m
  · obtain ⟨id, ids, m, first, stored⟩ := found
    obtain ⟨n, slot⟩ := Finmap.mem_iff.1 (h.slotted id (HashMap.mem_of_lookup stored))
    have step := step_acknowledge h.rooted first stored
    rw [step] at rooted ⊢
    have lookup : ∀ k n, (d.slot.erase id).lookup k = some n → k ≠ id ∧ d.slot.lookup k = some n := by
      intro k n entry
      rw [HashMap.lookup_erase_eq] at entry
      split_ifs at entry with same
      exact ⟨same, entry⟩
    refine ⟨rooted, fun k mem => ?_, fun k k' n e e' => ?_, fun k n e => ?_, fun c n' acked => ?_⟩
    · obtain ⟨ne, mem⟩ := Finmap.mem_erase.1 mem
      exact Finmap.mem_erase.2 ⟨ne, h.slotted k mem⟩
    · exact h.injective k k' n (lookup k n e).2 (lookup k' n e').2
    · exact h.below k n (lookup k n e).2
    · rcases List.mem_append.1 acked with old | new
      · obtain ⟨small, gone⟩ := h.settled c n' old
        exact ⟨small, fun k e => gone k (lookup k n' e).2⟩
      · obtain rfl : n' = n := by simpa [slot] using congrArg Prod.snd (List.mem_singleton.1 new)
        refine ⟨h.below id n' slot, fun k e => ?_⟩
        obtain ⟨ne, entry⟩ := lookup k n' e
        exact ne (h.injective k id n' entry slot)
  · have missing : ∀ id ∈ (d.queue.lockedIds clientId).head?, id ∉ d.queue.queue := by
      intro id first stored
      obtain ⟨ids, mine⟩ := List.head?_eq_some_iff.1 first
      obtain ⟨m, stored⟩ := Finmap.mem_iff.1 stored
      exact found ⟨id, ids, m, mine, stored⟩
    obtain ⟨queue, next, keys⟩ := step_acknowledge_failed missing
    rw [next] at rooted ⊢
    refine ⟨rooted, fun k mem => h.slotted k (keys k mem), h.injective, h.below, fun c n acked => ?_⟩
    rcases List.mem_append.1 acked with old | new
    · exact h.settled c n old
    · simp at new

theorem Tracked.step {d : Delivery} (h : d.Tracked) : (op : DeliveryOp) → (d.step op).Tracked
  | .enqueue payload publisherId now => h.enqueue payload publisherId now
  | .lockToRead clientId => h.lockToRead clientId
  | .acknowledge clientId => h.acknowledge clientId

/-- Enqueueing under the id of a stored message loses that message. -/
theorem freshId_of_exactlyOnce {d : Delivery} (h : d.Tracked) (op : DeliveryOp)
    (once : (d.step op).ExactlyOnce) : d.FreshId op := by
  cases op with
  | enqueue payload publisherId now =>
    intro taken
    rw [step_enqueue] at once
    obtain ⟨n, slot⟩ := Finmap.mem_iff.1 (h.slotted _ taken)
    have small := h.below _ n slot
    obtain ⟨p, accepted⟩ : ∃ p, d.accepted[n]? = some p := ⟨_, List.getElem?_eq_getElem small⟩
    have lost : ∀ holder, ¬ Stored { d with
        queue := d.queue.enqueued (QueueMessage.new payload publisherId now)
        accepted := d.accepted ++ [(publisherId, payload)]
        slot := d.slot.insert (newId d.queue.order) d.accepted.length } n p holder := by
      rintro holder ⟨id, m, entry, -⟩
      rw [HashMap.lookup_insert_eq] at entry
      split_ifs at entry with same
      · exact small.ne' (by simpa using entry)
      · exact same (h.injective id _ n entry slot)
    rcases once.fate n p (by rwa [List.getElem?_append_left small]) with
      ⟨stored, -⟩ | ⟨c, stored, -⟩ | ⟨c, -, acked⟩
    · exact lost none stored
    · exact lost (some c) stored
    · exact (h.settled c n acked).2 _ slot
  | _ => trivial

/-! ## What holds of runs with fresh ids -/

/-- The reads of `n` fit the lock on its message: none if it is unlocked, else one by the holder. -/
def Reads (d : Delivery) (n : ℕ) (p : U128 × Bytes) : Option U128 → Prop
  | none => d.handoutsOf n = []
  | some client => d.ReadOnce n p client

/-- The record and the queue fit together. -/
structure Faithful (d : Delivery) : Prop extends d.Tracked where
  agree : d.queue.locks.Agree
  line : ∃ done wait, d.queue.InLine done wait
  recorded : ∀ id m, d.queue.queue.lookup id = some m → ∃ n, d.slot.lookup id = some n ∧
    d.accepted[n]? = some (m.publisherId, m.payload) ∧ d.Reads n (m.publisherId, m.payload) m.lockedBy
  stored : ∀ id ∈ d.slot, id ∈ d.queue.queue
  read : ∀ n, d.accepted.length ≤ n → d.handoutsOf n = []
  finished : ∀ n p, d.accepted[n]? = some p →
    (∃ id, d.slot.lookup id = some n) ∨ ∃ c, d.ReadOnce n p c ∧ (c, some n) ∈ d.acks
  succeeded : ∀ a ∈ d.acks, a.2 ≠ none
  balance : ∀ c, d.handouts.countP (·.client = c) =
    d.acks.countP (·.1 = c) + (d.queue.lockedIds c).length

theorem Faithful.exactlyOnce {d : Delivery} (h : d.Faithful) : d.ExactlyOnce where
  succeeded := h.succeeded
  fate n p accepted := by
    rcases h.finished n p accepted with ⟨id, slot⟩ | ⟨c, read, acked⟩
    · obtain ⟨m, stored⟩ := Finmap.mem_iff.1 (h.stored id (HashMap.mem_of_lookup slot))
      obtain ⟨n', slot', accepted', reads⟩ := h.recorded id m stored
      obtain rfl : n = n' := by simpa [slot] using slot'
      obtain rfl : p = (m.publisherId, m.payload) := by simpa [accepted] using accepted'
      cases holder : m.lockedBy with
      | none => exact .waiting ⟨id, m, slot, stored, holder, rfl⟩ (by rwa [holder] at reads)
      | some c => exact .held c ⟨id, m, slot, stored, holder, rfl⟩ (by rwa [holder] at reads)
    · exact .acknowledged c read acked

theorem Faithful.new : new.Faithful where
  toTracked := .new
  agree := Queue.locksAgree_iff.1 Queue.locksAgree_new
  line := ⟨[], [], .new⟩
  recorded _ _ h := by cases h
  stored _ mem := absurd mem Finmap.notMem_empty
  read _ _ := rfl
  finished _ _ h := by cases h
  succeeded _ h := absurd h List.not_mem_nil
  balance _ := rfl

theorem Faithful.enqueue {d : Delivery} (h : d.Faithful) (payload : Bytes) (publisherId : U128)
    (now : U64) (fresh : newId d.queue.order ∉ d.queue.queue) :
    (d.step (.enqueue payload publisherId now)).Faithful := by
  have tracked := h.toTracked.step (.enqueue payload publisherId now)
  rw [step_enqueue] at tracked ⊢
  have lookup := HashMap.lookup_insert_eq d.slot (newId d.queue.order)
  have unused : newId d.queue.order ∉ d.slot := fun mem => fresh (h.stored _ mem)
  obtain ⟨done, wait, line⟩ := h.line
  constructor
  · exact tracked
  · rw [Queue.locks_enqueued rfl]
    exact (Locks.agree_put h.agree).2 (Queue.holder_eq_none fresh)
  · exact ⟨_, _, line.enqueued fresh rfl⟩
  · intro id m stored
    rw [Queue.lookup_enqueued] at stored
    rw [lookup]
    split_ifs at stored ⊢ with new
    · obtain rfl := Option.some.inj stored
      exact ⟨_, rfl, List.getElem?_concat_length, h.read _ le_rfl⟩
    · obtain ⟨n, slot, accepted, reads⟩ := h.recorded id m stored
      refine ⟨n, slot, ?_, reads⟩
      rw [List.getElem?_append_left (h.below id n slot)]
      exact accepted
  · intro id mem
    rcases Finmap.mem_insert.1 mem with new | mem
    · exact Finmap.mem_insert.2 (.inl new)
    · exact Finmap.mem_insert.2 (.inr (h.stored id mem))
  · intro n long
    exact h.read n (by simp at long; omega)
  · intro n p accepted
    by_cases new : n = d.accepted.length
    · exact .inl ⟨newId d.queue.order, by rw [lookup, if_pos rfl, new]⟩
    · have small : n < d.accepted.length := by
        have := (List.getElem?_eq_some_iff.1 accepted).1
        simp at this
        omega
      rw [List.getElem?_append_left small] at accepted
      rcases h.finished n p accepted with ⟨id, slot⟩ | done
      · refine .inl ⟨id, ?_⟩
        have ne : id ≠ newId d.queue.order := by
          rintro rfl
          exact unused (HashMap.mem_of_lookup slot)
        rw [lookup, if_neg ne, slot]
      · exact .inr done
  · exact h.succeeded
  · exact h.balance

theorem handoutsOf_read_self (d : Delivery) (queue : Queue) (clientId : U128) (n : ℕ)
    (bytes : Bytes) : (d.read queue ⟨clientId, some n, bytes⟩).handoutsOf n =
      d.handoutsOf n ++ [⟨clientId, some n, bytes⟩] := by
  simp [handoutsOf, read, List.filter_append]

theorem handoutsOf_read_of_ne (d : Delivery) (queue : Queue) (clientId : U128) {n k : ℕ}
    (ne : k ≠ n) (bytes : Bytes) :
    (d.read queue ⟨clientId, some n, bytes⟩).handoutsOf k = d.handoutsOf k := by
  simp [handoutsOf, read, List.filter_append, ne.symm]

theorem readOnce_congr {d d' : Delivery} {n : ℕ} (same : d'.handoutsOf n = d.handoutsOf n)
    (p : U128 × Bytes) (client : U128) : d'.ReadOnce n p client ↔ d.ReadOnce n p client := by
  rw [ReadOnce, same, ReadOnce]

theorem reads_congr {d d' : Delivery} {n : ℕ} (same : d'.handoutsOf n = d.handoutsOf n)
    (p : U128 × Bytes) (holder : Option U128) : d'.Reads n p holder ↔ d.Reads n p holder := by
  cases holder with
  | none => rw [Reads, same, Reads]
  | some client => exact readOnce_congr same p client

theorem Faithful.lockToRead {d : Delivery} (h : d.Faithful) (clientId : U128) :
    (d.step (.lockToRead clientId)).Faithful := by
  have tracked := h.toTracked.step (.lockToRead clientId)
  rcases step_lockToRead d clientId with same | ⟨id, m, cursor, stored, free, next⟩
  · rwa [same]
  obtain ⟨n, slot, accepted, reads⟩ := h.recorded id m stored
  rw [next, slot] at tracked ⊢
  generalize sent : getMetaAsVec id (m.lock clientId) ++ m.payload = bytes at tracked ⊢
  rw [free] at reads
  have unread : d.handoutsOf n = [] := reads
  have others := fun k (ne : k ≠ n) =>
    handoutsOf_read_of_ne d (d.queue.delivered clientId id m) clientId ne bytes
  obtain ⟨done, wait, line⟩ := h.line
  constructor
  · exact tracked
  · rw [queue_read, Queue.locks_delivered]
    exact Locks.agree_grant h.agree ((Queue.holder_of_lookup stored).trans free)
  · cases wait with
    | nil =>
      rw [line.cursor] at cursor
      cases cursor
    | cons first rest =>
      obtain rfl : first = id := by simpa [line.cursor] using cursor
      obtain ⟨done', line'⟩ := line.delivered h.rooted clientId m
      exact ⟨done', rest, line'⟩
  · intro k m' entry
    rw [queue_read, Queue.lookup_delivered] at entry
    split_ifs at entry with same
    · obtain rfl := Option.some.inj entry
      refine ⟨n, same ▸ slot, accepted, id, m.timestamp, ?_⟩
      rw [handoutsOf_read_self, unread, ← sent]
      rfl
    · obtain ⟨n', slot', accepted', reads'⟩ := h.recorded k m' entry
      have ne : n' ≠ n := fun e => same (h.injective k id n (e ▸ slot') slot)
      exact ⟨n', slot', accepted', (reads_congr (others n' ne) _ _).2 reads'⟩
  · exact fun k mem => Finmap.mem_insert.2 (.inr (h.stored k mem))
  · intro k long
    have ne : k ≠ n := fun e => absurd (h.below id n slot) (e ▸ Nat.not_lt.2 long)
    exact (others k ne).trans (h.read k long)
  · intro k p accepted'
    rcases h.finished k p accepted' with waiting | ⟨c, read, acked⟩
    · exact .inl waiting
    · have ne : k ≠ n := by
        rintro rfl
        obtain ⟨id', now, read⟩ := read
        rw [unread] at read
        cases read
      exact .inr ⟨c, (readOnce_congr (others k ne) p c).2 read, acked⟩
  · exact h.succeeded
  · intro c
    have balance := h.balance c
    rw [queue_read, Queue.lockedIds_delivered, handouts_read, List.countP_append,
      List.countP_singleton, balance]
    by_cases mine : c = clientId
    · simp [mine]
      omega
    · simp [mine, Ne.symm mine]

theorem Faithful.acknowledge {d : Delivery} (h : d.Faithful) {clientId : U128}
    (permitted : d.Permitted (.acknowledge clientId)) :
    (d.step (.acknowledge clientId)).Faithful := by
  have tracked := h.toTracked.step (.acknowledge clientId)
  cases first : d.queue.lockedIds clientId with
  | nil =>
    have balance := h.balance clientId
    rw [first, List.length_nil] at balance
    exact absurd permitted (by rw [Permitted, balance]; exact lt_irrefl _)
  | cons id ids =>
    have held : d.queue.locks.holder id = some clientId :=
      h.agree.mem_iff.1 (by rw [Queue.ids_locks, first]; exact List.mem_cons_self)
    obtain ⟨m, stored, holder⟩ := Queue.holder_eq_some.1 held
    obtain ⟨n, slot, accepted, reads⟩ := h.recorded id m stored
    rw [step_acknowledge h.rooted first stored, slot] at tracked ⊢
    rw [holder] at reads
    obtain ⟨done, wait, line⟩ := h.line
    constructor
    · exact tracked
    · rw [Queue.locks_acked first]
      exact (Locks.agree_remove h.agree).2 (.inr held)
    · obtain ⟨done', line'⟩ := line.acked h.rooted first (by rw [held]; rfl)
        (HashMap.mem_of_lookup stored)
      exact ⟨done', wait, line'⟩
    · intro k m' entry
      rw [Queue.lookup_acked] at entry
      split_ifs at entry with same
      obtain ⟨n', slot', accepted', reads'⟩ := h.recorded k m' entry
      exact ⟨n', by rw [HashMap.lookup_erase_eq, if_neg same, slot'], accepted', reads'⟩
    · intro k mem
      obtain ⟨ne, mem⟩ := Finmap.mem_erase.1 mem
      exact Finmap.mem_erase.2 ⟨ne, h.stored k mem⟩
    · exact h.read
    · intro k p accepted'
      rcases h.finished k p accepted' with ⟨id', slot'⟩ | ⟨c, read, acked⟩
      · by_cases same : id' = id
        · rw [same, slot] at slot'
          obtain rfl := Option.some.inj slot'
          obtain rfl : p = (m.publisherId, m.payload) := by simpa [accepted] using accepted'.symm
          exact .inr ⟨clientId, reads, List.mem_append_right _ List.mem_cons_self⟩
        · exact .inl ⟨id', by rw [HashMap.lookup_erase_eq, if_neg same, slot']⟩
      · exact .inr ⟨c, read, List.mem_append_left _ acked⟩
    · intro a mem
      rcases List.mem_append.1 mem with old | new
      · exact h.succeeded a old
      · rw [List.mem_singleton.1 new]
        exact Option.some_ne_none n
    · intro c
      have balance := h.balance c
      rw [Queue.lockedIds_acked, List.countP_append, List.countP_singleton, balance]
      by_cases mine : c = clientId
      · simp [mine, first]
        omega
      · simp [mine, Ne.symm mine]

/-- In every run in which clients acknowledge what they were handed out, each accepted message is
delivered exactly once, in every state, if and only if all new ids are fresh. -/
theorem exactlyOnce_iff_freshIds (ops : List DeliveryOp)
    (permitted : Transition.EveryStep step Permitted new ops) :
    Transition.EveryState step ExactlyOnce new ops ↔ Transition.EveryStep step FreshId new ops := by
  constructor
  · intro once
    have tracked : Transition.EveryState step Tracked new ops :=
      Transition.invariant .new (fun _ op h => h.step op) ops
    exact once.everyStep tracked fun d op h => freshId_of_exactlyOnce h op
  · intro fresh
    refine ((permitted.and fresh).invariant Faithful.new ?_).mono fun d h => h.exactlyOnce
    rintro d (⟨payload, publisherId, now⟩ | clientId | clientId) h ⟨permitted, fresh⟩
    · exact h.enqueue payload publisherId now fresh
    · exact h.lockToRead clientId
    · exact h.acknowledge permitted

/-- Two messages, delivered and acknowledged by two clients. -/
theorem exactlyOnce_two_clients : Transition.EveryState step ExactlyOnce new
    [.enqueue [1] 7 0, .enqueue [2] 7 0, .lockToRead 1, .lockToRead 2, .acknowledge 1] :=
  (exactlyOnce_iff_freshIds _ (by decide)).2 (by decide)

/-- The second of two clients acknowledges first. The tombstone it leaves at the end of `order`
gives the next message the id of the first client's one, which is lost. -/
theorem late_ack_loses_message : ¬ ∀ ops, Transition.EveryStep step Permitted new ops →
    Transition.EveryState step ExactlyOnce new ops := by
  intro once
  have last := (once [.enqueue [1] 7 0, .enqueue [2] 7 0, .lockToRead 1, .lockToRead 2,
    .acknowledge 2, .enqueue [3] 7 0] (by decide)).last
  generalize run : Transition.run step new _ = d at last
  have unstored : ∀ e ∈ d.slot.entries, e.2 ≠ 0 := by
    rw [← run]
    decide
  have unacked : ∀ a ∈ d.acks, a.2 ≠ some 0 := by
    rw [← run]
    decide
  have lost : ∀ id, d.slot.lookup id ≠ some 0 := fun id entry =>
    unstored ⟨id, 0⟩ (Finmap.lookup_eq_some_iff.1 entry) rfl
  rcases last.fate 0 (7, [1]) (by rw [← run]; decide) with
    ⟨⟨id, m, slot, -⟩, -⟩ | ⟨c, ⟨id, m, slot, -⟩, -⟩ | ⟨c, -, acked⟩
  · exact lost id slot
  · exact lost id slot
  · exact unacked _ acked rfl

end Delivery

end DataBroker
