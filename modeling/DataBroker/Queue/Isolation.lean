import DataBroker.Queue.Ownership

/-!
# Other clients' messages

A new message gets the successor of the last entry of `order`. That entry may be a tombstone, so
the id may be the one of a message that is still stored, or one that some client still has on its
list. `Sound` is what remains true as long as the new ids are on no list: then a client's list
names nobody else's message. It is enough for a client's `unlock` and `dequeue` to touch only its
own messages (`actsOnOwn_of_takesUnlisted`) and, if the new ids are not stored either, for no
message to get lost (`kept_of_takesFresh`).
-/

namespace DataBroker

namespace Queue

/-- No client has `id` on its list. -/
def Unlisted (s : Queue) (id : U128) : Prop := ∀ e ∈ s.locked.entries, id ∉ e.2

instance (s : Queue) (id : U128) : Decidable (s.Unlisted id) :=
  inferInstanceAs (Decidable (∀ e ∈ s.locked.entries, _))

theorem unlisted_iff {s : Queue} {id : U128} : s.Unlisted id ↔ ∀ c, id ∉ s.lockedIds c :=
  forall_lists (P := fun _ l => id ∉ l) fun _ => List.not_mem_nil

/-- A new message does not get an id that is on some client's list. -/
def TakesUnlisted (s : Queue) : Op → Prop
  | .enqueue .. => s.Unlisted (newId s.order)
  | .requeue _ id _ => id ∈ s.queue → s.Unlisted (newId s.order)
  | _ => True

instance (s : Queue) : (op : Op) → Decidable (s.TakesUnlisted op)
  | .enqueue .. => inferInstanceAs (Decidable (Unlisted _ _))
  | .requeue .. => inferInstanceAs (Decidable (_ → _))
  | .lockToRead _ | .dequeue .. | .unlock .. | .updateMessage .. | .isLocked ..
  | .listMessages _ | .getNextBiggestPayload _ => .isTrue trivial

theorem sound_step {s : Queue} (h : s.Rooted) (sound : s.locks.Sound) {op : Op}
    (unlisted : s.TakesUnlisted op) : (s.step op).locks.Sound := by
  have effect := step_effect h op
  generalize s.step op = t at effect ⊢
  cases effect with
  | idle => exact sound
  | measured => exact sound
  | enqueued =>
    rw [locks_enqueued rfl]
    exact sound.put (unlisted_iff.1 unlisted)
  | delivered clientId id m cursor stored free =>
    rw [locks_delivered]
    exact sound.grant ((status_of_lookup stored).trans (congrArg some free))
  | removed =>
    rw [locks_removed]
    exact sound.remove
  | acked clientId id ids messageId unnamed first =>
    rw [locks_acked first]
    exact sound.remove
  | released clientId id messageId listed =>
    rw [locks_released]
    exact sound.release (mem_of_toRelease listed)
  | requeued clientId id now m stored =>
    rw [locks_requeued clientId id rfl]
    exact (sound.put (unlisted_iff.1 (unlisted (HashMap.mem_of_lookup stored)))).remove
  | updated id m payload stored =>
    rw [locks_updated payload stored]
    exact sound

theorem sound_new : new.locks.Sound := by
  rw [locks_new]
  exact ⟨fun c i listed => absurd listed List.not_mem_nil, fun c => List.nodup_nil⟩

theorem sound_of_takesUnlisted {ops : List Op}
    (unlisted : Transition.EveryStep step TakesUnlisted new ops) :
    Transition.EveryState step (fun s => s.locks.Sound) new ops := by
  have rooted : Rooted new := .new
  suffices Transition.EveryState step (fun s => s.Rooted ∧ s.locks.Sound) new ops from
    this.mono fun _ h => h.2
  exact unlisted.invariant ⟨rooted, sound_new⟩ fun s op h fresh =>
    ⟨h.1.step op, sound_step h.1 h.2 fresh⟩

/-- A listed id that is stored is locked by the client that lists it. -/
theorem lockedBy_of_listed {s : Queue} (sound : s.locks.Sound) {c id : U128} {m : QueueMessage}
    (listed : id ∈ s.lockedIds c) (stored : s.queue.lookup id = some m) : m.lockedBy = some c := by
  rcases sound.holder c id listed with none_stored | held
  · rw [status_of_lookup stored] at none_stored
    cases none_stored
  · simpa [status_of_lookup stored] using held

/-! ## Acknowledging and giving up -/

/-- What `unlock` and `dequeue` without an id do for the client `c`: the locks of the others stay,
and what is removed was locked by `c`. -/
structure ActsOnOwn (s : Queue) (c : U128) : Prop where
  unlock : ∀ messageId d, d ≠ c → ∀ m message, s.queue.lookup m = some message →
    message.lockedBy = some d →
      ∃ message', (s.step (.unlock c messageId)).queue.lookup m = some message' ∧
        message'.lockedBy = some d
  removes : ∀ m message, s.queue.lookup m = some message →
    m ∉ (s.step (.dequeue c none)).queue → message.lockedBy = some c
  returned : ∀ n, ((dequeue c none).run s).1 = .ok n →
    ∃ m message, s.queue.lookup m = some message ∧ message.lockedBy = some c ∧
      message.payload.length = n ∧ (s.step (.dequeue c none)).queue = s.queue.erase m

theorem unlock_keeps_others {s : Queue} (h : s.Rooted) (sound : s.locks.Sound) {c d m : U128}
    (messageId : Option U128) (other : d ≠ c) {message : QueueMessage}
    (stored : s.queue.lookup m = some message) (held : message.lockedBy = some d) :
    (s.step (.unlock c messageId)).queue.lookup m = some message := by
  have effect := step_effect h (.unlock c messageId)
  generalize s.step (.unlock c messageId) = t at effect ⊢
  cases effect with
  | idle => exact stored
  | released clientId id messageId listed =>
    have ne : m ≠ id := by
      rintro rfl
      have mine := lockedBy_of_listed sound (mem_of_toRelease listed) stored
      exact other (Option.some.inj (held.symm.trans mine))
    rw [lookup_released, if_neg ne]
    exact stored

theorem dequeue_removes_own {s : Queue} (h : s.Rooted) (sound : s.locks.Sound) {c m : U128}
    {message : QueueMessage} (stored : s.queue.lookup m = some message)
    (gone : m ∉ (s.step (.dequeue c none)).queue) : message.lockedBy = some c := by
  have effect := step_effect h (.dequeue c none)
  generalize s.step (.dequeue c none) = t at effect gone
  cases effect with
  | idle => exact absurd (HashMap.mem_of_lookup stored) gone
  | acked clientId id ids messageId unnamed first =>
    obtain rfl : m = id := by
      by_contra ne
      rw [← Finmap.lookup_eq_none, lookup_acked, if_neg ne, stored] at gone
      cases gone
    exact lockedBy_of_listed sound (by simp [first]) stored

theorem dequeue_returned {s : Queue} (sound : s.locks.Sound) {c : U128} {n : ℕ}
    (returned : ((dequeue c none).run s).1 = .ok n) :
    ∃ m message, s.queue.lookup m = some message ∧ message.lockedBy = some c ∧
      message.payload.length = n ∧ (s.step (.dequeue c none)).queue = s.queue.erase m := by
  by_cases empty : s.order = []
  · rw [dequeue_empty c none empty] at returned
    cases returned
  unfold step
  rw [Op.call, Method.run_discard_snd]
  rw [run_dequeue_locked c empty] at returned ⊢
  cases mine : s.lockedIds c with
  | nil =>
    obtain ⟨e, he⟩ := dequeueLocked_err mine
    rw [he] at returned
    cases returned
  | cons id ids =>
    rw [run_dequeueLocked (lookup_locked mine)] at returned ⊢
    cases stored : s.queue.lookup id with
    | none =>
      rw [stored] at returned
      cases returned
    | some message =>
      rw [stored] at returned
      refine ⟨id, message, stored, lockedBy_of_listed sound (by simp [mine]) stored, ?_, rfl⟩
      simpa using returned

/-- As long as no new message gets an id that is on some client's list, acknowledging and giving
up touch only the caller's own messages. -/
theorem actsOnOwn_of_takesUnlisted (ops : List Op)
    (unlisted : Transition.EveryStep step TakesUnlisted new ops) :
    Transition.EveryState step (fun s => ∀ c, s.ActsOnOwn c) new ops := by
  refine ((rooted_run ops).and (sound_of_takesUnlisted unlisted)).mono fun s ⟨rooted, sound⟩ c => ?_
  constructor
  · intro messageId d other m message stored held
    exact ⟨message, unlock_keeps_others rooted sound messageId other stored held, held⟩
  · intro m message stored gone
    exact dequeue_removes_own rooted sound stored gone
  · intro n returned
    exact dequeue_returned sound returned

/-- A new id that no list has although an old message with a smaller id is removed. -/
theorem actsOnOwn_after_removal :
    Transition.EveryState step (fun s => ∀ c, s.ActsOnOwn c) new
      [.enqueue [1] 7 0, .enqueue [2] 7 0, .lockToRead 1, .dequeue 2 (some 1), .enqueue [3] 7 0] :=
  actsOnOwn_of_takesUnlisted _ (by decide)

/-- A second client removes the message that the first one holds. The next message gets the same
id, and the first client's acknowledgement removes it although nobody has locked it. -/
theorem ack_removes_unlocked :
    ¬ ∀ ops, Transition.EveryState step (fun s => ∀ c, s.ActsOnOwn c) new ops := by
  intro own
  have acts := (own [.enqueue [] 7 0, .lockToRead 1, .dequeue 2 (some 1), .enqueue [] 7 0]).last 1
  have held := acts.removes 1 (QueueMessage.new [] 7 0) (by decide) (by decide)
  exact absurd held (by decide)

/-! ## Nothing gets lost -/

/-- A new message gets an id that is neither stored nor on a list, and an id given to `dequeue` is
stored, unless the caller has no stored message to acknowledge. -/
def TakesFresh (s : Queue) : Op → Prop
  | .enqueue .. => newId s.order ∉ s.queue ∧ s.Unlisted (newId s.order)
  | .requeue _ id _ => id ∈ s.queue → newId s.order ∉ s.queue ∧ s.Unlisted (newId s.order)
  | .dequeue clientId (some id) =>
    id ∈ s.queue ∨ (s.lockedIds clientId).head?.elim True (· ∉ s.queue)
  | _ => True

instance (s : Queue) : (op : Op) → Decidable (s.TakesFresh op)
  | .enqueue .. => inferInstanceAs (Decidable (_ ∧ _))
  | .requeue .. => inferInstanceAs (Decidable (_ → _))
  | .dequeue _ (some _) => inferInstanceAs (Decidable (_ ∨ _))
  | .lockToRead _ | .dequeue _ none | .unlock .. | .updateMessage .. | .isLocked ..
  | .listMessages _ | .getNextBiggestPayload _ => .isTrue trivial

theorem TakesFresh.takesUnlisted {s : Queue} {op : Op} (h : s.TakesFresh op) :
    s.TakesUnlisted op := by
  cases op with
  | enqueue => exact h.2
  | requeue => exact fun stored => (h stored).2
  | _ => trivial

/-- What a call leaves of the stored messages. -/
structure Kept (s : Queue) (op : Op) : Prop where
  enqueued : ∀ payload publisherId now, op = .enqueue payload publisherId now →
    ∃ id, id ∉ s.queue ∧
      (s.step op).queue.lookup id = some (QueueMessage.new payload publisherId now) ∧
      ∀ k, k ≠ id → (s.step op).queue.lookup k = s.queue.lookup k
  requeued : ∀ clientId id now, op = .requeue clientId id now →
    ∀ k ∈ s.queue, k ≠ id → (s.step op).queue.lookup k = s.queue.lookup k
  gone : ∀ k message, s.queue.lookup k = some message → k ∉ (s.step op).queue →
    (∃ clientId, op = .dequeue clientId (some k)) ∨ (∃ clientId now, op = .requeue clientId k now) ∨
      ∃ clientId, op = .dequeue clientId none ∧ message.lockedBy = some clientId

theorem mem_of_lookup_eq {s t : Queue} {k : U128} (same : t.queue.lookup k = s.queue.lookup k)
    (mem : k ∈ s.queue) : k ∈ t.queue := by
  rw [← Finmap.lookup_isSome, same]
  exact Finmap.lookup_isSome.2 mem

theorem requeue_keeps_others {s : Queue} (h : s.Rooted) {clientId id k : U128} {now : U64}
    (fresh : id ∈ s.queue → newId s.order ∉ s.queue) (mem : k ∈ s.queue) (ne : k ≠ id) :
    (s.step (.requeue clientId id now)).queue.lookup k = s.queue.lookup k := by
  have effect := step_effect h (.requeue clientId id now)
  generalize s.step (.requeue clientId id now) = t at effect ⊢
  cases effect with
  | idle => rfl
  | requeued clientId id now m stored =>
    have other : k ≠ newId s.order := fun e => fresh (HashMap.mem_of_lookup stored) (e ▸ mem)
    rw [lookup_requeued, if_neg ne, if_neg other]

/-- Messages go by being named, or by the acknowledgement of the client that holds them. -/
theorem gone_of_takesFresh {s : Queue} (h : s.Rooted) (sound : s.locks.Sound) {op : Op}
    (fresh : s.TakesFresh op) {k : U128} {message : QueueMessage}
    (stored : s.queue.lookup k = some message) (gone : k ∉ (s.step op).queue) :
    (∃ clientId, op = .dequeue clientId (some k)) ∨ (∃ clientId now, op = .requeue clientId k now) ∨
      ∃ clientId, op = .dequeue clientId none ∧ message.lockedBy = some clientId := by
  have mem := HashMap.mem_of_lookup stored
  have effect := step_effect h op
  generalize s.step op = t at effect gone
  cases effect with
  | idle => exact absurd mem gone
  | measured => exact absurd mem gone
  | enqueued => exact absurd (mem_enqueued _ mem) gone
  | delivered clientId id m => exact absurd (Finmap.mem_insert.2 (.inr mem)) gone
  | removed clientId id =>
    refine .inl ⟨clientId, ?_⟩
    by_contra other
    have ne : k ≠ id := fun e => other (by rw [e])
    exact gone (mem_of_lookup_eq (by rw [lookup_removed, if_neg ne]) mem)
  | acked clientId id ids messageId unnamed first =>
    obtain rfl : k = id := by
      by_contra ne
      exact gone (mem_of_lookup_eq (by rw [lookup_acked, if_neg ne]) mem)
    cases messageId with
    | none => exact .inr (.inr ⟨clientId, rfl, lockedBy_of_listed sound (by simp [first]) stored⟩)
    | some m =>
      rcases fresh with named | idle
      · exact absurd named (unnamed m rfl)
      · rw [first] at idle
        exact absurd mem idle
  | released clientId id =>
    refine absurd ?_ gone
    rw [← Finmap.lookup_isSome, lookup_released]
    split_ifs <;> simp [stored]
  | requeued clientId id now m =>
    refine .inr (.inl ⟨clientId, now, ?_⟩)
    by_contra other
    have ne : k ≠ id := fun e => other (by rw [e])
    exact gone (Finmap.mem_erase.2 ⟨ne, mem_enqueued _ mem⟩)
  | updated => exact absurd (Finmap.mem_insert.2 (.inr mem)) gone

theorem kept_step {s : Queue} (h : s.Rooted) (sound : s.locks.Sound) {op : Op}
    (fresh : s.TakesFresh op) : s.Kept op where
  enqueued payload publisherId now e := by
    subst e
    refine ⟨newId s.order, fresh.1, ?_, fun k ne => ?_⟩ <;> rw [step_enqueue, lookup_enqueued]
    · exact if_pos rfl
    · exact if_neg ne
  requeued clientId id now e k mem ne := by
    subst e
    exact requeue_keeps_others h (fun stored => (fresh stored).1) mem ne
  gone k message stored absent := gone_of_takesFresh h sound fresh stored absent

/-- As long as new messages get fresh ids, no call loses or alters another message. -/
theorem kept_of_takesFresh (ops : List Op) (fresh : Transition.EveryStep step TakesFresh new ops) :
    Transition.EveryStep step Kept new ops :=
  have sound := sound_of_takesUnlisted (fresh.mono fun _ _ h => h.takesUnlisted)
  fresh.mono_of ((rooted_run ops).and sound) fun _ _ h fresh => kept_step h.1 h.2 fresh

/-- A run with a removal, a lock, an acknowledgement and fresh ids all along. -/
theorem kept_after_removal : Transition.EveryStep step Kept new
    [.enqueue [1] 7 0, .enqueue [2] 7 0, .lockToRead 1, .dequeue 2 (some 1), .enqueue [3] 7 0] :=
  kept_of_takesFresh _ (by decide)

/-- The last message of two is removed. The tombstone at the end of `order` makes the next message
get the id of the first one, which is lost. -/
theorem enqueue_overwrites : ¬ ∀ ops, Transition.EveryStep step Kept new ops := by
  intro kept
  obtain ⟨-, -, -, last, -⟩ := kept
    [.enqueue [1] 7 0, .enqueue [2] 7 0, .dequeue 9 (some 2), .enqueue [3] 7 0]
  obtain ⟨id, fresh, -, others⟩ := last.enqueued [3] 7 0 rfl
  have ne : (1 : U128) ≠ id := fun e => absurd fresh (by rw [← e]; decide)
  exact absurd (others 1 ne) (by decide)

end Queue

end DataBroker
