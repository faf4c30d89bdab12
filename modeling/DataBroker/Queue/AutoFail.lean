import DataBroker.Queue.Isolation

/-!
# Auto-fail timers

On a queue with `auto_fail` a `Dequeue` that delivered a message sleeps for the timeout and then
releases the lock, if its client still has the message on its list. By then the client may have
locked the message anew, or the id may be that of another message. Each lock is given the number of
its delivery here, so that a timer can be told from the one that the lock is waiting for;
`timersOwn_of_spares` says in which runs no timer touches anything but its own lock.

The steps are whole requests: locking a message, writing it and arming its timer are one step, with
no other call in between. `Queue.Expiry` has them one by one.
-/

namespace DataBroker

/-- A pending timer: the client and the message that it was armed for, and the number of the
delivery, which the code does not keep. -/
structure Timer where
  clientId : U128
  messageId : U128
  delivery : ℕ
deriving DecidableEq, Repr

/-- A queue with its pending timers, the number of the last delivery of each message, and how many
deliveries there were. -/
structure AutoFail extends Queue where
  timers : List Timer
  deliveryOf : U128 → ℕ
  deliveries : ℕ

namespace AutoFail

open Queue

/-- A request that acts on the queue, or the end of a sleep. -/
inductive Event where
  | enqueue (payload : Bytes) (publisherId : U128) (now : U64)
  | dequeue (clientId : U128) (written : Bool)
  | succeeded (clientId : U128)
  | failed (clientId : U128)
  | deleteM (clientId messageId : U128)
  | requeue (clientId messageId : U128) (now : U64)
  | expire (timer : ℕ)

/-- A new queue with its configuration. -/
def new (config : QueueConfig) : AutoFail where
  toQueue := { Queue.new with config := config }
  timers := []
  deliveryOf := fun _ => 0
  deliveries := 0

/-- What `lock_and_dequeue_message` does with the queue before it sleeps. Where the message cannot
be written to the socket, it returns and arms no timer. -/
def deliver (s : AutoFail) (clientId : U128) (written : Bool) : AutoFail :=
  match (lockToRead clientId).run s.toQueue with
  | (.ok (_, some id), q) =>
    let armed := written && q.config.autoFail && q.config.failTimeout != 0
    { toQueue := q
      timers := if armed then s.timers ++ [⟨clientId, id, s.deliveries⟩] else s.timers
      deliveryOf := Function.update s.deliveryOf id s.deliveries
      deliveries := s.deliveries + 1 }
  | (_, q) => { s with toQueue := q }

/-- What it does after the sleep. -/
def autoUnlock (clientId messageId : U128) : QueueM Unit := do
  if ← isLocked clientId messageId then unlock clientId (some messageId)

def step (s : AutoFail) : Event → AutoFail
  | .enqueue payload publisherId now =>
    { s with toQueue := s.toQueue.step (.enqueue payload publisherId now) }
  | .dequeue clientId written => s.deliver clientId written
  | .succeeded clientId => { s with toQueue := s.toQueue.step (.dequeue clientId none) }
  | .failed clientId => { s with toQueue := s.toQueue.step (.unlock clientId none) }
  | .deleteM clientId messageId =>
    { s with toQueue := s.toQueue.step (.dequeue clientId (some messageId)) }
  | .requeue clientId messageId now =>
    { s with toQueue := s.toQueue.step (.requeue clientId messageId now) }
  | .expire i =>
    match s.timers[i]? with
    | some timer =>
      { s with
        toQueue := ((autoUnlock timer.clientId timer.messageId).run s.toQueue).2
        timers := s.timers.eraseIdx i }
    | none => s

/-- The lock that the timer was armed for is still held. -/
def HoldsOwn (s : AutoFail) (timer : Timer) : Prop :=
  s.locks.holder timer.messageId = some timer.clientId ∧
    s.deliveryOf timer.messageId = timer.delivery

/-- Whichever timer expires next finds its own lock and releases it, or changes nothing. -/
def TimersOwn (s : AutoFail) : Prop :=
  ∀ timer ∈ s.timers,
    let after := ((autoUnlock timer.clientId timer.messageId).run s.toQueue).2
    s.HoldsOwn timer ∧ after.locks = s.locks.release timer.clientId timer.messageId ∨
      after = s.toQueue

/-- The entries of clients with a pending timer for `id` are left alone, apart from a single one of
the client `c`. -/
def Spares (s : AutoFail) (c id : U128) : Prop :=
  ∀ timer ∈ s.timers, timer.messageId = id → id ∈ s.lockedIds timer.clientId →
    timer.clientId = c ∧ (s.lockedIds c).count id = 1

/-- A new message does not get an id that a client with a pending timer for it has on its list. -/
def SparesNew (s : AutoFail) : Prop :=
  ∀ timer ∈ s.timers, timer.messageId = newId s.order → newId s.order ∉ s.lockedIds timer.clientId

/-- What has to be seen to for the timers to find their own locks.
* A client does not get a message while a timer of it for the same id is pending.
* No request takes a message away that another client has on its list and a pending timer for, and
no new message gets its id. -/
def SparesTimers (s : AutoFail) : Event → Prop
  | .enqueue .. => s.SparesNew
  | .dequeue clientId _ => ∀ id ∈ s.nextId, s.locks.status id = some none →
      ∀ timer ∈ s.timers, timer.messageId = id → timer.clientId ≠ clientId
  | .succeeded clientId => ∀ id ∈ s.toRemove clientId none, s.Spares clientId id
  | .failed clientId => ∀ id ∈ s.toRelease clientId none, s.Spares clientId id
  | .deleteM clientId messageId =>
    ∀ id ∈ s.toRemove clientId (some messageId), s.Spares clientId id
  | .requeue clientId messageId _ => messageId ∈ s.queue →
      s.Spares clientId messageId ∧ (newId s.order = messageId ∨ s.SparesNew)
  | .expire _ => True

instance (s : AutoFail) (c id : U128) : Decidable (s.Spares c id) :=
  inferInstanceAs (Decidable (∀ timer ∈ s.timers, _))

instance (s : AutoFail) : Decidable s.SparesNew :=
  inferInstanceAs (Decidable (∀ timer ∈ s.timers, _))

instance (s : AutoFail) : (e : Event) → Decidable (s.SparesTimers e)
  | .enqueue .. => inferInstanceAs (Decidable s.SparesNew)
  | .dequeue .. => Option.decidableForallMem _
  | .succeeded clientId => Option.decidableForallMem (s.toRemove clientId none)
  | .failed clientId => Option.decidableForallMem (s.toRelease clientId none)
  | .deleteM clientId messageId => Option.decidableForallMem (s.toRemove clientId (some messageId))
  | .requeue .. => inferInstanceAs (Decidable (_ → _ ∧ _))
  | .expire _ => .isTrue trivial

/-- The timers are told apart by their deliveries, and a listed id with a pending timer is locked by
the delivery of the timer. -/
structure Own (s : AutoFail) : Prop where
  rooted : s.Rooted
  once : (s.timers.map Timer.delivery).Nodup
  past : ∀ timer ∈ s.timers, timer.delivery < s.deliveries
  own : ∀ timer ∈ s.timers, timer.messageId ∈ s.lockedIds timer.clientId → s.HoldsOwn timer

namespace Own

variable {s t : AutoFail} {c id : U128} {timer : Timer}

theorem new (config : QueueConfig) : (new config).Own where
  rooted := ⟨fun _ mem => absurd mem Finmap.notMem_empty, Finmap.notMem_empty⟩
  once := List.nodup_nil
  past _ mem := by cases mem
  own _ mem := by cases mem

/-- An update of the queue beside the timers. -/
theorem request {q : Queue} (h : s.Own) (rooted : q.Rooted)
    (own : ∀ timer ∈ s.timers, timer.messageId ∈ q.lockedIds timer.clientId →
      timer.messageId ∈ s.lockedIds timer.clientId ∧
        q.locks.holder timer.messageId = s.locks.holder timer.messageId) :
    Own { s with toQueue := q } where
  rooted := rooted
  once := h.once
  past := h.past
  own timer mem listed := by
    obtain ⟨before, same⟩ := own timer mem listed
    exact ⟨same.trans (h.own timer mem before).1, (h.own timer mem before).2⟩

/-- Taking `id` away, and with it one entry of the client. -/
theorem take {q : Queue} (h : s.Own) (rooted : q.Rooted) (spares : s.Spares c id)
    (holder : ∀ k, q.locks.holder k = if k = id then none else s.locks.holder k)
    (ids : ∀ d, q.lockedIds d = if d = c then (s.lockedIds d).erase id else s.lockedIds d) :
    Own { s with toQueue := q } := by
  apply h.request rooted
  intro timer mem listed
  rw [ids] at listed
  have before : timer.messageId ∈ s.lockedIds timer.clientId := by
    split_ifs at listed
    · exact List.mem_of_mem_erase listed
    · exact listed
  have other : timer.messageId ≠ id := by
    rintro rfl
    obtain ⟨client, once⟩ := spares timer mem rfl before
    rw [if_pos client, ← List.count_pos_iff, List.count_erase_self, client, once] at listed
    exact absurd listed (by decide)
  exact ⟨before, by rw [holder, if_neg other]⟩

theorem removed (h : s.Own) (spares : s.Spares c id) :
    Own { s with toQueue := s.toQueue.removed c id } :=
  h.take (h.rooted.removed c id) spares (fun k => by rw [locks_removed, Locks.holder_remove])
    (lockedIds_removed _ c id)

theorem acked (h : s.Own) {ids : List U128} (first : s.lockedIds c = id :: ids)
    (spares : s.Spares c id) : Own { s with toQueue := s.toQueue.acked c id ids } :=
  h.take (h.rooted.acked c id ids) spares
    (fun k => by rw [locks_acked first, Locks.holder_remove])
    fun d => congrFun (congrArg Locks.ids (locks_acked first)) d

theorem released (h : s.Own) (spares : s.Spares c id) :
    Own { s with toQueue := s.toQueue.released c id } :=
  h.take (h.rooted.released c id) spares (fun k => by rw [locks_released, Locks.holder_release])
    (lockedIds_released _ c id)

theorem enqueued (h : s.Own) (spares : s.SparesNew) {m : QueueMessage} (unlocked : m.lockedBy = none) :
    Own { s with toQueue := s.toQueue.enqueued m } :=
  h.request (h.rooted.enqueued m) fun timer mem listed => by
    refine ⟨listed, ?_⟩
    rw [locks_enqueued unlocked, Locks.holder_put]
    exact if_neg fun new => spares timer mem new (new ▸ listed)

/-- A copy stored at the end, and the message removed; the copy may get the message's own id. -/
theorem requeued (h : s.Own) (spares : s.Spares c id)
    (new : newId s.order = id ∨ s.SparesNew) {m : QueueMessage} (unlocked : m.lockedBy = none) :
    Own { s with toQueue := s.toQueue.requeued c id m } := by
  rcases new with same | sparesNew
  · refine h.take ((h.rooted.enqueued m).removed c id) spares (fun k => ?_)
      (lockedIds_requeued _ c id m)
    rw [locks_requeued c id unlocked, Locks.holder_remove, Locks.holder_put, same]
    split_ifs <;> rfl
  · exact (h.enqueued sparesNew unlocked).removed spares

/-- A message handed out to a client that has no timer pending for its id. -/
theorem deliver (h : s.Own) (written : Bool) (spares : ∀ id ∈ s.nextId,
    s.locks.status id = some none → ∀ timer ∈ s.timers, timer.messageId = id → timer.clientId ≠ c) :
    (s.deliver c written).Own := by
  unfold AutoFail.deliver
  rcases lockToRead_cases s.toQueue c with ⟨⟨e, refused⟩, -⟩ | ⟨id, m, nonempty, cursor, stored, free⟩
  · rw [refused]
    exact h
  rw [run_lockToRead c nonempty cursor stored free]
  dsimp only
  have unlocked : s.locks.status id = some none := (status_of_lookup stored).trans (by rw [free])
  have others : ∀ timer ∈ s.timers, timer.messageId ∈ (s.toQueue.delivered c id m).lockedIds
      timer.clientId → timer.messageId ≠ id ∧ timer.messageId ∈ s.lockedIds timer.clientId := by
    intro timer mem listed
    rw [lockedIds_delivered] at listed
    by_cases same : timer.messageId = id
    · -- a listed id with a pending timer is locked
      have other := spares id cursor unlocked timer mem same
      rw [if_neg other] at listed
      have held := (h.own timer mem listed).1
      rw [same, holder_of_lookup stored, free] at held
      cases held
    · refine ⟨same, ?_⟩
      split_ifs at listed
      · exact (List.mem_append.1 listed).resolve_right (by simpa using same)
      · exact listed
  have own : ∀ timer ∈ s.timers, timer.messageId ∈ (s.toQueue.delivered c id m).lockedIds
      timer.clientId → (s.toQueue.delivered c id m).locks.holder timer.messageId =
        some timer.clientId ∧
      Function.update s.deliveryOf id s.deliveries timer.messageId = timer.delivery := by
    intro timer mem listed
    obtain ⟨ne, before⟩ := others timer mem listed
    rw [locks_delivered, Locks.holder_grant, if_neg ne, Function.update_of_ne ne]
    exact h.own timer mem before
  have past : ∀ timer ∈ s.timers, timer.delivery < s.deliveries + 1 := fun timer mem =>
    (h.past timer mem).trans (Nat.lt_succ_self _)
  split_ifs
  · refine ⟨h.rooted.delivered c stored, ?_, ?_, ?_⟩
    · rw [List.map_append]
      refine List.nodup_append.2 ⟨h.once, List.nodup_singleton _, ?_⟩
      rintro a mem b last rfl
      obtain ⟨timer, there, rfl⟩ := List.mem_map.1 mem
      exact absurd (h.past timer there) (by rw [List.mem_singleton.1 last]; exact lt_irrefl _)
    · intro timer mem
      rcases List.mem_append.1 mem with mem | mem
      · exact past timer mem
      · rw [List.mem_singleton.1 mem]
        exact Nat.lt_succ_self _
    · intro timer mem listed
      rcases List.mem_append.1 mem with mem | mem
      · exact own timer mem listed
      · rw [List.mem_singleton.1 mem]
        refine ⟨?_, Function.update_self _ _ _⟩
        show (s.toQueue.delivered c id m).locks.holder id = some c
        rw [locks_delivered, Locks.holder_grant, if_pos rfl]
  · exact ⟨h.rooted.delivered c stored, h.once, past, own⟩

theorem run_autoUnlock (q : Queue) (c id : U128) : ((autoUnlock c id).run q).2 =
    if id ∈ q.lockedIds c ∧ q.order ≠ [] then q.released c id else q := by
  unfold autoUnlock
  rw [Method.run_bind_ok (run_isLocked q c id)]
  by_cases listed : id ∈ q.lockedIds c
  · rw [if_pos (by simpa using listed)]
    by_cases empty : q.order = []
    · rw [unlock_empty c (some id) empty, if_neg fun h => h.2 empty]
    · have found : q.toRelease c (some id) = some id := if_pos listed
      rw [run_unlock empty found, if_pos ⟨listed, empty⟩]
  · rw [if_neg (by simpa using listed), if_neg fun h => listed h.1]
    rfl

theorem expire (h : s.Own) (i : ℕ) : (s.step (.expire i)).Own := by
  unfold AutoFail.step
  dsimp only
  cases pending : s.timers[i]? with
  | none => exact h
  | some timer =>
    dsimp only
    obtain ⟨inside, here⟩ := List.getElem?_eq_some_iff.1 pending
    have split : s.timers = s.timers.take i ++ timer :: s.timers.drop (i + 1) := by
      rw [← here, List.getElem_cons_drop, List.take_append_drop]
    have once : ((s.timers.take i ++ timer :: s.timers.drop (i + 1)).map Timer.delivery).Nodup :=
      split ▸ h.once
    have left : ∀ other ∈ s.timers.eraseIdx i,
        other ∈ s.timers ∧ other.delivery ≠ timer.delivery := by
      intro other mem
      rw [List.eraseIdx_eq_take_drop_succ] at mem
      refine ⟨?_, fun same => ?_⟩
      · rw [split]
        exact (List.mem_append.1 mem).elim (List.mem_append_left _) fun mem =>
          List.mem_append_right _ (List.mem_cons_of_mem _ mem)
      · rw [List.map_append, List.map_cons, List.nodup_middle, ← List.map_append] at once
        exact (List.nodup_cons.1 once).1 (same ▸ List.mem_map_of_mem mem)
    have rest : Own { s with timers := s.timers.eraseIdx i } :=
      ⟨h.rooted, h.once.sublist ((List.eraseIdx_sublist _ _).map _),
        fun other mem => h.past other (left other mem).1,
        fun other mem listed => h.own other (left other mem).1 listed⟩
    rw [run_autoUnlock]
    split_ifs with listed
    · have own := h.own timer (split ▸ List.mem_append_right _ List.mem_cons_self) listed.1
      apply rest.released
      intro other mem same listed'
      -- two timers cannot both have armed the lock that is held
      obtain ⟨there, different⟩ := left other mem
      have own' := h.own other there (same ▸ listed')
      exact absurd (own'.2.symm.trans (same ▸ own.2)) different
    · exact rest

theorem step (h : s.Own) {e : Event} (spares : s.SparesTimers e) : (s.step e).Own := by
  cases e with
  | enqueue payload publisherId now =>
    unfold AutoFail.step
    dsimp only
    rw [step_enqueue]
    exact h.enqueued spares rfl
  | dequeue clientId written => exact h.deliver written spares
  | succeeded clientId =>
    have effect := step_effect h.rooted (.dequeue clientId none)
    unfold AutoFail.step
    dsimp only
    generalize s.toQueue.step (.dequeue clientId none) = q at effect ⊢
    cases effect with
    | idle => exact h
    | acked clientId id ids messageId unnamed first =>
      exact h.acked first (spares id (by rw [toRemove, first]; rfl))
  | failed clientId =>
    have effect := step_effect h.rooted (.unlock clientId none)
    unfold AutoFail.step
    dsimp only
    generalize s.toQueue.step (.unlock clientId none) = q at effect ⊢
    cases effect with
    | idle => exact h
    | released clientId id messageId listed => exact h.released (spares _ listed)
  | deleteM clientId messageId =>
    have effect := step_effect h.rooted (.dequeue clientId (some messageId))
    unfold AutoFail.step
    dsimp only
    generalize s.toQueue.step (.dequeue clientId (some messageId)) = q at effect ⊢
    cases effect with
    | idle => exact h
    | removed clientId id m stored =>
      exact h.removed (spares _ (if_pos (HashMap.mem_of_lookup stored)))
    | acked clientId id ids messageId unnamed first =>
      refine h.acked first (spares id ?_)
      rw [toRemove_unnamed clientId unnamed, first]
      rfl
  | requeue clientId messageId now =>
    have effect := step_effect h.rooted (.requeue clientId messageId now)
    unfold AutoFail.step
    dsimp only
    generalize s.toQueue.step (.requeue clientId messageId now) = q at effect ⊢
    cases effect with
    | idle => exact h
    | requeued clientId id now m stored =>
      obtain ⟨spares, new⟩ := spares (HashMap.mem_of_lookup stored)
      exact h.requeued spares new rfl
  | expire i => exact h.expire i

theorem timersOwn (h : s.Own) : s.TimersOwn := by
  intro timer mem
  show s.HoldsOwn timer ∧ ((autoUnlock timer.clientId timer.messageId).run s.toQueue).2.locks = _ ∨
    ((autoUnlock timer.clientId timer.messageId).run s.toQueue).2 = s.toQueue
  rw [run_autoUnlock]
  split_ifs with listed
  · exact .inl ⟨h.own timer mem listed.1, locks_released _ _ _⟩
  · exact .inr rfl

end Own

/-- As long as no client gets a message while a timer of its own for the same id is pending, and
locks with a pending timer are taken away by their own clients only, a timer releases the lock that
it was armed for, or changes nothing. -/
theorem timersOwn_of_spares (config : QueueConfig) (events : List Event)
    (spares : Transition.EveryStep step SparesTimers (new config) events) :
    Transition.EveryState step TimersOwn (new config) events :=
  (spares.invariant (Own.new config) fun _ _ (h : Own _) spares => h.step spares).mono
    fun _ h => h.timersOwn

/-- Auto-fail after a second. -/
def autoFailConfig : QueueConfig := ⟨true, 1000⟩

/-- A message is given up, taken by another client, and the first timer finds nothing to do. -/
theorem timersOwn_after_nack : Transition.EveryState step TimersOwn (new autoFailConfig)
    [.enqueue [1] 7 0, .dequeue 1 true, .failed 1, .dequeue 2 true, .expire 0, .expire 0] :=
  timersOwn_of_spares _ _ (by decide)

/-- A client gives a message up and gets it again: the first timer ends the second delivery. -/
theorem timer_releases_later_lock :
    ¬ ∀ (config : QueueConfig) (events : List Event), config.autoFail = true →
      config.failTimeout ≠ 0 → Transition.EveryState step TimersOwn (new config) events := by
  intro own
  have last := (own autoFailConfig [.enqueue [1] 7 0, .dequeue 1 true, .failed 1, .dequeue 1 true]
    rfl (by decide)).last
  rcases last ⟨1, 1, 0⟩ (by decide) with ⟨⟨-, delivery⟩, -⟩ | unchanged
  · exact absurd delivery (by decide)
  · exact absurd (congrArg (fun q : Queue => q.lockedIds 1) unchanged) (by decide)

end AutoFail

end DataBroker
