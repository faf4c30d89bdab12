import DataBroker.Queue.AutoFail
import DataBroker.Queue.Unconfigured

/-!
# Locks expire

`lock_and_dequeue_message` locks a message, writes it to its client, takes the mutex again to look at
the configuration, and sleeps. Other calls come in between. Where `auto_fail` is on whenever it looks
and every message is written, a locked message always has a task on its way that will unlock it, so
that none is locked when there is no such task, whatever the clients did.

`Expiring.exists_run` connects these steps with `AutoFail`, where a `Dequeue` is one step.
-/

namespace DataBroker

/-- Where a task is in `lock_and_dequeue_message` with a message that it has locked. -/
inductive Stopover where
  | writing
  | written
  | sleeping
deriving DecidableEq, Repr

/-- A task that has locked a message for its client and has not returned. -/
structure Dequeuer where
  clientId : U128
  messageId : U128
  stopover : Stopover
deriving DecidableEq, Repr

/-- A queue with the tasks that have locked a message of it. -/
structure Expiring extends Queue where
  dequeuers : List Dequeuer

namespace Expiring

open Queue

/-- A call for another request, a new configuration, or the next step of a task in
`lock_and_dequeue_message`. -/
inductive Event where
  | call (op : Op) (other : ∀ clientId, op ≠ .lockToRead clientId)
  | configure (config : QueueConfig)
  | lockToRead (clientId : U128)
  | write (i : ℕ) (written : Bool)
  | look (i : ℕ)
  | expire (i : ℕ)

/-- A new queue with its configuration. -/
def new (config : QueueConfig) : Expiring where
  toQueue := Queue.new.configure config
  dequeuers := []

/-- The task `i`, if it is where `here` says, goes on or returns. -/
def goesOn (s : Expiring) (i : ℕ) (here : Stopover) (next : Option Stopover) : List Dequeuer :=
  match s.dequeuers[i]? with
  | some d =>
    if d.stopover = here then
      match next with
      | some stopover => s.dequeuers.set i { d with stopover := stopover }
      | none => s.dequeuers.eraseIdx i
    else s.dequeuers
  | none => s.dequeuers

def step (s : Expiring) : Event → Expiring
  | .call op _ => { s with toQueue := s.toQueue.step op }
  | .configure config => { s with toQueue := s.toQueue.configure config }
  | .lockToRead clientId =>
    match (Queue.lockToRead clientId).run s.toQueue with
    | (.ok (_, some id), q) => ⟨q, s.dequeuers ++ [⟨clientId, id, .writing⟩]⟩
    | (_, q) => { s with toQueue := q }
  | .write i written =>
    { s with dequeuers := s.goesOn i .writing (if written then some .written else none) }
  | .look i =>
    let sleeps := s.config.autoFail ∧ s.config.failTimeout ≠ 0
    { s with dequeuers := s.goesOn i .written (if sleeps then some .sleeping else none) }
  | .expire i =>
    match s.dequeuers[i]? with
    | some ⟨clientId, messageId, .sleeping⟩ =>
      ⟨((AutoFail.autoUnlock clientId messageId).run s.toQueue).2, s.goesOn i .sleeping none⟩
    | _ => s

/-- A task that looks at the configuration finds `auto_fail` on, and a message that is handed out is
written to its client. -/
def Arms (s : Expiring) : Event → Prop
  | .write _ written => written = true
  | .look _ => s.config.autoFail = true ∧ s.config.failTimeout ≠ 0
  | _ => True

instance (s : Expiring) : (e : Event) → Decidable (s.Arms e)
  | .write _ written => inferInstanceAs (Decidable (written = true))
  | .look _ => inferInstanceAs (Decidable (_ ∧ _))
  | .call .. | .configure _ | .lockToRead _ | .expire _ => .isTrue trivial

/-- Whom the tasks have locked messages for. -/
def owners (s : Expiring) : List (U128 × U128) := s.dequeuers.map fun d => (d.clientId, d.messageId)

/-- Every lock has a task. -/
structure Guarded (s : Expiring) : Prop where
  rooted : s.Rooted
  listed : s.locks.Listed
  owned : ∀ id c, s.locks.holder id = some c → (c, id) ∈ s.owners

/-- A call other than `lockToRead` gives no lock. -/
theorem holder_of_effect {q r : Queue} {op : Op} (effect : Effect q op r)
    (other : ∀ c, op ≠ .lockToRead c) {id c : U128} (held : r.locks.holder id = some c) :
    q.locks.holder id = some c := by
  cases effect with
  | idle => exact held
  | measured => exact held
  | enqueued =>
    rw [locks_enqueued rfl, Locks.holder_put] at held
    split_ifs at held
    exact held
  | delivered clientId => exact absurd rfl (other clientId)
  | removed clientId k =>
    rw [locks_removed, Locks.holder_remove] at held
    split_ifs at held
    exact held
  | acked clientId k ids messageId unnamed first =>
    rw [locks_acked first, Locks.holder_remove] at held
    split_ifs at held
    exact held
  | released clientId k =>
    rw [locks_released, Locks.holder_release] at held
    split_ifs at held
    exact held
  | requeued clientId k =>
    rw [locks_requeued clientId k rfl, Locks.holder_remove, Locks.holder_put] at held
    split_ifs at held
    exact held
  | updated k m payload stored =>
    rw [locks_updated payload stored] at held
    exact held

namespace Guarded

variable {s : Expiring} {c id : U128}

theorem new (config : QueueConfig) : (new config).Guarded where
  rooted := ⟨fun _ mem => absurd mem Finmap.notMem_empty, Finmap.notMem_empty⟩
  listed := by
    show Queue.new.locks.Listed
    rw [locks_new]
    intro c i held
    cases held
  owned id c held := by
    change Queue.new.locks.holder id = some c at held
    rw [locks_new] at held
    cases held

theorem call (h : s.Guarded) (op : Op) (other : ∀ clientId, op ≠ .lockToRead clientId) :
    (s.step (.call op other)).Guarded :=
  ⟨h.rooted.step op, listed_step h.rooted h.listed op, fun id c held =>
    h.owned id c (holder_of_effect (step_effect h.rooted op) other held)⟩

/-- A message that is handed out has its task from then on. -/
theorem lockToRead (h : s.Guarded) (clientId : U128) : (s.step (.lockToRead clientId)).Guarded := by
  unfold Expiring.step
  dsimp only
  rcases lockToRead_cases s.toQueue clientId with
    ⟨⟨e, refused⟩, -⟩ | ⟨id, m, nonempty, cursor, stored, free⟩
  · rw [refused]
    exact h
  rw [run_lockToRead clientId nonempty cursor stored free]
  refine ⟨h.rooted.delivered clientId stored, ?_, ?_⟩
  · show (s.toQueue.delivered clientId id m).locks.Listed
    rw [locks_delivered]
    exact h.listed.grant
  · intro k c held
    change (s.toQueue.delivered clientId id m).locks.holder k = some c at held
    rw [locks_delivered, Locks.holder_grant] at held
    show (c, k) ∈ (s.dequeuers ++ [_]).map _
    rw [List.map_append]
    split_ifs at held with same
    · cases held
      exact List.mem_append_right _ (List.mem_singleton.2 (by rw [same]))
    · exact List.mem_append_left _ (h.owned k c held)

/-- A task that goes on keeps its lock. -/
theorem goesOn (h : s.Guarded) (i : ℕ) (here stopover : Stopover) :
    Guarded { s with dequeuers := s.goesOn i here (some stopover) } := by
  refine ⟨h.rooted, h.listed, fun id c held => ?_⟩
  have same : owners { s with dequeuers := s.goesOn i here (some stopover) } = s.owners := by
    show (s.goesOn i here (some stopover)).map _ = s.dequeuers.map _
    unfold Expiring.goesOn
    split
    · rename_i d found
      obtain ⟨inside, rfl⟩ := List.getElem?_eq_some_iff.1 found
      split_ifs
      · refine List.ext_getElem (by simp) fun j _ _ => ?_
        by_cases own : i = j
        · subst own
          simp
        · simp [own]
      · rfl
    · rfl
  exact same ▸ h.owned id c held

/-- The end of a sleep leaves no lock of its client on the message, and the other locks their
tasks. -/
theorem expired (h : s.Guarded) {i : ℕ} (sleeps : s.dequeuers[i]? = some ⟨c, id, .sleeping⟩) :
    (s.step (.expire i)).Guarded ∧ (s.step (.expire i)).locks.holder id ≠ some c := by
  have after : s.step (.expire i) =
      ⟨((AutoFail.autoUnlock c id).run s.toQueue).2, s.dequeuers.eraseIdx i⟩ := by
    simp [Expiring.step, Expiring.goesOn, sleeps]
  rw [after, AutoFail.Own.run_autoUnlock]
  have others : ∀ k c', s.locks.holder k = some c' → (k = id → c' ≠ c) →
      (c', k) ∈ (s.dequeuers.eraseIdx i).map fun d => (d.clientId, d.messageId) := by
    intro k c' held different
    obtain ⟨inside, here⟩ := List.getElem?_eq_some_iff.1 sleeps
    obtain ⟨d, mem, own⟩ := List.mem_map.1 (h.owned k c' held)
    obtain ⟨rfl, rfl⟩ := Prod.mk.inj own
    obtain ⟨j, found, there⟩ := List.mem_iff_getElem.1 mem
    refine List.mem_map.2 ⟨d, List.mem_eraseIdx_iff_getElem.2 ⟨j, found, ?_, there⟩, rfl⟩
    rintro rfl
    rw [here] at there
    exact different (by rw [← there]) (by rw [← there])
  split_ifs with listed
  · have locks : (s.toQueue.released c id).locks = s.locks.release c id := locks_released ..
    refine ⟨⟨h.rooted.released _ _, locks ▸ h.listed.release, fun k c' held => ?_⟩, ?_⟩
    · change (s.toQueue.released c id).locks.holder k = some c' at held
      rw [locks, Locks.holder_release] at held
      split_ifs at held with same
      exact others k c' held fun here => absurd here same
    · show (s.toQueue.released c id).locks.holder id ≠ some c
      rw [locks, Locks.holder_release, if_pos rfl]
      exact (Option.some_ne_none c).symm
  · -- what its client has locked is on the list of the client
    have free : s.locks.holder id ≠ some c := by
      intro held
      obtain ⟨m, stored, -⟩ := holder_eq_some.1 held
      exact listed ⟨h.listed _ _ held, h.rooted.nonempty stored⟩
    refine ⟨⟨h.rooted, h.listed, fun k c' held => others k c' held ?_⟩, free⟩
    rintro rfl rfl
    exact free held

theorem step (h : s.Guarded) {e : Event} (arms : s.Arms e) : (s.step e).Guarded := by
  cases e with
  | call op other => exact h.call op other
  | configure config => exact ⟨⟨h.rooted.listed, h.rooted.nonzero⟩, h.listed, h.owned⟩
  | lockToRead clientId => exact h.lockToRead clientId
  | write i written =>
    obtain rfl : written = true := arms
    exact h.goesOn i _ _
  | look i =>
    have looks : s.step (.look i) =
        { s with dequeuers := s.goesOn i .written (some .sleeping) } := by
      rw [Expiring.step, if_pos (show _ ∧ _ from arms)]
    exact looks ▸ h.goesOn i _ _
  | expire i =>
    by_cases sleeps : ∃ c id, s.dequeuers[i]? = some ⟨c, id, .sleeping⟩
    · obtain ⟨c, id, sleeps⟩ := sleeps
      exact (h.expired sleeps).1
    · have idle : s.step (.expire i) = s := by
        unfold Expiring.step
        dsimp only
        split
        · exact absurd ⟨_, _, ‹_›⟩ sleeps
        · rfl
      rw [idle]
      exact h

end Guarded

/-- Where every message handed out is written and its task finds `auto_fail` on, each lock is at any
time that of a task which writes the message, is about to sleep or sleeps; while there is no such
task no message is locked; and the end of a sleep leaves no lock of its client on the message. -/
theorem locksExpire_of_arms (config : QueueConfig) {events : List Event}
    (arms : Transition.EveryStep step Arms (new config) events) :
    Transition.EveryState step (fun s =>
      (∀ id m c, s.queue.lookup id = some m → m.lockedBy = some c →
        ∃ d ∈ s.dequeuers, d.clientId = c ∧ d.messageId = id) ∧
      (s.dequeuers = [] → ∀ id m, s.queue.lookup id = some m → m.lockedBy = none) ∧
      ∀ i c id m, s.dequeuers[i]? = some ⟨c, id, .sleeping⟩ →
        (s.step (.expire i)).queue.lookup id = some m → m.lockedBy ≠ some c)
      (new config) events := by
  have guarded : Transition.EveryState step Guarded (new config) events :=
    arms.invariant (Guarded.new config) fun _ _ (h : Guarded _) arms => h.step arms
  refine guarded.mono fun s h => ⟨fun id m c stored locked => ?_, fun idle id m stored => ?_, ?_⟩
  · obtain ⟨d, mem, own⟩ := List.mem_map.1 (h.owned id c (holder_eq_some.2 ⟨m, stored, locked⟩))
    exact ⟨d, mem, Prod.mk.inj own⟩
  · cases locked : m.lockedBy with
    | none => rfl
    | some c =>
      have owned := h.owned id c (holder_eq_some.2 ⟨m, stored, locked⟩)
      rw [owners, idle] at owned
      cases owned
  · exact fun i c id m sleeps stored locked =>
      (h.expired sleeps).2 (holder_eq_some.2 ⟨m, stored, locked⟩)

/-- A message is handed out and acknowledged while another one is being written, whose timer
expires. -/
def acked : List Event := [.call (.enqueue [1] 7 0) (by simp), .call (.enqueue [2] 7 0) (by simp),
  .lockToRead 1, .lockToRead 2, .write 0 true, .look 0, .call (.dequeue 1 none) (by simp),
  .write 1 true, .expire 0, .look 0, .expire 0]

theorem locksExpire_after_ack :
    Transition.EveryState step (fun s =>
      (∀ id m c, s.queue.lookup id = some m → m.lockedBy = some c →
        ∃ d ∈ s.dequeuers, d.clientId = c ∧ d.messageId = id) ∧
      (s.dequeuers = [] → ∀ id m, s.queue.lookup id = some m → m.lockedBy = none) ∧
      ∀ i c id m, s.dequeuers[i]? = some ⟨c, id, .sleeping⟩ →
        (s.step (.expire i)).queue.lookup id = some m → m.lockedBy ≠ some c)
      (new AutoFail.autoFailConfig) acked ∧
      (Transition.run step (new AutoFail.autoFailConfig) acked).dequeuers = [] :=
  ⟨locksExpire_of_arms _ (by decide), by decide⟩

/-! ## A `Dequeue` as one step -/

/-- The tasks that sleep are the timers, and no other task is on its way. -/
structure Sleeps (a : AutoFail) (s : Expiring) : Prop where
  queue : s.toQueue = a.toQueue
  timers : s.dequeuers = a.timers.map fun timer => ⟨timer.clientId, timer.messageId, .sleeping⟩

/-- Where nothing comes in between, a task locks the message, writes it and looks at the
configuration as `AutoFail.deliver` does at once. -/
theorem Sleeps.deliver {a : AutoFail} {s : Expiring} (h : Sleeps a s) (clientId : U128)
    (written : Bool) :
    Sleeps (a.deliver clientId written) (Transition.run step s [.lockToRead clientId,
      .write s.dequeuers.length written, .look s.dequeuers.length]) := by
  obtain ⟨q, dequeuers⟩ := s
  obtain ⟨rfl, rfl⟩ := h
  simp only [Transition.run_cons, Transition.run_nil, step, AutoFail.deliver]
  rcases lockToRead_cases a.toQueue clientId with
    ⟨⟨e, refused⟩, -⟩ | ⟨id, m, nonempty, cursor, stored, free⟩
  · rw [refused]
    constructor <;> simp [goesOn]
  · rw [run_lockToRead clientId nonempty cursor stored free]
    dsimp only
    cases written with
    | false => constructor <;> simp [goesOn, List.eraseIdx_append_of_length_le]
    | true =>
      have config : (a.toQueue.delivered clientId id m).config = a.config := rfl
      cases enabled : a.config.autoFail with
      | false => constructor <;> simp [goesOn, config, enabled, List.eraseIdx_append_of_length_le]
      | true =>
        by_cases timeout : a.config.failTimeout = 0#64
        · constructor <;>
            simp [goesOn, config, enabled, timeout, List.eraseIdx_append_of_length_le]
        · constructor <;> simp [goesOn, config, enabled, timeout]

theorem Sleeps.step {a : AutoFail} {s : Expiring} (h : Sleeps a s) (e : AutoFail.Event) :
    ∃ events, Sleeps (a.step e) (Transition.run step s events) := by
  have call : ∀ (op : Op) (other : ∀ clientId, op ≠ .lockToRead clientId),
      Sleeps { a with toQueue := a.toQueue.step op } (Transition.run Expiring.step s
        [.call op other]) := fun op other =>
    ⟨congrArg (fun q : Queue => q.step op) h.queue, h.timers⟩
  cases e with
  | enqueue => exact ⟨_, call _ (by simp)⟩
  | dequeue clientId written => exact ⟨_, h.deliver clientId written⟩
  | succeeded => exact ⟨_, call _ (by simp)⟩
  | failed => exact ⟨_, call _ (by simp)⟩
  | deleteM => exact ⟨_, call _ (by simp)⟩
  | requeue => exact ⟨_, call _ (by simp)⟩
  | expire i =>
    refine ⟨[.expire i], ?_⟩
    obtain ⟨q, dequeuers⟩ := s
    obtain ⟨rfl, rfl⟩ := h
    simp only [Transition.run_cons, Transition.run_nil, Expiring.step, AutoFail.step]
    cases pending : a.timers[i]? with
    | none => constructor <;> simp [pending]
    | some timer => constructor <;> simp [pending, goesOn, List.eraseIdx_map]

/-- A run of `AutoFail` is a run in which each `Dequeue` does its steps one after the other. -/
theorem exists_run (config : QueueConfig) (events : List AutoFail.Event) :
    ∃ events', Sleeps (Transition.run AutoFail.step (AutoFail.new config) events)
      (Transition.run step (new config) events') := by
  have start : Sleeps (AutoFail.new config) (new config) := ⟨rfl, rfl⟩
  have any : Transition.EveryStep AutoFail.step (fun _ _ => True) (AutoFail.new config) events :=
    Transition.everyStep_true
  have moves : ∀ (a : AutoFail) (s : Expiring) (e : AutoFail.Event), Sleeps a s → True →
      ∃ events', Transition.EveryStep step (fun _ _ => True) s events' ∧
        Sleeps (a.step e) (Transition.run step s events') := by
    intro a s e sleeps _
    obtain ⟨events', sleeps⟩ := sleeps.step e
    exact ⟨events', Transition.everyStep_true, sleeps⟩
  obtain ⟨events', -, sleeps⟩ := any.simulated moves start
  exact ⟨events', sleeps⟩

end Expiring

end DataBroker
