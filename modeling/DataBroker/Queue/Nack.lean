import DataBroker.Queue.Refusals

/-!
# Giving a lock up

`unlock` goes by the list of its client: it takes an entry off and unlocks whatever is stored under
it. The list may be empty, or have entries for messages that are gone or locked by somebody else, or
the same id twice. What the client holds, in the order in which it locked the messages, is recorded
beside the queue; `nackExact_iff` says when `unlock` releases one of these.
-/

namespace DataBroker

/-- A queue with the messages that each client holds, in the order in which it locked them. -/
structure Handed extends Queue where
  taken : U128 → List U128

namespace Handed

open Queue

/-- What the call hands out to `c`. -/
def handsOut (s : Queue) (c : U128) : Op → List U128
  | .lockToRead clientId =>
    match ((lockToRead clientId).run s).1 with
    | .ok (_, some id) => if clientId = c then [id] else []
    | _ => []
  | _ => []

def new : Handed := ⟨Queue.new, fun _ => []⟩

/-- What a client still holds, and what it is handed out. -/
def step (s : Handed) (op : Op) : Handed where
  toQueue := s.toQueue.step op
  taken c := ((s.taken c).filter fun id => (s.toQueue.step op).locks.holder id = some c) ++
    handsOut s.toQueue c op

/-- The client `c` has locked the stored message `m`. -/
def Holds (s : Queue) (c m : U128) : Prop :=
  ∃ message, s.queue.lookup m = some message ∧ message.lockedBy = some c

/-- `unlock` succeeds exactly if there is a lock to give up: the one on the message it names, or any
without a name. Then the one message that it names, or the one that the client locked first, is
unlocked and leaves the client's list, and nothing else changes. -/
structure NackExact (s : Handed) (c : U128) (messageId : Option U128) : Prop where
  succeeds : ((unlock c messageId).run s.toQueue).1 = .ok () ↔
    messageId.elim (∃ m, Holds s.toQueue c m) (Holds s.toQueue c)
  releases : ((unlock c messageId).run s.toQueue).1 = .ok () → ∃ id message,
    messageId.elim ((s.taken c).head? = some id) (· = id) ∧
    s.queue.lookup id = some message ∧ message.lockedBy = some c ∧
    ((unlock c messageId).run s.toQueue).2.queue.lookup id = some message.unlock ∧
    (∀ k ≠ id, ((unlock c messageId).run s.toQueue).2.queue.lookup k = s.queue.lookup k) ∧
    ((unlock c messageId).run s.toQueue).2.lockedIds c = (s.lockedIds c).filter (· ≠ id) ∧
    ∀ d ≠ c, ((unlock c messageId).run s.toQueue).2.lockedIds d = s.lockedIds d

/-- The entry that `unlock` takes off the list is of a message that the client holds, and occurs
once. Without an entry to take off the message is named, or the client has no list. -/
def Releasable (s : Queue) (c : U128) (messageId : Option U128) : Prop :=
  s.order = [] ∨ match s.toRelease c messageId with
    | some id => Holds s c id ∧ (s.lockedIds c).count id = 1
    | none => messageId = none → c ∉ s.locked

/-- What is taken is what is held, and in the order of the lists. -/
structure Tracked (s : Handed) : Prop where
  rooted : s.toQueue.Rooted
  listed : ∀ c, (s.taken c).Sublist (s.lockedIds c)
  mem_iff : ∀ c m, m ∈ s.taken c ↔ s.locks.holder m = some c

variable {s : Handed} {c id : U128} {messageId : Option U128}

theorem Tracked.mem_iff_holds (h : s.Tracked) {m : U128} : m ∈ s.taken c ↔ Holds s.toQueue c m :=
  (h.mem_iff c m).trans holder_eq_some

/-- Where no lock is taken, the lists keep what is still held. -/
theorem Tracked.eases (h : s.Tracked) {t : Handed} (rooted : t.Rooted)
    (eases : s.locks.Eases t.locks)
    (taken : ∀ c, t.taken c = (s.taken c).filter fun id => t.locks.holder id = some c) :
    t.Tracked where
  rooted := rooted
  listed c := by
    rw [taken c]
    apply eases.listed c _ (List.filter_sublist.trans (h.listed c))
    intro i mem
    simpa using (List.mem_filter.1 mem).2
  mem_iff c m := by
    rw [taken c, List.mem_filter, h.mem_iff, decide_eq_true_iff]
    exact ⟨fun h => h.2, fun held => ⟨eases.held c m held, held⟩⟩

theorem eases_step {s : Queue} (rooted : s.Rooted) {op : Op}
    (other : ∀ clientId, op ≠ .lockToRead clientId) : s.locks.Eases (s.step op).locks := by
  have effect := step_effect rooted op
  generalize s.step op = t at effect ⊢
  cases effect with
  | idle => exact .refl _
  | measured => exact .refl _
  | enqueued =>
    rw [locks_enqueued rfl]
    exact Locks.eases_put
  | delivered clientId => exact absurd rfl (other clientId)
  | removed =>
    rw [locks_removed]
    exact Locks.eases_remove
  | acked clientId id ids messageId unnamed first =>
    rw [locks_acked first]
    exact Locks.eases_remove
  | released =>
    rw [locks_released]
    exact Locks.eases_release
  | requeued clientId id =>
    rw [locks_requeued clientId id rfl]
    exact Locks.eases_put.trans Locks.eases_remove
  | updated id m payload stored =>
    rw [locks_updated payload stored]
    exact .refl _

theorem step_lockToRead (h : s.Tracked) (clientId : U128) :
    (s.step (.lockToRead clientId)).Tracked := by
  have rooted := h.rooted.step (.lockToRead clientId)
  rcases lockToRead_cases s.toQueue clientId with ⟨⟨e, he⟩, -⟩ | ⟨id, m, nonempty, cursor, stored, free⟩
  · have same : s.toQueue.step (.lockToRead clientId) = s.toQueue := by
      rw [Queue.step, Op.call, Method.run_discard_snd, he]
    apply h.eases rooted (by rw [step, same]; exact .refl _)
    intro c
    simp [step, handsOut, he]
  · have run := run_lockToRead clientId nonempty cursor stored free
    have next : s.toQueue.step (.lockToRead clientId) = s.delivered clientId id m := by
      rw [Queue.step, Op.call, Method.run_discard_snd, run]
    have unheld : s.locks.holder id = none := (holder_of_lookup stored).trans free
    have holder : ∀ k, (s.step (.lockToRead clientId)).locks.holder k =
        if k = id then some clientId else s.locks.holder k := by
      intro k
      rw [step, next, locks_delivered, Locks.holder_grant]
    have taken : ∀ c, (s.step (.lockToRead clientId)).taken c =
        s.taken c ++ if clientId = c then [id] else [] := by
      intro c
      have kept : (s.taken c).filter (fun k =>
          (s.toQueue.step (.lockToRead clientId)).locks.holder k = some c) = s.taken c := by
        apply List.filter_eq_self.2
        intro k mem
        have held := (h.mem_iff c k).1 mem
        have ne : k ≠ id := by
          rintro rfl
          rw [unheld] at held
          cases held
        exact decide_eq_true_iff.2 ((holder k).trans (by rw [if_neg ne, held]))
      simp only [step, kept, handsOut, run]
    refine ⟨rooted, fun c => ?_, fun c k => ?_⟩
    · rw [taken c, step, next]
      show List.Sublist _ ((s.delivered clientId id m).lockedIds c)
      rw [lockedIds_delivered]
      by_cases client : clientId = c
      · simpa [client] using h.listed c
      · simpa [client, Ne.symm client] using h.listed c
    · rw [taken c, holder k, List.mem_append, h.mem_iff c k]
      by_cases same : k = id
      · subst same
        by_cases client : clientId = c <;> simp [unheld, client]
      · by_cases client : clientId = c <;> simp [same, client]

theorem Tracked.step (h : s.Tracked) (op : Op) : (s.step op).Tracked := by
  by_cases locking : ∃ clientId, op = .lockToRead clientId
  · obtain ⟨clientId, rfl⟩ := locking
    exact step_lockToRead h clientId
  · have other : ∀ clientId, op ≠ .lockToRead clientId := fun c e => locking ⟨c, e⟩
    apply h.eases (h.rooted.step op) (eases_step h.rooted other)
    intro c
    cases op with
    | lockToRead clientId => exact absurd rfl (other clientId)
    | _ => exact List.append_nil _

/-- Without a stored message on its list a client holds nothing. -/
theorem Tracked.not_holds (h : s.Tracked) (unlisted : s.lockedIds c = []) (m : U128) :
    ¬ Holds s.toQueue c m := by
  intro held
  have listed := (h.listed c).subset (h.mem_iff_holds.2 held)
  rw [unlisted] at listed
  cases listed

theorem nackExact_of_refused (refused : ∃ error, (unlock c messageId).run s.toQueue = (.err error, s.toQueue))
    (unheld : ¬ messageId.elim (∃ m, Holds s.toQueue c m) (Holds s.toQueue c)) :
    s.NackExact c messageId := by
  obtain ⟨error, run⟩ := refused
  constructor
  · rw [run]
    exact iff_of_false (fun e => by cases e) unheld
  · rw [run]
    intro e
    cases e

/-- The first of a list, if it is held and occurs once, was locked first of what is held. -/
theorem Tracked.head?_taken (h : s.Tracked) {ids : List U128} (mine : s.lockedIds c = id :: ids)
    (held : Holds s.toQueue c id) (once : (s.lockedIds c).count id = 1) :
    (s.taken c).head? = some id := by
  have mem := h.mem_iff_holds.2 held
  have sub := h.listed c
  have later : id ∉ ids := by
    rw [mine, List.count_cons_self] at once
    exact List.count_eq_zero.1 (by omega)
  rw [mine] at sub
  cases taken : s.taken c with
  | nil =>
    rw [taken] at mem
    cases mem
  | cons k rest =>
    rw [taken] at sub mem
    by_cases same : k = id
    · rw [same, List.head?_cons]
    · have sub := (List.cons_sublist_cons'.1 sub).resolve_right fun h => same h.1
      exact absurd (sub.subset mem) later

theorem erase_eq_filter {ids : List U128} (once : ids.count id = 1) :
    ids.erase id = ids.filter (· ≠ id) := by
  rw [← filter_erase]
  refine (List.filter_eq_self.2 fun k mem => ?_).symm
  have gone : id ∉ ids.erase id := by
    rw [← List.count_eq_zero, List.count_erase_self, once]
  exact decide_eq_true_iff.2 fun e => gone (e ▸ mem)

/-- What the release unlocks was held, and leaves the list with its only entry. -/
theorem holds_of_nackExact (nonempty : s.order ≠ []) (listed : s.toRelease c messageId = some id)
    (nack : s.NackExact c messageId) :
    Holds s.toQueue c id ∧ (s.lockedIds c).count id = 1 := by
  have run := run_unlock nonempty listed
  obtain ⟨k, message, -, stored, held, unlocked, -, left, -⟩ := nack.releases (by rw [run])
  rw [run] at unlocked left
  obtain rfl : k = id := by
    by_contra ne
    rw [lookup_released, if_neg ne, stored] at unlocked
    have same : message.lockedBy = message.unlock.lockedBy :=
      congrArg QueueMessage.lockedBy (Option.some.inj unlocked)
    rw [held] at same
    cases same
  refine ⟨⟨message, stored, held⟩, ?_⟩
  rw [lockedIds_released, if_pos rfl] at left
  have none_left : ((s.lockedIds c).erase k).count k = 0 := by
    rw [left]
    exact List.count_eq_zero.2 (by simp)
  rw [List.count_erase_self] at none_left
  have some_listed := List.count_pos_iff.2 (mem_of_toRelease listed)
  omega

/-- The message that is released without a name is the one that was locked first. -/
theorem head?_taken_of_toRelease (h : s.Tracked) (listed : s.toRelease c none = some id)
    (held : Holds s.toQueue c id) (once : (s.lockedIds c).count id = 1) :
    (s.taken c).head? = some id := by
  have mem := mem_of_toRelease listed
  cases mine : s.lockedIds c with
  | nil => simp [mine] at mem
  | cons first ids =>
    obtain rfl : first = id := by simpa [toRelease, mine] using listed
    exact h.head?_taken mine held once

/-- What `unlock` does with the entry `id`. -/
theorem nackExact_released (h : s.Tracked) (nonempty : s.order ≠ [])
    (listed : s.toRelease c messageId = some id) :
    s.NackExact c messageId ↔ Holds s.toQueue c id ∧ (s.lockedIds c).count id = 1 := by
  have run := run_unlock nonempty listed
  refine ⟨holds_of_nackExact nonempty listed, ?_⟩
  rintro ⟨held, once⟩
  constructor
  · rw [run]
    apply iff_of_true rfl
    cases messageId with
    | none => exact ⟨id, held⟩
    | some m =>
      obtain rfl := eq_of_toRelease listed
      exact held
  · intro _
    obtain ⟨message, stored, held_by⟩ := held
    refine ⟨id, message, ?_, stored, held_by, ?_, fun k ne => ?_, ?_, fun d ne => ?_⟩
    · cases messageId with
      | none => exact head?_taken_of_toRelease h listed ⟨message, stored, held_by⟩ once
      | some m => exact eq_of_toRelease listed
    · rw [run, lookup_released, if_pos rfl, stored, Option.map_some]
    · rw [run, lookup_released, if_neg ne]
    · rw [run, lockedIds_released, if_pos rfl]
      exact erase_eq_filter once
    · rw [run, lockedIds_released, if_neg ne]

theorem tracked_run (ops : List Op) : Transition.EveryState step Tracked new ops := by
  refine Transition.invariant ⟨.new, fun c => List.Sublist.slnil, fun c m => ?_⟩
    (fun _ op h => Tracked.step h op) ops
  simp [new, locks_new, Locks.holder]

theorem nackExact_iff_releasable (h : s.Tracked) :
    s.NackExact c messageId ↔ Releasable s.toQueue c messageId := by
  by_cases empty : s.order = []
  · refine iff_of_true (nackExact_of_refused ⟨_, unlock_empty c messageId empty⟩ ?_) (.inl empty)
    have unheld : ∀ m, ¬ Holds s.toQueue c m := by
      rintro m ⟨message, stored, -⟩
      exact h.rooted.nonempty stored empty
    cases messageId with
    | none =>
      rintro ⟨m, held⟩
      exact unheld m held
    | some m => exact unheld m
  rw [Releasable, or_iff_right empty]
  cases listed : s.toRelease c messageId with
  | some id => exact nackExact_released h empty listed
  | none =>
    cases messageId with
    | some m =>
      refine iff_of_true (nackExact_of_refused (unlock_refused listed (.inr (.inr nofun))) ?_) nofun
      intro held
      have mem := (h.listed c).subset (h.mem_iff_holds.2 held)
      simp [toRelease, mem] at listed
    | none =>
      have unlisted : s.lockedIds c = [] := by simpa [toRelease] using listed
      have unheld : ¬ ∃ m, Holds s.toQueue c m := by
        rintro ⟨m, held⟩
        exact h.not_holds unlisted m held
      by_cases known : c ∈ s.locked
      · obtain ⟨ids, entry⟩ := Finmap.mem_iff.1 known
        obtain rfl : ids = [] := by simpa [lockedIds, entry] using unlisted
        refine iff_of_false (fun nack => unheld (nack.succeeds.1 ?_)) fun none => none rfl known
        rw [unlock_idle empty entry]
      · have refused := unlock_refused listed (.inr (.inl known))
        exact iff_of_true (nackExact_of_refused refused unheld) fun _ => known

/-- `unlock` succeeds exactly when it gives up a lock of its caller if and only if the list of the
caller is true where `unlock` looks at it. -/
theorem nackExact_iff (ops : List Op) :
    Transition.EveryState step (fun s => ∀ c messageId,
      s.NackExact c messageId ↔ Releasable s.toQueue c messageId) new ops :=
  (tracked_run ops).mono fun _ h _ _ => nackExact_iff_releasable h

/-- A client that has acknowledged its only message has an empty list, and gives up nothing with
success. -/
theorem nack_after_ack : ¬ ∀ ops, Transition.EveryState step
    (fun s => ∀ c messageId, s.NackExact c messageId) new ops := by
  intro nack
  have last := (nack [.enqueue [1] 7 0, .lockToRead 1, .enqueue [2] 7 0, .dequeue 1 none]).last
  obtain ⟨m, message, stored, held⟩ := (last 1 none).succeeds.1 (by decide)
  have unlocked : ∀ e ∈ (Transition.run step new [.enqueue [1] 7 0, .lockToRead 1,
      .enqueue [2] 7 0, .dequeue 1 none]).queue.entries, e.2.lockedBy ≠ some 1 := by decide
  exact unlocked ⟨m, message⟩ (Finmap.lookup_eq_some_iff.1 stored) held

end Handed

end DataBroker
