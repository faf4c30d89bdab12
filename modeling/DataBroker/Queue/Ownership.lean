import DataBroker.Lib.Locks
import DataBroker.Queue.Calls
import Mathlib.Algebra.BigOperators.Group.Finset.Basic
import Mathlib.Algebra.Order.BigOperators.Group.Finset

/-!
# Who holds a message

The lock on a message is recorded in the message and in the list of the client. Seen through these
records a queue is a `Locks`, and a call is one of its operations: `enqueue` puts, `lockToRead`
grants, `unlock` releases, `dequeue` removes and `requeue` puts and removes.

Removing by id looks at the caller's list only, and a new message may get the id of an old one, so
the two records need not agree. `locksAgree_iff_lockSafe` says in which runs they do,
`neverPanics_of_removesOwn` that a run in which nobody removes an id that somebody else has listed
never gets to a panic.
-/

namespace DataBroker

namespace Queue

/-- The two records of the locks on the messages. -/
def locks (s : Queue) : Locks U128 U128 where
  status id := (s.queue.lookup id).map QueueMessage.lockedBy
  ids := s.lockedIds

@[simp] theorem ids_locks (s : Queue) (c : U128) : s.locks.ids c = s.lockedIds c := rfl

theorem locks_ext {L L' : Locks U128 U128} (status : ∀ k, L.status k = L'.status k)
    (ids : ∀ c, L.ids c = L'.ids c) : L = L' := by
  cases L
  cases L'
  congr
  · exact funext status
  · exact funext ids

theorem status_eq_none {s : Queue} {id : U128} : s.locks.status id = none ↔ id ∉ s.queue :=
  Option.map_eq_none_iff.trans Finmap.lookup_eq_none

theorem status_of_lookup {s : Queue} {id : U128} {m : QueueMessage}
    (stored : s.queue.lookup id = some m) : s.locks.status id = some m.lockedBy := by
  simp only [locks, stored, Option.map_some]

theorem holder_of_lookup {s : Queue} {id : U128} {m : QueueMessage}
    (stored : s.queue.lookup id = some m) : s.locks.holder id = m.lockedBy := by
  rw [Locks.holder, status_of_lookup stored, Option.join_some]

/-! ## A call as an operation on the locks -/

theorem locks_enqueued {s : Queue} {m : QueueMessage} (free : m.lockedBy = none) :
    (s.enqueued m).locks = s.locks.put (newId s.order) := by
  refine locks_ext (fun k => ?_) fun c => rfl
  simp only [locks, Locks.put, lookup_enqueued]
  split_ifs <;> simp [free]

theorem locks_delivered (s : Queue) (clientId id : U128) (m : QueueMessage) :
    (s.delivered clientId id m).locks = s.locks.grant clientId id := by
  refine locks_ext (fun k => ?_) fun c => lockedIds_delivered s clientId id m c
  simp only [locks, Locks.grant, lookup_delivered]
  split_ifs <;> rfl

theorem locks_removed (s : Queue) (clientId id : U128) :
    (s.removed clientId id).locks = s.locks.remove clientId id := by
  refine locks_ext (fun k => ?_) fun c => lockedIds_removed s clientId id c
  simp only [locks, Locks.remove, lookup_removed]
  split_ifs <;> rfl

theorem locks_acked {s : Queue} {clientId id : U128} {ids : List U128}
    (first : s.lockedIds clientId = id :: ids) :
    (s.acked clientId id ids).locks = s.locks.remove clientId id := by
  refine locks_ext (fun k => ?_) fun c => ?_
  · simp only [locks, Locks.remove, lookup_acked]
    split_ifs <;> rfl
  · apply (lockedIds_acked s clientId id ids c).trans
    simp only [locks, Locks.remove]
    split_ifs with client
    · rw [client, first, List.erase_cons_head]
    · rfl

theorem locks_released (s : Queue) (clientId id : U128) :
    (s.released clientId id).locks = s.locks.release clientId id := by
  refine locks_ext (fun k => ?_) fun c => lockedIds_released s clientId id c
  simp only [locks, Locks.release, lookup_released]
  split_ifs
  · cases s.queue.lookup k <;> rfl
  · rfl

theorem locks_requeued {s : Queue} {m : QueueMessage} (clientId id : U128)
    (free : m.lockedBy = none) :
    (s.requeued clientId id m).locks = (s.locks.put (newId s.order)).remove clientId id := by
  rw [requeued, locks_removed, locks_enqueued free]

theorem locks_updated {s : Queue} {id : U128} {m : QueueMessage} (payload : Bytes)
    (stored : s.queue.lookup id = some m) : (s.updated id m payload).locks = s.locks := by
  refine locks_ext (fun k => ?_) fun c => rfl
  simp only [locks, lookup_updated]
  split_ifs with same
  · rw [same, stored]
    rfl
  · rfl

theorem locks_new : new.locks = ⟨fun _ => none, fun _ => []⟩ :=
  locks_ext (fun _ => rfl) fun _ => rfl

/-! ## The two records agree -/

/-- The number of stored messages that are locked. -/
def lockedCount (s : Queue) : ℕ := (s.queue.entries.filter fun e => e.2.isLocked).card

/-- The list of a client has exactly the messages it holds, each once, and so the lists together
are as long as there are locked messages. -/
structure LocksAgree (s : Queue) : Prop where
  listed_iff : ∀ c m, m ∈ s.lockedIds c ↔
    ∃ message, s.queue.lookup m = some message ∧ message.lockedBy = some c
  once : ∀ c, (s.lockedIds c).Nodup
  total : s.getTotalMessagesLocked = s.lockedCount

theorem holder_eq_some {s : Queue} {id c : U128} : s.locks.holder id = some c ↔
    ∃ message, s.queue.lookup id = some message ∧ message.lockedBy = some c := by
  cases stored : s.queue.lookup id with
  | none => simp [Locks.holder, locks, stored]
  | some m => simp [holder_of_lookup stored]

theorem holder_eq_none {s : Queue} {id : U128} (absent : id ∉ s.queue) :
    s.locks.holder id = none := by
  rw [Locks.holder, status_eq_none.2 absent, Option.join_none]

theorem lockedIds_of_mem {s : Queue} {e : Σ _ : U128, List U128} (he : e ∈ s.locked.entries) :
    s.lockedIds e.1 = e.2 := by
  rw [lockedIds, Finmap.lookup_eq_some_iff.2 he, Option.getD_some]

theorem getTotalMessagesLocked_eq_sum (s : Queue) :
    s.getTotalMessagesLocked = ∑ c ∈ s.locked.keys, (s.lockedIds c).length := by
  unfold getTotalMessagesLocked Finset.sum Finmap.keys Multiset.keys
  rw [Multiset.map_map]
  exact congrArg _ (Multiset.map_congr rfl fun e he => congrArg _ (lockedIds_of_mem he).symm)

theorem lockedCount_eq_card (s : Queue) :
    s.lockedCount = (s.queue.keys.filter fun id => (s.locks.holder id).isSome).card := by
  rw [lockedCount, Finset.card_def, Finset.filter_val]
  unfold Finmap.keys Multiset.keys
  rw [Multiset.filter_map, Multiset.card_map]
  refine congrArg _ (Multiset.filter_congr fun e he => ?_)
  rw [Function.comp_apply, holder_of_lookup (Finmap.lookup_eq_some_iff.2 he)]
  rfl

/-- Where the records agree, each list is the share of its client in the locked messages. -/
theorem total_of_agree {s : Queue} (h : s.locks.Agree) :
    s.getTotalMessagesLocked = s.lockedCount := by
  have share : ∀ c, ((s.queue.keys.filter fun id => (s.locks.holder id).isSome).filter
      fun id => s.locks.holder id = some c) = (s.lockedIds c).toFinset := by
    intro c
    ext id
    have stored : s.locks.holder id = some c → id ∈ s.queue.keys := fun held => by
      obtain ⟨message, stored, -⟩ := holder_eq_some.1 held
      exact Finmap.mem_keys.2 (HashMap.mem_of_lookup stored)
    rw [Finset.filter_filter, Finset.mem_filter, List.mem_toFinset]
    refine ⟨fun held => h.mem_iff.2 held.2.2, fun listed => ?_⟩
    have held := h.mem_iff.1 listed
    exact ⟨stored held, by rw [held]; rfl, held⟩
  have listed : ∀ id ∈ s.queue.keys.filter fun id => (s.locks.holder id).isSome,
      s.locks.holder id ∈ s.locked.keys.map Function.Embedding.some := by
    intro id mem
    obtain ⟨c, held⟩ := Option.isSome_iff_exists.1 (Finset.mem_filter.1 mem).2
    have some_list : c ∈ s.locked := by
      by_contra absent
      have := h.mem_iff.2 held
      simp [locks, lockedIds, Finmap.lookup_eq_none.2 absent] at this
    rw [held]
    exact Finset.mem_map_of_mem _ (Finmap.mem_keys.2 some_list)
  rw [getTotalMessagesLocked_eq_sum, lockedCount_eq_card,
    Finset.card_eq_sum_card_fiberwise listed, Finset.sum_map]
  apply Finset.sum_congr rfl
  intro c _
  rw [Function.Embedding.some_apply, share]
  exact (List.toFinset_card_of_nodup (h.nodup c)).symm

theorem locksAgree_iff {s : Queue} : s.LocksAgree ↔ s.locks.Agree := by
  constructor
  · exact fun h => Locks.agree_iff.2 ⟨fun c m => (h.listed_iff c m).trans holder_eq_some.symm, h.once⟩
  · exact fun h => ⟨fun c m => h.mem_iff.trans holder_eq_some, h.nodup, total_of_agree h⟩

/-- The call takes no message away from under the lock of another client: a new message does not
get the id of a locked one, and what is removed by its id is not locked by somebody else. -/
def LockSafe (s : Queue) : Op → Prop
  | .enqueue .. => s.locks.holder (newId s.order) = none
  | .dequeue clientId (some id) => s.locks.OnlyFor clientId id
  | .requeue clientId id _ => id ∈ s.queue →
      s.locks.OnlyFor clientId id ∧
        (newId s.order = id ∨ s.locks.holder (newId s.order) = none)
  | _ => True

instance (s : Queue) : (op : Op) → Decidable (s.LockSafe op)
  | .enqueue .. => inferInstanceAs (Decidable (_ = _))
  | .dequeue _ (some _) => inferInstanceAs (Decidable (Locks.OnlyFor _ _ _))
  | .requeue .. => inferInstanceAs (Decidable (_ → _))
  | .lockToRead _ | .dequeue _ none | .unlock .. | .updateMessage .. | .isLocked ..
  | .listMessages _ | .getNextBiggestPayload _ => .isTrue trivial

theorem lockSafe_of_inert {s : Queue} {op : Op} (inert : s.Inert op) : s.LockSafe op := by
  cases op with
  | enqueue => exact inert.elim
  | dequeue clientId messageId =>
    cases messageId with
    | none => trivial
    | some id => exact .inl (holder_eq_none (inert.1 id rfl))
  | requeue => exact fun stored => absurd stored inert
  | _ => trivial

theorem agree_step {s : Queue} (h : s.Rooted) (agree : s.locks.Agree) (op : Op) :
    (s.step op).locks.Agree ↔ s.LockSafe op := by
  have effect := step_effect h op
  generalize s.step op = t at effect ⊢
  cases effect with
  | idle op inert => exact iff_of_true agree (lockSafe_of_inert inert)
  | measured => exact iff_of_true agree trivial
  | enqueued =>
    rw [locks_enqueued rfl]
    exact Locks.agree_put agree
  | delivered clientId id m cursor stored free =>
    rw [locks_delivered]
    exact iff_of_true (Locks.agree_grant agree ((holder_of_lookup stored).trans free)) trivial
  | removed clientId id =>
    rw [locks_removed]
    exact Locks.agree_remove agree
  | acked clientId id ids messageId unnamed first =>
    have mine : id ∈ s.locks.ids clientId := by
      rw [ids_locks, first]
      exact List.mem_cons_self
    rw [locks_acked first]
    apply iff_of_true ((Locks.agree_remove agree).2 (.inr (agree.mem_iff.1 mine)))
    cases messageId with
    | none => trivial
    | some m => exact .inl (holder_eq_none (unnamed m rfl))
  | released clientId id messageId listed =>
    rw [locks_released]
    exact iff_of_true (Locks.agree_release agree (mem_of_toRelease listed)) trivial
  | requeued clientId id now m stored =>
    rw [locks_requeued clientId id rfl, Locks.agree_put_remove agree]
    exact ⟨fun h _ => h, fun h => h (HashMap.mem_of_lookup stored)⟩
  | updated id m payload stored =>
    rw [locks_updated payload stored]
    exact iff_of_true agree trivial

theorem locksAgree_new : new.LocksAgree := by
  rw [locksAgree_iff, locks_new]
  intro i c
  simp [Locks.holder]

/-- The two records agree throughout a run if and only if all its calls are lock safe. -/
theorem locksAgree_iff_lockSafe (ops : List Op) :
    Transition.EveryState step LocksAgree new ops ↔ Transition.EveryStep step LockSafe new ops :=
  Transition.everyState_iff_everyStep (rooted_run ops) locksAgree_new fun s op rooted agree => by
    rw [locksAgree_iff]
    exact agree_step rooted (locksAgree_iff.1 agree) op

/-- A second client removes the message that the first one holds: the first one's list keeps it. -/
theorem removal_leaves_list :
    ¬ Transition.EveryState step LocksAgree new
      [.enqueue [] 7 0, .lockToRead 1, .dequeue 2 (some 1)] := by
  intro agree
  obtain ⟨message, stored, -⟩ := (agree.last.listed_iff 1 1).1 (by decide)
  exact absurd (HashMap.mem_of_lookup stored) (by decide)

/-! ## Locked messages are listed -/

theorem listed_step {s : Queue} (h : s.Rooted) (listed : s.locks.Listed) (op : Op) :
    (s.step op).locks.Listed := by
  have effect := step_effect h op
  generalize s.step op = t at effect ⊢
  cases effect with
  | idle => exact listed
  | measured => exact listed
  | enqueued =>
    rw [locks_enqueued rfl]
    exact listed.put
  | delivered clientId id m =>
    rw [locks_delivered]
    exact listed.grant
  | removed clientId id m stored =>
    rw [locks_removed]
    exact listed.remove
  | acked clientId id ids messageId unnamed first =>
    rw [locks_acked first]
    exact listed.remove
  | released clientId id =>
    rw [locks_released]
    exact listed.release
  | requeued clientId id now m stored =>
    rw [locks_requeued clientId id rfl]
    exact listed.put.remove
  | updated id m payload stored =>
    rw [locks_updated payload stored]
    exact listed

/-- Lists may name too much, but never too little: whatever the clients do, a locked message is on
the list of the client that has locked it. -/
theorem listed_run (ops : List Op) : Transition.EveryState step (fun s => ∀ id m c,
    s.queue.lookup id = some m → m.lockedBy = some c → id ∈ s.lockedIds c) new ops := by
  have unlocked : new.locks.Listed := by
    rw [locks_new]
    intro c i held
    cases held
  have listed : Transition.EveryState step (fun s => s.Rooted ∧ s.locks.Listed) new ops :=
    Transition.invariant ⟨.new, unlocked⟩ (fun s op h => ⟨h.1.step op, listed_step h.1 h.2 op⟩) ops
  exact listed.mono fun s h id m c stored locked => h.2 c id (holder_eq_some.2 ⟨m, stored, locked⟩)

/-! ## No call panics -/

/-- What holds of all lists in `locked` holds of the lists of all clients, an absent one reading
as empty. -/
theorem forall_lists {s : Queue} {P : U128 → List U128 → Prop} (empty : ∀ c, P c []) :
    (∀ e ∈ s.locked.entries, P e.1 e.2) ↔ ∀ c, P c (s.lockedIds c) := by
  constructor
  · intro h c
    cases entry : s.locked.lookup c with
    | none => simpa [lockedIds, entry] using empty c
    | some ids =>
      simpa [lockedIds, entry] using h ⟨c, ids⟩ (Finmap.lookup_eq_some_iff.1 entry)
  · intro h e he
    exact lockedIds_of_mem he ▸ h e.1

/-- `id` is in no other client's list, and not twice in this client's. -/
def OnlyListedBy (s : Queue) (clientId id : U128) : Prop :=
  ∀ e ∈ s.locked.entries, e.2.count id ≤ if e.1 = clientId then 1 else 0

instance (s : Queue) (clientId id : U128) : Decidable (s.OnlyListedBy clientId id) :=
  inferInstanceAs (Decidable (∀ e ∈ s.locked.entries, _))

theorem onlyListedBy_iff {s : Queue} {clientId id : U128} :
    s.OnlyListedBy clientId id ↔ s.locks.OnlyOn clientId id := by
  refine (forall_lists (P := fun c l => l.count id ≤ if c = clientId then 1 else 0)
    fun c => Nat.zero_le _).trans ⟨fun h => ⟨fun d ne => ?_, by simpa using h clientId⟩, ?_⟩
  · exact List.count_eq_zero.1 (Nat.le_zero.1 (by simpa [ne] using h d))
  · rintro ⟨elsewhere, once⟩ c
    split_ifs with client
    · exact client ▸ once
    · exact Nat.le_of_eq (List.count_eq_zero.2 (elsewhere c client))

/-- The id that a `dequeue` removes: the one it names, if that is stored, else the first one on the
list of its client. -/
def toRemove (s : Queue) (clientId : U128) : Option U128 → Option U128
  | some id => if id ∈ s.queue then some id else (s.lockedIds clientId).head?
  | none => (s.lockedIds clientId).head?

/-- What the call removes is on no list but the caller's. -/
def RemovesOwn (s : Queue) : Op → Prop
  | .dequeue clientId messageId =>
    (s.toRemove clientId messageId).elim True (s.OnlyListedBy clientId)
  | .requeue clientId id _ => id ∈ s.queue → s.OnlyListedBy clientId id
  | _ => True

instance (o : Option U128) (P : U128 → Prop) [DecidablePred P] : Decidable (o.elim True P) :=
  match o with
  | none => .isTrue trivial
  | some id => inferInstanceAs (Decidable (P id))

instance (s : Queue) : (op : Op) → Decidable (s.RemovesOwn op)
  | .dequeue .. => inferInstanceAs (Decidable (Option.elim _ _ _))
  | .requeue .. => inferInstanceAs (Decidable (_ → _))
  | .enqueue .. | .lockToRead _ | .unlock .. | .updateMessage .. | .isLocked ..
  | .listMessages _ | .getNextBiggestPayload _ => .isTrue trivial

theorem toRemove_unnamed {s : Queue} {messageId : Option U128} (clientId : U128)
    (unnamed : ∀ id ∈ messageId, id ∉ s.queue) :
    s.toRemove clientId messageId = (s.lockedIds clientId).head? := by
  cases messageId with
  | none => rfl
  | some id => exact if_neg (unnamed id rfl)

theorem backed_step {s : Queue} (h : s.Rooted) (backed : s.locks.Backed) (op : Op) :
    (s.step op).locks.Backed ↔ s.RemovesOwn op := by
  have effect := step_effect h op
  generalize s.step op = t at effect ⊢
  cases effect with
  | idle op inert =>
    apply iff_of_true backed
    cases op with
    | enqueue => exact inert.elim
    | requeue => exact fun stored => absurd stored inert
    | dequeue clientId messageId =>
      have none_listed : s.lockedIds clientId = [] := by
        apply List.eq_nil_iff_forall_not_mem.2
        intro id listed
        rcases inert.2 with empty | empty
        · have stored : id ∈ s.queue := by
            by_contra absent
            exact backed clientId id listed (status_eq_none.2 absent)
          simpa [empty] using h.listed id stored
        · simp [empty] at listed
      rw [RemovesOwn, toRemove_unnamed clientId inert.1, none_listed]
      trivial
    | _ => trivial
  | measured => exact iff_of_true backed trivial
  | enqueued =>
    rw [locks_enqueued rfl]
    exact iff_of_true backed.put trivial
  | delivered clientId id m =>
    rw [locks_delivered]
    exact iff_of_true backed.grant trivial
  | removed clientId id m stored =>
    rw [locks_removed, Locks.backed_remove backed, ← onlyListedBy_iff, RemovesOwn, toRemove,
      if_pos (HashMap.mem_of_lookup stored), Option.elim_some]
  | acked clientId id ids messageId unnamed first =>
    rw [locks_acked first, Locks.backed_remove backed, ← onlyListedBy_iff, RemovesOwn,
      toRemove_unnamed clientId unnamed, first, List.head?_cons, Option.elim_some]
  | released clientId id =>
    rw [locks_released]
    exact iff_of_true backed.release trivial
  | requeued clientId id now m stored =>
    rw [locks_requeued clientId id rfl, Locks.backed_remove backed.put]
    have same : (s.locks.put (newId s.order)).OnlyOn clientId id ↔ s.OnlyListedBy clientId id :=
      onlyListedBy_iff.symm
    rw [same, RemovesOwn]
    exact ⟨fun h _ => h, fun h => h (HashMap.mem_of_lookup stored)⟩
  | updated id m payload stored =>
    rw [locks_updated payload stored]
    exact iff_of_true backed trivial

theorem backed_new : new.locks.Backed := by
  rw [locks_new]
  intro c i listed
  cases listed

theorem backed_of_removesOwn {ops : List Op} (own : Transition.EveryStep step RemovesOwn new ops) :
    Transition.EveryState step (fun s => s.locks.Backed) new ops :=
  (Transition.everyState_iff_everyStep (rooted_run ops) backed_new fun _ op rooted backed =>
    backed_step rooted backed op).2 own

/-- No call panics in this state. -/
def NeverPanics (s : Queue) : Prop := ∀ op : Op, (op.call.run s).1.Returns

/-- The only unwrap that can go wrong is the one of the message under a listed id. -/
theorem returns_of_backed {s : Queue} (h : s.Rooted) (backed : s.locks.Backed) :
    s.NeverPanics := by
  intro op
  have answer := call_answer h op
  generalize op.call.run s = result at answer ⊢
  cases answer with
  | done => trivial
  | refused => trivial
  | @panicked clientId id ids messageId effect first gone =>
    exact absurd (status_eq_none.2 gone) (backed clientId id (by simp [locks, first]))

/-- As long as nobody removes what is on another client's list, no call panics. -/
theorem neverPanics_of_removesOwn (ops : List Op)
    (own : Transition.EveryStep step RemovesOwn new ops) :
    Transition.EveryState step NeverPanics new ops :=
  ((rooted_run ops).and (backed_of_removesOwn own)).mono fun _ h => returns_of_backed h.1 h.2

/-- Two clients, each removing the message that it holds. -/
theorem neverPanics_two_clients : Transition.EveryState step NeverPanics new
    [.enqueue [1] 7 0, .enqueue [2] 7 0, .lockToRead 1, .lockToRead 2, .dequeue 1 none,
      .dequeue 2 (some 2)] :=
  neverPanics_of_removesOwn _ (by decide)

/-- A second client removes the message that the first one holds; acknowledging it then panics. -/
theorem ack_after_removal_panics :
    ¬ ∀ ops, Transition.EveryState step NeverPanics new ops := by
  intro never
  have returns := (never [.enqueue [] 7 0, .lockToRead 1, .dequeue 2 (some 1)]).last (.dequeue 1 none)
  exact absurd returns (by decide)

end Queue

end DataBroker
