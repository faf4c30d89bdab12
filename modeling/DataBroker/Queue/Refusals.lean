import DataBroker.Queue.Ownership

/-!
# Refused calls

A call that returns an error has changed nothing (`failsCleanly_run`). Not every call that ought to
be refused is: a `dequeue` with an id that is not stored acknowledges the message that the caller
locked first, if there is one (`removesOnly_iff`).
-/

namespace DataBroker

namespace Queue

/-- A call that returns an error leaves the queue as it was. -/
def FailsCleanly (s : Queue) : Prop :=
  ∀ (op : Op) (error : IoError), (op.call.run s).1 = .err error → (op.call.run s).2 = s

theorem Rooted.failsCleanly {s : Queue} (h : s.Rooted) : s.FailsCleanly := by
  intro op error failed
  have answer := call_answer h op
  generalize op.call.run s = result at answer failed ⊢
  cases answer with
  | done => cases failed
  | refused => rfl
  | panicked => cases failed

/-- No error comes after a change, in any state of any run. -/
theorem failsCleanly_run (ops : List Op) : Transition.EveryState step FailsCleanly new ops :=
  (rooted_run ops).mono fun _ h => h.failsCleanly

/-! ## Removal by id -/

/-- `dequeue` with the id `m` removes the message `m` if it is stored, and is refused if it is not;
all other messages, and the other entries of all lists, stay. -/
structure RemovesOnly (s : Queue) (c m : U128) : Prop where
  succeeds : m ∈ s.queue → ∃ size, ((dequeue c (some m)).run s).1 = .ok size
  removes : m ∈ s.queue → ((dequeue c (some m)).run s).2.queue = s.queue.erase m
  refuses : m ∉ s.queue → ∃ error, (dequeue c (some m)).run s = (.err error, s)
  messages : ∀ k ≠ m, ((dequeue c (some m)).run s).2.queue.lookup k = s.queue.lookup k
  lists : ∀ d, (((dequeue c (some m)).run s).2.lockedIds d).filter (· ≠ m) =
    (s.lockedIds d).filter (· ≠ m)

variable {s : Queue} {c m : U128}

theorem filter_erase (ids : List U128) (id : U128) :
    (ids.erase id).filter (· ≠ id) = ids.filter (· ≠ id) := by
  rw [← List.erase_filter, List.erase_of_not_mem (by simp)]

theorem filter_lockedIds_removed (s : Queue) (c id d : U128) :
    ((s.removed c id).lockedIds d).filter (· ≠ id) = (s.lockedIds d).filter (· ≠ id) := by
  rw [lockedIds_removed]
  split_ifs
  · exact filter_erase _ _
  · rfl

theorem removesOnly_of_mem (rooted : s.Rooted) (mem : m ∈ s.queue) : s.RemovesOnly c m := by
  obtain ⟨message, stored⟩ := Finmap.mem_iff.1 mem
  have run := run_dequeue_id c (rooted.listed m mem) stored
  constructor
  · exact fun _ => ⟨message.payload.length, by rw [run]⟩
  · exact fun _ => by rw [run]; rfl
  · exact fun absent => absurd mem absent
  · intro k ne
    rw [run, lookup_removed, if_neg ne]
  · intro d
    rw [run]
    exact filter_lockedIds_removed s c m d

theorem removesOnly_of_refused (absent : m ∉ s.queue)
    (refused : ∃ error, (dequeue c (some m)).run s = (.err error, s)) : s.RemovesOnly c m := by
  constructor
  · exact fun mem => absurd mem absent
  · exact fun mem => absurd mem absent
  · exact fun _ => refused
  · obtain ⟨error, run⟩ := refused
    intro k _
    rw [run]
  · obtain ⟨error, run⟩ := refused
    intro d
    rw [run]

/-- A `dequeue` with an id touches that id only if and only if the message is stored, `order` is
empty, or the caller has nothing on its list. -/
theorem removesOnly_iff (ops : List Op) :
    Transition.EveryState step (fun s => ∀ c m, s.RemovesOnly c m ↔
      m ∈ s.queue ∨ s.order = [] ∨ s.lockedIds c = []) new ops := by
  apply (rooted_run ops).mono
  intro s rooted c m
  by_cases mem : m ∈ s.queue
  · exact iff_of_true (removesOnly_of_mem rooted mem) (.inl mem)
  rw [or_iff_right mem]
  by_cases empty : s.order = []
  · exact iff_of_true (removesOnly_of_refused mem ⟨_, dequeue_empty c (some m) empty⟩) (.inl empty)
  rw [or_iff_right empty]
  have run := (run_dequeue_absent c mem).trans (run_dequeue_locked c empty)
  cases mine : s.lockedIds c with
  | nil =>
    obtain ⟨error, refused⟩ := dequeueLocked_err mine
    exact iff_of_true (removesOnly_of_refused mem ⟨error, run.trans refused⟩) rfl
  | cons id ids =>
    refine iff_of_false (fun h => ?_) (List.cons_ne_nil id ids)
    obtain ⟨error, refused⟩ := h.refuses mem
    rw [run, run_dequeueLocked (lookup_locked mine)] at refused
    have outcome := congrArg Prod.fst refused
    cases stored : s.queue.lookup id <;> simp [stored] at outcome

/-- A client that has a message locked removes an id that is not stored, and loses its message. -/
theorem absent_id_acknowledges :
    ¬ ∀ ops, Transition.EveryState step (fun s => ∀ c m, s.RemovesOnly c m) new ops := by
  intro only
  have last := (only [.enqueue [1] 7 0, .lockToRead 1]).last 1 9
  exact absurd (last.messages 1 (by decide)) (by decide)

end Queue

end DataBroker
