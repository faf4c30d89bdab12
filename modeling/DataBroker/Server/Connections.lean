import DataBroker.Server.Drain
import Mathlib.Data.Multiset.Range
import Mathlib.Algebra.BigOperators.Group.Multiset.Basic
import Mathlib.Tactic.Abel

/-!
# Where the connections are

With workers in the pool, an accepted connection is at one place at any time: with its task, on its
way to a worker or in its channel, in its hands, or handled (`Listener.Placed`). Behind
`stop_accepting` every step that does something brings a connection on, so the server comes to the
end of them, and notifies `drained`. What a client does is open: the end of `handle_connection` is a
step that is possible at any time.
-/

namespace DataBroker

section Sums

variable {M : Type*} [AddCommMonoid M] (g : Worker → M) {workers : List Worker} {w : ℕ} {k : Worker}

/-- A quantity of the workers, after one of them was replaced. -/
theorem sum_map_set (found : workers[w]? = some k) (k' : Worker) :
    ((workers.set w k').map g).sum + g k = (workers.map g).sum + g k' := by
  obtain ⟨inside, rfl⟩ := List.getElem?_eq_some_iff.1 found
  have whole : workers = workers.take w ++ workers[w] :: workers.drop (w + 1) := by
    rw [List.getElem_cons_drop, List.take_append_drop]
  rw [List.set_eq_take_append_cons_drop, if_pos inside]
  conv_rhs => rw [whole]
  simp only [List.map_append, List.map_cons, List.sum_append, List.sum_cons]
  abel

/-- A quantity of the workers, after one of them changed. -/
theorem sum_map_modify (found : workers[w]? = some k) (f : Worker → Worker) :
    ((workers.modify w f).map g).sum + g k = (workers.map g).sum + g (f k) := by
  have replaced : workers.modify w f = workers.set w (f k) := by
    apply List.ext_getElem?
    intro i
    rw [List.getElem?_modify, List.getElem?_set]
    split_ifs with here inside
    · rw [← here, found]
      rfl
    · rw [← here, List.getElem?_eq_none (not_lt.1 inside)]
      rfl
    · exact Option.map_id'
  rw [replaced, sum_map_set g found]

end Sums

namespace Job

/-- The connection in the hands of a worker. -/
def holds : Job → Multiset ℕ
  | received c => {c}
  | running c => {c}
  | _ => 0

/-- How much a worker has before it with its connection. -/
def work : Job → ℕ
  | idle => 0
  | received _ => 3
  | running _ => 2
  | finished => 1

end Job

namespace Worker

def holds (k : Worker) : Multiset ℕ := k.sending + k.channel + k.job.holds

def work (k : Worker) : ℕ := 5 * k.sending.length + 4 * k.channel.length + k.job.work

theorem holds_submit (c : ℕ) (k : Worker) : (k.submit c).holds = {c} + k.holds := by
  simp only [holds, submit, ← Multiset.coe_add, Multiset.coe_singleton]
  abel

theorem work_submit (c : ℕ) (k : Worker) : (k.submit c).work = k.work + 5 := by
  simp only [work, submit, List.length_append, List.length_singleton]
  omega

/-- A worker keeps its connections, and whatever it does takes from its work. -/
structure GoesOn (k k' : Worker) : Prop where
  holds : k'.holds = k.holds
  work : k' = k ∨ k'.work < k.work

theorem GoesOn.refl (k : Worker) : k.GoesOn k := ⟨rfl, .inl rfl⟩

theorem goesOn_send (queueCapacity : ℕ) (k : Worker) : k.GoesOn (k.send queueCapacity) := by
  obtain ⟨pressure, sending, channel, job⟩ := k
  cases sending with
  | nil => exact .refl _
  | cons c sending =>
    unfold send
    dsimp only
    split_ifs
    · refine ⟨?_, .inr ?_⟩
      · simp only [holds, ← Multiset.coe_add, ← Multiset.cons_coe, ← Multiset.singleton_add,
          Multiset.coe_nil]
        abel
      · simp only [work, List.length_append, List.length_cons, List.length_nil]
        omega
    · exact .refl _

theorem goesOn_receive (queueCapacity : ℕ) (k : Worker) : k.GoesOn (k.receive queueCapacity) := by
  obtain ⟨pressure, sending, channel, job⟩ := k
  unfold receive
  split
  next c channel idle here =>
    obtain rfl : job = .idle := idle
    obtain rfl : _ = c :: channel := here
    refine ⟨?_, .inr ?_⟩
    · simp only [holds, Job.holds, ← Multiset.cons_coe, ← Multiset.singleton_add]
      abel
    · simp only [work, Job.work, List.length_cons]
      omega
  next c sending idle here there =>
    obtain rfl : job = .idle := idle
    obtain rfl : _ = c :: sending := there
    obtain rfl : channel = [] := here
    split_ifs
    · refine ⟨?_, .inr ?_⟩
      · simp only [holds, Job.holds, ← Multiset.cons_coe, ← Multiset.singleton_add]
        abel
      · simp only [work, Job.work, List.length_cons]
        omega
    · exact .refl _
  · exact .refl _

theorem goesOn_release (k : Worker) : k.GoesOn k.release := by
  obtain ⟨pressure, sending, channel, job⟩ := k
  cases job with
  | finished => exact ⟨rfl, .inr (by simp [work, Job.work, release])⟩
  | _ => exact .refl _

end Worker

/-- The steps that `run` has before it from its accept loop on. -/
def Phase.work : Phase → ℕ
  | accepting => 2
  | polling => 1
  | drained => 0

namespace Listener

/-- The accepted connections, each where it is. -/
def places (s : Listener) : Multiset ℕ :=
  s.unsubmitted + (s.workers.map Worker.holds).sum + s.handled

/-- How much there is to do before the server has drained. -/
def work (s : Listener) : ℕ :=
  6 * s.unsubmitted.length + (s.workers.map Worker.work).sum + s.phase.work

/-- Every accepted connection is at one place. -/
structure Placed (workers : ℕ) (s : Listener) : Prop where
  workers : s.workers.length = workers
  places : s.places = Multiset.range s.accepted

variable {s : Listener} {queueCapacity workers w : ℕ}

theorem placed_start (workers : ℕ) : (start workers).Placed workers where
  workers := List.length_replicate
  places := by
    have none : ((start workers).workers.map Worker.holds).sum = 0 := by
      rw [start, List.map_replicate, List.sum_replicate]
      exact nsmul_zero _
    rw [places, none]
    rfl

/-- What a worker does by itself moves no connection to another place. -/
theorem Placed.modify (placed : s.Placed workers) {f : Worker → Worker}
    (goes : ∀ k : Worker, k.GoesOn (f k)) (w : ℕ) :
    Placed workers { s with workers := s.workers.modify w f } := by
  refine ⟨(List.length_modify ..).trans placed.workers, Eq.trans ?_ placed.places⟩
  by_cases inside : w < s.workers.length
  · have moved := sum_map_modify Worker.holds (List.getElem?_eq_getElem inside) f
    rw [(goes _).holds] at moved
    rw [Listener.places, add_right_cancel moved]
    rfl
  · rw [List.modify_eq_self (not_lt.1 inside)]

/-- What a worker does by itself takes from the work. -/
theorem work_modify {f : Worker → Worker} (goes : ∀ k : Worker, k.GoesOn (f k)) (w : ℕ)
    (changes : { s with workers := s.workers.modify w f } ≠ s) :
    work { s with workers := s.workers.modify w f } < s.work := by
  by_cases inside : w < s.workers.length
  · have less := sum_map_modify Worker.work (List.getElem?_eq_getElem inside) f
    have falls : (f s.workers[w]).work < s.workers[w].work := by
      refine (goes s.workers[w]).work.resolve_left fun same => changes ?_
      have still : s.workers.modify w f = s.workers := by
        apply List.ext_getElem (List.length_modify ..)
        intro i _ _
        rw [List.getElem_modify]
        split_ifs with here
        · subst here
          exact same
        · rfl
      rw [still]
    unfold work
    dsimp only
    omega
  · exact absurd (by rw [List.modify_eq_self (not_lt.1 inside)]) changes

theorem exists_leastPressed (some : s.workers ≠ []) :
    ∃ w k, s.leastPressed = Option.some w ∧ s.workers[w]? = Option.some k := by
  unfold leastPressed
  cases least : s.workers.zipIdx.argmin fun entry => entry.1.pressure with
  | none => exact absurd (List.argmin_eq_none.1 least) (by simpa using some)
  | some entry =>
    obtain ⟨k, w⟩ := entry
    exact ⟨w, k, rfl, List.mem_zipIdx_iff_getElem?.1 (List.argmin_mem least)⟩

/-- What `submit` does where there is a worker. -/
theorem submit_spec (some : s.workers ≠ []) {c : ℕ} (inside : c ∈ s.unsubmitted) :
    ∃ w k, s.workers[w]? = Option.some k ∧ s.submit c =
      { s with
        unsubmitted := s.unsubmitted.erase c
        workers := s.workers.modify w (·.submit c) } := by
  obtain ⟨w, k, least, found⟩ := exists_leastPressed some
  exact ⟨w, k, found, by rw [submit, if_pos inside]; simp only [least]⟩

theorem Placed.submit (placed : s.Placed workers) (some : 0 < workers) (c : ℕ) :
    (s.submit c).Placed workers := by
  by_cases inside : c ∈ s.unsubmitted
  · obtain ⟨w, k, found, same⟩ :=
      submit_spec (List.ne_nil_of_length_pos (placed.workers ▸ some)) inside
    rw [same]
    refine ⟨(List.length_modify ..).trans placed.workers, Eq.trans ?_ placed.places⟩
    have moved := sum_map_modify Worker.holds found (·.submit c)
    rw [Worker.holds_submit, ← add_assoc] at moved
    unfold Listener.places
    dsimp only
    rw [add_right_cancel moved, ← Multiset.coe_erase,
      ← Multiset.cons_erase (Multiset.mem_coe.2 inside), Multiset.erase_cons_head,
      ← Multiset.singleton_add]
    abel
  · rw [Listener.submit, if_neg inside]
    exact placed

theorem work_submit (placed : s.Placed workers) (some : 0 < workers) {c : ℕ}
    (changes : s.submit c ≠ s) : (s.submit c).work < s.work := by
  by_cases inside : c ∈ s.unsubmitted
  · obtain ⟨w, k, found, same⟩ :=
      submit_spec (List.ne_nil_of_length_pos (placed.workers ▸ some)) inside
    have more := sum_map_modify Worker.work found (·.submit c)
    rw [Worker.work_submit] at more
    have := List.length_erase_of_mem inside
    have := List.length_pos_of_mem inside
    rw [same]
    unfold work
    dsimp only
    omega
  · exact absurd (by rw [submit, if_neg inside]) changes

/-- What `count` does with a worker that has received a connection. -/
theorem count_spec (s : Listener) (w : ℕ) : s.count w = s ∨ ∃ k c, s.workers[w]? = some k ∧
    k.job = .received c ∧ s.count w =
      { s with
        workers := s.workers.set w { k with job := .running c }
        activeConnections := s.activeConnections + 1
        counted := s.counted ++ [c] } := by
  unfold count
  split
  next pressure sending channel c found => exact .inr ⟨_, c, found, rfl, rfl⟩
  · exact .inl rfl

/-- What `finish` does with a worker that serves a connection. -/
theorem finish_spec (s : Listener) (w : ℕ) : s.finish w = s ∨ ∃ k c, s.workers[w]? = some k ∧
    k.job = .running c ∧ s.finish w =
      { s with
        workers := s.workers.set w { k with job := .finished }
        activeConnections := s.activeConnections - 1
        handled := s.handled ++ [c] } := by
  unfold finish
  split
  next pressure sending channel c found => exact .inr ⟨_, c, found, rfl, rfl⟩
  · exact .inl rfl

theorem Placed.count (placed : s.Placed workers) (w : ℕ) : (s.count w).Placed workers := by
  rcases count_spec s w with same | ⟨k, c, found, job, same⟩
  · rwa [same]
  · rw [same]
    refine ⟨(List.length_set ..).trans placed.workers, Eq.trans ?_ placed.places⟩
    have moved := sum_map_set Worker.holds found { k with job := .running c }
    have kept : Worker.holds { k with job := .running c } = k.holds := by
      rw [Worker.holds, Worker.holds, job]
      rfl
    rw [kept] at moved
    rw [Listener.places, add_right_cancel moved]
    rfl

theorem work_count (changes : s.count w ≠ s) : (s.count w).work < s.work := by
  obtain ⟨k, c, found, job, same⟩ := (count_spec s w).resolve_left changes
  have less := sum_map_set Worker.work found { k with job := .running c }
  have : Worker.work { k with job := .running c } + 1 = k.work := by
    rw [Worker.work, Worker.work, job]
    rfl
  rw [same]
  unfold work
  dsimp only
  omega

theorem Placed.finish (placed : s.Placed workers) (w : ℕ) : (s.finish w).Placed workers := by
  rcases finish_spec s w with same | ⟨k, c, found, job, same⟩
  · rwa [same]
  · rw [same]
    refine ⟨(List.length_set ..).trans placed.workers, Eq.trans ?_ placed.places⟩
    have moved := sum_map_set Worker.holds found { k with job := .finished }
    have given : k.holds = {c} + Worker.holds { k with job := .finished } := by
      rw [Worker.holds, Worker.holds, job]
      simp only [Job.holds]
      abel
    rw [given, ← add_assoc] at moved
    unfold Listener.places
    dsimp only
    rw [← add_right_cancel moved, ← Multiset.coe_add, Multiset.coe_singleton]
    abel

theorem work_finish (changes : s.finish w ≠ s) : (s.finish w).work < s.work := by
  obtain ⟨k, c, found, job, same⟩ := (finish_spec s w).resolve_left changes
  have less := sum_map_set Worker.work found { k with job := .finished }
  have : Worker.work { k with job := .finished } + 1 = k.work := by
    rw [Worker.work, Worker.work, job]
    rfl
  rw [same]
  unfold work
  dsimp only
  omega

theorem Placed.step (placed : s.Placed workers) (some : 0 < workers) (turn : DrainTurn) :
    (s.step queueCapacity turn).Placed workers := by
  cases turn with
  | accept =>
    show s.accept.Placed workers
    unfold accept
    split_ifs
    · refine ⟨placed.workers, ?_⟩
      rw [Multiset.range_succ, ← placed.places]
      unfold Listener.places
      dsimp only
      rw [← Multiset.coe_add, Multiset.coe_singleton, ← Multiset.singleton_add]
      abel
    · exact placed
  | submit c => exact placed.submit some c
  | send w => exact placed.modify (Worker.goesOn_send queueCapacity) w
  | receive w => exact placed.modify (Worker.goesOn_receive queueCapacity) w
  | count w => exact placed.count w
  | finish w => exact placed.finish w
  | release w => exact placed.modify Worker.goesOn_release w
  | stop =>
    show s.stop.Placed workers
    unfold stop
    split_ifs
    · exact ⟨placed.workers, placed.places⟩
    · exact placed
  | poll =>
    show s.poll.Placed workers
    unfold poll
    split_ifs
    · exact ⟨placed.workers, placed.places⟩
    · exact placed

/-- Behind the accept loop every step that does something takes from the work. -/
theorem work_step (placed : s.Placed workers) (some : 0 < workers) (stopped : s.phase ≠ .accepting)
    {turn : DrainTurn} (changes : s.step queueCapacity turn ≠ s) :
    (s.step queueCapacity turn).work < s.work := by
  cases turn with
  | accept => exact absurd (if_neg stopped) changes
  | submit c => exact work_submit placed some changes
  | send w => exact work_modify (Worker.goesOn_send queueCapacity) w changes
  | receive w => exact work_modify (Worker.goesOn_receive queueCapacity) w changes
  | count w => exact work_count changes
  | finish w => exact work_finish changes
  | release w => exact work_modify Worker.goesOn_release w changes
  | stop => exact absurd (if_neg stopped) changes
  | poll =>
    have reads : s.phase = .polling ∧ s.activeConnections = 0 :=
      by_contra fun not => changes (if_neg not)
    show s.poll.work < s.work
    rw [poll, if_pos reads]
    unfold work
    rw [reads.1]
    exact Nat.lt_succ_self _

/-- Only `stop` and `poll` lead to another phase. -/
theorem phase_step (queueCapacity : ℕ) {turn : DrainTurn} (stop : turn ≠ .stop) (poll : turn ≠ .poll) :
    (s.step queueCapacity turn).phase = s.phase := by
  cases turn with
  | accept =>
    show s.accept.phase = _
    unfold accept
    split_ifs <;> rfl
  | submit c =>
    show (s.submit c).phase = _
    unfold submit
    split_ifs
    · dsimp only
      split <;> rfl
    · rfl
  | count w =>
    show (s.count w).phase = _
    rcases count_spec s w with same | ⟨k, c, -, -, same⟩ <;> rw [same]
  | finish w =>
    show (s.finish w).phase = _
    rcases finish_spec s w with same | ⟨k, c, -, -, same⟩ <;> rw [same]
  | stop => exact absurd rfl stop
  | poll => exact absurd rfl poll
  | _ => rfl

theorem stopped_step (stopped : s.phase ≠ .accepting) (turn : DrainTurn) :
    (s.step queueCapacity turn).phase ≠ .accepting := by
  cases turn with
  | stop =>
    show s.stop.phase ≠ _
    rwa [stop, if_neg stopped]
  | poll =>
    show s.poll.phase ≠ _
    unfold poll
    split_ifs
    · exact fun drained => by cases drained
    · exact stopped
  | _ => rwa [phase_step queueCapacity (by simp) (by simp)]

theorem drained_step (queueCapacity : ℕ) (drained : s.phase = .drained) (turn : DrainTurn) :
    (s.step queueCapacity turn).phase = .drained := by
  cases turn with
  | stop =>
    show s.stop.phase = _
    rw [stop, if_neg (by simp [drained]), drained]
  | poll =>
    show s.poll.phase = _
    rw [poll, if_neg (by simp [drained]), drained]
  | _ => rwa [phase_step queueCapacity (by simp) (by simp)]

/-! ## Nothing more to do -/

theorem still_modify {f : Worker → Worker} {k : Worker} (found : s.workers[w]? = some k)
    (still : { s with workers := s.workers.modify w f } = s) : f k = k := by
  have same : s.workers.modify w f = s.workers := congrArg Listener.workers still
  have here := congrArg (·[w]?) same
  simpa [List.getElem?_modify, found] using here

/-- Where no step does anything, a worker has nothing to do. -/
theorem idle_of_still (still : ∀ turn, s.step queueCapacity turn = s) {k : Worker}
    (found : s.workers[w]? = some k) : k.holds = 0 ∧ k.serving = none := by
  have sends : k.send queueCapacity = k := still_modify found (still (.send w))
  have receives : k.receive queueCapacity = k := still_modify found (still (.receive w))
  have releases : k.release = k := still_modify found (still (.release w))
  obtain ⟨pressure, sending, channel, job⟩ := k
  cases job with
  | received c =>
    have counts : (s.count w).activeConnections = s.activeConnections :=
      congrArg activeConnections (still (.count w))
    rw [count, found] at counts
    exact absurd counts (Nat.succ_ne_self _)
  | running c =>
    have finishes : (s.finish w).handled = s.handled := congrArg handled (still (.finish w))
    rw [finish, found] at finishes
    simp at finishes
  | finished => cases congrArg Worker.job releases
  | idle =>
    cases channel with
    | cons c channel => cases congrArg Worker.job receives
    | nil =>
      cases sending with
      | nil => exact ⟨rfl, rfl⟩
      | cons c sending =>
        -- a channel without room hands over what is being sent
        by_cases room : queueCapacity = 0
        · have received : (Worker.mk pressure (c :: sending) [] .idle).receive queueCapacity =
              ⟨pressure, sending, [], .received c⟩ := if_pos room
          cases congrArg Worker.job (received.symm.trans receives)
        · have sent : (Worker.mk pressure (c :: sending) [] .idle).send queueCapacity =
              ⟨pressure, sending, [c], .idle⟩ := if_pos (Nat.pos_of_ne_zero room)
          cases congrArg Worker.channel (sent.symm.trans sends)

/-- Where no step does anything, the server has drained. -/
theorem drained_of_still (placed : s.Placed workers) (some : 0 < workers) (tallied : s.Tallied)
    (still : ∀ turn, s.step queueCapacity turn = s) :
    s.phase = .drained ∧ ∀ c < s.accepted, c ∈ s.handled := by
  have nothing : ∀ k ∈ s.workers, k.holds = 0 ∧ k.serving = none := by
    intro k inside
    obtain ⟨w, found⟩ := List.getElem?_of_mem inside
    exact idle_of_still still found
  have unsubmitted : s.unsubmitted = [] := by
    refine List.eq_nil_iff_forall_not_mem.2 fun c inside => ?_
    obtain ⟨w, k, -, same⟩ :=
      submit_spec (List.ne_nil_of_length_pos (placed.workers ▸ some)) inside
    have erased : s.unsubmitted.erase c = s.unsubmitted :=
      congrArg Listener.unsubmitted (same.symm.trans (still (.submit c)))
    have := List.length_erase_of_mem inside
    have := List.length_pos_of_mem inside
    rw [erased] at *
    omega
  have inactive : s.activeConnections = 0 := by
    rw [tallied.active, serving, List.filterMap_eq_nil_iff.2 fun k inside => (nothing k inside).2]
    rfl
  constructor
  · cases phase : s.phase with
    | accepting =>
      have accepts : s.accept.accepted = s.accepted := congrArg accepted (still .accept)
      rw [accept, if_pos phase] at accepts
      exact absurd accepts (Nat.succ_ne_self _)
    | polling =>
      have polls : s.poll.phase = s.phase := congrArg Listener.phase (still .poll)
      rw [poll, if_pos ⟨phase, inactive⟩, phase] at polls
      cases polls
    | drained => rfl
  · intro c known
    have here : c ∈ s.places := placed.places ▸ Multiset.mem_range.2 known
    have none : (s.workers.map Worker.holds).sum = 0 :=
      List.sum_eq_zero fun x inside => by
        obtain ⟨k, mem, rfl⟩ := List.mem_map.1 inside
        exact (nothing k mem).1
    rw [places, unsubmitted, none] at here
    simpa using here

/-- With workers in the pool, every accepted connection is at exactly one place at any time, and no
more of them are active than there are workers. Behind the accept loop a run changes the state as
often as there is work at most, and where no step does anything any more, also no end of a
`handle_connection`, `drained` was notified and every accepted connection has been handled. -/
theorem connections_drain {workers : ℕ} (some : 0 < workers) (queueCapacity : ℕ)
    (turns : List DrainTurn) :
    let s := Transition.run (step queueCapacity) (start workers) turns
    s.places = Multiset.range s.accepted ∧ s.activeConnections ≤ workers ∧
      (s.phase ≠ .accepting → ∀ later, Transition.moves (step queueCapacity) s later ≤ s.work) ∧
      ((∀ turn, s.step queueCapacity turn = s) →
        s.phase = .drained ∧ ∀ c < s.accepted, c ∈ s.handled) := by
  intro s
  have placed : s.Placed workers := (Transition.invariant (placed_start workers)
    (fun _ turn (h : Placed workers _) => h.step some turn) turns).last
  have tallied : s.Tallied := (Transition.invariant (Tallied.start workers)
    (fun _ turn (h : Tallied _) => h.step turn) turns).last
  refine ⟨placed.places, ?_, fun stopped later => ?_, drained_of_still placed some tallied⟩
  · rw [tallied.active, ← placed.workers]
    exact List.length_filterMap_le ..
  · exact Transition.moves_le (I := fun s => Placed workers s ∧ s.phase ≠ .accepting)
      ⟨placed, stopped⟩ (fun _ turn h => ⟨h.1.step some turn, stopped_step h.2 turn⟩)
      (fun _ _ h changes => work_step h.1 some h.2 changes) later

/-- Two connections and one worker, up to the end of the first one. -/
def twoConnections : List DrainTurn :=
  [.accept, .submit 0, .accept, .stop, .send 0, .receive 0, .count 0, .submit 1, .finish 0]

theorem connections_drain_two :
    let s := Transition.run (step 1) (start 1) twoConnections
    s.places = Multiset.range 2 ∧ s.activeConnections ≤ 1 ∧
      ∀ later, Transition.moves (step 1) s later ≤ 7 := by
  obtain ⟨places, active, moves, -⟩ := connections_drain Nat.zero_lt_one 1 twoConnections
  exact ⟨places, active, fun later => moves (by decide) later⟩

end Listener

end DataBroker
