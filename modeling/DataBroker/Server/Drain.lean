import DataBroker.Lib.Transition
import Mathlib.Data.List.MinMax

/-!
# Draining

`Server::run` accepts connections until `stop_accepting` is notified. A task of its own submits each
connection to the pool, and a worker handles the connections of its channel one after the other.
Behind the accept loop `run` polls `active_connections`, and notifies `drained` once it reads 0.

The worker counts a connection when it begins to handle it. One that is on its way to a worker does
not show in `active_connections`.
-/

namespace DataBroker

/-- What a worker does with the connection that it has received. -/
inductive Job where
  | idle
  | received (c : ℕ)
  | running (c : ℕ)
  | finished
deriving DecidableEq, Repr

/-- A worker of the pool, the connections in its channel, and those that are being sent to it. -/
structure Worker where
  pressure : ℕ
  sending : List ℕ
  channel : List ℕ
  job : Job
deriving DecidableEq, Repr

inductive Phase where
  | accepting
  | polling
  | drained
deriving DecidableEq, Repr

/-- `Server::run` and its pool. The connections are numbered as they were accepted; `counted` and
`handled` record for which of them `handle_connection` has begun and has come to its end. -/
structure Listener where
  phase : Phase
  accepted : ℕ
  unsubmitted : List ℕ
  workers : List Worker
  activeConnections : ℕ
  counted : List ℕ
  handled : List ℕ
deriving DecidableEq, Repr

/-- A step of `Server::run`, of a task that submits a connection, or of a worker. -/
inductive DrainTurn where
  | accept
  | submit (c : ℕ)
  | send (w : ℕ)
  | receive (w : ℕ)
  | count (w : ℕ)
  | finish (w : ℕ)
  | release (w : ℕ)
  | stop
  | poll
deriving DecidableEq, Repr

namespace Worker

def new : Worker := ⟨0, [], [], .idle⟩

/-- `fetch_add` on the pressure, and the job given to `spawn_blocking`. -/
def submit (c : ℕ) (k : Worker) : Worker :=
  { k with pressure := k.pressure + 1, sending := k.sending ++ [c] }

/-- `sender.send`, where the channel has room. -/
def send (queueCapacity : ℕ) (k : Worker) : Worker :=
  match k.sending with
  | c :: sending =>
    if k.channel.length < queueCapacity then { k with sending, channel := k.channel ++ [c] } else k
  | [] => k

/-- `receiver.recv`. A channel of capacity 0 hands over what is being sent. -/
def receive (queueCapacity : ℕ) (k : Worker) : Worker :=
  match k.job, k.channel, k.sending with
  | .idle, c :: channel, _ => { k with channel, job := .received c }
  | .idle, [], c :: sending =>
    if queueCapacity = 0 then { k with sending, job := .received c } else k
  | _, _, _ => k

/-- `fetch_sub` on the pressure, behind `block_on`. -/
def release (k : Worker) : Worker :=
  match k.job with
  | .finished => { k with pressure := k.pressure - 1, job := .idle }
  | _ => k

end Worker

namespace Listener

/-- `Pool::new` with its workers, and no connection yet. -/
def start (workers : ℕ) : Listener := ⟨.accepting, 0, [], List.replicate workers .new, 0, [], []⟩

/-- The first worker with the least pressure. -/
def leastPressed (s : Listener) : Option ℕ :=
  (s.workers.zipIdx.argmin fun entry => entry.1.pressure).map Prod.snd

/-- `listener.accept`, and a task for the connection. -/
def accept (s : Listener) : Listener :=
  if s.phase = .accepting then
    { s with accepted := s.accepted + 1, unsubmitted := s.unsubmitted ++ [s.accepted] }
  else s

/-- `Pool::spawn`. Without workers the index panics, and the connection is dropped. -/
def submit (s : Listener) (c : ℕ) : Listener :=
  if c ∈ s.unsubmitted then
    let unsubmitted := s.unsubmitted.erase c
    match s.leastPressed with
    | some w => { s with unsubmitted, workers := s.workers.modify w (·.submit c) }
    | none => { s with unsubmitted }
  else s

/-- `handle_connection` begins. -/
def count (s : Listener) (w : ℕ) : Listener :=
  match s.workers[w]? with
  | some ⟨pressure, sending, channel, .received c⟩ =>
    { s with
      workers := s.workers.set w ⟨pressure, sending, channel, .running c⟩
      activeConnections := s.activeConnections + 1
      counted := s.counted ++ [c] }
  | _ => s

/-- `handle_connection` comes to its end. -/
def finish (s : Listener) (w : ℕ) : Listener :=
  match s.workers[w]? with
  | some ⟨pressure, sending, channel, .running c⟩ =>
    { s with
      workers := s.workers.set w ⟨pressure, sending, channel, .finished⟩
      activeConnections := s.activeConnections - 1
      handled := s.handled ++ [c] }
  | _ => s

/-- The accept loop takes the arm of `stop_accepting`. -/
def stop (s : Listener) : Listener :=
  if s.phase = .accepting then { s with phase := .polling } else s

/-- A look at `active_connections` behind the accept loop. -/
def poll (s : Listener) : Listener :=
  if s.phase = .polling ∧ s.activeConnections = 0 then { s with phase := .drained } else s

def step (queueCapacity : ℕ) (s : Listener) : DrainTurn → Listener
  | .accept => s.accept
  | .submit c => s.submit c
  | .send w => { s with workers := s.workers.modify w (·.send queueCapacity) }
  | .receive w => { s with workers := s.workers.modify w (·.receive queueCapacity) }
  | .count w => s.count w
  | .finish w => s.finish w
  | .release w => { s with workers := s.workers.modify w Worker.release }
  | .stop => s.stop
  | .poll => s.poll

/-- Once `drained` is notified, every accepted connection has been handled to its end. -/
def DrainedIsDrained (s : Listener) : Prop := s.phase = .drained → ∀ c < s.accepted, c ∈ s.handled

/-- A poll that reads 0 finds every accepted connection counted. -/
def PollsCounted (s : Listener) (turn : DrainTurn) : Prop :=
  turn = .poll → s.phase = .polling → s.activeConnections = 0 → ∀ c < s.accepted, c ∈ s.counted

/-! ## What is counted -/

end Listener

/-- The connection for which a worker is in `handle_connection`. -/
def Worker.serving (k : Worker) : Option ℕ :=
  match k.job with
  | .running c => some c
  | _ => none

namespace Listener

def serving (s : Listener) : List ℕ := s.workers.filterMap Worker.serving

/-- `activeConnections` counts what the workers serve, and what was counted is served or has been
handled. -/
structure Tallied (s : Listener) : Prop where
  active : s.activeConnections = s.serving.length
  counted : ∀ c, c ∈ s.counted ↔ c ∈ s.serving ∨ c ∈ s.handled

variable {s : Listener} {queueCapacity w : ℕ}

/-- A worker that goes on serving what it serves changes nothing. -/
theorem serving_modify {f : Worker → Worker} (keeps : ∀ k, (f k).serving = k.serving)
    (workers : List Worker) :
    (workers.modify w f).filterMap Worker.serving = workers.filterMap Worker.serving := by
  by_cases inside : w < workers.length
  · obtain ⟨before, k, after, same, -, changed⟩ := List.exists_of_modify f inside
    rw [changed, same, List.filterMap_append, List.filterMap_append, List.filterMap_cons,
      List.filterMap_cons, keeps]
  · rw [List.modify_eq_self (not_lt.1 inside)]

/-- What is served changes at the place of one worker. -/
theorem serving_set {workers : List Worker} {k : Worker} (found : workers[w]? = some k)
    (k' : Worker) : ∃ before after,
      workers.filterMap Worker.serving = before ++ k.serving.toList ++ after ∧
      (workers.set w k').filterMap Worker.serving = before ++ k'.serving.toList ++ after := by
  obtain ⟨inside, rfl⟩ := List.getElem?_eq_some_iff.1 found
  have split (k : Worker) (before after : List Worker) :
      (before ++ k :: after).filterMap Worker.serving =
        before.filterMap Worker.serving ++ k.serving.toList ++ after.filterMap Worker.serving := by
    rw [List.filterMap_append, List.filterMap_cons]
    cases k.serving <;> simp
  refine ⟨(workers.take w).filterMap Worker.serving,
    (workers.drop (w + 1)).filterMap Worker.serving, ?_, ?_⟩
  · rw [← split, List.getElem_cons_drop, List.take_append_drop]
  · rw [← split, List.set_eq_take_append_cons_drop, if_pos inside]

theorem Tallied.start (workers : ℕ) : (start workers).Tallied := by
  have none : (Listener.start workers).serving = [] := by
    apply List.filterMap_eq_nil_iff.2
    intro k inside
    rw [List.eq_of_mem_replicate inside]
    rfl
  constructor
  · rw [none]
    rfl
  · rw [none]
    simp [Listener.start]

/-- A step that leaves the records alone, and every worker with what it serves. -/
theorem Tallied.modify (h : s.Tallied) {f : Worker → Worker}
    (keeps : ∀ k, (f k).serving = k.serving) (unsubmitted : List ℕ) :
    Tallied { s with unsubmitted, workers := s.workers.modify w f } := by
  have same : serving { s with unsubmitted, workers := s.workers.modify w f } = s.serving :=
    serving_modify keeps s.workers
  constructor
  · rw [same]
    exact h.active
  · rw [same]
    exact h.counted

theorem Tallied.submit (h : s.Tallied) (c : ℕ) : (s.submit c).Tallied := by
  unfold Listener.submit
  split_ifs
  · dsimp only
    split
    · exact h.modify (fun k => show (k.submit c).serving = k.serving from rfl) _
    · exact ⟨h.active, h.counted⟩
  · exact h

theorem Tallied.count (h : s.Tallied) (w : ℕ) : (s.count w).Tallied := by
  unfold Listener.count
  split
  next pressure sending channel c found =>
    obtain ⟨before, after, old, new⟩ := serving_set found ⟨pressure, sending, channel, .running c⟩
    change s.serving = before ++ [] ++ after at old
    change _ = before ++ [c] ++ after at new
    constructor
    · rw [serving, new, h.active, old]
      simp
      omega
    · intro c'
      rw [serving, new, List.mem_append, h.counted, old]
      simp
      tauto
  · exact h

theorem Tallied.finish (h : s.Tallied) (w : ℕ) : (s.finish w).Tallied := by
  unfold Listener.finish
  split
  next pressure sending channel c found =>
    obtain ⟨before, after, old, new⟩ := serving_set found ⟨pressure, sending, channel, .finished⟩
    change s.serving = before ++ [c] ++ after at old
    change _ = before ++ [] ++ after at new
    constructor
    · rw [serving, new, h.active, old]
      simp
    · intro c'
      rw [serving, new, h.counted, old]
      simp
      tauto
  · exact h

theorem serving_send (k : Worker) : (k.send queueCapacity).serving = k.serving := by
  unfold Worker.send
  split
  · split_ifs <;> rfl
  · rfl

theorem serving_receive (k : Worker) : (k.receive queueCapacity).serving = k.serving := by
  obtain ⟨pressure, sending, channel, job⟩ := k
  unfold Worker.receive
  split
  next idle _ =>
    obtain rfl : job = .idle := idle
    rfl
  next idle _ _ =>
    obtain rfl : job = .idle := idle
    split_ifs <;> rfl
  · rfl

theorem serving_release (k : Worker) : k.release.serving = k.serving := by
  obtain ⟨pressure, sending, channel, job⟩ := k
  cases job <;> rfl

theorem Tallied.step (h : s.Tallied) (turn : DrainTurn) : (s.step queueCapacity turn).Tallied := by
  cases turn with
  | accept =>
    show s.accept.Tallied
    unfold accept
    split_ifs
    · exact ⟨h.active, h.counted⟩
    · exact h
  | submit c => exact h.submit c
  | send w => exact h.modify serving_send _
  | receive w => exact h.modify serving_receive _
  | count w => exact h.count w
  | finish w => exact h.finish w
  | release w => exact h.modify serving_release _
  | stop =>
    show s.stop.Tallied
    unfold stop
    split_ifs
    · exact ⟨h.active, h.counted⟩
    · exact h
  | poll =>
    show s.poll.Tallied
    unfold poll
    split_ifs
    · exact ⟨h.active, h.counted⟩
    · exact h

/-- Where nothing is active, what was counted has been handled. -/
theorem Tallied.counted_iff (h : s.Tallied) (none : s.activeConnections = 0) (c : ℕ) :
    c ∈ s.counted ↔ c ∈ s.handled := by
  have nothing : s.serving = [] := List.eq_nil_of_length_eq_zero (h.active.symm.trans none)
  rw [h.counted, nothing]
  simp

/-! ## Runs -/

/-- From `s` to `s'`, what has been handled stays so, and `drained` is not reached anew and nothing
is accepted behind it. -/
structure Onward (s s' : Listener) : Prop where
  drained : s'.phase = .drained → s.phase = .drained ∧ s'.accepted = s.accepted
  handled : ∀ c ∈ s.handled, c ∈ s'.handled

theorem Onward.refl (s : Listener) : s.Onward s := ⟨fun drained => ⟨drained, rfl⟩, fun _ => id⟩

/-- Where neither the loop of `run` nor the record moves. -/
theorem onward_workers (s : Listener) (unsubmitted : List ℕ) (workers : List Worker) :
    s.Onward { s with unsubmitted, workers } := ⟨fun drained => ⟨drained, rfl⟩, fun _ => id⟩

theorem onward_accept (s : Listener) : s.Onward s.accept := by
  unfold accept
  split_ifs with accepting
  · exact ⟨fun drained => (by cases accepting.symm.trans drained), fun _ => id⟩
  · exact .refl s

theorem onward_submit (s : Listener) (c : ℕ) : s.Onward (s.submit c) := by
  unfold submit
  split_ifs
  · dsimp only
    split <;> exact onward_workers ..
  · exact .refl s

theorem onward_count (s : Listener) (w : ℕ) : s.Onward (s.count w) := by
  unfold count
  split
  · exact ⟨fun drained => ⟨drained, rfl⟩, fun _ => id⟩
  · exact .refl s

theorem onward_finish (s : Listener) (w : ℕ) : s.Onward (s.finish w) := by
  unfold finish
  split
  · exact ⟨fun drained => ⟨drained, rfl⟩, fun _ old => List.mem_append_left _ old⟩
  · exact .refl s

theorem onward_stop (s : Listener) : s.Onward s.stop := by
  unfold stop
  split_ifs
  · exact ⟨fun drained => (by cases drained), fun _ => id⟩
  · exact .refl s

/-- Only a poll leads to `drained`. -/
theorem onward_step {turn : DrainTurn} (other : turn ≠ .poll) :
    s.Onward (s.step queueCapacity turn) := by
  cases turn with
  | accept => exact onward_accept s
  | submit c => exact onward_submit s c
  | send w => exact onward_workers ..
  | receive w => exact onward_workers ..
  | count w => exact onward_count s w
  | finish w => exact onward_finish s w
  | release w => exact onward_workers ..
  | stop => exact onward_stop s
  | poll => exact absurd rfl other

/-- A step keeps drained drained if and only if it is no poll that comes too early. -/
theorem drained_step_iff (h : s.Tallied) (before : s.DrainedIsDrained) (turn : DrainTurn) :
    (s.step queueCapacity turn).DrainedIsDrained ↔ s.PollsCounted turn := by
  by_cases same : turn = .poll
  · subst same
    show s.poll.DrainedIsDrained ↔ _
    unfold poll
    split_ifs with reads
    · constructor
      · intro after _ _ none c old
        exact (h.counted_iff none c).2 (after rfl c old)
      · intro polls _ c old
        exact (h.counted_iff reads.2 c).1 (polls rfl reads.1 reads.2 c old)
    · exact ⟨fun _ _ polling none => absurd ⟨polling, none⟩ reads, fun _ => before⟩
  · refine ⟨fun _ poll => absurd poll same, fun _ drained c old => ?_⟩
    have onward : s.Onward (s.step queueCapacity turn) := onward_step same
    obtain ⟨already, accepted⟩ := onward.drained drained
    exact onward.handled c (before already c (accepted ▸ old))

/-- In a run of `Server::run` and its pool, `drained` is notified in no state with an accepted
connection that is not handled, if and only if every poll that reads 0 finds all accepted
connections counted. -/
theorem drainedIsDrained_iff_pollsCounted (workers queueCapacity : ℕ) (turns : List DrainTurn) :
    Transition.EveryState (step queueCapacity) DrainedIsDrained (start workers) turns ↔
      Transition.EveryStep (step queueCapacity) PollsCounted (start workers) turns := by
  have tallied := Transition.invariant (Tallied.start workers)
    (fun s turn h => @Tallied.step s queueCapacity h turn) turns
  exact Transition.everyState_iff_everyStep tallied (fun drained => by cases drained)
    fun _ turn h before => drained_step_iff h before turn

/-- A connection whose task has not come to the pool yet. -/
theorem drained_before_submit :
    ¬ ∀ (workers queueCapacity : ℕ) (turns : List DrainTurn),
      Transition.EveryState (step queueCapacity) DrainedIsDrained (start workers) turns := by
  intro drains
  have handled := (drains 1 1 [.accept, .stop, .poll]).last rfl 0 Nat.zero_lt_one
  cases handled

end Listener

end DataBroker
