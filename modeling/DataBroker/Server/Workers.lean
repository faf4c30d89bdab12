import DataBroker.Lib.Parking
import DataBroker.Lib.Transition
import DataBroker.Server.Discipline

/-!
# The runtimes of the workers

Each worker of the pool has a runtime of its own, on which the tasks of its connections run. The
runtime goes on only inside `block_on`, while `read_buffer` serves a connection. When the connection
ends, the tasks that it left behind stand still, with their guards, until the worker gets another
connection (`Workers.parked_run`).
-/

namespace DataBroker

open Handler Program

/-- Nothing is left to do. -/
def Handler.isDone : Handler → Bool
  | .done => true
  | _ => false

/-- The server with the workers that run its tasks: `home` is the worker on whose runtime a task
runs, and `job` what a worker does. It waits for a job, or is in `block_on`, with the loop over the
buffer that was read last. -/
structure Workers where
  broker : Broker
  home : ℕ → ℕ
  job : ℕ → Option (Option ℕ)

namespace Workers

/-- A worker receives a connection, has read a buffer or is done with the connection, or a task goes
on. -/
inductive Turn where
  | receive (w : ℕ)
  | buffer (w : ℕ) (requests : List (Env × Dispatch))
  | run (t : ℕ) (answer : Bool)
  | finish (w : ℕ)

/-- Nobody has connected yet. -/
def init (s : Server) : Workers := ⟨System.init s, fun _ => 0, fun _ => none⟩

/-- The runtime of the task goes on. -/
def Driven (c : Workers) (t : ℕ) : Prop := c.job (c.home t) ≠ none

instance (c : Workers) (t : ℕ) : Decidable (c.Driven t) := inferInstanceAs (Decidable (_ ≠ none))

/-- The worker waits for its connection: it is through with the buffer that it read last. -/
def Reads (c : Workers) (w : ℕ) : Prop :=
  ∃ loop, c.job w = some loop ∧ ∀ t ∈ loop, Handler.isDone (c.broker.tasks t) = true

instance (c : Workers) (w : ℕ) : Decidable (c.Reads w) :=
  match job : c.job w with
  | none => .isFalse fun ⟨_, same, _⟩ => by cases job.symm.trans same
  | some loop => decidable_of_iff (∀ t ∈ loop, Handler.isDone (c.broker.tasks t) = true)
    ⟨fun all => ⟨loop, job, all⟩, fun ⟨_, same, all⟩ => by
      obtain rfl := Option.some.inj (job.symm.trans same)
      exact all⟩

/-- Tasks that are started in `read_buffer`, or by such a task, run where that runs. -/
def step (c : Workers) : Turn → Workers
  | .receive w => if c.job w = none then { c with job := Function.update c.job w (some none) } else c
  | .buffer w requests =>
    if c.Reads w then
      { broker := c.broker.step (.buffer requests)
        home := Function.update c.home c.broker.started w
        job := Function.update c.job w (some (some c.broker.started)) }
    else c
  | .run t answer =>
    if c.Driven t then
      { c with
        broker := c.broker.step (.run t answer)
        home := Function.update c.home c.broker.started (c.home t) }
    else c
  | .finish w => if c.Reads w then { c with job := Function.update c.job w none } else c

variable {c : Workers} {turn : Turn} {turns : List Turn} {t u w : ℕ} {answer : Bool}

/-- What a turn does to the tasks is a turn of the server, and of a task only where its runtime goes
on. -/
theorem broker_step (c : Workers) (turn : Turn) :
    (c.step turn).broker = c.broker ∨
      (∃ w requests, turn = .buffer w requests ∧
        (c.step turn).broker = c.broker.step (.buffer requests)) ∨
      ∃ t answer, turn = .run t answer ∧ c.Driven t ∧
        (c.step turn).broker = c.broker.step (.run t answer) := by
  cases turn with
  | receive w =>
    left
    simp only [step]
    split_ifs <;> rfl
  | buffer w requests =>
    simp only [step]
    split_ifs
    · exact .inr (.inl ⟨w, requests, rfl, rfl⟩)
    · exact .inl rfl
  | run t answer =>
    by_cases driven : c.Driven t
    · refine .inr (.inr ⟨t, answer, rfl, driven, ?_⟩)
      rw [step, if_pos driven]
    · refine .inl ?_
      rw [step, if_neg driven]
  | finish w =>
    left
    simp only [step]
    split_ifs <;> rfl

theorem sound_step (sound : c.broker.Sound (terms fun _ => True) Server.act) (turn : Turn) :
    (c.step turn).broker.Sound (terms fun _ => True) Server.act := by
  rcases broker_step c turn with same | ⟨_, _, -, same⟩ | ⟨_, _, -, -, same⟩
  · exact same ▸ sound
  · exact same ▸ Broker.sound_step sound trivial
  · exact same ▸ Broker.sound_step sound trivial

theorem sound_run (s : Server) (turns : List Turn) :
    Transition.EveryState step (fun c => c.broker.Sound (terms fun _ => True) Server.act) (init s)
      turns :=
  Transition.invariant (I := fun c : Workers => c.broker.Sound (terms fun _ => True) Server.act)
    (System.sound_init s) (fun _ turn sound => sound_step sound turn) turns

/-! ## Tasks that a connection left behind -/

/-- The task is known, and its worker waits for a job. -/
structure LeftBehind (c : Workers) (w t : ℕ) : Prop where
  known : t < c.broker.started
  home : c.home t = w
  waits : c.job w = none

theorem home_step (known : t < c.broker.started) (turn : Turn) : (c.step turn).home t = c.home t := by
  have other : t ≠ c.broker.started := Nat.ne_of_lt known
  cases turn <;> simp only [step] <;> split_ifs <;>
    first | rfl | exact Function.update_of_ne other ..

/-- Without a new connection the task stays where it was left. -/
theorem LeftBehind.step (left : c.LeftBehind w t) (turn : Turn) (other : turn ≠ .receive w) :
    (c.step turn).LeftBehind w t := by
  refine ⟨?_, (home_step left.known turn).trans left.home, ?_⟩
  · rcases broker_step c turn with same | ⟨_, _, -, same⟩ | ⟨_, _, -, -, same⟩
    · exact same ▸ left.known
    · exact same ▸ Nat.lt_of_lt_of_le left.known (System.started_le_step _ _)
    · exact same ▸ Nat.lt_of_lt_of_le left.known (System.started_le_step _ _)
  · have elsewhere : ∀ {w' : ℕ}, c.Reads w' → w ≠ w' := by
      rintro w' ⟨loop, job, -⟩ rfl
      cases job.symm.trans left.waits
    cases turn with
    | receive w' =>
      have away : w ≠ w' := fun same => other (by rw [same])
      simp only [Workers.step]
      split_ifs
      · exact (Function.update_of_ne away ..).trans left.waits
      · exact left.waits
    | buffer w' requests =>
      simp only [Workers.step]
      split_ifs with reads
      · exact (Function.update_of_ne (elsewhere reads) ..).trans left.waits
      · exact left.waits
    | run u answer =>
      simp only [Workers.step]
      split_ifs <;> exact left.waits
    | finish w' =>
      simp only [Workers.step]
      split_ifs with reads
      · exact (Function.update_of_ne (elsewhere reads) ..).trans left.waits
      · exact left.waits

theorem LeftBehind.parked (left : c.LeftBehind w t)
    (sound : c.broker.Sound (terms fun _ => True) Server.act) (turn : Turn) :
    System.Parked t c.broker (c.step turn).broker := by
  rcases broker_step c turn with same | ⟨_, requests, -, same⟩ | ⟨u, answer, -, driven, same⟩
  · exact same ▸ .refl t _
  · rw [same]
    exact sound.parked_step left.known (by simp [Broker.Turn.toTurn])
  · rw [same]
    refine sound.parked_step left.known fun answer' own => ?_
    obtain ⟨rfl, -⟩ : u = t ∧ _ := by simpa [Broker.Turn.toTurn] using own
    exact driven (left.home ▸ left.waits)

/-- Until the worker gets another connection, a task that its last one left behind stands still
unless it waits for a lock, what it holds it holds, and who waits for that waits. -/
theorem parked_run (s : Server) (turns later : List Turn) (w t : ℕ)
    (left : (Transition.run step (init s) turns).LeftBehind w t)
    (alone : ∀ turn ∈ later, turn ≠ .receive w) :
    System.Parked t (Transition.run step (init s) turns).broker
      (Transition.run step (Transition.run step (init s) turns) later).broker := by
  have start := (sound_run s turns).last
  generalize Transition.run step (init s) turns = c at left start
  have stays : Transition.EveryState step (fun c' : Workers => (c'.LeftBehind w t ∧
      c'.broker.Sound (terms fun _ => True) Server.act) ∧ System.Parked t c.broker c'.broker) c later :=
    (Transition.everyStep_of_forall alone).invariant ⟨⟨left, start⟩, .refl t _⟩
      fun c' turn h other => ⟨⟨h.1.1.step turn other, sound_step h.1.2 turn⟩,
        h.2.trans (h.1.1.parked h.1.2 turn)⟩
  exact stays.last.2

/-- A server with the queue `q`, with `auto_fail` and a message. -/
def autoFailing : Server :=
  { Server.sample with
    queues := fun _ => { Queue.new.step (.enqueue [5] 7 0) with config := ⟨true, 1000⟩ } }

/-- Client 1 gets the message and hangs up. A `CreateQ` comes in at another worker. -/
noncomputable def hangingUp : List Turn :=
  [.receive 1, .buffer 1 [(.sample 1, .sample .dequeue [])], .run 0 true] ++
    List.replicate 12 (.run 1 true) ++ [.finish 1, .receive 2,
      .buffer 2 [(.sample 2, .sample .createQ [])], .run 2 true, .run 2 true]

/-- The sleep of the first client does not end, and the `CreateQ` waits behind it. -/
theorem parked_run_createQ :
    ((Transition.run step (Transition.run step (init autoFailing) hangingUp)
      [.run 1 true, .receive 3, .buffer 3 [(.sample 3, .sample .enqueue [6])], .run 3 true,
        .run 4 true, .run 1 true]).broker.locks .queue).Waits 2 :=
  (parked_run autoFailing hangingUp _ 1 1 ⟨by decide, by decide, by decide⟩ (by simp)).waits .queue 2
    (by decide) (by decide)

end Workers

end DataBroker
