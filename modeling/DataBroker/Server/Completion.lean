import DataBroker.Lib.Completion
import DataBroker.Server.Deadlock
import DataBroker.Server.Workers

/-!
# The requests come to rest

A handler waits for locks, for writes and for timers, and loops over what the registry has. Whatever
the order of the turns, the requests that have come in are not served for ever: the tasks come to
rest. Then they are done, unless some are held up: by a write or a timer that does not end, or
because their worker waits for a connection. The others that are not done wait for those, or
`queueNames` and `queue` were taken crosswise.
-/

namespace DataBroker

open Handler Program

namespace Workers

variable {c : Workers} {turn : Turn} {t : ℕ} {answer : Bool}

/-- The task has something to do, stands in no line, and its runtime goes on. -/
def Able (c : Workers) (t : ℕ) : Prop := c.broker.Ready t ∧ c.Driven t

/-- What the task waits for is not a lock: its runtime, a write or a timer. -/
def HeldUp (c : Workers) (t : ℕ) : Prop :=
  c.broker.tasks t ≠ done ∧ (¬ c.Driven t ∨ ∃ event next, c.broker.tasks t = await event next)

/-- The turn takes a task on. -/
def Moves (c : Workers) (turn : Turn) : Prop := ∃ t answer, turn = .run t answer ∧ c.Able t

/-- A run goes on with the turns of a schedule. -/
def goesOn (c : Workers) (schedule : ℕ → Turn) : ℕ → Workers
  | 0 => c
  | n + 1 => (goesOn c schedule n).step (schedule n)

theorem sound_goesOn (sound : c.broker.Sound (terms fun _ => True) Server.act)
    (schedule : ℕ → Turn) (n : ℕ) :
    (goesOn c schedule n).broker.Sound (terms fun _ => True) Server.act := by
  induction n with
  | zero => exact sound
  | succ n ih => exact sound_step ih _

/-- A turn that takes a task on takes from the work. -/
theorem work_lt_of_moves (sound : c.broker.Sound (terms fun _ => True) Server.act)
    (moves : c.Moves turn) :
    Multiset.IsDershowitzMannaLT (c.step turn).broker.work c.broker.work := by
  obtain ⟨t, answer, rfl, ready, driven⟩ := moves
  have same : (c.step (.run t answer)).broker = c.broker.run Server.act t answer := by
    simp only [step, if_pos driven]
    rfl
  exact same ▸ sound.work_run ready answer

/-- Without new requests, every other turn leaves the tasks as they are. -/
theorem broker_step_of_not_moves (sound : c.broker.Sound (terms fun _ => True) Server.act)
    (quiet : ∀ w requests, turn ≠ .buffer w requests) (stands : ¬ c.Moves turn) :
    (c.step turn).broker = c.broker := by
  rcases broker_step c turn with same | ⟨w, requests, comes, -⟩ | ⟨t, answer, rfl, driven, same⟩
  · exact same
  · exact absurd comes (quiet w requests)
  · rw [same]
    exact sound.run_of_not_ready (fun ready => stands ⟨t, answer, rfl, ready, driven⟩) answer

/-- Where no task can go on but some that are held up, each is done, or held up, or waits for one
that is, unless two tasks cross. -/
theorem rest_of_still (sound : c.broker.Sound (terms fun _ => True) Server.act)
    (still : ∀ t, c.Able t → c.HeldUp t) :
    (∀ t, c.broker.tasks t = done ∨ c.HeldUp t ∨
      ∃ u, c.HeldUp u ∧ Relation.TransGen c.broker.WaitsFor t u) ∨
    ∃ t u, c.broker.Crosses t u ∧ (c.broker.locks .queueNames).Waits t ∧
      (c.broker.locks .queue).Waits u := by
  have heldUp : ∀ t, c.broker.Ready t → c.HeldUp t := fun t ready => by
    by_cases driven : c.Driven t
    · exact still t ⟨ready, driven⟩
    · exact ⟨ready.1, .inl driven⟩
  exact (sound.rest heldUp).imp_right fun ⟨_, dead, _⟩ => Broker.crosses_of_deadlock sound dead

/-- In no schedule without new requests do tasks go on for ever. Where no task can go on but some
that are held up, each is done, or held up, or waits for a lock and, along a chain of holders, for
one that is held up, unless a request on a queue stands in line for `queueNames` with `queue` in its
hands, and a `CreateQ` or `DeleteQ` for `queue` with `queueNames`. Where none is held up and none
cross, all are done and all locks are free. -/
theorem comesToRest (s : Server) (turns : List Turn) :
    let c := Transition.run step (init s) turns
    (∀ schedule : ℕ → Turn, (∀ n w requests, schedule n ≠ .buffer w requests) →
      ∃ N, ∀ n, N ≤ n → ¬ (goesOn c schedule n).Moves (schedule n)) ∧
    ((∀ t, c.Able t → c.HeldUp t) →
      ((∀ t, c.broker.tasks t = done ∨ c.HeldUp t ∨
          ∃ u, c.HeldUp u ∧ Relation.TransGen c.broker.WaitsFor t u) ∧
        ((∀ t, ¬ c.HeldUp t) →
          (∀ t, c.broker.tasks t = done) ∧ ∀ lock, c.broker.locks lock = .unheld)) ∨
      ∃ t u, c.broker.Crosses t u ∧ (c.broker.locks .queueNames).Waits t ∧
        (c.broker.locks .queue).Waits u) := by
  intro c
  have sound : c.broker.Sound (terms fun _ => True) Server.act := (sound_run s turns).last
  refine ⟨fun schedule quiet => ?_, fun still => ?_⟩
  · exact WellFounded.exists_quiet Multiset.wellFounded_isDershowitzMannaLT
      (f := fun n => (goesOn c schedule n).broker.work)
      (fun n moves => work_lt_of_moves (sound_goesOn sound schedule n) moves)
      fun n stands => congrArg System.work
        (broker_step_of_not_moves (sound_goesOn sound schedule n) (quiet n) stands)
  · refine (rest_of_still sound still).imp_left fun settled => ⟨settled, fun free => ?_⟩
    have done : ∀ t, c.broker.tasks t = done := fun t => by
      rcases settled t with done | up | ⟨u, up, -⟩
      · exact done
      · exact absurd up (free t)
      · exact absurd up (free u)
    exact ⟨done, sound.unheld_of_done done⟩

end Workers

end DataBroker
