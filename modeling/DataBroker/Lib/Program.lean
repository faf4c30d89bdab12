import DataBroker.Lib.FairLock
import Mathlib.Logic.Function.Basic

/-!
# Programs that share locks

A task is a program over shared state and fair locks. A system runs any number of tasks, in any
interleaving of their operations; a task that waits for a lock goes on when a release admits it.

`System.Effect` lists what a turn can do.
-/

/-- What a task still has to do: take and release locks, do an action on the state and go on with
what the state was before it, wait for the environment, whose answer is a `Bool`, and start another
task. -/
inductive Program (κ α σ ε : Type) where
  | done
  | acquire (lock : κ) (access : Access) (next : Program κ α σ ε)
  | release (lock : κ) (next : Program κ α σ ε)
  | perform (action : α) (next : σ → Program κ α σ ε)
  | await (event : ε) (next : Bool → Program κ α σ ε)
  | spawn (task next : Program κ α σ ε)

/-- The shared state, the locks, and the tasks by number; `started` of them have been started. -/
structure System (κ α σ ε : Type) where
  state : σ
  locks : κ → FairLock ℕ
  tasks : ℕ → Program κ α σ ε
  started : ℕ

/-- A new task comes in from outside, or a task does its next operation. -/
inductive System.Turn (κ α σ ε : Type) where
  | start (task : Program κ α σ ε)
  | run (t : ℕ) (answer : Bool)

variable {κ α σ ε : Type}

/-- The program behind the lock it waited for. -/
def Program.resume : Program κ α σ ε → Program κ α σ ε
  | .acquire _ _ next => next
  | task => task

/-- The event is waited for only behind one of the actions. -/
def Program.Preceded (actions : α → Prop) (event : ε) : Program κ α σ ε → Prop
  | .done => True
  | .acquire _ _ next => next.Preceded actions event
  | .release _ next => next.Preceded actions event
  | .perform action next => actions action ∨ ∀ s, (next s).Preceded actions event
  | .await event' next => event' ≠ event ∧ ∀ answer, (next answer).Preceded actions event
  | .spawn task next => task.Preceded actions event ∧ next.Preceded actions event

theorem Program.Preceded.resume {actions : α → Prop} {event : ε} {task : Program κ α σ ε}
    (preceded : task.Preceded actions event) : task.resume.Preceded actions event := by
  cases task <;> exact preceded

namespace System

def init (s : σ) : System κ α σ ε := ⟨s, fun _ => .unheld, fun _ => .done, 0⟩

def add (c : System κ α σ ε) (task : Program κ α σ ε) : System κ α σ ε :=
  { c with tasks := Function.update c.tasks c.started task, started := c.started + 1 }

/-- What the task `t` holds. -/
def held (c : System κ α σ ε) (t : ℕ) (lock : κ) : Option Access := (c.locks lock).mode t

/-- `t` waits for a lock that `u` holds. -/
def WaitsFor (c : System κ α σ ε) (t u : ℕ) : Prop :=
  ∃ lock, (c.locks lock).Waits t ∧ c.held u lock ≠ none

/-- Each task of the set waits for a lock that another one of the set holds. -/
def Deadlock (c : System κ α σ ε) (S : Set ℕ) : Prop :=
  S.Nonempty ∧ ∀ t ∈ S, ∃ u ∈ S, u ≠ t ∧ c.WaitsFor t u

/-- What the release of `lock` by `t` leaves of another task: who is let in goes on. -/
def afterRelease (c : System κ α σ ε) (lock : κ) (t u : ℕ) : Program κ α σ ε :=
  if (c.locks lock).Waits u ∧ ¬ ((c.locks lock).release t).Waits u then (c.tasks u).resume
  else c.tasks u

variable [DecidableEq κ] (act : α → σ → σ)

/-- The next operation of the task `t`. A task that stands in line stays there. -/
def run (c : System κ α σ ε) (t : ℕ) (answer : Bool) : System κ α σ ε :=
  match c.tasks t with
  | .done => c
  | .acquire lock access next =>
    if (c.locks lock).Waits t then c
    else
      let l := (c.locks lock).request t access
      { c with
        locks := Function.update c.locks lock l
        tasks := if l.Waits t then c.tasks else Function.update c.tasks t next }
  | .release lock next =>
    { c with
      locks := Function.update c.locks lock ((c.locks lock).release t)
      tasks := Function.update (c.afterRelease lock t) t next }
  | .perform action next =>
    { c with state := act action c.state, tasks := Function.update c.tasks t (next c.state) }
  | .await _ next => { c with tasks := Function.update c.tasks t (next answer) }
  | .spawn task next => { c with tasks := Function.update c.tasks t next }.add task

def step (c : System κ α σ ε) : Turn κ α σ ε → System κ α σ ε
  | .start task => c.add task
  | .run t answer => c.run act t answer

/-! ## What a turn does -/

variable {act : α → σ → σ} {c : System κ α σ ε} {t : ℕ} {lock : κ} {access : Access}

/-- What `u` holds after one lock changed. -/
theorem held_update (c : System κ α σ ε) (lock : κ) (l : FairLock ℕ) (s : σ)
    (tasks : ℕ → Program κ α σ ε) (n u : ℕ) :
    held ⟨s, Function.update c.locks lock l, tasks, n⟩ u =
      Function.update (c.held u) lock (l.mode u) := by
  funext lock'
  unfold held
  by_cases same : lock' = lock
  · subst same
    simp
  · simp [same]

theorem held_line (c : System κ α σ ε) (s : σ) (tasks : ℕ → Program κ α σ ε) (n : ℕ)
    (waits : ((c.locks lock).request t access).Waits t) (u : ℕ) :
    held ⟨s, Function.update c.locks lock ((c.locks lock).request t access), tasks, n⟩ u =
      c.held u := by
  rw [held_update, FairLock.mode_request, if_neg (fun h => h.2 waits)]
  exact Function.update_eq_self _ _

theorem held_grant (c : System κ α σ ε) (s : σ) (tasks : ℕ → Program κ α σ ε) (n : ℕ)
    (granted : ¬ ((c.locks lock).request t access).Waits t) (u : ℕ) :
    held ⟨s, Function.update c.locks lock ((c.locks lock).request t access), tasks, n⟩ u =
      if u = t then Function.update (c.held t) lock (some access) else c.held u := by
  rw [held_update, FairLock.mode_request]
  split_ifs with grants same same
  · rw [grants.1]
  · exact absurd grants.1 same
  · exact absurd ⟨same, granted⟩ grants
  · exact Function.update_eq_self _ _

theorem held_release_self (c : System κ α σ ε) (s : σ) (tasks : ℕ → Program κ α σ ε) (n : ℕ)
    (active : ¬ (c.locks lock).Waits t) :
    held ⟨s, Function.update c.locks lock ((c.locks lock).release t), tasks, n⟩ t =
      Function.update (c.held t) lock none := by
  rw [held_update, FairLock.mode_release_self active]

/-- What a turn of the task `t` can do. -/
inductive Effect (act : α → σ → σ) (c : System κ α σ ε) (t : ℕ) (answer : Bool) :
    System κ α σ ε → Prop where
  | idle : Effect act c t answer c
  | line {lock : κ} {access : Access} {next : Program κ α σ ε}
      (program : c.tasks t = .acquire lock access next) (active : ¬ (c.locks lock).Waits t)
      (waits : ((c.locks lock).request t access).Waits t) :
      Effect act c t answer
        { c with locks := Function.update c.locks lock ((c.locks lock).request t access) }
  | grant {lock : κ} {access : Access} {next : Program κ α σ ε}
      (program : c.tasks t = .acquire lock access next) (active : ¬ (c.locks lock).Waits t)
      (granted : ¬ ((c.locks lock).request t access).Waits t) :
      Effect act c t answer { c with
        locks := Function.update c.locks lock ((c.locks lock).request t access)
        tasks := Function.update c.tasks t next }
  | release {lock : κ} {next : Program κ α σ ε} (program : c.tasks t = .release lock next) :
      Effect act c t answer { c with
        locks := Function.update c.locks lock ((c.locks lock).release t)
        tasks := Function.update (c.afterRelease lock t) t next }
  | perform {action : α} {next : σ → Program κ α σ ε} (program : c.tasks t = .perform action next) :
      Effect act c t answer
        { c with state := act action c.state, tasks := Function.update c.tasks t (next c.state) }
  | await {event : ε} {next : Bool → Program κ α σ ε} (program : c.tasks t = .await event next) :
      Effect act c t answer { c with tasks := Function.update c.tasks t (next answer) }
  | spawn {task next : Program κ α σ ε} (program : c.tasks t = .spawn task next) :
      Effect act c t answer (add { c with tasks := Function.update c.tasks t next } task)

theorem run_effect (c : System κ α σ ε) (t : ℕ) (answer : Bool) :
    Effect act c t answer (c.run act t answer) := by
  cases program : c.tasks t with
  | done =>
    rw [run, program]
    exact .idle
  | acquire lock access next =>
    rw [run, program]
    dsimp only
    split_ifs with blocked waits
    · exact .idle
    · exact .line program blocked waits
    · exact .grant program blocked waits
  | release lock next =>
    rw [run, program]
    exact .release program
  | perform action next =>
    rw [run, program]
    exact .perform program
  | await event next =>
    rw [run, program]
    exact .await program
  | spawn task next =>
    rw [run, program]
    exact .spawn program

theorem started_le_step (c : System κ α σ ε) (turn : Turn κ α σ ε) :
    c.started ≤ (c.step act turn).started := by
  cases turn with
  | start task => exact Nat.le_succ _
  | run t answer =>
    have effect : Effect act c t answer (c.step act (.run t answer)) := run_effect c t answer
    generalize c.step act (.run t answer) = c' at effect
    cases effect with
    | spawn => exact Nat.le_succ _
    | _ => exact Nat.le_refl _

/-- A task that is to do one of the actions before it waits for the event still is to do so after a
turn, unless the turn is one of these actions. -/
theorem preceded_step {actions : α → Prop} {event : ε} (known : t < c.started)
    (preceded : (c.tasks t).Preceded actions event) (turn : Turn κ α σ ε) :
    ((c.step act turn).tasks t).Preceded actions event ∨ ∃ answer action next,
      turn = .run t answer ∧ c.tasks t = .perform action next ∧ actions action := by
  cases turn with
  | start task =>
    left
    show (Function.update c.tasks c.started task t).Preceded actions event
    rwa [Function.update_of_ne (Nat.ne_of_lt known)]
  | run u answer =>
    -- what becomes of `t` where only the task that has the turn goes on
    have goesOn : ∀ {next : Program κ α σ ε}, (u = t → next.Preceded actions event) →
        (Function.update c.tasks u next t).Preceded actions event := by
      intro next own
      by_cases same : t = u
      · rw [same, Function.update_self]
        exact own same.symm
      · rwa [Function.update_of_ne same]
    have effect : Effect act c u answer (c.step act (.run u answer)) := run_effect c u answer
    generalize c.step act (.run u answer) = c' at effect
    cases effect with
    | idle => exact .inl preceded
    | line => exact .inl preceded
    | grant program =>
      refine .inl (goesOn ?_)
      rintro rfl
      rwa [program] at preceded
    | @release lock next program =>
      left
      show (Function.update (c.afterRelease lock u) u next t).Preceded actions event
      by_cases same : t = u
      · subst same
        rw [Function.update_self]
        rwa [program] at preceded
      · rw [Function.update_of_ne same, afterRelease]
        split_ifs
        · exact preceded.resume
        · exact preceded
    | @perform action next program =>
      by_cases same : t = u
      · subst same
        rw [program] at preceded
        rcases preceded with now | later
        · exact .inr ⟨answer, action, next, rfl, program, now⟩
        · exact .inl (goesOn fun _ => later _)
      · exact .inl (goesOn fun own => absurd own.symm same)
    | await program =>
      refine .inl (goesOn ?_)
      rintro rfl
      rw [program] at preceded
      exact preceded.2 answer
    | @spawn task next program =>
      left
      show (Function.update (Function.update c.tasks u next) c.started task t).Preceded actions event
      rw [Function.update_of_ne (Nat.ne_of_lt known)]
      refine goesOn ?_
      rintro rfl
      rw [program] at preceded
      exact preceded.2

end System
