import DataBroker.Lib.Contract
import DataBroker.Lib.Transition

/-!
# Programs run one after the other

A task that has the system to itself gets every lock at once, so it does its actions, waits and
spawns in the order of its program: with given answers to its waits (`Program.answered`), or with
every wait answered by `true` (`Program.alone`). `System.run_answered`, `System.run_alone` and
`System.run_aloneAll` say that this is a run of the system.
-/

variable {κ α σ ε : Type}

namespace Program

/-- What a program does by itself: the state it leaves, what it waited for, and what it started. -/
structure Result (κ α σ ε : Type) where
  state : σ
  events : List ε
  spawned : List (Program κ α σ ε)

/-- The program by itself, every wait answered with `true`. -/
def alone (act : α → σ → σ) : Program κ α σ ε → σ → Result κ α σ ε
  | .done, s => ⟨s, [], []⟩
  | .acquire _ _ next, s => next.alone act s
  | .release _ next, s => next.alone act s
  | .perform action next, s => (next s).alone act (act action s)
  | .await event next, s =>
    let r := (next true).alone act s
    { r with events := event :: r.events }
  | .spawn task next, s =>
    let r := next.alone act s
    { r with spawned := task :: r.spawned }

/-- The program by itself, its waits answered in their order. -/
def answered (act : α → σ → σ) : Program κ α σ ε → (ℕ → Bool) → σ → Result κ α σ ε
  | .done, _, s => ⟨s, [], []⟩
  | .acquire _ _ next, answers, s => next.answered act answers s
  | .release _ next, answers, s => next.answered act answers s
  | .perform action next, answers, s => (next s).answered act answers (act action s)
  | .await event next, answers, s =>
    let r := (next (answers 0)).answered act (fun n => answers (n + 1)) s
    { r with events := event :: r.events }
  | .spawn task next, answers, s =>
    let r := next.answered act answers s
    { r with spawned := task :: r.spawned }

/-- Every action that the program does by itself meets `P` on the state that it is done on. -/
def Performs (act : α → σ → σ) (P : α → σ → Prop) : Program κ α σ ε → (ℕ → Bool) → σ → Prop
  | .done, _, _ => True
  | .acquire _ _ next, answers, s => next.Performs act P answers s
  | .release _ next, answers, s => next.Performs act P answers s
  | .perform action next, answers, s => P action s ∧ (next s).Performs act P answers (act action s)
  | .await _ next, answers, s => (next (answers 0)).Performs act P (fun n => answers (n + 1)) s
  | .spawn _ next, answers, s => next.Performs act P answers s

theorem answered_true (act : α → σ → σ) (p : Program κ α σ ε) (s : σ) :
    p.answered act (fun _ => true) s = p.alone act s := by
  induction p generalizing s with
  | done => rfl
  | acquire _ _ next ih => exact ih s
  | release _ next ih => exact ih s
  | perform action next ih => exact ih s (act action s)
  | await event next ih => rw [answered, alone, ih]
  | spawn task next _ ih => rw [answered, alone, ih]

/-- What every action keeps, the program keeps. -/
theorem answered_invariant {act : α → σ → σ} {I : σ → Prop}
    (hact : ∀ action s, I s → I (act action s)) (p : Program κ α σ ε) (answers : ℕ → Bool) {s : σ}
    (hs : I s) : I (p.answered act answers s).state := by
  induction p generalizing answers s with
  | done => exact hs
  | acquire _ _ next ih => exact ih answers hs
  | release _ next ih => exact ih answers hs
  | perform action next ih => exact ih s answers (hact action s hs)
  | await event next ih => exact ih (answers 0) (fun n => answers (n + 1)) hs
  | spawn task next _ ih => exact ih answers hs

/-- Programs that start no others, one after the other. -/
def aloneAll (act : α → σ → σ) : List (Program κ α σ ε) → σ → σ × List ε
  | [], s => (s, [])
  | task :: tasks, s =>
    let r := task.alone act s
    let rest := aloneAll act tasks r.state
    (rest.1, r.events ++ rest.2)

end Program

namespace System

/-- A lock that at most `t` holds. -/
def ownLock (t : ℕ) (access : Option Access) : FairLock ℕ :=
  ⟨(access.map fun access => (t, access)).toList, []⟩

/-- A system in which only the task `t` holds locks. -/
def only (s : σ) (held : κ → Option Access) (t : ℕ) (tasks : List (Program κ α σ ε)) :
    System κ α σ ε where
  state := s
  locks lock := ownLock t (held lock)
  tasks u := tasks.getD u .done
  started := tasks.length

section Only

variable {s : σ} {held : κ → Option Access} {t : ℕ} {tasks : List (Program κ α σ ε)} {lock : κ}

theorem not_waits_ownLock (t u : ℕ) (access : Option Access) : ¬ (ownLock t access).Waits u := by
  rintro ⟨r, inLine, -⟩
  cases inLine

theorem request_ownLock (t : ℕ) (access : Access) :
    (ownLock t none).request t access = ownLock t (some access) := by
  cases access <;> simp [ownLock, FairLock.request, FairLock.Fits]

theorem release_ownLock (t : ℕ) (access : Option Access) :
    (ownLock t access).release t = ownLock t none := by
  cases access <;> simp [ownLock, FairLock.release, FairLock.letIn]

theorem tasks_only (inside : t < tasks.length) (p : Program κ α σ ε) :
    (only s held t (tasks.set t p)).tasks t = p := by
  simp [only, inside]

/-- The task goes on with `q`. -/
theorem update_tasks (inside : t < tasks.length) (p q : Program κ α σ ε) :
    Function.update (only s held t (tasks.set t p)).tasks t q = (only s held t (tasks.set t q)).tasks := by
  funext u
  by_cases same : u = t
  · simp [only, same, inside]
  · simp [only, same, Ne.symm same, List.getD_eq_getElem?_getD, List.getElem?_set_ne]

variable [DecidableEq κ] {act : α → σ → σ}

theorem update_locks (access : Option Access) :
    Function.update (only s held t tasks).locks lock (ownLock t access) =
      (only s (Function.update held lock access) t tasks).locks :=
  funext fun lock' => (Function.apply_update (fun _ => ownLock t) held lock access lock').symm

theorem run_acquire {access : Access} {next : Program κ α σ ε} (inside : t < tasks.length)
    (free : held lock = none) :
    (only s held t (tasks.set t (.acquire lock access next))).run act t true =
      only s (Function.update held lock (some access)) t (tasks.set t next) := by
  rw [run, tasks_only inside]
  dsimp only
  rw [update_tasks inside, show (only s held t _).locks lock = ownLock t (held lock) from rfl, free,
    request_ownLock, if_neg (not_waits_ownLock t t none), if_neg (not_waits_ownLock t t _),
    update_locks]
  simp [only]

theorem run_release {next : Program κ α σ ε} (inside : t < tasks.length) :
    (only s held t (tasks.set t (.release lock next))).run act t true =
      only s (Function.update held lock none) t (tasks.set t next) := by
  have stay : (only s held t (tasks.set t (.release lock next))).afterRelease lock t =
      (only s held t (tasks.set t (.release lock next))).tasks :=
    funext fun u => if_neg fun h => not_waits_ownLock t u _ h.1
  rw [run, tasks_only inside]
  dsimp only
  rw [stay, update_tasks inside, show (only s held t _).locks lock = ownLock t (held lock) from rfl,
    release_ownLock, update_locks]
  simp [only]

theorem run_perform {action : α} {next : σ → Program κ α σ ε} (inside : t < tasks.length) :
    (only s held t (tasks.set t (.perform action next))).run act t true =
      only (act action s) held t (tasks.set t (next s)) := by
  rw [run, tasks_only inside]
  dsimp only
  rw [update_tasks inside]
  simp [only]

theorem run_await {event : ε} {next : Bool → Program κ α σ ε} {answer : Bool}
    (inside : t < tasks.length) :
    (only s held t (tasks.set t (.await event next))).run act t answer =
      only s held t (tasks.set t (next answer)) := by
  rw [run, tasks_only inside]
  dsimp only
  rw [update_tasks inside]
  simp [only]

theorem run_spawn {task next : Program κ α σ ε} (inside : t < tasks.length) :
    (only s held t (tasks.set t (.spawn task next))).run act t true =
      only s held t ((tasks ++ [task]).set t next) := by
  have added : Function.update (only s held t (tasks.set t next)).tasks tasks.length task =
      (only s held t ((tasks ++ [task]).set t next)).tasks := by
    funext u
    rw [List.set_append_left _ _ inside]
    by_cases new : u = tasks.length
    · simp [only, new]
    · rw [Function.update_of_ne new]
      show (tasks.set t next).getD u .done = (tasks.set t next ++ [task]).getD u .done
      rw [List.getD_eq_getElem?_getD, List.getD_eq_getElem?_getD]
      rcases Nat.lt_or_gt_of_ne new with old | later
      · rw [List.getElem?_append_left (by rwa [List.length_set])]
      · rw [List.getElem?_eq_none (by rw [List.length_set]; omega),
          List.getElem?_eq_none (by simp; omega)]
  rw [run, tasks_only inside]
  dsimp only [add]
  rw [update_tasks inside, show (only s held t (tasks.set t _)).started = tasks.length from
    List.length_set, added]
  simp [only]

end Only

/-! ## Whole programs -/

variable [DecidableEq κ] {act : α → σ → σ} {K : Contract κ α σ ε} {t : ℕ}

/-- What a program starts by itself keeps to the contract, as the program does. -/
theorem meets_spawned (lawful : K.Lawful act) (given : ∀ action s, K.given action s)
    {p : Program κ α σ ε} {held : κ → Option Access} {s : σ} (meets : p.Meets K act held s) :
    ∀ task ∈ (p.alone act s).spawned, ∀ s, task.Meets K act (fun _ => none) s := by
  induction p generalizing held s with
  | done => intro task inside; cases inside
  | acquire lock access next ih => exact ih (meets.2.2 s (lawful.refl _ _))
  | release lock next ih => exact ih meets
  | perform action next ih => exact ih s (meets s (lawful.refl _ _) (given _ _)).2
  | await event next ih => exact ih true (meets.2 s (lawful.refl _ _) true)
  | spawn task next _ ih =>
    intro task' inside
    rcases List.mem_cons.1 inside with rfl | later
    · exact meets.1
    · exact ih meets.2 task' later

/-- A program that keeps to a contract runs to its end when nobody else holds a lock. -/
theorem run_answered (lawful : K.Lawful act) (given : ∀ action s, K.given action s)
    {p : Program κ α σ ε} {held : κ → Option Access} {s : σ} {tasks : List (Program κ α σ ε)}
    (answers : ℕ → Bool) (inside : t < tasks.length) (meets : p.Meets K act held s) :
    ∃ turns : List Bool, (∀ answer ∈ turns, answer = true ∨ ∃ n, answer = answers n) ∧
      Transition.run (step act) (only s held t (tasks.set t p)) (turns.map (.run t ·)) =
        only (p.answered act answers s).state (fun _ => none) t
          (tasks.set t .done ++ (p.answered act answers s).spawned) := by
  induction p generalizing held s tasks answers with
  | done =>
    refine ⟨[], by simp, ?_⟩
    rw [show held = fun _ => none from funext meets]
    simp [Program.answered]
  | acquire lock access next ih =>
    obtain ⟨-, free, rest⟩ := meets
    obtain ⟨turns, known, reaches⟩ := ih answers inside (rest s (lawful.refl _ _))
    refine ⟨true :: turns, List.forall_mem_cons.2 ⟨.inl rfl, known⟩, ?_⟩
    exact (congrArg (Transition.run (step act) · _) (run_acquire inside free)).trans reaches
  | release lock next ih =>
    obtain ⟨turns, known, reaches⟩ := ih answers inside meets
    refine ⟨true :: turns, List.forall_mem_cons.2 ⟨.inl rfl, known⟩, ?_⟩
    exact (congrArg (Transition.run (step act) · _) (run_release inside)).trans reaches
  | perform action next ih =>
    obtain ⟨turns, known, reaches⟩ := ih s answers inside (meets s (lawful.refl _ _) (given _ _)).2
    refine ⟨true :: turns, List.forall_mem_cons.2 ⟨.inl rfl, known⟩, ?_⟩
    exact (congrArg (Transition.run (step act) · _) (run_perform inside)).trans reaches
  | await event next ih =>
    obtain ⟨turns, known, reaches⟩ := ih (answers 0) (fun n => answers (n + 1)) inside
      (meets.2 s (lawful.refl _ _) (answers 0))
    refine ⟨answers 0 :: turns, List.forall_mem_cons.2 ⟨.inr ⟨0, rfl⟩, ?_⟩, ?_⟩
    · intro answer mem
      apply (known answer mem).imp_right
      rintro ⟨n, eq⟩
      exact ⟨n + 1, eq⟩
    · exact (congrArg (Transition.run (step act) · _) (run_await inside)).trans reaches
  | spawn task next _ ih =>
    have inside' : t < (tasks ++ [task]).length := by simp; omega
    obtain ⟨turns, known, reaches⟩ := ih answers inside' meets.2
    refine ⟨true :: turns, List.forall_mem_cons.2 ⟨.inl rfl, known⟩, ?_⟩
    refine (congrArg (Transition.run (step act) · _) (run_spawn inside)).trans (reaches.trans ?_)
    simp [Program.answered, List.set_append_left, inside]

theorem run_alone (lawful : K.Lawful act) (given : ∀ action s, K.given action s)
    {p : Program κ α σ ε} {held : κ → Option Access} {s : σ} {tasks : List (Program κ α σ ε)}
    (inside : t < tasks.length) (meets : p.Meets K act held s) :
    ∃ n, Transition.run (step act) (only s held t (tasks.set t p)) (List.replicate n (.run t true)) =
      only (p.alone act s).state (fun _ => none) t
        (tasks.set t .done ++ (p.alone act s).spawned) := by
  obtain ⟨turns, known, reaches⟩ := run_answered lawful given (fun _ => true) inside meets
  have all : turns = List.replicate turns.length true := by
    refine List.eq_replicate_of_mem fun answer mem => (known answer mem).elim id ?_
    rintro ⟨_, eq⟩
    exact eq
  rw [all, List.map_replicate, Program.answered_true] at reaches
  exact ⟨_, reaches⟩

/-- Programs that start no others run to their ends one after the other. -/
theorem run_aloneAll (lawful : K.Lawful act) (given : ∀ action s, K.given action s)
    {pending : List (Program κ α σ ε)} (before : List (Program κ α σ ε)) (s : σ)
    (meets : ∀ p ∈ pending, ∀ s, p.Meets K act (fun _ => none) s)
    (alone : ∀ p ∈ pending, ∀ s, (p.alone act s).spawned = []) :
    ∃ us : List ℕ, Transition.run (step act) (only s (fun _ => none) 0 (before ++ pending))
        (us.map fun u => .run u true) =
      only (Program.aloneAll act pending s).1 (fun _ => none) 0
        (before ++ pending.map fun _ => .done) := by
  induction pending generalizing before s with
  | nil => exact ⟨[], rfl⟩
  | cons p pending ih =>
    have inside : before.length < (before ++ .done :: pending).length := by simp
    obtain ⟨n, first⟩ := run_alone lawful given inside (meets p (List.mem_cons_self ..) s)
    rw [alone p (List.mem_cons_self ..) s] at first
    obtain ⟨us, rest⟩ := ih (before ++ [.done]) (p.alone act s).state
      (fun q inside => meets q (List.mem_cons_of_mem _ inside))
      fun q inside => alone q (List.mem_cons_of_mem _ inside)
    refine ⟨List.replicate n before.length ++ us, ?_⟩
    simp only [List.set_append_right, Nat.le_refl, Nat.sub_self, List.set_cons_zero,
      List.append_nil] at first
    rw [List.append_assoc, List.singleton_append] at rest
    rw [List.map_append, List.map_replicate, Transition.run_append]
    refine (congrArg (Transition.run (step act) · _) first).trans (rest.trans ?_)
    simp [Program.aloneAll]

end System
