import DataBroker.Lib.Program

/-!
# Contracts of programs that share locks

What a task has read stays true only as long as its locks keep the others from changing it. A
`Contract` says which locks a task may take with which others in its hands, what it may rely on with
them, when it may do an action, and with which locks it may wait. `Program.Meets` says of a program
that it keeps to the contract from a state on, whatever the others do in between; where the contract
is `Lawful`, `System.Sound` holds in every state of a run of such programs.
-/

variable {κ α σ ε : Type}

/-- The terms on which the tasks of a system share its state.
* `permits`: which lock may be taken with which locks in hand.
* `rely`: what the others leave as it is while a task holds its locks.
* `given`: what may be assumed of the state in which an action is done.
* `pre`: what has to be seen to, by the locks held, before an action is done.
* `waits`: with which locks a task may wait for an event. -/
structure Contract (κ α σ ε : Type) where
  permits : (κ → Option Access) → κ → Access → Prop
  rely : (κ → Option Access) → σ → σ → Prop
  given : α → σ → Prop
  pre : (κ → Option Access) → α → σ → Prop
  waits : (κ → Option Access) → ε → Prop

/-- Locks that two tasks can hold at the same time. -/
def Compatible (held held' : κ → Option Access) : Prop :=
  ∀ lock access access', held lock = some access → held' lock = some access' →
    access = .read ∧ access' = .read

variable [DecidableEq κ]

/-- The terms fit together: what one task does is what the others rely on. -/
structure Contract.Lawful (K : Contract κ α σ ε) (act : α → σ → σ) : Prop where
  refl : ∀ held s, K.rely held s s
  trans : ∀ held s s' s'', K.rely held s s' → K.rely held s' s'' → K.rely held s s''
  anti : ∀ held lock s s', K.rely held s s' → K.rely (Function.update held lock none) s s'
  others : ∀ held held' action s, Compatible held held' → K.pre held action s → K.given action s →
    K.rely held' s (act action s)

/-- From the state `s`, seen with the locks `held`, the program keeps to the contract. It takes no
lock twice and ends without locks. -/
def Program.Meets (K : Contract κ α σ ε) (act : α → σ → σ) :
    (κ → Option Access) → σ → Program κ α σ ε → Prop
  | held, _, .done => ∀ lock, held lock = none
  | held, s, .acquire lock access next =>
    K.permits held lock access ∧ held lock = none ∧
      ∀ s', K.rely held s s' → next.Meets K act (Function.update held lock (some access)) s'
  | held, s, .release lock next => next.Meets K act (Function.update held lock none) s
  | held, s, .perform action next =>
    ∀ s', K.rely held s s' → K.given action s' →
      K.pre held action s' ∧ (next s').Meets K act held (act action s')
  | held, s, .await event next =>
    K.waits held event ∧ ∀ s', K.rely held s s' → ∀ answer, (next answer).Meets K act held s'
  | held, s, .spawn task next => (∀ s', task.Meets K act (fun _ => none) s') ∧ next.Meets K act held s

/-- A program that keeps to the contract still does when the others have done something. -/
theorem Program.Meets.rely {K : Contract κ α σ ε} {act : α → σ → σ} (lawful : K.Lawful act)
    {held : κ → Option Access} {s s' : σ} {task : Program κ α σ ε} (meets : task.Meets K act held s)
    (rely : K.rely held s s') : task.Meets K act held s' := by
  induction task generalizing held with
  | done => exact meets
  | acquire lock access next =>
    exact ⟨meets.1, meets.2.1, fun s'' later => meets.2.2 s'' (lawful.trans _ _ _ _ rely later)⟩
  | release lock next ih => exact ih meets (lawful.anti _ _ _ _ rely)
  | perform action next => exact fun s'' later => meets s'' (lawful.trans _ _ _ _ rely later)
  | await event next =>
    exact ⟨meets.1, fun s'' later => meets.2 s'' (lawful.trans _ _ _ _ rely later)⟩
  | spawn task next _ ih => exact ⟨meets.1, ih meets.2 rely⟩

namespace System

/-- The locks are sound, who waits is about to take the lock, every task keeps to the contract with
what it holds, and there are no tasks but those started. -/
structure Sound (K : Contract κ α σ ε) (act : α → σ → σ) (c : System κ α σ ε) : Prop where
  locks : ∀ lock, (c.locks lock).Sound
  waits : ∀ lock t access, (t, access) ∈ (c.locks lock).waiting →
    ∃ next, c.tasks t = .acquire lock access next
  meets : ∀ t, (c.tasks t).Meets K act (c.held t) c.state
  idle : ∀ t, c.started ≤ t → c.tasks t = .done

/-- What may be assumed of the action of the turn, if it is one. -/
def Given (K : Contract κ α σ ε) (c : System κ α σ ε) (turn : Turn κ α σ ε) : Prop :=
  ∀ t answer action next, turn = .run t answer → c.tasks t = .perform action next →
    K.given action c.state

variable {K : Contract κ α σ ε} {act : α → σ → σ} {c : System κ α σ ε} {t u : ℕ} {lock : κ}
  {access : Access} {next task : Program κ α σ ε} {turn : Turn κ α σ ε}

theorem sound_init (s : σ) : (init s : System κ α σ ε).Sound K act where
  locks _ := FairLock.sound_unheld
  waits _ _ _ waiting := by cases waiting
  meets _ _ := rfl
  idle _ _ := rfl

namespace Sound

theorem lt_started (sound : c.Sound K act) (busy : c.tasks t ≠ .done) : t < c.started :=
  Nat.lt_of_not_le fun later => busy (sound.idle t later)

/-- A task in line is about to take the lock it waits for. -/
theorem acquires (sound : c.Sound K act) (waits : (c.locks lock).Waits t) :
    ∃ access next, c.tasks t = .acquire lock access next := by
  obtain ⟨⟨u, access⟩, inside, rfl⟩ := waits
  obtain ⟨next, program⟩ := sound.waits lock u access inside
  exact ⟨access, next, program⟩

theorem not_waits (sound : c.Sound K act)
    (other : ∀ access next, c.tasks t ≠ .acquire lock access next) : ¬ (c.locks lock).Waits t := by
  intro waits
  obtain ⟨access, next, program⟩ := sound.acquires waits
  exact other access next program

/-- Two tasks hold the same lock only for reading. -/
theorem compatible (sound : c.Sound K act) (other : t ≠ u) : Compatible (c.held t) (c.held u) := by
  have alone : ∀ {t u : ℕ} {lock : κ} {access : Access}, t ≠ u → c.held t lock = some .write →
      c.held u lock ≠ some access := by
    intro t u lock access other writer holds
    have holds := (FairLock.mode_eq_some (sound.locks lock)).1 holds
    rw [(sound.locks lock).exclusive t ((FairLock.mode_eq_some (sound.locks lock)).1 writer)] at holds
    exact other (congrArg Prod.fst (List.mem_singleton.1 holds)).symm
  intro lock access access' holds holds'
  cases access with
  | write => exact absurd holds' (alone other holds)
  | read =>
    cases access' with
    | write => exact absurd holds (alone other.symm holds')
    | read => exact ⟨rfl, rfl⟩

/-- An operation of `t` that leaves the locks alone, and a state that the others can rely on. -/
theorem move (sound : c.Sound K act) (lawful : K.Lawful act) {s : σ} (known : t < c.started)
    (active : ∀ lock, ¬ (c.locks lock).Waits t) (meets : next.Meets K act (c.held t) s)
    (rely : ∀ u, u ≠ t → K.rely (c.held u) c.state s) :
    System.Sound K act { c with state := s, tasks := Function.update c.tasks t next } where
  locks := sound.locks
  waits lock u access inside := by
    have other : u ≠ t := by
      rintro rfl
      exact active lock ⟨_, inside, rfl⟩
    dsimp only
    rw [Function.update_of_ne other]
    exact sound.waits lock u access inside
  meets u := by
    show (Function.update c.tasks t next u).Meets K act (c.held u) s
    by_cases same : u = t
    · rw [same, Function.update_self]
      exact meets
    · rw [Function.update_of_ne same]
      exact (sound.meets u).rely lawful (rely u same)
  idle u later := by
    have later : c.started ≤ u := later
    dsimp only
    rw [Function.update_of_ne (by omega)]
    exact sound.idle u later

/-- A new task holds nothing. -/
theorem add (sound : c.Sound K act) (meets : task.Meets K act (fun _ => none) c.state) :
    (c.add task).Sound K act where
  locks := sound.locks
  waits lock u access inside := by
    obtain ⟨next, program⟩ := sound.waits lock u access inside
    have old : u < c.started := sound.lt_started (by simp [program])
    refine ⟨next, ?_⟩
    rw [← program]
    exact Function.update_of_ne (by omega) _ _
  meets u := by
    show (Function.update c.tasks c.started task u).Meets K act (c.held u) c.state
    by_cases new : u = c.started
    · have nothing := sound.meets c.started
      rw [sound.idle _ (Nat.le_refl _)] at nothing
      rw [new, Function.update_self, show c.held c.started = fun _ => none from funext nothing]
      exact meets
    · rw [Function.update_of_ne new]
      exact sound.meets u
  idle u later := by
    have later : c.started + 1 ≤ u := later
    show Function.update c.tasks c.started task u = .done
    rw [Function.update_of_ne (by omega)]
    exact sound.idle u (by omega)

/-- One changed lock among the others. -/
theorem locks_update (sound : c.Sound K act) {l : FairLock ℕ} (changed : l.Sound) (lock' : κ) :
    (Function.update c.locks lock l lock').Sound := by
  by_cases same : lock' = lock
  · rw [same, Function.update_self]
    exact changed
  · rw [Function.update_of_ne same]
    exact sound.locks lock'

/-- A task is in one line only. -/
theorem waits_once (sound : c.Sound K act) {lock' : κ} (here : (c.locks lock).Waits t)
    (there : (c.locks lock').Waits t) : lock' = lock := by
  obtain ⟨access, next, program⟩ := sound.acquires here
  obtain ⟨access', next', program'⟩ := sound.acquires there
  rw [program] at program'
  cases program'
  rfl

/-- A request that is granted. -/
theorem grant (sound : c.Sound K act) (lawful : K.Lawful act)
    (program : c.tasks t = .acquire lock access next) (active : ¬ (c.locks lock).Waits t)
    (granted : ¬ ((c.locks lock).request t access).Waits t) :
    System.Sound K act { c with
      locks := Function.update c.locks lock ((c.locks lock).request t access)
      tasks := Function.update c.tasks t next } := by
  obtain ⟨-, free, rest⟩ : (Program.acquire lock access next).Meets K act (c.held t) c.state :=
    program ▸ sound.meets t
  constructor
  · exact sound.locks_update (FairLock.request_sound (sound.locks lock) free active)
  · intro lock' u access' inside
    dsimp only at inside ⊢
    have old : (u, access') ∈ (c.locks lock').waiting ∧ u ≠ t := by
      by_cases same : lock' = lock
      · subst same
        rw [Function.update_self] at inside
        have other : u ≠ t := by
          rintro rfl
          exact granted ⟨_, inside, rfl⟩
        refine ⟨(FairLock.mem_waiting_request inside).resolve_right fun e => ?_, other⟩
        exact other (congrArg Prod.fst e)
      · rw [Function.update_of_ne same] at inside
        refine ⟨inside, ?_⟩
        rintro rfl
        obtain ⟨next', program'⟩ := sound.waits lock' u access' inside
        rw [program] at program'
        cases program'
        exact same rfl
    rw [Function.update_of_ne old.2]
    exact sound.waits lock' u access' old.1
  · intro u
    rw [held_grant _ _ _ _ granted]
    dsimp only
    by_cases same : u = t
    · rw [if_pos same, same, Function.update_self]
      exact rest _ (lawful.refl _ _)
    · rw [if_neg same, Function.update_of_ne same]
      exact sound.meets u
  · intro u later
    have known : t < c.started := sound.lt_started (by simp [program])
    have later : c.started ≤ u := later
    dsimp only
    rw [Function.update_of_ne (by omega)]
    exact sound.idle u later

/-- A request that has to wait. -/
theorem line (sound : c.Sound K act) (program : c.tasks t = .acquire lock access next)
    (active : ¬ (c.locks lock).Waits t) (waits : ((c.locks lock).request t access).Waits t) :
    System.Sound K act { c with
      locks := Function.update c.locks lock ((c.locks lock).request t access) } := by
  obtain ⟨-, free, rest⟩ : (Program.acquire lock access next).Meets K act (c.held t) c.state :=
    program ▸ sound.meets t
  constructor
  · exact sound.locks_update (FairLock.request_sound (sound.locks lock) free active)
  · intro lock' u access' inside
    dsimp only at inside ⊢
    by_cases same : lock' = lock
    · subst same
      rw [Function.update_self] at inside
      rcases FairLock.mem_waiting_request inside with old | new
      · exact sound.waits lock' u access' old
      · cases new
        exact ⟨next, program⟩
    · rw [Function.update_of_ne same] at inside
      exact sound.waits lock' u access' inside
  · intro u
    rw [held_line _ _ _ _ waits]
    exact sound.meets u
  · exact sound.idle

/-- What a release by `t` does to another task: nothing, or the task gets the lock. -/
theorem released (sound : c.Sound K act) (lock : κ) (s : σ) (tasks : ℕ → Program κ α σ ε) (n : ℕ)
    (other : u ≠ t) :
    let locks := Function.update c.locks lock ((c.locks lock).release t)
    (c.afterRelease lock t u = c.tasks u ∧ held ⟨s, locks, tasks, n⟩ u = c.held u) ∨
      ((c.locks lock).Waits u ∧ ¬ ((c.locks lock).release t).Waits u) ∧
      ∃ access next, c.tasks u = .acquire lock access next ∧ c.afterRelease lock t u = next ∧
        held ⟨s, locks, tasks, n⟩ u = Function.update (c.held u) lock (some access) := by
  dsimp only
  rw [held_update]
  rcases FairLock.mode_release_other (sound.locks lock) other with
    ⟨mode, stays⟩ | ⟨access, waited, letIn, mode⟩
  · refine .inl ⟨if_neg (fun h => h.2 (stays h.1)), ?_⟩
    rw [mode]
    exact Function.update_eq_self _ _
  · obtain ⟨next, program⟩ := sound.waits lock u access waited
    have admitted : (c.locks lock).Waits u ∧ ¬ ((c.locks lock).release t).Waits u :=
      ⟨⟨_, waited, rfl⟩, letIn⟩
    refine .inr ⟨admitted, access, next, program, ?_, by rw [mode]⟩
    rw [afterRelease, program]
    exact if_pos admitted

/-- A release of a lock, which lets in others. -/
theorem release (sound : c.Sound K act) (lawful : K.Lawful act)
    (program : c.tasks t = .release lock next) :
    System.Sound K act { c with
      locks := Function.update c.locks lock ((c.locks lock).release t)
      tasks := Function.update (c.afterRelease lock t) t next } := by
  have meets : (Program.release lock next).Meets K act (c.held t) c.state := program ▸ sound.meets t
  have active : ∀ lock', ¬ (c.locks lock').Waits t := fun lock' =>
    sound.not_waits (by simp [program])
  constructor
  · exact sound.locks_update (FairLock.release_sound (sound.locks lock) t)
  · intro lock' u access' inside
    dsimp only at inside ⊢
    have old : (u, access') ∈ (c.locks lock').waiting ∧
        ¬ ((c.locks lock).Waits u ∧ ¬ ((c.locks lock).release t).Waits u) := by
      by_cases same : lock' = lock
      · subst same
        rw [Function.update_self] at inside
        exact ⟨FairLock.mem_waiting_release inside, fun h => h.2 ⟨_, inside, rfl⟩⟩
      · rw [Function.update_of_ne same] at inside
        exact ⟨inside, fun h => same (sound.waits_once h.1 ⟨_, inside, rfl⟩)⟩
    have other : u ≠ t := by
      rintro rfl
      exact active lock' ⟨_, old.1, rfl⟩
    rw [Function.update_of_ne other, show c.afterRelease lock t u = c.tasks u from if_neg old.2]
    exact sound.waits lock' u access' old.1
  · intro u
    by_cases same : u = t
    · rw [same, held_release_self _ _ _ _ (active lock)]
      dsimp only
      rw [Function.update_self]
      exact meets
    · dsimp only
      rw [Function.update_of_ne same]
      rcases sound.released lock c.state (Function.update (c.afterRelease lock t) t next) c.started
        same with ⟨stays, held⟩ | ⟨-, access, next', program', goesOn, held⟩
      · rw [stays, held]
        exact sound.meets u
      · have waiting := sound.meets u
        rw [program'] at waiting
        rw [goesOn, held]
        exact waiting.2.2 _ (lawful.refl _ _)
  · intro u later
    have known : t < c.started := sound.lt_started (by simp [program])
    have later : c.started ≤ u := later
    dsimp only
    rw [Function.update_of_ne (by omega), afterRelease, sound.idle u later]
    exact ite_self Program.done

theorem effect (sound : c.Sound K act) (lawful : K.Lawful act) {answer : Bool}
    {c' : System κ α σ ε} (effect : Effect act c t answer c') (given : c.Given K (.run t answer)) :
    c'.Sound K act := by
  have meets := sound.meets t
  have known : c.tasks t ≠ .done → t < c.started := sound.lt_started
  have active : (∀ access lock next, c.tasks t ≠ .acquire lock access next) →
      ∀ lock, ¬ (c.locks lock).Waits t :=
    fun other lock => sound.not_waits fun access => other access lock
  cases effect with
  | idle => exact sound
  | line program active waits => exact sound.line program active waits
  | grant program active granted => exact sound.grant lawful program active granted
  | release program => exact sound.release lawful program
  | @perform action next program =>
    rw [program] at meets known active
    have given : K.given action c.state := given t answer action next rfl program
    obtain ⟨pre, rest⟩ := meets _ (lawful.refl _ _) given
    exact sound.move lawful (known (by simp)) (active (by simp)) rest fun u other =>
      lawful.others _ _ _ _ (sound.compatible other.symm) pre given
  | await program =>
    rw [program] at meets known active
    exact sound.move lawful (known (by simp)) (active (by simp))
      (meets.2 _ (lawful.refl _ _) answer) fun _ _ => lawful.refl _ _
  | spawn program =>
    rw [program] at meets known active
    have moved := sound.move lawful (known (by simp)) (active (by simp)) meets.2
      fun _ _ => lawful.refl _ _
    exact moved.add (meets.1 _)

/-- A turn keeps the system sound, where a task that comes in meets the contract. -/
theorem step (sound : c.Sound K act) (lawful : K.Lawful act)
    (starts : ∀ task, turn = .start task → task.Meets K act (fun _ => none) c.state)
    (given : c.Given K turn) : (c.step act turn).Sound K act := by
  cases turn with
  | start task => exact sound.add (starts task rfl)
  | run t answer => exact sound.effect lawful (run_effect c t answer) given

/-- A task that is in line after a turn was about to take the lock before it, with the same locks in
its hands. -/
theorem before_waiting (sound : c.Sound K act)
    (waits : ((c.step act turn).locks lock).Waits t) :
    (c.step act turn).tasks t = c.tasks t ∧ (c.step act turn).held t = c.held t := by
  -- who does another operation was not in line
  have moves : ∀ s : ℕ, (∀ lock' access next, c.tasks s ≠ .acquire lock' access next) →
      (c.locks lock).Waits t → t ≠ s := by
    rintro s moves waits rfl
    obtain ⟨access, next, program⟩ := sound.acquires waits
    exact moves lock access next program
  have old : (c.locks lock).Waits t → t ≠ c.started := by
    intro waits
    obtain ⟨access, next, program⟩ := sound.acquires waits
    exact Nat.ne_of_lt (sound.lt_started (by simp [program]))
  cases turn with
  | start task => exact ⟨Function.update_of_ne (old waits) _ _, rfl⟩
  | run s answer =>
    change ((c.run act s answer).locks lock).Waits t at waits
    show (c.run act s answer).tasks t = c.tasks t ∧ (c.run act s answer).held t = c.held t
    have effect : Effect act c s answer (c.run act s answer) := run_effect c s answer
    generalize c.run act s answer = c' at effect waits ⊢
    cases effect with
    | idle => exact ⟨rfl, rfl⟩
    | line program active inLine =>
      exact ⟨rfl, held_line _ _ _ _ inLine _⟩
    | @grant lock' access next program active granted =>
      dsimp only at waits
      have other : t ≠ s := by
        rintro rfl
        by_cases same : lock = lock'
        · subst same
          rw [Function.update_self] at waits
          exact granted waits
        · rw [Function.update_of_ne same] at waits
          obtain ⟨access, next, program'⟩ := sound.acquires waits
          rw [program] at program'
          cases program'
          exact same rfl
      exact ⟨Function.update_of_ne other _ _, (held_grant _ _ _ _ granted _).trans (if_neg other)⟩
    | @release lock' next program =>
      dsimp only at waits
      have stays : (c.locks lock).Waits t ∧
          ¬ ((c.locks lock').Waits t ∧ ¬ ((c.locks lock').release s).Waits t) := by
        by_cases same : lock = lock'
        · subst same
          rw [Function.update_self] at waits
          obtain ⟨r, inside, own⟩ := waits
          exact ⟨⟨r, FairLock.mem_waiting_release inside, own⟩, fun h => h.2 ⟨r, inside, own⟩⟩
        · rw [Function.update_of_ne same] at waits
          exact ⟨waits, fun h => same (sound.waits_once h.1 waits)⟩
      have other : t ≠ s := moves s (by simp [program]) stays.1
      rcases sound.released lock' _ _ _ other with ⟨same, held⟩ | ⟨admitted, -⟩
      · exact ⟨(Function.update_of_ne other _ _).trans same, held⟩
      · exact absurd admitted stays.2
    | perform program =>
      exact ⟨Function.update_of_ne (moves s (by simp [program]) waits) _ _, rfl⟩
    | await program =>
      exact ⟨Function.update_of_ne (moves s (by simp [program]) waits) _ _, rfl⟩
    | spawn program =>
      refine ⟨(Function.update_of_ne (old waits) _ _).trans ?_, rfl⟩
      exact Function.update_of_ne (moves s (by simp [program]) waits) _ _

end Sound

variable (act) in
/-- A task whose request does not fit waits after its turn; nothing else changes. -/
theorem run_blocked (program : c.tasks t = .acquire lock access next)
    (blocked : ¬ FairLock.Fits (c.locks lock).holders access) (answer : Bool) :
    ((c.run act t answer).locks lock).Waits t ∧ (c.run act t answer).tasks = c.tasks ∧
      (∀ u, (c.run act t answer).held u = c.held u) ∧
      ∀ lock' u, (c.locks lock').Waits u → ((c.run act t answer).locks lock').Waits u := by
  have waits : ((c.locks lock).request t access).Waits t := FairLock.waits_request blocked
  rw [run, program]
  dsimp only
  by_cases inLine : (c.locks lock).Waits t
  · rw [if_pos inLine]
    exact ⟨inLine, rfl, fun _ => rfl, fun _ _ h => h⟩
  · rw [if_neg inLine, if_pos waits]
    refine ⟨by simpa using waits, rfl, held_line _ _ _ _ waits, fun lock' u h => ?_⟩
    by_cases same : lock' = lock
    · subst same
      dsimp only
      rw [Function.update_self]
      exact FairLock.waits_of_waits h
    · dsimp only
      rw [Function.update_of_ne same]
      exact h

end System
