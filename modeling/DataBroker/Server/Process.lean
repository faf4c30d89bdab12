import DataBroker.Lib.Notify
import DataBroker.Server.Arguments
import DataBroker.Server.Connections

/-!
# Shutting the process down

On a signal the main task notifies `stop_accepting`, waits for `drained` as long as
`--shutdown_timeout` says, notifies `stop_word` and returns. `Server::run` and its pool go on
meanwhile (`Listener`). A notification reaches the futures that exist when it comes: the accept loop
has one in its `select!`, and `shutdown` has one from the moment it waits.

* `shutdown_ordered`: what is notified when, and that the main task comes to its end.
* `drained_unheard`: what comes of `drained` before `shutdown` waits for it.
-/

namespace DataBroker

inductive ShutdownReason where
  | ctrlC
  | sigTerm
  | sigHup
deriving DecidableEq, Repr

/-- Where the main task stands: in the `select!` of `run_shutdown_loop` with its future of
`stop_word`, in `shutdown` before and behind `stop_accepting.notify()`, in `timeout` with its future
of `drained`, before the first and the last `stop_word.notify()`, or at its end. -/
inductive MainTask where
  | serving (woken : Bool)
  | stopping
  | stopped
  | waiting (seconds : ℕ) (woken : Bool)
  | timedOut
  | telling
  | ended (result : Except IntErrorKind Unit)
deriving DecidableEq

/-- The main task and `Server::run`, whose accept loop stands somewhere once it has begun, and how
often the two notifications were called. `Server::run` may go on behind the end of the main task, up
to the end of the runtime. -/
structure Process where
  main : MainTask
  acceptor : Option Stand
  listener : Listener
  stopAccepting : ℕ
  stopWord : ℕ
deriving DecidableEq

/-- The main task sees a signal, goes on by itself or sees its timeout; `Server::run` gets to its
accept loop or fails before it; the accept loop comes back to its `select!`, or accepts in vain; or
`Server::run` and its pool take a step. -/
inductive Process.Turn where
  | signal (reason : ShutdownReason)
  | main
  | expire
  | launch (ok : Bool)
  | select
  | acceptError
  | server (turn : DrainTurn)
deriving DecidableEq

namespace Process

def start (workers : ℕ) : Process := ⟨.serving false, none, .start workers, 0, 0⟩

/-- `run_shutdown_loop` with what `wait_for_shutdown` returns. Behind `SIGHUP` it has new futures. -/
def signal (s : Process) (reason : ShutdownReason) : Process :=
  match s.main, reason with
  | .serving _, .sigHup => { s with main := .serving false }
  | .serving _, _ => { s with main := .stopping }
  | _, _ => s

/-- `stop_accepting.notify()` -/
def notifyStopAccepting (s : Process) : Process :=
  { s with
    stopAccepting := s.stopAccepting + 1
    acceptor := s.acceptor.map fun
      | .select _ => .select true
      | stand => stand }

/-- `stop_word.notify()`, as far as it concerns the main task. -/
def notifyStopWord (s : Process) : Process :=
  { s with
    stopWord := s.stopWord + 1
    main := match s.main with
      | .serving _ => .serving true
      | main => main }

/-- `drained.notify()` -/
def notifyDrained (s : Process) : Process :=
  { s with
    main := match s.main with
      | .waiting seconds _ => .waiting seconds true
      | main => main }

/-- What the main task does by itself. -/
def next (args : HashMap Text Text) (s : Process) : Process :=
  match s.main with
  | .serving true => { s with main := .ended (.ok ()) }
  | .stopping => { s.notifyStopAccepting with main := .stopped }
  | .stopped =>
    match shutdownTimeout args with
    | none => { s with main := .telling }
    | some (.ok seconds) => { s with main := .waiting seconds false }
    | some (.error kind) => { s with main := .ended (.error kind) }
  | .waiting _ true => { s with main := .telling }
  | .timedOut => { s.notifyStopWord with main := .telling }
  | .telling => { s.notifyStopWord with main := .ended (.ok ()) }
  | _ => s

/-- The timeout, which `timeout` looks at behind `drained`. -/
def expire (s : Process) : Process :=
  match s.main with
  | .waiting _ false => { s with main := .timedOut }
  | _ => s

/-- `Server::run` before its accept loop. -/
def launch (s : Process) (ok : Bool) : Process :=
  match s.acceptor with
  | none => { s with acceptor := some (if ok then .select false else .ended) }
  | some _ => s

def select (s : Process) : Process :=
  match s.acceptor with
  | some .work => { s with acceptor := some (.select false) }
  | _ => s

def acceptError (s : Process) : Process :=
  match s.acceptor with
  | some (.select _) => { s with acceptor := some .work }
  | _ => s

/-- The arm of `listener.accept()`. -/
def accept (s : Process) : Process :=
  match s.acceptor with
  | some (.select _) => { s with acceptor := some .work, listener := s.listener.accept }
  | _ => s

/-- The arm of `stop_accepting`. -/
def stop (s : Process) : Process :=
  match s.acceptor with
  | some (.select true) => { s with acceptor := some .ended, listener := s.listener.stop }
  | _ => s

/-- A look at `active_connections`, and `drained.notify()` behind the loop. -/
def poll (s : Process) : Process :=
  if s.listener.phase ≠ .drained ∧ s.listener.poll.phase = .drained then
    { s.notifyDrained with listener := s.listener.poll }
  else { s with listener := s.listener.poll }

def step (args : HashMap Text Text) (queueCapacity : ℕ) (s : Process) : Turn → Process
  | .signal reason => s.signal reason
  | .main => s.next args
  | .expire => s.expire
  | .launch ok => s.launch ok
  | .select => s.select
  | .acceptError => s.acceptError
  | .server .accept => s.accept
  | .server .stop => s.stop
  | .server .poll => s.poll
  | .server turn => { s with listener := s.listener.step queueCapacity turn }

/-! ## The order of the notifications -/

/-- What was called by the time the main task stands where it does. `stop_word` is called twice where
the timeout came first. -/
def Ordered (args : HashMap Text Text) (s : Process) : Prop :=
  match s.main with
  | .serving woken => s.stopAccepting = 0 ∧ s.stopWord = 0 ∧ woken = false
  | .stopping => s.stopAccepting = 0 ∧ s.stopWord = 0
  | .stopped => s.stopAccepting = 1 ∧ s.stopWord = 0
  | .waiting seconds woken => s.stopAccepting = 1 ∧ s.stopWord = 0 ∧
      shutdownTimeout args = some (.ok seconds) ∧ (woken = true → s.listener.phase = .drained)
  | .timedOut => s.stopAccepting = 1 ∧ s.stopWord = 0 ∧
      ∃ seconds, shutdownTimeout args = some (.ok seconds)
  | .telling => s.stopAccepting = 1 ∧
      (s.stopWord = 0 ∧ (shutdownTimeout args = none ∨ s.listener.phase = .drained) ∨
        s.stopWord = 1 ∧ ∃ seconds, shutdownTimeout args = some (.ok seconds))
  | .ended (.ok _) => s.stopAccepting = 1 ∧
      (s.stopWord = 1 ∧ (shutdownTimeout args = none ∨ s.listener.phase = .drained) ∨
        s.stopWord = 2 ∧ ∃ seconds, shutdownTimeout args = some (.ok seconds))
  | .ended (.error kind) => s.stopAccepting = 1 ∧ s.stopWord = 0 ∧
      shutdownTimeout args = some (.error kind)

variable {args : HashMap Text Text} {queueCapacity : ℕ} {s : Process}

/-- The main task stays ordered while `Server::run` goes on. -/
theorem Ordered.listener (ordered : s.Ordered args) {l : Listener}
    (drained : s.listener.phase = .drained → l.phase = .drained) (acceptor : Option Stand) :
    Ordered args { s with acceptor, listener := l } := by
  obtain ⟨main, _, listener, stopAccepting, stopWord⟩ := s
  unfold Ordered at *
  cases main with
  | waiting seconds woken => exact ⟨ordered.1, ordered.2.1, ordered.2.2.1, drained ∘ ordered.2.2.2⟩
  | telling => exact ordered.imp_right (Or.imp_left (And.imp_right (Or.imp_right drained)))
  | ended result =>
    cases result with
    | ok => exact ordered.imp_right (Or.imp_left (And.imp_right (Or.imp_right drained)))
    | error kind => exact ordered
  | _ => exact ordered

theorem Ordered.signal (ordered : s.Ordered args) (reason : ShutdownReason) :
    (s.signal reason).Ordered args := by
  obtain ⟨main, acceptor, listener, stopAccepting, stopWord⟩ := s
  cases main with
  | serving woken =>
    obtain ⟨accepting, word, -⟩ := ordered
    cases reason with
    | sigHup => exact ⟨accepting, word, rfl⟩
    | _ => exact ⟨accepting, word⟩
  | _ => exact ordered

theorem Ordered.next (ordered : s.Ordered args) : (s.next args).Ordered args := by
  obtain ⟨main, acceptor, listener, stopAccepting, stopWord⟩ := s
  cases main with
  | serving woken =>
    obtain ⟨accepting, word, rfl⟩ := ordered
    exact ⟨accepting, word, rfl⟩
  | stopping =>
    obtain ⟨accepting, word⟩ := ordered
    exact ⟨congrArg Nat.succ accepting, word⟩
  | stopped =>
    obtain ⟨accepting, word⟩ := ordered
    unfold Process.next
    dsimp only
    split
    next none => exact ⟨accepting, .inl ⟨word, .inl none⟩⟩
    next seconds some => exact ⟨accepting, word, some, fun woken => by cases woken⟩
    next kind some => exact ⟨accepting, word, some⟩
  | waiting seconds woken =>
    cases woken with
    | false => exact ordered
    | true => exact ⟨ordered.1, .inl ⟨ordered.2.1, .inr (ordered.2.2.2 rfl)⟩⟩
  | timedOut =>
    obtain ⟨accepting, word, some⟩ := ordered
    exact ⟨accepting, .inr ⟨congrArg Nat.succ word, some⟩⟩
  | telling =>
    obtain ⟨accepting, ⟨word, quiet⟩ | ⟨word, some⟩⟩ := ordered
    · exact ⟨accepting, .inl ⟨congrArg Nat.succ word, quiet⟩⟩
    · exact ⟨accepting, .inr ⟨congrArg Nat.succ word, some⟩⟩
  | ended result => exact ordered

theorem Ordered.expire (ordered : s.Ordered args) : s.expire.Ordered args := by
  obtain ⟨main, acceptor, listener, stopAccepting, stopWord⟩ := s
  cases main with
  | waiting seconds woken =>
    cases woken with
    | false => exact ⟨ordered.1, ordered.2.1, seconds, ordered.2.2.1⟩
    | true => exact ordered
  | _ => exact ordered

theorem Ordered.poll (ordered : s.Ordered args) : s.poll.Ordered args := by
  have went := ordered.listener (fun drained => Listener.drained_step 0 drained .poll)
    s.acceptor
  change Ordered args { s with listener := s.listener.poll } at went
  unfold Process.poll
  split_ifs with drains
  · obtain ⟨main, acceptor, listener, stopAccepting, stopWord⟩ := s
    cases main with
    | waiting seconds woken => exact ⟨went.1, went.2.1, went.2.2.1, fun _ => drains.2⟩
    | _ => exact went
  · exact went

theorem Ordered.server (ordered : s.Ordered args) (turn : DrainTurn) :
    (s.step args queueCapacity (.server turn)).Ordered args := by
  have went := ordered.listener fun drained =>
    Listener.drained_step queueCapacity drained turn
  cases turn with
  | accept =>
    show s.accept.Ordered args
    unfold accept
    split
    · exact went _
    · exact ordered
  | stop =>
    show s.stop.Ordered args
    unfold stop
    split
    · exact went _
    · exact ordered
  | poll => exact ordered.poll
  | _ => exact went s.acceptor

theorem Ordered.step (ordered : s.Ordered args) (turn : Turn) :
    (s.step args queueCapacity turn).Ordered args := by
  cases turn with
  | signal reason => exact ordered.signal reason
  | main => exact ordered.next
  | expire => exact ordered.expire
  | launch ok =>
    show (s.launch ok).Ordered args
    unfold launch
    split
    · exact ordered.listener id _
    · exact ordered
  | select =>
    show s.select.Ordered args
    unfold Process.select
    split
    · exact ordered.listener id _
    · exact ordered
  | acceptError =>
    show s.acceptError.Ordered args
    unfold acceptError
    split
    · exact ordered.listener id _
    · exact ordered
  | server turn => exact ordered.server turn

/-- `Server::run` has left its accept loop, or is about to, only where it was told to. -/
structure Told (s : Process) : Prop where
  phase : s.listener.phase ≠ .accepting → 0 < s.stopAccepting
  woken : s.acceptor = some (.select true) → 0 < s.stopAccepting

theorem Told.step (told : s.Told) (turn : Turn) : (s.step args queueCapacity turn).Told := by
  obtain ⟨main, acceptor, listener, stopAccepting, stopWord⟩ := s
  cases turn with
  | signal reason => cases main <;> cases reason <;> exact ⟨told.phase, told.woken⟩
  | main =>
    show (Process.next args _).Told
    unfold Process.next
    split
    · exact ⟨told.phase, told.woken⟩
    · exact ⟨fun _ => Nat.succ_pos _, fun _ => Nat.succ_pos _⟩
    · split <;> exact ⟨told.phase, told.woken⟩
    · exact ⟨told.phase, told.woken⟩
    · exact ⟨told.phase, told.woken⟩
    · exact ⟨told.phase, told.woken⟩
    · exact told
  | expire =>
    show (expire _).Told
    unfold expire
    split <;> exact ⟨told.phase, told.woken⟩
  | launch ok =>
    show (launch _ _).Told
    unfold launch
    split
    · refine ⟨told.phase, fun woken => ?_⟩
      cases ok <;> cases woken
    · exact told
  | select =>
    show (Process.select _).Told
    unfold Process.select
    split
    · exact ⟨told.phase, fun woken => by cases woken⟩
    · exact told
  | acceptError =>
    show (acceptError _).Told
    unfold acceptError
    split
    · exact ⟨told.phase, fun woken => by cases woken⟩
    · exact told
  | server turn =>
    cases turn with
    | accept =>
      show (accept _).Told
      unfold accept
      split
      · refine ⟨fun phase => told.phase fun accepting => phase ?_, fun woken => by cases woken⟩
        show (listener.step 0 .accept).phase = _
        rw [Listener.phase_step 0 (by simp) (by simp), accepting]
      · exact told
    | stop =>
      show (stop _).Told
      unfold stop
      split
      next woken => exact ⟨fun _ => told.woken woken, fun woken => by cases woken⟩
      · exact told
    | poll =>
      have before : listener.poll.phase ≠ .accepting → listener.phase ≠ .accepting := by
        intro phase accepting
        refine phase ?_
        rw [Listener.poll, if_neg (by simp [accepting]), accepting]
      show (poll _).Told
      unfold poll
      split_ifs <;> exact ⟨told.phase ∘ before, told.woken⟩
    | _ =>
      refine ⟨fun phase => told.phase fun accepting => phase ?_, told.woken⟩
      exact (Listener.phase_step queueCapacity (by simp) (by simp)).trans accepting

end Process

/-! ## The end of the main task -/

/-- How many steps the main task has before it at most. -/
def MainTask.work : MainTask → ℕ
  | serving _ => 6
  | stopping => 5
  | stopped => 4
  | waiting _ false => 3
  | waiting _ true => 2
  | timedOut => 2
  | telling => 1
  | ended _ => 0

namespace Process

variable {args : HashMap Text Text} {queueCapacity : ℕ} {s : Process}

/-- A turn of the main task itself. -/
def Turn.OfMain : Turn → Prop
  | .signal _ => True
  | .main => True
  | .expire => True
  | _ => False

/-- All that `Server::run` does to the main task is to wake it where it waits for `drained`. -/
theorem main_step (args : HashMap Text Text) (queueCapacity : ℕ) (s : Process) (turn : Turn)
    (others : ¬ turn.OfMain) :
    (s.step args queueCapacity turn).stopWord = s.stopWord ∧
      ((s.step args queueCapacity turn).main = s.main ∨ ∃ seconds,
        s.main = .waiting seconds false ∧ s.listener.phase ≠ .drained ∧
        (s.step args queueCapacity turn).main = .waiting seconds true) := by
  obtain ⟨main, acceptor, listener, stopAccepting, stopWord⟩ := s
  cases turn with
  | signal reason => exact absurd trivial others
  | main => exact absurd trivial others
  | expire => exact absurd trivial others
  | launch ok => cases acceptor <;> exact ⟨rfl, .inl rfl⟩
  | select =>
    show (Process.select _).stopWord = _ ∧ ((Process.select _).main = _ ∨ _)
    unfold Process.select
    split <;> exact ⟨rfl, .inl rfl⟩
  | acceptError =>
    show (acceptError _).stopWord = _ ∧ ((acceptError _).main = _ ∨ _)
    unfold acceptError
    split <;> exact ⟨rfl, .inl rfl⟩
  | server turn =>
    cases turn with
    | accept =>
      show (accept _).stopWord = _ ∧ ((accept _).main = _ ∨ _)
      unfold accept
      split <;> exact ⟨rfl, .inl rfl⟩
    | stop =>
      show (stop _).stopWord = _ ∧ ((stop _).main = _ ∨ _)
      unfold stop
      split <;> exact ⟨rfl, .inl rfl⟩
    | poll =>
      show (poll _).stopWord = _ ∧ ((poll _).main = _ ∨ ∃ seconds, _ ∧ _ ∧ (poll _).main = _)
      unfold poll
      split_ifs with drains
      · refine ⟨rfl, ?_⟩
        cases main with
        | waiting seconds woken =>
          cases woken with
          | false => exact .inr ⟨seconds, rfl, drains.1, rfl⟩
          | true => exact .inl rfl
        | _ => exact .inl rfl
      · exact ⟨rfl, .inl rfl⟩
    | _ => exact ⟨rfl, .inl rfl⟩

/-- The main task stays where it is or gets nearer to its end. -/
theorem work_step (ordered : s.Ordered args) (turn : Turn) :
    (s.step args queueCapacity turn).main = s.main ∨
      (s.step args queueCapacity turn).main.work < s.main.work := by
  by_cases others : turn.OfMain
  · obtain ⟨main, acceptor, listener, stopAccepting, stopWord⟩ := s
    cases turn with
    | signal reason =>
      cases main with
      | serving woken =>
        obtain ⟨-, -, rfl⟩ := ordered
        cases reason with
        | sigHup => exact .inl rfl
        | _ => exact .inr (Nat.lt_succ_self _)
      | _ => exact .inl rfl
    | main =>
      show (Process.next args _).main = _ ∨ (Process.next args _).main.work < _
      cases main with
      | serving woken =>
        obtain ⟨-, -, rfl⟩ := ordered
        exact .inl rfl
      | stopped =>
        right
        unfold Process.next
        dsimp only
        split <;> simp [MainTask.work]
      | waiting seconds woken =>
        cases woken with
        | false => exact .inl rfl
        | true => exact .inr (Nat.lt_succ_self _)
      | ended result => exact .inl rfl
      | _ => exact .inr (Nat.lt_succ_self _)
    | expire =>
      cases main with
      | waiting seconds woken =>
        cases woken with
        | false => exact .inr (Nat.lt_succ_self _)
        | true => exact .inl rfl
      | _ => exact .inl rfl
    | launch ok => cases others
    | select => cases others
    | acceptError => cases others
    | server turn => cases others
  · rcases (main_step args queueCapacity s turn others).2 with same | ⟨seconds, before, -, after⟩
    · exact .inl same
    · rw [before, after]
      exact .inr (Nat.lt_succ_self _)

theorem ordered_start (args : HashMap Text Text) (workers : ℕ) : (start workers).Ordered args :=
  ⟨rfl, rfl, rfl⟩

/-- The timeout has not led to `stop_word`. -/
def InTime (s : Process) : Prop :=
  match s.main with
  | .timedOut => False
  | .telling => s.stopWord = 0
  | .ended (.ok _) => s.stopWord = 1
  | _ => True

theorem InTime.step (inTime : s.InTime) (ordered : s.Ordered args) {turn : Turn}
    (other : turn ≠ .expire) : (s.step args queueCapacity turn).InTime := by
  by_cases others : turn.OfMain
  · obtain ⟨main, acceptor, listener, stopAccepting, stopWord⟩ := s
    cases turn with
    | signal reason => cases main <;> cases reason <;> trivial
    | main =>
      show (Process.next args _).InTime
      cases main with
      | serving woken =>
        obtain ⟨-, -, rfl⟩ := ordered
        trivial
      | stopping => trivial
      | stopped =>
        unfold Process.next
        dsimp only
        split
        · exact ordered.2
        · trivial
        · trivial
      | waiting seconds woken =>
        cases woken with
        | false => trivial
        | true => exact ordered.2.1
      | timedOut => cases inTime
      | telling => exact congrArg Nat.succ inTime
      | ended result => exact inTime
    | expire => exact absurd rfl other
    | launch ok => cases others
    | select => cases others
    | acceptError => cases others
    | server turn => cases others
  · obtain ⟨word, same | ⟨seconds, -, -, after⟩⟩ := main_step args queueCapacity s turn others
    · unfold InTime
      rw [word, same]
      exact inTime
    · unfold InTime
      rw [after]
      trivial

/-- Where `stop_word` was called in time, there was nothing to wait for or `drained` was heard. -/
theorem drained_of_inTime (inTime : s.InTime) (ordered : s.Ordered args) (called : s.stopWord ≠ 0)
    {seconds : ℕ} (timeout : shutdownTimeout args = some (.ok seconds)) :
    s.listener.phase = .drained := by
  have wanted : shutdownTimeout args ≠ none := by simp [timeout]
  obtain ⟨main, acceptor, listener, stopAccepting, stopWord⟩ := s
  cases main with
  | serving woken => exact absurd ordered.2.1 called
  | stopping => exact absurd ordered.2 called
  | stopped => exact absurd ordered.2 called
  | waiting seconds woken => exact absurd ordered.2.1 called
  | timedOut => cases inTime
  | telling => exact absurd inTime called
  | ended result =>
    cases result with
    | ok =>
      obtain ⟨-, ⟨-, quiet⟩ | ⟨twice, -⟩⟩ := ordered
      · exact quiet.resolve_left wanted
      · cases twice.symm.trans inTime
    | error kind => exact absurd ordered.2.1 called

/-- The timeout does not pass, and no look at `active_connections` comes too early. -/
def Graceful (s : Process) : Turn → Prop
  | .expire => False
  | .server turn => s.listener.PollsCounted turn
  | _ => True

instance (s : Process) : DecidablePred s.Graceful
  | .signal _ => .isTrue trivial
  | .main => .isTrue trivial
  | .expire => .isFalse id
  | .launch _ => .isTrue trivial
  | .select => .isTrue trivial
  | .acceptError => .isTrue trivial
  | .server turn => inferInstanceAs (Decidable (turn = .poll → s.listener.phase = .polling →
      s.listener.activeConnections = 0 → ∀ c < s.listener.accepted, c ∈ s.listener.counted))

theorem listener_spec (args : HashMap Text Text) (queueCapacity : ℕ) (s : Process) (turn : Turn) :
    (s.step args queueCapacity turn).listener = s.listener ∨ ∃ t, turn = .server t ∧
      (s.step args queueCapacity turn).listener = s.listener.step queueCapacity t := by
  cases turn with
  | signal reason =>
    show (s.signal reason).listener = _ ∨ _
    unfold Process.signal
    split <;> exact .inl rfl
  | main =>
    show (s.next args).listener = _ ∨ _
    unfold Process.next
    split
    · exact .inl rfl
    · exact .inl rfl
    · split <;> exact .inl rfl
    all_goals exact .inl rfl
  | expire =>
    show s.expire.listener = _ ∨ _
    unfold expire
    split <;> exact .inl rfl
  | launch ok =>
    show (s.launch ok).listener = _ ∨ _
    unfold launch
    split <;> exact .inl rfl
  | select =>
    show s.select.listener = _ ∨ _
    unfold Process.select
    split <;> exact .inl rfl
  | acceptError =>
    show s.acceptError.listener = _ ∨ _
    unfold acceptError
    split <;> exact .inl rfl
  | server turn =>
    cases turn with
    | accept =>
      show s.accept.listener = _ ∨ ∃ t, _ ∧ s.accept.listener = _
      unfold accept
      split
      · exact .inr ⟨.accept, rfl, rfl⟩
      · exact .inl rfl
    | stop =>
      show s.stop.listener = _ ∨ ∃ t, _ ∧ s.stop.listener = _
      unfold stop
      split
      · exact .inr ⟨.stop, rfl, rfl⟩
      · exact .inl rfl
    | poll =>
      show s.poll.listener = _ ∨ ∃ t, _ ∧ s.poll.listener = _
      unfold poll
      split_ifs <;> exact .inr ⟨.poll, rfl, rfl⟩
    | _ => exact .inr ⟨_, rfl, rfl⟩

/-- What holds as long as the shutdown is graceful. -/
structure Calm (args : HashMap Text Text) (s : Process) : Prop where
  ordered : s.Ordered args
  inTime : s.InTime
  tallied : s.listener.Tallied
  drained : s.listener.DrainedIsDrained

theorem Calm.step (calm : s.Calm args) {turn : Turn} (graceful : s.Graceful turn) :
    (s.step args queueCapacity turn).Calm args := by
  have other : turn ≠ .expire := by
    rintro rfl
    exact graceful
  refine ⟨calm.ordered.step turn, calm.inTime.step calm.ordered other, ?_, ?_⟩
  · rcases listener_spec args queueCapacity s turn with same | ⟨t, -, same⟩
    · rw [same]
      exact calm.tallied
    · rw [same]
      exact calm.tallied.step t
  · rcases listener_spec args queueCapacity s turn with same | ⟨t, rfl, same⟩
    · rw [same]
      exact calm.drained
    · rw [same]
      exact (Listener.drained_step_iff calm.tallied calm.drained t).2 graceful

/-- In a run from the start of the process with a timeout that does not pass, in which every look
that finds no active connection finds all accepted ones counted, `stop_word` is called in no state
with an accepted connection that is not handled to its end. -/
theorem shutdown_graceful {args : HashMap Text Text} {seconds : ℕ}
    (timeout : shutdownTimeout args = some (.ok seconds)) (workers queueCapacity : ℕ)
    {turns : List Turn}
    (graceful : Transition.EveryStep (step args queueCapacity) Graceful (start workers) turns) :
    Transition.EveryState (step args queueCapacity)
      (fun s => s.stopWord ≠ 0 → ∀ c < s.listener.accepted, c ∈ s.listener.handled)
      (start workers) turns := by
  have first : (start workers).Calm args :=
    ⟨ordered_start args workers, trivial, .start workers, fun drained => by cases drained⟩
  have calm := graceful.invariant first fun _ _ calm graceful => calm.step graceful
  exact calm.mono fun s calm called =>
    calm.drained (drained_of_inTime calm.inTime calm.ordered called timeout)

/-- The arguments `--shutdown_timeout=0`, which stand for 30 seconds. -/
def zeroTimeout : HashMap Text Text := envArgs ["broker".toList, "--shutdown_timeout=0".toList]

theorem shutdownTimeout_zero : shutdownTimeout zeroTimeout = some (.ok 30) := by
  decide

/-- A connection is being handled when the signal comes, and `stop_word` waits for its end. -/
def oneConnection : List Turn :=
  [.launch true, .server .accept, .select, .server (.submit 0), .server (.send 0),
    .server (.receive 0), .server (.count 0), .signal .sigTerm, .main, .main, .server .stop,
    .server .poll, .server (.finish 0), .server .poll, .main, .main]

theorem shutdown_graceful_connection :
    (Transition.run (step zeroTimeout 1) (start 1) oneConnection).main = .ended (.ok ()) ∧
      0 ∈ (Transition.run (step zeroTimeout 1) (start 1) oneConnection).listener.handled := by
  have graceful : Transition.EveryStep (step zeroTimeout 1) Graceful (start 1) oneConnection := by
    decide +kernel
  have states := shutdown_graceful shutdownTimeout_zero 1 1 graceful
  exact ⟨by decide +kernel, states.last (by decide +kernel) 0 (by decide +kernel)⟩

/-! ## A notification that nobody hears -/

/-- `drained` was notified, and the main task has not come to wait for it or waits in vain. -/
structure Unheard (seconds : ℕ) (s : Process) : Prop where
  drained : s.listener.phase = .drained
  waits : s.main = .stopped ∨ s.main = .waiting seconds false

theorem Unheard.step {seconds : ℕ} (unheard : s.Unheard seconds)
    (timeout : shutdownTimeout args = some (.ok seconds)) (queueCapacity : ℕ) {turn : Turn}
    (early : turn ≠ .expire) :
    (s.step args queueCapacity turn).Unheard seconds ∧
      (s.step args queueCapacity turn).stopWord = s.stopWord := by
  obtain ⟨drained, waits⟩ := unheard
  by_cases others : turn.OfMain
  · obtain ⟨main, acceptor, listener, stopAccepting, stopWord⟩ := s
    cases turn with
    | signal reason =>
      rcases waits with rfl | rfl
      · exact ⟨⟨drained, .inl rfl⟩, rfl⟩
      · exact ⟨⟨drained, .inr rfl⟩, rfl⟩
    | main =>
      rcases waits with rfl | rfl
      · have waits : Process.next args ⟨.stopped, acceptor, listener, stopAccepting, stopWord⟩ =
            ⟨.waiting seconds false, acceptor, listener, stopAccepting, stopWord⟩ := by
          simp only [Process.next, timeout]
        rw [Process.step, waits]
        exact ⟨⟨drained, .inr rfl⟩, rfl⟩
      · exact ⟨⟨drained, .inr rfl⟩, rfl⟩
    | expire => exact absurd rfl early
    | launch ok => cases others
    | select => cases others
    | acceptError => cases others
    | server turn => cases others
  · obtain ⟨word, same | ⟨_, -, undrained, -⟩⟩ := main_step args queueCapacity s turn others
    · refine ⟨⟨?_, same ▸ waits⟩, word⟩
      rcases listener_spec args queueCapacity s turn with kept | ⟨t, -, went⟩
      · rwa [kept]
      · rw [went]
        exact Listener.drained_step queueCapacity drained t
    · exact absurd drained undrained

/-- Where `drained` was notified before `shutdown` has its future, the main task does not come to
its end before the timeout, though nothing is left to wait for. -/
theorem drained_unheard {args : HashMap Text Text} {seconds : ℕ}
    (timeout : shutdownTimeout args = some (.ok seconds)) (queueCapacity : ℕ) {s : Process}
    (before : s.main = .stopped) (drained : s.listener.phase = .drained) {turns : List Turn}
    (early : Turn.expire ∉ turns) :
    (Transition.run (step args queueCapacity) s turns).stopWord = s.stopWord ∧
      ∀ result, (Transition.run (step args queueCapacity) s turns).main ≠ .ended result := by
  have unheard : s.Unheard seconds := ⟨drained, .inl before⟩
  clear before drained
  induction turns generalizing s with
  | nil =>
    refine ⟨rfl, fun result ended => ?_⟩
    rcases unheard.waits with waits | waits <;> cases waits.symm.trans ended
  | cons turn turns ih =>
    have first : turn ≠ .expire := (List.ne_of_not_mem_cons early).symm
    obtain ⟨next, word⟩ := unheard.step timeout queueCapacity first
    rw [Transition.run_cons, ← word]
    exact ih (List.not_mem_of_not_mem_cons early) next

/-- An idle server is told to stop, and drains at once. -/
def idleServer : List Turn :=
  [.launch true, .signal .sigTerm, .main, .server .stop, .server .poll]

theorem drained_unheard_idle :
    (Transition.run (step zeroTimeout 1)
      (Transition.run (step zeroTimeout 1) (start 1) idleServer)
      [.main, .main, .signal .sigTerm]).main ≠ .ended (.ok ()) :=
  (drained_unheard shutdownTimeout_zero 1 (by decide) (by decide) (by decide)).2 _

end Process

end DataBroker
