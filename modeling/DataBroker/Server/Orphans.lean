import DataBroker.Lib.Transition
import DataBroker.Queue.Calls
import DataBroker.Server.Discipline

/-!
# Orphaned queues

`DeleteQ` takes a queue out of the registry while other tasks may know it. The guard of `queue`
keeps it from doing so between a lookup and the calls that follow: every call is made on the queue
that its name leads to at that moment. So the message of an `Enqueue` that was answered with
`Succeeded` is where a later `Dequeue` looks.
-/

namespace DataBroker

open Handler Program

namespace Handler

/-- The `Uuid` that the handler is about to enter. -/
def newHash : Handler → Option Uuid
  | .perform (.createQ _ hash) _ => some hash
  | _ => none

/-- The name that the handler is about to delete. -/
def droppedName : Handler → Option String
  | .perform (.deleteQ queueName) _ => some queueName
  | _ => none

theorem droppedName_eq_some {task : Handler} {queueName : String} :
    droppedName task = some queueName ↔ ∃ next, task = perform (.deleteQ queueName) next := by
  constructor
  · intro dropped
    unfold droppedName at dropped
    split at dropped
    · cases dropped
      exact ⟨_, rfl⟩
    · cases dropped
  · rintro ⟨next, rfl⟩
    rfl

/-- The call that puts the message of an `Enqueue` into the queue `q`. -/
def putsInto (env : Env) (d : Dispatch) (q : ℕ) : Action :=
  .call d.queueName q (.enqueue d.message.payload d.clientId env.now)

/-- An `Enqueue` puts its message into a queue before it answers with `Succeeded`. -/
theorem enqueue_preceded (env : Env) (d : Dispatch) :
    (enqueue env d).Preceded (fun action => ∃ q, action = putsInto env d q)
      (.respond succeeded) := by
  have failed : ∀ code : ErrorCode, (sendResponse (.error code) <| release .queue done).Preceded
      (fun action => ∃ q, action = putsInto env d q) (.respond succeeded) := fun code =>
    ⟨fun same => new_succeeded_ne _ _ (Event.respond.inj same).symm, fun _ => trivial⟩
  refine .inr fun s => ?_
  dsimp only [Preceded]
  cases s.queueNames.lookup d.queueName with
  | none => exact failed _
  | some hash =>
    refine .inr fun s => ?_
    dsimp only
    cases s.queue.lookup hash with
    | none => exact failed _
    | some q => exact .inl ⟨q, rfl⟩

end Handler

namespace Broker

/-- The `Uuid` of a `CreateQ` that takes effect is not in use. -/
def Fresh (c : Broker) : Turn → Prop
  | .buffer _ => True
  | .run t _ => ∀ hash ∈ newHash (c.tasks t), hash ∉ c.state.queue

instance (c : Broker) : (turn : Turn) → Decidable (c.Fresh turn)
  | .buffer _ => .isTrue trivial
  | .run t _ => Option.decidableForallMem (newHash (c.tasks t))

/-- The turn is a `DeleteQ` of the name taking effect. -/
def Deletes (queueName : String) (c : Broker) (turn : Turn) : Prop :=
  ∃ t answer next, turn = .run t answer ∧ c.tasks t = perform (.deleteQ queueName) next

instance (queueName : String) (c : Broker) : (turn : Turn) → Decidable (Deletes queueName c turn)
  | .buffer _ => .isFalse fun ⟨_, _, _, run, _⟩ => by cases run
  | .run t answer => decidable_of_iff (droppedName (c.tasks t) = some queueName)
    (droppedName_eq_some.trans ⟨fun ⟨next, program⟩ => ⟨t, answer, next, rfl, program⟩,
      fun ⟨_, _, next, run, program⟩ => ⟨next, by cases run; exact program⟩⟩)

/-- The task `t` is about to change the queue `q` for a request that names `queueName`. -/
def Calls (c : Broker) (t : ℕ) (queueName : String) (q : ℕ) : Prop :=
  (∃ op next, c.tasks t = perform (.call queueName q op) next) ∨
    ∃ config next, c.tasks t = perform (.updateConfig queueName q config) next

/-- The task `t` was started as `task` in the run. -/
def Started (s : Server) (turns : List Turn) (t : ℕ) (task : Handler) : Prop :=
  ∃ before u answer after next, turns = before ++ .run u answer :: after ∧
    (Transition.run step (System.init s) before).tasks u = spawn task next ∧
    (Transition.run step (System.init s) before).started = t

/-- The task `t` puts the message of an `Enqueue` into the queue `q`, where its name leads, and there
it is stored. -/
structure Puts (env : Env) (d : Dispatch) (c : Broker) (t : ℕ) (answer : Bool) (q : ℕ) : Prop where
  puts : ∃ next, c.tasks t = perform (putsInto env d q) next
  leads : c.state.resolve d.queueName = some q
  stored : ∃ id, ((c.step (.run t answer)).state.queues q).queue.lookup id =
    some (QueueMessage.new d.message.payload d.clientId env.now)

/-- Whoever is about to change a queue does so where its name leads, and `QueueNotFound` is never
answered. -/
structure Registered (c : Broker) : Prop where
  calls : ∀ t queueName q, c.Calls t queueName q → c.state.resolve queueName = some q
  found : ∀ t next, c.tasks t ≠ await (.respond (.error .queueNotFound)) next

/-- A name leads to the same queue as before, unless it is deleted. -/
def Keeps (c : Broker) (turn : Turn) : Prop :=
  ∀ queueName q, c.state.resolve queueName = some q →
    (c.step turn).state.resolve queueName = some q ∨ Deletes queueName c turn

/-- The handlers keep to their discipline over a consistent registry. -/
structure Orderly (c : Broker) : Prop where
  sound : c.Sound (terms Registry.Consistent) Server.act
  consistent : c.state.Consistent

variable {c : Broker} {turn : Turn} {turns : List Turn}

theorem Orderly.registered (h : c.Orderly) : c.Registered where
  calls := by
    rintro t queueName q (⟨op, next, program⟩ | ⟨config, next, program⟩)
    all_goals
      have meets := h.sound.meets t
      rw [program] at meets
      exact (meets _ ((terms_lawful _).refl _ _) h.consistent).1
  found t next program := by
    have meets := h.sound.meets t
    rw [program] at meets
    obtain ⟨r, consistent, not⟩ := meets.1 rfl
    exact not consistent

/-- The registry after a turn: as it was, or changed by `CreateQ` or `DeleteQ`. -/
theorem registry_step (c : Broker) (turn : Turn) :
    (c.step turn).state.toRegistry = c.state.toRegistry ∨
      ∃ t answer next, turn = .run t answer ∧
        ((∃ queueName hash, c.tasks t = perform (.createQ queueName hash) next ∧
            (c.step turn).state.toRegistry = c.state.toRegistry.createQ queueName hash) ∨
          ∃ queueName, c.tasks t = perform (.deleteQ queueName) next ∧
            (c.step turn).state.toRegistry = c.state.toRegistry.deleteQ queueName) := by
  cases turn with
  | buffer requests => exact .inl rfl
  | run t answer =>
    have effect : System.Effect Server.act c t answer (c.step (.run t answer)) :=
      System.run_effect c t answer
    generalize c.step (.run t answer) = c' at effect
    cases effect with
    | @perform action next program =>
      cases action with
      | createQ queueName hash =>
        exact .inr ⟨t, answer, next, rfl, .inl ⟨queueName, hash, program, rfl⟩⟩
      | deleteQ queueName => exact .inr ⟨t, answer, next, rfl, .inr ⟨queueName, program, rfl⟩⟩
      | _ => exact .inl rfl
    | _ => exact .inl rfl

theorem Orderly.step (h : c.Orderly) (fresh : c.Fresh turn) : (c.step turn).Orderly := by
  refine ⟨sound_step h.sound h.consistent, ?_⟩
  rcases registry_step c turn with same | ⟨t, answer, next, rfl, ⟨queueName, hash, program, changed⟩ |
    ⟨queueName, -, changed⟩⟩
  · exact same ▸ h.consistent
  · exact changed ▸ h.consistent.createQ (fresh hash (by rw [program]; rfl))
  · exact changed ▸ h.consistent.deleteQ queueName

theorem Orderly.keeps (h : c.Orderly) (fresh : c.Fresh turn) : c.Keeps turn := by
  intro n q resolved
  rcases registry_step c turn with same | ⟨t, answer, next, rfl, ⟨queueName, hash, program, changed⟩ |
    ⟨queueName, program, changed⟩⟩
  · exact .inl (by rw [same]; exact resolved)
  · have unused := fresh hash (by rw [program]; rfl)
    exact .inl (by rw [changed]; exact Registry.resolve_createQ resolved unused)
  · by_cases same : n = queueName
    · exact .inr ⟨t, answer, next, rfl, same ▸ program⟩
    · exact .inl (by rw [changed, h.consistent.resolve_deleteQ same]; exact resolved)

theorem orderly_run {s : Server} (consistent : s.Consistent)
    (fresh : Transition.EveryStep step Fresh (System.init s) turns) :
    Transition.EveryState step Orderly (System.init s) turns :=
  fresh.invariant ⟨System.sound_init s, consistent⟩ fun _ _ (h : Orderly _) fresh => h.step fresh

theorem keeps_run {s : Server} (consistent : s.Consistent)
    (fresh : Transition.EveryStep step Fresh (System.init s) turns) :
    Transition.EveryStep step Keeps (System.init s) turns :=
  fresh.mono_of (orderly_run consistent fresh) fun _ _ (h : Orderly _) fresh => h.keeps fresh

/-- A name that is not deleted leads to the same queue through a run. -/
theorem resolve_run {queueName : String} {q : ℕ} (keeps : Transition.EveryStep step Keeps c turns)
    (stays : Transition.EveryStep step (fun c turn => ¬ Deletes queueName c turn) c turns)
    (resolved : c.state.resolve queueName = some q) :
    (Transition.run step c turns).state.resolve queueName = some q := by
  have kept := (keeps.and stays).invariant (I := fun c => c.state.resolve queueName = some q)
    resolved fun c turn resolved step => (step.1 queueName q resolved).resolve_right step.2
  exact kept.last

/-- What an `Enqueue` does with its message. -/
theorem Orderly.puts (h : c.Orderly) {env : Env} {d : Dispatch} {t q : ℕ} {next : Server → Handler}
    (program : c.tasks t = perform (putsInto env d q) next) (answer : Bool) :
    c.Puts env d t answer q where
  puts := ⟨next, program⟩
  leads := h.registered.calls t d.queueName q (.inl ⟨_, next, program⟩)
  stored := by
    have state : (c.step (.run t answer)).state = Server.act (putsInto env d q) c.state := by
      show (c.run Server.act t answer).state = _
      rw [System.run, program]
    refine ⟨Queue.newId (c.state.queues q).order, ?_⟩
    rw [state]
    show (Function.update c.state.queues q ((c.state.queues q).step _) q).queue.lookup _ = _
    rw [Function.update_self, Queue.step_enqueue, Queue.lookup_enqueued, if_pos rfl]

/-- The task `t` has the message of an `Enqueue` to put into a queue before it answers with
`Succeeded`. -/
structure HasToPut (env : Env) (d : Dispatch) (t : ℕ) (c : Broker) : Prop where
  known : t < c.started
  preceded : (c.tasks t).Preceded (fun action => ∃ q, action = putsInto env d q) (.respond succeeded)

theorem HasToPut.step {env : Env} {d : Dispatch} {t : ℕ} (h : c.HasToPut env d t) (turn : Turn) :
    (c.step turn).HasToPut env d t ∨ ∃ answer q next, turn = .run t answer ∧
      c.tasks t = perform (putsInto env d q) next := by
  rcases System.preceded_step h.known h.preceded turn.toTurn with still |
    ⟨answer, action, next, run, program, q, rfl⟩
  · exact .inl ⟨Nat.lt_of_lt_of_le h.known (System.started_le_step _ _), still⟩
  · cases turn with
    | buffer requests => cases run
    | run u answer' =>
      cases run
      exact .inr ⟨_, q, next, rfl, program⟩

theorem hasToPut_of_spawn {env : Env} {d : Dispatch} {u : ℕ} {next : Handler}
    (program : c.tasks u = spawn (enqueue env d) next) (answer : Bool) :
    (c.step (.run u answer)).HasToPut env d c.started := by
  have same : c.step (.run u answer) =
      System.add { c with tasks := Function.update c.tasks u next } (enqueue env d) := by
    show c.run Server.act u answer = _
    rw [System.run, program]
  have own : (c.step (.run u answer)).tasks c.started = enqueue env d := by
    rw [same]
    exact Function.update_self ..
  exact ⟨same ▸ Nat.lt_succ_self _, own ▸ enqueue_preceded env d⟩

/-- A task that was started as an `Enqueue` and is about to answer with `Succeeded` has put its
message into the queue that its name led to. -/
theorem exists_puts {s : Server} {t : ℕ} {env : Env} {d : Dispatch} {next : Bool → Handler}
    (orderly : Transition.EveryState step Orderly (System.init s) turns)
    (started : Started s turns t (enqueue env d))
    (program : (Transition.run step (System.init s) turns).tasks t =
      await (.respond succeeded) next) :
    ∃ before answer after q, turns = before ++ .run t answer :: after ∧
      Puts env d (Transition.run step (System.init s) before) t answer q := by
  obtain ⟨start, u, answer, rest, next', rfl, spawns, rfl⟩ := started
  have hasToPut := hasToPut_of_spawn spawns answer
  generalize (Transition.run step (System.init s) start).started = t at program hasToPut
  rw [Transition.run_append, Transition.run_cons] at program
  obtain ⟨pre, turn, post, rfl, answer', q, next'', rfl, program'⟩ :=
    Transition.everyStep_true.exists_step hasToPut
      (fun _ turn _ (h : HasToPut env d t _) => h.step turn) fun ended => by
        have preceded := ended.preceded
        rw [program] at preceded
        exact preceded.1 rfl
  refine ⟨start ++ .run u answer :: pre, answer', post, q, by simp, ?_⟩
  have here := Transition.everyState_iff.1 orderly (start ++ .run u answer :: pre)
    (.run t answer' :: post) (by simp)
  rw [Transition.run_append, Transition.run_cons] at here ⊢
  exact here.puts program' answer'

/-- Every change of a queue is made on the queue that its name leads to, and `QueueNotFound` is never
answered. When an `Enqueue` is about to be answered with `Succeeded`, its message was put into the
queue that its name led to, and a later `Dequeue` looks there unless the name is deleted in between;
so it is for any two changes for one name. -/
theorem registered_of_fresh (s : Server) (consistent : s.Consistent) (turns : List Turn)
    (fresh : Transition.EveryStep step Fresh (System.init s) turns) :
    Transition.EveryState step Registered (System.init s) turns ∧
      Transition.EveryStep step Keeps (System.init s) turns ∧
      (∀ done later env d t next, turns = done ++ later → Started s done t (enqueue env d) →
        (Transition.run step (System.init s) done).tasks t = await (.respond succeeded) next →
        ∃ before answer after q, done = before ++ .run t answer :: after ∧
          Puts env d (Transition.run step (System.init s) before) t answer q ∧
          ∀ t' clientId q' next', Transition.EveryStep step
              (fun c turn => ¬ Deletes d.queueName c turn)
              (Transition.run step (System.init s) before) (.run t answer :: after ++ later) →
            (Transition.run step (System.init s) turns).tasks t' =
              perform (.call d.queueName q' (.lockToRead clientId)) next' → q' = q) ∧
      ∀ pre post queueName t t' q q', turns = pre ++ post →
        Transition.EveryStep step (fun c turn => ¬ Deletes queueName c turn)
          (Transition.run step (System.init s) pre) post →
        (Transition.run step (System.init s) pre).Calls t queueName q →
        (Transition.run step (System.init s) turns).Calls t' queueName q' → q' = q := by
  have orderly := orderly_run consistent fresh
  have keeps := keeps_run consistent fresh
  have same : ∀ pre post queueName t t' q q', turns = pre ++ post →
      Transition.EveryStep step (fun c turn => ¬ Deletes queueName c turn)
        (Transition.run step (System.init s) pre) post →
      (Transition.run step (System.init s) pre).Calls t queueName q →
      (Transition.run step (System.init s) turns).Calls t' queueName q' → q' = q := by
    rintro pre post queueName t t' q q' rfl stays calls calls'
    have before := (Transition.everyState_iff.1 orderly pre post rfl).registered.calls t queueName q
      calls
    have after := resolve_run (keeps.append_right) stays before
    rw [← Transition.run_append] at after
    exact Option.some.inj ((orderly.last.registered.calls t' queueName q' calls').symm.trans after)
  refine ⟨orderly.mono fun _ h => h.registered, keeps, ?_, same⟩
  rintro past later env d t next rfl started program
  have orderly' : Transition.EveryState step Orderly (System.init s) past :=
    Transition.everyState_iff.2 fun pre post split =>
      Transition.everyState_iff.1 orderly pre (post ++ later) (by rw [split, List.append_assoc])
  obtain ⟨before, answer, after, q, rfl, puts⟩ := exists_puts orderly' started program
  refine ⟨before, answer, after, q, rfl, puts, fun t' clientId q' next' stays asks => ?_⟩
  obtain ⟨next'', program'⟩ := puts.puts
  exact same before _ d.queueName t t' q q' (by simp) stays (.inl ⟨_, next'', program'⟩)
    (.inl ⟨_, next', asks⟩)

/-- An `Enqueue`, up to its answer. -/
noncomputable def storing : List Turn :=
  .buffer [(.sample 1, .sample .enqueue [5])] :: .run 0 true :: List.replicate 9 (.run 1 true)

/-- A queue is deleted and created again while an `Enqueue` is on its way to it, and another
`Enqueue` is about to be answered. -/
theorem registered_while_recreated :
    Transition.EveryState step Registered (System.init Server.sample)
        [.buffer [(.sample 1, .sample .enqueue [5]), (.sample 2, .sample .deleteQ []),
          (.sample 3, .sample .createQ [])], .run 0 true, .run 0 true, .run 0 true, .run 0 true,
          .run 0 true, .run 0 true, .run 0 true, .run 1 true, .run 0 true, .run 1 true] ∧
      ∃ before answer after q, storing = before ++ .run 1 answer :: after ∧
        Puts (.sample 1) (.sample .enqueue [5])
          (Transition.run step (System.init Server.sample) before) 1 answer q := by
  have consistent : Server.sample.Consistent :=
    Registry.Bijective.empty.toConsistent.insert Finmap.notMem_empty
  refine ⟨(registered_of_fresh Server.sample consistent _ (by decide)).1, ?_⟩
  obtain ⟨before, answer, after, q, split, puts, -⟩ :=
    (registered_of_fresh Server.sample consistent storing (by decide)).2.2.1 storing []
      (.sample 1) (.sample .enqueue [5]) 1 _ (List.append_nil _).symm
      ⟨[.buffer [(.sample 1, .sample .enqueue [5])]], 0, true, _, _, rfl, rfl, rfl⟩ rfl
  exact ⟨before, answer, after, q, split, puts⟩

end Broker

end DataBroker
