import DataBroker.Lib.Session
import DataBroker.Lib.Transition
import DataBroker.Server.Handlers

/-!
# Answers

A request is answered once. The task that handles it writes until a write succeeds, at most twice,
and then no more; the loop of `read_buffer` starts one such task for each request and writes nothing
itself. A task ends without an answer only if a call panicked or a write failed.
-/

namespace DataBroker

open Handler Program

/-- Where a task is with its answer. The loop has `left` requests left. -/
inductive Stage where
  | reading (left : ℕ)
  | asked
  | answered
  | failed
deriving DecidableEq, Repr

/-- How a task comes by its answer: one attempt after the other to write a legible response, until
one succeeds. It may sleep when it has answered. -/
inductive Stage.Hears : Stage → Event → Bool → Stage → Prop where
  | wrote {b : Stage} (response : ResponseMessage) (written : Bool)
      (isOpen : b = .asked ∨ b = .failed) (legible : response.Legible) :
      Hears b (.respond response) written (if written then .answered else .failed)
  | slept (millis : U64) (answer : Bool) : Hears .answered (.sleep millis) answer .answered

/-- The loop starts a task for its next request. -/
inductive Stage.Forks : Stage → Stage → Stage → Prop where
  | next (left : ℕ) : Forks (.reading (left + 1)) .asked (.reading left)

/-- A response was written. -/
def answersRequest : Deed Action Server Event → Bool
  | .hears (.respond _) true => true
  | _ => false

/-- A write failed. -/
def failsToWrite : Deed Action Server Event → Bool
  | .hears (.respond _) false => true
  | _ => false

/-- How a request is answered. Where every run is `calm`, no call of a queue panics. -/
def answering (calm : Prop) : Session Action Server Event Stage where
  given action s := calm → ∀ queueName q op, action = .call queueName q op →
    (op.call.run (s.queues q)).1 ≠ .panic
  acts b _ _ b' := b' = b
  hears := Stage.Hears
  forks := Stage.Forks
  enters b := ∃ left, b = .reading left
  ends
    | .reading left => left = 0
    | .asked => ¬ calm
    | _ => True
  worth event answer := (answersRequest (.hears event answer)).toNat
  owed
    | .reading left => left
    | .asked => 1
    | .answered => 0
    | .failed => 1

theorem answering_lawful (calm : Prop) : (answering calm).Lawful where
  acts b action s b' same := by rw [same]
  forks b b₁ b₂ fork := by
    cases fork with
    | next left => exact Nat.add_comm 1 left
  hears b event answer b' heard := by
    cases heard with
    | wrote response written isOpen =>
      have owed : (answering calm).owed b = 1 := by rcases isOpen with rfl | rfl <;> rfl
      rw [owed]
      cases answer <;> rfl
    | slept millis => cases answer <;> rfl

namespace Handler

variable {calm : Prop} {b : Stage} {task next : Handler} {queueName : String} {q : ℕ}
  {response : ResponseMessage} {code : ErrorCode}

/-- A handler that keeps to the session from a stage on. -/
abbrev Answers (calm : Prop) (b : Stage) (task : Handler) : Prop := task.Follows (answering calm) b

theorem answers_perform {action : Action} {next : Server → Handler}
    (hnext : ∀ s, (answering calm).given action s → Answers calm b (next s)) :
    Answers calm b (perform action next) :=
  fun s given => ⟨b, rfl, hnext s given⟩

/-- The task tried to answer. -/
def Tried (b : Stage) : Prop := b = .answered ∨ b = .failed

theorem ends_of_tried (tried : Tried b) : (answering calm).ends b := by
  rcases tried with rfl | rfl <;> trivial

/-- A response to a request that is still open. -/
theorem answers_respond {next : Bool → Handler} (isOpen : b = .asked ∨ b = .failed)
    (legible : response.Legible) (written : Answers calm .answered (next true))
    (broken : Answers calm .failed (next false)) :
    Answers calm b (await (.respond response) next) := by
  intro answer
  cases answer
  · exact ⟨_, .wrote response false isOpen legible, broken⟩
  · exact ⟨_, .wrote response true isOpen legible, written⟩

theorem answers_sendResponse (isOpen : b = .asked ∨ b = .failed) (legible : response.Legible)
    (hnext : ∀ b, Tried b → Answers calm b next) : Answers calm b (sendResponse response next) :=
  answers_respond isOpen legible (hnext _ (.inl rfl)) (hnext _ (.inr rfl))

/-- The answer of a handler whose rest is silent. -/
theorem answers_last (legible : response.Legible)
    (hnext : ∀ b, Tried b → Answers calm b next) : Answers calm .asked (sendResponse response next) :=
  answers_sendResponse (.inl rfl) legible hnext

theorem answers_getQueue {found : ℕ → Handler} {failed : ErrorCode → Handler}
    (hfound : ∀ q, Answers calm b (found q)) (hfailed : ∀ code, Answers calm b (failed code)) :
    Answers calm b (getQueue queueName found failed) := by
  refine answers_perform fun s _ => ?_
  simp only [Follows]
  split
  · refine answers_perform fun s _ => ?_
    split
    · exact hfound _
    · exact hfailed _
  · exact hfailed _

theorem answers_withQueue {found : ℕ → Handler} (hfound : ∀ q, Answers calm .asked (found q)) :
    Answers calm .asked (withQueue queueName found) :=
  answers_getQueue hfound fun code =>
    answers_last (ResponseMessage.legible_error code) fun _ => ends_of_tried

/-- The outcomes of a call, of which only a panic leaves the request open. -/
theorem not_calm_of_panic {op : Queue.Op} {s : Server}
    (given : (answering calm).given (.call queueName q op) s)
    (panics : (op.call.run (s.queues q)).1 = .panic) : (answering calm).ends .asked :=
  fun quiet => given quiet _ _ _ rfl panics

theorem answers_callQueue {op : Queue.Op} {onOk : Handler → Handler}
    (hok : ∀ b next, Answers calm b next → Answers calm b (onOk next)) :
    Answers calm .asked (callQueue queueName q op code onOk) := by
  refine answers_perform fun s given => ?_
  split
  · exact hok _ _ (answers_last (ResponseMessage.legible_succeeded _) fun _ => ends_of_tried)
  · exact answers_last (ResponseMessage.legible_error code) fun _ => ends_of_tried
  · exact not_calm_of_panic given ‹_›

theorem answers_withMessageId {d : Dispatch} {next : U128 → Handler}
    (hnext : ∀ id, Answers calm .asked (next id)) : Answers calm .asked (withMessageId d next) := by
  unfold withMessageId
  split_ifs
  · exact answers_last (ResponseMessage.legible_error _) fun _ => ends_of_tried
  · exact hnext _

theorem answers_raiseLockedSize {env : Env} {size : ℕ} (hnext : Answers calm b next) :
    Answers calm b (raiseLockedSize env size next) := by
  refine answers_perform fun s _ => ?_
  split_ifs
  · exact answers_perform fun _ _ => hnext
  · exact hnext

theorem answers_autoUnlock {clientId : U128} {messageId : Option U128}
    (ends : (answering calm).ends b) :
    Answers calm b (autoUnlock queueName clientId messageId q) := by
  cases messageId with
  | none => exact ends
  | some id =>
    refine answers_perform fun s _ => ?_
    split
    · exact answers_perform fun _ _ => ends
    · exact ends

/-- A message handed out is the answer; where it could not be written, so is the error. -/
theorem answers_dequeue (d : Dispatch) : Answers calm .asked (dequeue d) := by
  have error : ∀ {b : Stage} (code : ErrorCode), b = .asked ∨ b = .failed →
      Answers calm b (release .queue <| sendResponse (.error code) done) := fun code isOpen =>
    answers_sendResponse isOpen (ResponseMessage.legible_error code) fun _ => ends_of_tried
  refine answers_getQueue (fun q => ?_) fun code => error code (.inl rfl)
  refine answers_perform fun s given => ?_
  simp only [Follows]
  split
  · apply answers_respond (.inl rfl) (ResponseMessage.legible_succeeded _)
    · rw [if_pos rfl]
      refine answers_perform fun s _ => ?_
      simp only [Follows]
      split_ifs
      · exact fun _ => ⟨.answered, .slept _ _, answers_autoUnlock trivial⟩
      · trivial
    · exact error _ (.inr rfl)
  · exact error _ (.inl rfl)
  · exact not_calm_of_panic given (Method.run_bind_panic ‹_›)

theorem answers_listM (env : Env) (d : Dispatch) : Answers calm .asked (listM env d) := by
  have missing : Answers calm .asked (sendResponse (.error .queueHashNotFound) done) :=
    answers_last (ResponseMessage.legible_error _) fun _ => ends_of_tried
  refine answers_perform fun s _ => ?_
  simp only [Follows]
  split
  · refine answers_perform fun s _ => ?_
    simp only [Follows]
    split
    · refine answers_perform fun s _ => ?_
      simp only [Follows]
      split <;> exact answers_last (ResponseMessage.legible_succeeded _) fun _ => ends_of_tried
    · exact missing
  · exact missing

theorem answers_succeed (env : Env) (d : Dispatch) : Answers calm .asked (succeed env d) := by
  have answer : Answers calm .asked (sendResponse succeeded done) :=
    answers_last (ResponseMessage.legible_succeeded _) fun _ => ends_of_tried
  have failed : Answers calm .asked (sendResponse (.error .noSuchMessageIdLocked) done) :=
    answers_last (ResponseMessage.legible_error _) fun _ => ends_of_tried
  rw [succeed, dequeueMessageSent, Answers, Follows]
  refine answers_getQueue (fun q => ?_) fun _ => ?_
  · refine answers_perform fun s given => ?_
    split
    · refine answers_perform fun s _ => ?_
      split_ifs
      · refine answers_perform fun s given => ?_
        split
        · exact answers_perform fun _ _ => answer
        · exact answer
        · exact not_calm_of_panic given (Method.run_bind_panic ‹_›)
      · exact answer
    · exact failed
    · exact not_calm_of_panic given (Method.run_bind_panic ‹_›)
  · exact failed

theorem answers_updateQ (d : Dispatch) : Answers calm .asked (updateQ d) := by
  have error : ∀ code, Answers calm .asked (sendResponse (.error code) <| release .queue done) :=
    fun code => answers_last (ResponseMessage.legible_error code) fun _ => ends_of_tried
  apply answers_withQueue
  intro q
  split_ifs
  · exact error _
  · split
    · exact answers_perform fun _ _ => answers_last (ResponseMessage.legible_succeeded _) fun _ => ends_of_tried
    · exact error _

theorem answers_collectStats (env : Env) (map : HashMap Uuid ℕ)
    (rest : List (Σ _ : String, Uuid)) (watcher : StatWatcher) :
    Answers calm .asked (collectStats env map rest watcher) := by
  induction rest generalizing watcher with
  | nil => exact answers_last (ResponseMessage.legible_succeeded _) fun _ => ends_of_tried
  | cons entry rest ih =>
    unfold collectStats
    split
    · exact answers_perform fun _ _ => ih _
    · exact ih _

/-- The loop of `read_buffer` starts a task for each request, which answers it. -/
theorem answers_readLoop (requests : List (Env × Dispatch)) :
    Answers calm (.reading requests.length) (readLoop requests) := by
  induction requests with
  | nil => exact rfl
  | cons request requests ih =>
    obtain ⟨env, d⟩ := request
    have spawned : ∀ {task : Handler}, Answers calm .asked task →
        Answers calm (.reading (requests.length + 1)) (spawn task (readLoop requests)) :=
      fun answers => ⟨_, _, .next _, answers, ih⟩
    have later : ∀ {response : ResponseMessage}, response.Legible →
        Answers calm (.reading (requests.length + 1))
          (respondLater response (readLoop requests)) := fun legible =>
      ⟨_, _, .next _, answers_last legible fun _ => ends_of_tried, ih⟩
    unfold readLoop dispatch
    split
    · exact spawned (answers_withQueue fun _ => answers_callQueue fun _ _ => answers_raiseLockedSize)
    · exact spawned (answers_dequeue d)
    · refine answers_perform fun s _ => ?_
      split_ifs
      · exact later (ResponseMessage.legible_error _)
      · exact later (ResponseMessage.legible_succeeded _)
    · refine answers_perform fun s _ => ?_
      split_ifs
      · exact later (ResponseMessage.legible_succeeded _)
      · exact later (ResponseMessage.legible_error _)
    · exact spawned (answers_listM env d)
    · exact spawned (answers_withQueue fun _ => answers_withMessageId fun _ =>
        answers_callQueue fun _ _ h => h)
    · exact spawned (answers_succeed env d)
    · exact spawned (answers_withQueue fun _ => answers_callQueue fun _ _ h => h)
    · exact spawned (answers_withQueue fun _ => answers_withMessageId fun _ =>
        answers_callQueue fun _ _ h => h)
    · apply spawned
      unfold updateM
      split_ifs
      · exact answers_last (ResponseMessage.legible_error _) fun _ => ends_of_tried
      · exact answers_withQueue fun _ => answers_callQueue fun _ _ h => h
    · exact spawned (answers_updateQ d)
    · exact spawned (answers_perform fun _ _ => answers_collectStats ..)

end Handler

/-! ## What the deeds of a task tell -/

namespace Stage

/-- How many answers are missing of a task that handles a request. -/
def missing : Stage → ℕ
  | .reading _ => 0
  | .asked => 1
  | .answered => 0
  | .failed => 1

/-- What some deeds can have led to. -/
structure Shows (b : Stage) (deeds : List (Deed Action Server Event)) (b' : Stage) : Prop where
  counts : deeds.countP answersRequest + b'.missing = b.missing
  broke : b' = .failed → b = .failed ∨ ∃ deed ∈ deeds, failsToWrite deed
  legible : ∀ response written, .hears (.respond response) written ∈ deeds → response.Legible

theorem shows_walk {calm : Prop} {b b' : Stage} {deeds : List (Deed Action Server Event)}
    (walk : (answering calm).Walk b deeds b') : b.Shows deeds b' := by
  induction walk with
  | nil => exact ⟨Nat.zero_add _, .inl, fun _ _ inside => by simp at inside⟩
  | @snoc deeds deed b₁ b₂ before last shows =>
    -- what an attempt to write tells; other deeds tell nothing
    have wrote : ∀ response written, deed = .hears (.respond response) written →
        response.Legible ∧ b₁.missing = 1 ∧ b₂ = if written then .answered else .failed := by
      rintro response written rfl
      cases last with
      | wrote _ _ isOpen legible =>
        exact ⟨legible, by rcases isOpen with rfl | rfl <;> rfl, rfl⟩
    have quiet : (∀ response written, deed ≠ .hears (.respond response) written) →
        answersRequest deed = false ∧ b₂.missing = b₁.missing ∧ (b₂ = .failed → b₁ = .failed) := by
      intro other
      cases deed with
      | acts action s => cases last; exact ⟨rfl, rfl, id⟩
      | starts u =>
        obtain ⟨b₃, fork⟩ := last
        cases fork
        exact ⟨rfl, rfl, fun broke => (nomatch broke)⟩
      | hears event answer =>
        cases event with
        | respond response => exact absurd rfl (other response answer)
        | sleep millis => cases last; exact ⟨rfl, rfl, id⟩
    by_cases attempt : ∃ response written, deed = .hears (.respond response) written
    · obtain ⟨response, written, isAttempt⟩ := attempt
      obtain ⟨legible, missing, rfl⟩ := wrote response written isAttempt
      subst isAttempt
      constructor
      · rw [List.countP_append, ← shows.counts, missing]
        cases written <;> rfl
      · intro broke
        cases written with
        | true => cases broke
        | false => exact .inr ⟨_, List.mem_append_right _ (List.mem_singleton_self _), rfl⟩
      · intro response' written' inside
        rcases List.mem_append.1 inside with inside | here
        · exact shows.legible response' written' inside
        · cases List.mem_singleton.1 here
          exact legible
    · obtain ⟨counts, missing, broke⟩ :=
        quiet fun response written same => attempt ⟨response, written, same⟩
      constructor
      · rw [List.countP_append, ← shows.counts, missing, List.countP_singleton, counts]
        rfl
      · intro failed
        rcases shows.broke (broke failed) with failed | ⟨deed', inside, fails⟩
        · exact .inl failed
        · exact .inr ⟨deed', List.mem_append_left _ inside, fails⟩
      · intro response' written' inside
        rcases List.mem_append.1 inside with inside | here
        · exact shows.legible response' written' inside
        · exact absurd ⟨_, _, (List.mem_singleton.1 here).symm⟩ attempt

end Stage

namespace Broker

open System (deedsOf Kept Born)

/-- The deeds of a run. -/
def log (c : Broker) (turns : List Turn) : List (ℕ × Deed Action Server Event) :=
  System.history Server.act c (turns.map Turn.toTurn)

theorem log_cons (c : Broker) (turn : Turn) (turns : List Turn) :
    log c (turn :: turns) = turn.toTurn.deed c ++ log (c.step turn) turns := rfl

/-- How many requests connections had in their buffers. -/
def requests (turns : List Turn) : ℕ :=
  (turns.map fun turn => match turn with
    | .buffer requests => requests.length
    | .run _ _ => 0).sum

/-- No call of a queue panics at the turn. -/
def Calm (c : Broker) (turn : Turn) : Prop :=
  ∀ t answer queueName q op next, turn = .run t answer →
    c.tasks t = perform (.call queueName q op) next → (op.call.run (c.state.queues q)).1 ≠ .panic

/-- The call that the handler is about to make. -/
def nextCall : Handler → Option (ℕ × Queue.Op)
  | .perform (.call _ q op) _ => some (q, op)
  | _ => none

theorem nextCall_of_calls {queueName : String} {q : ℕ} {op : Queue.Op} {next : Server → Handler}
    {task : Handler} (program : task = perform (.call queueName q op) next) :
    nextCall task = some (q, op) := by
  rw [program]
  rfl

theorem calls_of_nextCall {q : ℕ} {op : Queue.Op} {task : Handler}
    (calls : nextCall task = some (q, op)) :
    ∃ queueName next, task = perform (.call queueName q op) next := by
  unfold nextCall at calls
  split at calls
  · cases calls
    exact ⟨_, _, rfl⟩
  · cases calls

instance (c : Broker) : (turn : Turn) → Decidable (c.Calm turn)
  | .buffer _ => .isTrue fun _ _ _ _ _ _ run => by cases run
  | .run t answer => decidable_of_iff
    (∀ call ∈ nextCall (c.tasks t), (call.2.call.run (c.state.queues call.1)).1 ≠ .panic) <| by
      constructor
      · rintro calm _ _ queueName q op next ⟨⟩ program
        exact calm (q, op) (nextCall_of_calls program)
      · rintro calm ⟨q, op⟩ calls
        obtain ⟨queueName, next, program⟩ := calls_of_nextCall calls
        exact calm t answer queueName q op next rfl program

variable {calm : Prop} {c : Broker} {l : List (ℕ × Deed Action Server Event)} {first now : ℕ → Stage}
  {came : ℕ}

theorem kept_run (kept : Kept (answering calm) c l first now came)
    (born : Born (answering calm) c l first) (turns : List Turn)
    (quiet : calm → Transition.EveryStep step Calm c turns) :
    ∃ first now, Kept (answering calm) (Transition.run step c turns) (l ++ log c turns) first now
        (came + requests turns) ∧
      Born (answering calm) (Transition.run step c turns) (l ++ log c turns) first := by
  induction turns generalizing c l first now came with
  | nil =>
    have nothing : l ++ log c [] = l := List.append_nil l
    rw [nothing]
    exact ⟨first, now, kept, born⟩
  | cons turn turns ih =>
    obtain ⟨first, now, kept, born⟩ : ∃ first now,
        Kept (answering calm) (c.step turn) (l ++ turn.toTurn.deed c) first now
          (came + requests [turn]) ∧
        Born (answering calm) (c.step turn) (l ++ turn.toTurn.deed c) first := by
      cases turn with
      | buffer requests =>
        have quiet : l ++ (Turn.buffer requests).toTurn.deed c = l := List.append_nil l
        rw [quiet]
        exact ⟨_, _, kept.add (.inl ⟨_, rfl⟩) (Handler.answers_readLoop requests),
          kept.born_add born _ _⟩
      | run t answer =>
        exact kept.run born (answering_lawful calm) answer fun action next program calm queueName q op e =>
          (quiet calm).1 t answer queueName q op next rfl (e ▸ program)
    have rest := ih kept born fun calm => (quiet calm).2
    have total : requests (turn :: turns) = requests [turn] + requests turns := by
      simp [requests]
    rw [log_cons, ← List.append_assoc, total, ← Nat.add_assoc]
    exact rest

/-- Where the tasks are after a run from a server without tasks. -/
theorem kept_of_run (calm : Prop) (s : Server) (turns : List Turn)
    (quiet : calm → Transition.EveryStep step Calm (System.init s) turns) :
    ∃ first now, Kept (answering calm) (Transition.run step (System.init s) turns)
        (log (System.init s) turns) first now (requests turns) ∧
      Born (answering calm) (Transition.run step (System.init s) turns) (log (System.init s) turns)
        first := by
  have kept := kept_run (System.kept_init s fun _ => .asked) (System.born_init s _)
    turns quiet
  rwa [List.nil_append, Nat.zero_add] at kept

theorem heard_eq (calm : Prop) (l : List (ℕ × Deed Action Server Event)) :
    System.heard (answering calm) l = l.countP fun entry => answersRequest entry.2 := by
  induction l with
  | nil => rfl
  | cons entry l ih =>
    have worth : (answering calm).counts entry.2 = (answersRequest entry.2).toNat := by
      cases entry.2 <;> rfl
    rw [List.countP_cons, ← ih, System.heard, List.map_cons, List.sum_cons, worth, Nat.add_comm]
    cases answersRequest entry.2 <;> rfl

/-- No task writes two answers, no more answers are written than requests came in, and what is
written is legible. -/
theorem answersOnce (s : Server) (turns : List Turn) :
    (∀ t, (deedsOf (log (System.init s) turns) t).countP answersRequest ≤ 1) ∧
      ((log (System.init s) turns).countP fun entry => answersRequest entry.2) ≤ requests turns ∧
      ∀ t response written, (t, .hears (.respond response) written) ∈ log (System.init s) turns →
        response.Legible := by
  obtain ⟨first, now, kept, -⟩ := kept_of_run False s turns False.elim
  have shows : ∀ t, (first t).Shows (deedsOf (log (System.init s) turns) t) (now t) ∨
      deedsOf (log (System.init s) turns) t = [] := by
    intro t
    by_cases known : t < (Transition.run step (System.init s) turns).started
    · exact .inl (Stage.shows_walk (kept.walks t known))
    · exact .inr (kept.unknown t (Nat.le_of_not_lt known))
  refine ⟨fun t => ?_, ?_, fun t response written inside => ?_⟩
  · rcases shows t with shows | none
    · have := shows.counts
      have : (first t).missing ≤ 1 := by cases first t <;> simp [Stage.missing]
      omega
    · rw [none]
      exact Nat.zero_le _
  · rw [← heard_eq False, ← kept.balance]
    exact Nat.le_add_right _ _
  · have inside := System.mem_deedsOf.2 inside
    rcases shows t with shows | none
    · exact shows.legible response written inside
    · rw [none] at inside
      cases inside

/-- Where no call panics, each request that is done with was answered unless a write failed; when
all tasks are done and no write failed, there are as many answers as requests. -/
theorem answersEach (s : Server) (turns : List Turn)
    (calm : Transition.EveryStep step Calm (System.init s) turns) :
    (∀ u t, (u, .starts t) ∈ log (System.init s) turns →
      (Transition.run step (System.init s) turns).tasks t = done →
      (deedsOf (log (System.init s) turns) t).countP answersRequest = 1 ∨
        ∃ deed ∈ deedsOf (log (System.init s) turns) t, failsToWrite deed) ∧
    ((∀ t, (Transition.run step (System.init s) turns).tasks t = done) →
      (∀ entry ∈ log (System.init s) turns, ¬ failsToWrite entry.2) →
      ((log (System.init s) turns).countP fun entry => answersRequest entry.2) =
        requests turns) := by
  obtain ⟨first, now, kept, born⟩ := kept_of_run True s turns fun _ => calm
  have shows := fun t known => Stage.shows_walk (kept.walks t known)
  -- a task that is done was answered, or failed to write
  have ended : ∀ t < (Transition.run step (System.init s) turns).started,
      (Transition.run step (System.init s) turns).tasks t = done → (now t).missing = 0 ∨
        now t = .failed := by
    intro t known isDone
    have ends := kept.follows t known
    rw [isDone] at ends
    cases stage : now t with
    | reading left => exact .inl rfl
    | asked => rw [stage] at ends; exact absurd trivial ends
    | answered => exact .inl rfl
    | failed => exact .inr rfl
  have broken : ∀ t (known : t < (Transition.run step (System.init s) turns).started),
      now t = .failed → ∃ deed ∈ deedsOf (log (System.init s) turns) t, failsToWrite deed := by
    intro t known failed
    rcases (shows t known).broke failed with never | broke
    · rcases kept.origin t known with ⟨left, enters⟩ | ⟨u, started⟩
      · rw [never] at enters
        cases enters
      · obtain ⟨-, -, b, b₂, -, -, fork⟩ := born.of_mem started
        rw [never] at fork
        cases fork
    · exact broke
  constructor
  · intro u t started isDone
    obtain ⟨known, -, b, b₂, -, -, fork⟩ := born.of_mem started
    have asked : first t = .asked := by
      generalize first t = b₁ at fork
      cases fork
      rfl
    rcases ended t known isDone with missing | failed
    · left
      have counts := (shows t known).counts
      rw [asked, missing] at counts
      exact counts
    · exact .inr (broken t known failed)
  · intro isDone unbroken
    have owed : ∀ t ∈ Finset.range (Transition.run step (System.init s) turns).started,
        (answering True).owed (now t) = 0 := by
      intro t mem
      have known := Finset.mem_range.1 mem
      rcases ended t known (isDone t) with missing | failed
      · have ends := kept.follows t known
        rw [isDone] at ends
        cases stage : now t with
        | reading left => rw [stage] at ends; exact ends
        | answered => rfl
        | asked => rw [stage] at missing; cases missing
        | failed => rw [stage] at missing; cases missing
      · obtain ⟨deed, inside, fails⟩ := broken t known failed
        exact absurd fails (unbroken _ (System.mem_deedsOf.1 inside))
    rw [← heard_eq True, ← kept.balance, Finset.sum_eq_zero owed]
    rfl

/-- An `Enqueue` and a `Dequeue`, one after the other. -/
noncomputable def handingOver : List Turn :=
  [.buffer [(.sample 1, .sample .enqueue [5]), (.sample 2, .sample .dequeue [])], .run 0 true,
    .run 0 true] ++ List.replicate 12 (.run 1 true) ++ List.replicate 14 (.run 2 true)

/-- Both are answered. -/
theorem answersEach_handingOver :
    ((log (System.init Server.sample) handingOver).countP fun entry => answersRequest entry.2) = 2 := by
  refine (answersEach Server.sample handingOver (by decide +kernel)).2 ?_ (by decide +kernel)
  intro t
  match t with
  | 0 => rfl
  | 1 => rfl
  | 2 => rfl
  | t + 3 => rfl

end Broker

end DataBroker
