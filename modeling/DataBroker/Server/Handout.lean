import DataBroker.Queue.Calls
import DataBroker.Queue.Unconfigured
import DataBroker.Server.Pipelining

/-!
# A `Dequeue` that fails

`lock_and_dequeue_message` locks a message before it writes the response, and arms the timer that
releases it after the write. Each of its errors is answered with `Failed`: a name that leads to no
queue and a cursor without a message leave the server as it was, but a write that fails leaves the
message locked, with nobody to release it.
-/

namespace DataBroker

open Handler Program

namespace Server

/-- A server whose queues have seen the calls `ops` and were configured in between, to be `config` in
the end. -/
def reached (r : Registry) (config : ℕ → QueueConfig) (ops : ℕ → List Queue.Op) (lockedSize : ℕ) :
    Server :=
  { r with
    queues := fun q => (Transition.run Queue.step Queue.new (ops q)).configure (config q)
    lockedSize := lockedSize }

/-- The task of a `Dequeue` with nobody else at work; its first wait is the write of its response. -/
def handOut (s : Server) (d : Dispatch) (answers : ℕ → Bool) :
    Result LockName Action Server Event := (dequeue d).answered act answers s

/-- If `lock_and_dequeue_message` returns an error, the server is as it was before. -/
def HandsOutOrNothing (s : Server) (d : Dispatch) (answers : ℕ → Bool) : Prop :=
  ∀ code, .respond (.error code) ∈ (s.handOut d answers).events → (s.handOut d answers).state = s

variable {s : Server} {d : Dispatch} {answers : ℕ → Bool} {q : ℕ}

/-- A call that leaves its queue as it is leaves the server as it is. -/
theorem act_call_self (queueName : String) {op : Queue.Op} (same : (s.queues q).step op = s.queues q) :
    act (.call queueName q op) s = s := by
  rw [act, same, Function.update_eq_self]

theorem handOut_no_queue {code : ErrorCode} (none_found : s.getQueue d.queueName = .error code) :
    s.handOut d answers = ⟨s, [.respond (.error code)], []⟩ := by
  rw [handOut, dequeue, lockAndDequeueMessage, answered, answered_getQueue, none_found]
  rfl

/-- `lock_to_read` refuses and nothing changes. -/
theorem handOut_refused {error : IoError} (found : s.getQueue d.queueName = .ok q)
    (refused : (Queue.lockToRead d.clientId).run (s.queues q) = (.err error, s.queues q)) :
    s.handOut d answers = ⟨s, [.respond (.error (lockToReadCode error))], []⟩ := by
  have same : (s.queues q).step (.lockToRead d.clientId) = s.queues q := by
    rw [Queue.step, Queue.Op.call, Method.run_bind, refused]
  rw [handOut, dequeue, lockAndDequeueMessage, answered, answered_getQueue, found]
  simp only [answered, refused, act_call_self d.queueName same]
  rfl

/-- `lock_to_read` finds a message: what is left is the write and what comes after it. -/
theorem handOut_locked {id : U128} {m : QueueMessage} (found : s.getQueue d.queueName = .ok q)
    (nonempty : (s.queues q).order ≠ []) (cursor : (s.queues q).nextId = some id)
    (stored : (s.queues q).queue.lookup id = some m) (free : m.lockedBy = none) :
    s.handOut d answers =
      (await (.respond (.new .succeeded (getMetaAsVec id (m.lock d.clientId) ++ m.payload)))
        fun written =>
          if written then
            acquire (.mutex q) .write <| perform .read fun s => release (.mutex q) <|
              if (s.queues q).config.autoFail ∧ (s.queues q).config.failTimeout ≠ 0 then
                await (.sleep (s.queues q).config.failTimeout) fun _ =>
                  autoUnlock d.queueName d.clientId (some id) q
              else release .queue done
          else release .queue <| sendResponse (.error .responseFailedError) done).answered act answers
        (act (.call d.queueName q (.lockToRead d.clientId)) s) := by
  have locked := Queue.run_lockToRead d.clientId nonempty cursor stored free
  rw [handOut, dequeue, lockAndDequeueMessage, answered, answered_getQueue, found]
  simp only [answered, locked]

/-- The timer calls `unlock` at most, and answers nothing. -/
theorem answered_autoUnlock (queueName : String) (clientId : U128) (messageId : Option U128) (q : ℕ)
    (answers : ℕ → Bool) (s : Server) :
    ((autoUnlock queueName clientId messageId q).answered act answers s).events = [] ∧
      (((autoUnlock queueName clientId messageId q).answered act answers s).state = s ∨
        ((autoUnlock queueName clientId messageId q).answered act answers s).state =
          act (.call queueName q (.unlock clientId messageId)) s) := by
  unfold autoUnlock
  cases messageId with
  | none => exact ⟨rfl, .inl rfl⟩
  | some id =>
    simp only [answered, act]
    split
    · exact ⟨rfl, .inr rfl⟩
    · exact ⟨rfl, .inl rfl⟩

/-- Without the write the message stays locked. -/
theorem handOut_unwritten {id : U128} {m : QueueMessage} (found : s.getQueue d.queueName = .ok q)
    (nonempty : (s.queues q).order ≠ []) (cursor : (s.queues q).nextId = some id)
    (stored : (s.queues q).queue.lookup id = some m) (free : m.lockedBy = none)
    (unwritten : answers 0 = false) :
    s.handOut d answers = ⟨act (.call d.queueName q (.lockToRead d.clientId)) s,
      [.respond (.new .succeeded (getMetaAsVec id (m.lock d.clientId) ++ m.payload)),
        .respond (.error .responseFailedError)], []⟩ := by
  rw [handOut_locked found nonempty cursor stored free, answered, unwritten]
  rfl

/-- After the write comes the timer, if there is one, and no other answer. -/
theorem handOut_written {id : U128} {m : QueueMessage} (found : s.getQueue d.queueName = .ok q)
    (nonempty : (s.queues q).order ≠ []) (cursor : (s.queues q).nextId = some id)
    (stored : (s.queues q).queue.lookup id = some m) (free : m.lockedBy = none)
    (written : answers 0 = true) :
    (∀ code, .respond (.error code) ∉ (s.handOut d answers).events) ∧
      ((s.handOut d answers).state = act (.call d.queueName q (.lockToRead d.clientId)) s ∨
        (s.handOut d answers).state = act (.call d.queueName q (.unlock d.clientId (some id)))
          (act (.call d.queueName q (.lockToRead d.clientId)) s)) := by
  rw [handOut_locked found nonempty cursor stored free, answered, written, if_pos rfl]
  generalize act (.call d.queueName q (.lockToRead d.clientId)) s = t
  simp only [answered, act]
  split_ifs with timed
  · rw [answered]
    obtain ⟨silent, state⟩ := answered_autoUnlock d.queueName d.clientId (some id) q
      (fun n => answers (n + 1 + 1)) t
    refine ⟨fun code inside => ?_, state⟩
    rw [silent, List.mem_pair] at inside
    rcases inside with same | same
    · exact new_succeeded_ne _ code (Event.respond.inj same).symm
    · cases same
  · refine ⟨fun code inside => ?_, .inl rfl⟩
    exact new_succeeded_ne _ code (Event.respond.inj (List.mem_singleton.1 inside)).symm

/-- A `Dequeue` calls `lock_to_read` and `unlock` at most. -/
theorem handOut_calls (s : Server) (d : Dispatch) (answers : ℕ → Bool) :
    (s.handOut d answers).state = s ∨
      ∃ q, (s.handOut d answers).state = act (.call d.queueName q (.lockToRead d.clientId)) s ∨
        ∃ id, (s.handOut d answers).state = act (.call d.queueName q (.unlock d.clientId (some id)))
          (act (.call d.queueName q (.lockToRead d.clientId)) s) := by
  cases found : s.getQueue d.queueName with
  | error code => exact .inl (by rw [handOut_no_queue found])
  | ok q =>
    obtain ⟨⟨error, refused⟩, -⟩ | ⟨id, m, nonempty, cursor, stored, free⟩ :=
      Queue.lockToRead_cases (s.queues q) d.clientId
    · exact .inl (by rw [handOut_refused found refused])
    · refine .inr ⟨q, ?_⟩
      cases written : answers 0 with
      | true =>
        exact (handOut_written found nonempty cursor stored free written).2.imp_right fun h => ⟨id, h⟩
      | false => exact .inl (by rw [handOut_unwritten found nonempty cursor stored free written])

/-! ## What an error leaves behind -/

/-- A message that was locked makes a difference. -/
theorem act_lockToRead_ne (queueName : String) {clientId id : U128} {m : QueueMessage}
    (nonempty : (s.queues q).order ≠ []) (cursor : (s.queues q).nextId = some id)
    (stored : (s.queues q).queue.lookup id = some m) (free : m.lockedBy = none) :
    act (.call queueName q (.lockToRead clientId)) s ≠ s := by
  intro same
  have step : (s.queues q).step (.lockToRead clientId) = (s.queues q).delivered clientId id m := by
    rw [Queue.step, Queue.Op.call,
      Method.run_bind_ok (Queue.run_lockToRead clientId nonempty cursor stored free)]
    rfl
  have queue : (s.queues q).delivered clientId id m = s.queues q :=
    step.symm.trans ((Function.update_self ..).symm.trans (congrFun (congrArg Server.queues same) q))
  have entry := Queue.lookup_delivered (s.queues q) clientId id m id
  rw [if_pos rfl, queue, stored] at entry
  have held := congrArg QueueMessage.lockedBy (Option.some.inj entry)
  rw [free] at held
  cases held

theorem rooted_reached (r : Registry) (config : ℕ → QueueConfig) (ops : ℕ → List Queue.Op)
    (lockedSize q : ℕ) : ((reached r config ops lockedSize).queues q).Rooted :=
  have rooted := (Queue.rooted_run (ops q)).last
  ⟨rooted.listed, rooted.nonzero⟩

/-- A `Dequeue` that is answered with an error leaves the server as it was if and only if there is
no queue, no message to lock, or the response is written. -/
theorem handsOutOrNothing_iff (r : Registry) (config : ℕ → QueueConfig) (ops : ℕ → List Queue.Op)
    (lockedSize : ℕ) (d : Dispatch) (answers : ℕ → Bool) :
    (reached r config ops lockedSize).HandsOutOrNothing d answers ↔
      ∀ q, r.getQueue d.queueName = .ok q →
        ((reached r config ops lockedSize).queues q).Stuck ∨ answers 0 = true := by
  have rooted := rooted_reached r config ops lockedSize
  have registry : (reached r config ops lockedSize).getQueue d.queueName = r.getQueue d.queueName :=
    rfl
  generalize reached r config ops lockedSize = s at rooted registry
  rw [← registry]
  cases found : s.getQueue d.queueName with
  | error code =>
    refine ⟨fun _ q same => (by cases same), fun _ code' _ => ?_⟩
    rw [handOut_no_queue found]
  | ok q =>
    have only : (∀ q', Except.ok q = (Except.ok q' : Except ErrorCode ℕ) →
        (s.queues q').Stuck ∨ answers 0 = true) ↔ (s.queues q).Stuck ∨ answers 0 = true :=
      ⟨fun h => h q rfl, fun h q' same => Except.ok.inj same ▸ h⟩
    rw [only]
    obtain ⟨⟨error, refused⟩, none_free⟩ | ⟨id, m, nonempty, cursor, stored, free⟩ :=
      Queue.lockToRead_cases (s.queues q) d.clientId
    · have stuck : (s.queues q).Stuck :=
        none_free.elim (fun empty _ _ _ stored => absurd empty ((rooted q).nonempty stored)) id
      refine ⟨fun _ => .inl stuck, fun _ code _ => ?_⟩
      rw [handOut_refused found refused]
    · cases written : answers 0 with
      | true =>
        have silent := (handOut_written found nonempty cursor stored free written).1
        exact ⟨fun _ => .inr rfl, fun _ code failed => absurd failed (silent code)⟩
      | false =>
        have locked := handOut_unwritten found nonempty cursor stored free written
        constructor
        · intro clean
          have same := clean .responseFailedError (by rw [locked]; simp)
          rw [locked] at same
          exact absurd same (act_lockToRead_ne d.queueName nonempty cursor stored free)
        · rintro (stuck | contra)
          · exact absurd free (stuck id m cursor stored)
          · cases contra

/-- One message on a queue with `auto_fail`, and a `Dequeue` whose response cannot be written: the
message stays locked. -/
theorem unwritten_message_stays_locked :
    ¬ ∀ (r : Registry) (config : ℕ → QueueConfig) (ops : ℕ → List Queue.Op) (lockedSize : ℕ)
      (d : Dispatch) (answers : ℕ → Bool),
      (reached r config ops lockedSize).HandsOutOrNothing d answers := by
  intro clean
  have same := clean (Registry.startup [("q", 0)]) (fun _ => ⟨true, 1000⟩)
    (fun _ => [.enqueue [7] 1 0]) 0 (.sample .dequeue []) (fun _ => false) .responseFailedError (by decide)
  have lists := congrArg (fun s => (s.queues 0).lockedIds 1) same
  exact absurd lists (by decide)

end Server

end DataBroker
