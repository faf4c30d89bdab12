import DataBroker.Queue.Basic
import DataBroker.Lib.Transition

/-!
# Calls do not know the configuration

No method of `Queue` that moves messages reads `config` or writes it: the handlers do that
themselves. So the calls of a run do the same whatever the configuration becomes in between.
-/

namespace DataBroker

namespace Queue

/-- The queue with another configuration. -/
def configure (config : QueueConfig) (s : Queue) : Queue := { s with config := config }

@[simp] theorem configure_configure (config config' : QueueConfig) (s : Queue) :
    (s.configure config).configure config' = s.configure config' := rfl

/-- The method neither reads nor writes the configuration. -/
def Unconfigured {α : Type} (x : QueueM α) : Prop := ∀ config, Method.Blind (configure config) x

theorem unconfigured_removeZeroes : Unconfigured removeZeroes := fun _ => .modify fun _ => rfl

theorem unconfigured_enqueue (payload : Bytes) (publisherId : U128) (now : U64) :
    Unconfigured (enqueue payload publisherId now) := by
  intro config
  unfold enqueue
  refine .get (fun _ => rfl) fun s => .get (fun _ => rfl) fun s => ?_
  refine .ite (.bind (.modify fun _ => rfl) fun _ => ?_) ?_
  · exact .modify fun _ => rfl
  · exact .modify fun _ => rfl

theorem unconfigured_lockToRead (clientId : U128) : Unconfigured (lockToRead clientId) := by
  intro config
  unfold lockToRead
  refine .get (fun _ => rfl) fun s => .ite (.fail _) ?_
  refine .bind (.unwrap _) fun id => .ite (.fail _) ?_
  refine .bind (.unwrap _) fun message => .ite (.fail _) ?_
  refine .bind (.modify fun _ => rfl) fun _ => .bind (.modify fun _ => rfl) fun _ => ?_
  refine .get (fun _ => rfl) fun s => .ite (.bind (unconfigured_removeZeroes config) fun _ => ?_) ?_
  · exact .pure _
  · exact .pure _

/-- The end of `dequeueById`: the message goes, and its entry in the list of the caller. -/
theorem unconfigured_removal (config : QueueConfig) (clientId messageId : U128) :
    Method.Blind (configure config) (do
      let message := (← get).queue.lookup messageId
      modify fun s => { s with queue := s.queue.erase messageId }
      if messageId ∈ (← get).lockedIds clientId then
        match ((← get).lockedIds clientId).idxOf? messageId with
        | some id =>
          modify fun s => { s with
            locked := s.locked.insert clientId ((s.lockedIds clientId).eraseIdx id) }
          removeZeroes
        | none => Method.fail (invalidData "No such message id")
      return (← Method.unwrap message).payload.length : QueueM ℕ) := by
  refine .get (fun _ => rfl) fun s => .bind (.modify fun _ => rfl) fun _ => ?_
  have last : Method.Blind (configure config)
      (do return (← Method.unwrap (s.queue.lookup messageId)).payload.length : QueueM ℕ) :=
    .bind (.unwrap _) fun _ => .pure _
  refine .get (fun _ => rfl) fun s => .ite (.get (fun _ => rfl) fun s => ?_) last
  split
  · refine .bind (.modify fun _ => rfl) fun _ => .bind (unconfigured_removeZeroes config) fun _ => last
  · exact .bind (.fail _) fun _ => last

theorem unconfigured_dequeueById (clientId messageId : U128) :
    Unconfigured (dequeueById clientId messageId) := by
  intro config
  have rest := unconfigured_removal config clientId messageId
  unfold dequeueById
  refine .get (fun _ => rfl) fun s => ?_
  dsimp only
  split
  · refine .get (fun _ => rfl) fun s => .ite (.bind (.modify fun _ => rfl) fun _ => ?_) ?_
    · exact .bind (.modify fun _ => rfl) fun _ => .bind (.modify fun _ => rfl) fun _ => rest
    · exact .bind (.modify fun _ => rfl) fun _ => .bind (.modify fun _ => rfl) fun _ => rest
  · exact rest

theorem unconfigured_dequeueLocked (clientId : U128) : Unconfigured (dequeueLocked clientId) := by
  intro config
  unfold dequeueLocked
  refine .get (fun _ => rfl) fun s => ?_
  split
  · split
    · rename_i id _
      refine .get (fun _ => rfl) fun s => .bind (.modify fun _ => rfl) fun _ => ?_
      have last : Method.Blind (configure config) (do
          removeZeroes
          return (← Method.unwrap (s.queue.lookup id)).payload.length : QueueM ℕ) :=
        .bind (unconfigured_removeZeroes config) fun _ => .bind (.unwrap _) fun _ => .pure _
      refine .get (fun _ => rfl) fun s => ?_
      split
      · exact .bind (.modify fun _ => rfl) fun _ => last
      · exact last
    · exact .fail _
  · exact .fail _

theorem unconfigured_dequeue (clientId : U128) (messageId : Option U128) :
    Unconfigured (dequeue clientId messageId) := by
  intro config
  unfold dequeue
  refine .get (fun _ => rfl) fun s => .ite (.fail _) ?_
  split
  · exact .get (fun _ => rfl) fun s => .ite (unconfigured_dequeueById _ _ config)
      (unconfigured_dequeueLocked _ config)
  · exact unconfigured_dequeueLocked _ config

theorem unconfigured_unlockFound (clientId : U128) (ids : List U128) (id : U128) :
    Unconfigured (unlockFound clientId ids id) := by
  intro config
  unfold unlockFound
  refine .bind (.unwrap _) fun i => .bind (.modify fun _ => rfl) fun _ => ?_
  refine .get (fun _ => rfl) fun s => ?_
  dsimp only
  split
  · refine .bind (.modify fun _ => rfl) fun _ => .get (fun _ => rfl) fun s => ?_
    split
    · exact .ite (.modify fun _ => rfl) (.pure _)
    · exact .modify fun _ => rfl
  · refine .get (fun _ => rfl) fun s => ?_
    split
    · exact .ite (.modify fun _ => rfl) (.pure _)
    · exact .modify fun _ => rfl

theorem unconfigured_unlock (clientId : U128) (messageId : Option U128) :
    Unconfigured (unlock clientId messageId) := by
  intro config
  unfold unlock
  refine .get (fun _ => rfl) fun s => .ite (.fail _) (.get (fun _ => rfl) fun s => ?_)
  split
  · exact .fail _
  · split
    · exact .ite (unconfigured_unlockFound _ _ _ config) (.fail _)
    · split
      · exact unconfigured_unlockFound _ _ _ config
      · exact .pure _

theorem unconfigured_requeue (clientId messageId : U128) (now : U64) :
    Unconfigured (requeue clientId messageId now) := by
  intro config
  unfold requeue
  refine .get (fun _ => rfl) fun s => .ite (.fail _) (.get (fun _ => rfl) fun s => ?_)
  split
  · refine .bind (unconfigured_enqueue _ _ _ config) fun _ => ?_
    exact .bind (unconfigured_dequeue _ _ config) fun _ => .pure _
  · exact .fail _

theorem unconfigured_updateMessage (messageId : U128) (payload : Bytes) :
    Unconfigured (updateMessage messageId payload) := by
  intro config
  unfold updateMessage
  refine .get (fun _ => rfl) fun s => .ite (.fail _) (.get (fun _ => rfl) fun s => ?_)
  split
  · exact .modify fun _ => rfl
  · exact .fail _

theorem unconfigured_isLocked (clientId messageId : U128) :
    Unconfigured (isLocked clientId messageId) := by
  intro config
  unfold isLocked
  refine .get (fun _ => rfl) fun s => ?_
  split <;> exact .pure _

/-- Reading an entry of `biggest_payloads`. -/
theorem unconfigured_read {α : Type} (i : ℕ) {f : ℕ → QueueM α} (hf : ∀ n, Unconfigured (f n)) :
    Unconfigured (do f (← Method.unwrap (← get).biggestPayloads[i]?)) := fun config =>
  .get (fun _ => rfl) fun _ => .bind (.unwrap _) fun n => hf n config

theorem unconfigured_setBiggest (i value : ℕ) : Unconfigured (setBiggest i value) :=
  unconfigured_read i fun _ _ => .modify fun _ => rfl

theorem unconfigured_placePayload (len n : ℕ) : Unconfigured (placePayload len n) := by
  induction n with
  | zero => exact fun config => .pure _
  | succ decrId ih =>
    refine unconfigured_read decrId fun biggest config => .ite (.bind ?_ fun _ => ?_) (ih config)
    · exact .forM fun id _ => unconfigured_read _ (fun next => unconfigured_setBiggest id next) config
    · exact unconfigured_setBiggest decrId len config

theorem unconfigured_getNextBiggestPayload (iter : Iteration U128 QueueMessage) :
    Unconfigured (getNextBiggestPayload iter) := by
  refine unconfigured_read 4 fun result config => .bind ?_ fun _ => .pure _
  exact .get (fun _ => rfl) fun s => .forM fun e _ => unconfigured_placePayload _ _ config

/-- No call reads or writes the configuration. -/
theorem unconfigured_call (op : Op) : Unconfigured op.call := by
  intro config
  cases op with
  | enqueue payload publisherId now => exact unconfigured_enqueue _ _ _ config
  | lockToRead clientId => exact .bind (unconfigured_lockToRead _ config) fun _ => .pure _
  | dequeue clientId messageId => exact .bind (unconfigured_dequeue _ _ config) fun _ => .pure _
  | unlock clientId messageId => exact unconfigured_unlock _ _ config
  | requeue clientId messageId now => exact unconfigured_requeue _ _ _ config
  | updateMessage messageId payload => exact unconfigured_updateMessage _ _ config
  | isLocked clientId messageId => exact .bind (unconfigured_isLocked _ _ config) fun _ => .pure _
  | listMessages iter => exact .bind (.get (fun _ => rfl) fun _ => .pure _) fun _ => .pure _
  | getNextBiggestPayload iter =>
    exact .bind (unconfigured_getNextBiggestPayload iter config) fun _ => .pure _

theorem step_configure (config : QueueConfig) (s : Queue) (op : Op) :
    (s.configure config).step op = (s.step op).configure config :=
  congrArg Prod.snd (unconfigured_call op config s)

end Queue

end DataBroker
