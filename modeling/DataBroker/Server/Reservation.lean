import DataBroker.Queue.Calls
import DataBroker.Server.Handout

/-!
# The reservation for the biggest message

`LOCKED_SIZE` is one number for all queues. An `Enqueue` raises it to what its payload needs with
the overhead, and a `Succeeded` whose message needs at least as much sets it to the last entry of
the queue's `biggest_payloads`, an array that is brought up to date only after it was read. An
`UpdateM` leaves it alone. `Covers` says when a request leaves every stored message covered.
-/

namespace DataBroker

open Handler Program

/-! ## The payloads of a queue -/

namespace Queue

variable {s t : Queue} {n n' : ℕ}

/-- Every stored payload needs at most `n` bytes with its overhead. -/
def FitsIn (s : Queue) (n : ℕ) : Prop :=
  ∀ id m, s.queue.lookup id = some m → scaled m.payload.length ≤ n

/-- Every payload of `t` is one of `s`. -/
def NoNewPayload (s t : Queue) : Prop :=
  ∀ id m, t.queue.lookup id = some m → ∃ id' m', s.queue.lookup id' = some m' ∧ m'.payload = m.payload

/-- The call brings in no payload. -/
def Op.Carries : Op → Bool
  | .enqueue .. | .updateMessage .. => true
  | _ => false

theorem FitsIn.mono (h : s.FitsIn n) (le : n ≤ n') : s.FitsIn n' :=
  fun id m stored => (h id m stored).trans le

theorem NoNewPayload.fitsIn (none_new : s.NoNewPayload t) (h : s.FitsIn n) : t.FitsIn n := by
  intro id m stored
  obtain ⟨id', m', stored', same⟩ := none_new id m stored
  rw [← same]
  exact h id' m' stored'

theorem noNewPayload_of_queue (same : t.queue = s.queue) : s.NoNewPayload t := by
  intro id m stored
  rw [same] at stored
  exact ⟨id, m, stored, rfl⟩

theorem noNewPayload_step (h : s.Rooted) {op : Op} (none_carried : op.Carries = false) :
    s.NoNewPayload (s.step op) := by
  have effect := step_effect h op
  generalize s.step op = t at effect ⊢
  cases effect with
  | idle => exact noNewPayload_of_queue rfl
  | measured => exact noNewPayload_of_queue rfl
  | enqueued => cases none_carried
  | updated => cases none_carried
  | delivered clientId id m cursor stored free =>
    intro k m' stored'
    rw [lookup_delivered] at stored'
    split_ifs at stored' with same
    · obtain rfl := Option.some.inj stored'
      exact ⟨id, m, stored, rfl⟩
    · exact ⟨k, m', stored', rfl⟩
  | removed clientId id m stored =>
    intro k m' stored'
    rw [lookup_removed] at stored'
    split_ifs at stored'
    exact ⟨k, m', stored', rfl⟩
  | acked clientId id ids messageId unnamed first =>
    intro k m' stored'
    rw [lookup_acked] at stored'
    split_ifs at stored'
    exact ⟨k, m', stored', rfl⟩
  | released clientId id messageId listed =>
    intro k m' stored'
    rw [lookup_released] at stored'
    split_ifs at stored'
    · obtain ⟨m, stored, rfl⟩ := Option.map_eq_some_iff.1 stored'
      exact ⟨k, m, stored, rfl⟩
    · exact ⟨k, m', stored', rfl⟩
  | requeued clientId id now m stored =>
    intro k m' stored'
    rw [lookup_requeued] at stored'
    split_ifs at stored'
    · obtain rfl := Option.some.inj stored'
      exact ⟨id, m, stored, rfl⟩
    · exact ⟨k, m', stored', rfl⟩

theorem fitsIn_enqueue {payload : Bytes} {publisherId : U128} {now : U64} (h : s.FitsIn n)
    (fits : scaled payload.length ≤ n) : (s.step (.enqueue payload publisherId now)).FitsIn n := by
  intro id m stored
  rw [step_enqueue, lookup_enqueued] at stored
  split_ifs at stored
  · obtain rfl := Option.some.inj stored
    exact fits
  · exact h id m stored

/-- A new payload for a stored message. -/
theorem fitsIn_updateMessage {id : U128} {payload : Bytes} (rooted : s.Rooted) (h : s.FitsIn n) :
    (s.step (.updateMessage id payload)).FitsIn n ↔
      (id ∈ s.queue → scaled payload.length ≤ n) := by
  cases stored : s.queue.lookup id with
  | none =>
    have absent : id ∉ s.queue := Finmap.lookup_eq_none.1 stored
    obtain ⟨e, refused⟩ := updateMessage_absent payload absent
    rw [step, Op.call, refused]
    exact ⟨fun _ mem => absurd mem absent, fun _ => h⟩
  | some m =>
    rw [step, Op.call, run_updateMessage payload (rooted.nonempty stored) stored]
    constructor
    · intro fits _
      exact fits id { m with payload := payload } (by rw [lookup_updated, if_pos rfl])
    · intro fits k m' stored'
      rw [lookup_updated] at stored'
      split_ifs at stored' with same
      · obtain rfl := Option.some.inj stored'
        exact fits (HashMap.mem_of_lookup stored)
      · exact h k m' stored'

/-- One message less. -/
theorem fitsIn_acked {clientId id : U128} {ids : List U128} {measured : Vector ℕ 5} :
    FitsIn { s.acked clientId id ids with biggestPayloads := measured } n ↔
      ∀ k m, k ≠ id → s.queue.lookup k = some m → scaled m.payload.length ≤ n := by
  have stays : ∀ k m, (s.acked clientId id ids).queue.lookup k = some m ↔
      k ≠ id ∧ s.queue.lookup k = some m := by
    intro k m
    rw [lookup_acked]
    split_ifs with same <;> simp [same]
  apply forall₂_congr
  intro k m
  rw [show ({ s.acked clientId id ids with biggestPayloads := measured } : Queue).queue.lookup k = some m
    ↔ _ from stays k m, and_imp]

/-- `dequeue` without an id: refused, or the client's first id goes, stored or not. -/
theorem dequeue_none_cases (rooted : s.Rooted) (clientId : U128) :
    (∃ e, (dequeue clientId none).run s = (.err e, s)) ∧
        (∀ id m, (s.lockedIds clientId).head? = some id → s.queue.lookup id ≠ some m) ∨
      ∃ id ids, s.lockedIds clientId = id :: ids ∧ (dequeue clientId none).run s =
        (match s.queue.lookup id with
          | some m => .ok m.payload.length
          | none => .panic, s.acked clientId id ids) := by
  by_cases empty : s.order = []
  · refine .inl ⟨⟨_, dequeue_empty clientId none empty⟩, fun id m _ stored => ?_⟩
    exact rooted.nonempty stored empty
  rw [run_dequeue_locked clientId empty]
  cases mine : s.lockedIds clientId with
  | nil => exact .inl ⟨dequeueLocked_err mine, fun id m first => (by cases first)⟩
  | cons id ids => exact .inr ⟨id, ids, rfl, run_dequeueLocked (lookup_locked mine)⟩

end Queue

/-! ## One request at a time -/

/-- The request was read off a buffer. -/
def Dispatch.Received (d : Dispatch) : Prop :=
  ∃ freeMemSize buffer rest, readFrame freeMemSize buffer = .item d rest

theorem Dispatch.Received.payloadSize {d : Dispatch} (received : d.Received) :
    d.message.payloadSize.toNat = d.message.payload.length := by
  obtain ⟨freeMemSize, buffer, rest, found⟩ := received
  exact payloadSize_item found

/-- A request, and the answers to the waits of its task. -/
abbrev Exchange := (Env × Dispatch) × (ℕ → Bool)

namespace Server

/-- A request handled with nobody else at work. -/
def serve (s : Server) (request : Exchange) : Server :=
  ((task s.toRegistry request.1).answered act request.2 (s.register request.1)).state

/-- Requests sent one at a time, whose responses are all written. -/
theorem sequential_eq_run (requests : List (Env × Dispatch)) (s : Server) :
    (sequential requests s).1 =
      Transition.run serve s (requests.map fun request => (request, fun _ => true)) := by
  induction requests generalizing s with
  | nil => rfl
  | cons request requests ih =>
    have one : (pipelined [request] s).1 = s.serve (request, fun _ => true) := by
      rw [pipelined_eq, serve, answered_true]
      rfl
    rw [List.map_cons, Transition.run_cons, ← one, ← ih]
    rfl

/-- A call of `set_locked_size` returns `true`. -/
def Granted : Action → Server → Prop
  | .setLockedSize env size, s =>
    ({ env.memory with lockedSize := s.lockedSize }.setLockedSize env.arena size).1 = true
  | _, _ => True

/-- Every call of `set_locked_size` for the request returns `true`. -/
def AllGranted (s : Server) (request : Exchange) : Prop :=
  (task s.toRegistry request.1).Performs act Granted request.2 (s.register request.1)

/-- `LOCKED_SIZE` covers every message that is stored. -/
def Reserved (s : Server) : Prop := ∀ q, (s.queues q).FitsIn s.lockedSize

variable {s : Server} {env : Env} {d : Dispatch} {answers : ℕ → Bool} {q : ℕ}

theorem setLockedSize_granted {size : ℕ} (granted : Granted (.setLockedSize env size) s) :
    s.setLockedSize env size = { s with lockedSize := size } := by
  have set : ∀ memory : MemAllocator, (memory.setLockedSize env.arena size).1 = true →
      (memory.setLockedSize env.arena size).2.lockedSize = size := by
    intro memory returned
    unfold MemAllocator.setLockedSize at *
    split at returned
    · cases returned
    · split_ifs at returned ⊢
      rfl
  exact congrArg (Server.mk s.toRegistry s.queues) (set _ granted)

/-- Another queue in place of `q`. -/
theorem reserved_update {t : Queue} (h : s.Reserved) :
    Reserved { s with queues := Function.update s.queues q t } ↔ t.FitsIn s.lockedSize := by
  refine (Function.forall_update_iff s.queues fun _ queue => queue.FitsIn s.lockedSize).trans ?_
  exact and_iff_left fun q' _ => h q'

theorem reserved_call {queueName : String} {op : Queue.Op} (rooted : (s.queues q).Rooted)
    (none_carried : op.Carries = false) (h : s.Reserved) : (act (.call queueName q op) s).Reserved :=
  (reserved_update h).2 ((Queue.noNewPayload_step rooted none_carried).fitsIn (h q))

/-! ## What the tasks do to the queues -/

theorem state_withQueue {queueName : String} {found : ℕ → Handler} :
    ((withQueue queueName found).answered act answers s).state =
      match s.getQueue queueName with
      | .ok q => ((found q).answered act answers s).state
      | .error _ => s := by
  rw [withQueue, answered, answered_getQueue]
  cases s.getQueue queueName <;> rfl

theorem state_callQueue {queueName : String} {op : Queue.Op} {code : ErrorCode} :
    ((callQueue queueName q op code id).answered act answers s).state =
      act (.call queueName q op) s := by
  simp only [callQueue, answered]
  split <;> rfl

theorem state_withMessageId (next : U128 → Handler) :
    ((withMessageId d next).answered act answers s).state = s ∨
      ∃ id, ((withMessageId d next).answered act answers s).state =
        ((next id).answered act answers s).state := by
  unfold withMessageId
  split_ifs
  · exact .inl rfl
  · exact .inr ⟨_, rfl⟩

theorem granted_getQueue {queueName : String} {found : ℕ → Handler} {failed : ErrorCode → Handler} :
    (getQueue queueName found failed).Performs act Granted answers s ↔
      match s.getQueue queueName with
      | .ok q => (found q).Performs act Granted answers s
      | .error code => (failed code).Performs act Granted answers s := by
  unfold getQueue Registry.getQueue
  simp only [Performs, act, Granted, true_and]
  cases s.queueNames.lookup queueName with
  | none => rfl
  | some hash =>
    simp only [Performs, act, Granted, true_and]
    cases s.queue.lookup hash <;> rfl

/-- An `Enqueue` stores the message and raises `LOCKED_SIZE` to what it needs. -/
theorem state_enqueue (found : s.getQueue d.queueName = .ok q)
    (granted : (enqueue env d).Performs act Granted answers s) :
    ((enqueue env d).answered act answers s).state =
      { act (.call d.queueName q (.enqueue d.message.payload d.clientId env.now)) s with
        lockedSize := max s.lockedSize (scaled d.message.payloadSize.toNat) } := by
  have returns : ((Queue.Op.enqueue d.message.payload d.clientId env.now).call.run
      (s.queues q)).1 = .ok () := by
    rw [Queue.Op.call, Queue.run_enqueue]
  rw [enqueue, withQueue, Performs, granted_getQueue, found] at granted
  rw [enqueue, state_withQueue, found]
  simp only [callQueue, Performs, returns, raiseLockedSize] at granted
  simp only [callQueue, answered, returns, raiseLockedSize]
  obtain ⟨-, -, granted⟩ := granted
  have size : (act (.call d.queueName q (.enqueue d.message.payload d.clientId env.now)) s).lockedSize =
    s.lockedSize := rfl
  generalize act (.call d.queueName q (.enqueue d.message.payload d.clientId env.now)) s = t
    at granted size ⊢
  change (if _ > t.lockedSize then _ else _ : Handler).Performs act Granted answers t at granted
  change ((if _ > t.lockedSize then _ else _ : Handler).answered act answers t).state = _
  rw [← size]
  split_ifs at granted ⊢ with larger
  · rw [max_eq_right (Nat.le_of_lt larger)]
    exact setLockedSize_granted granted.1
  · rw [max_eq_left (Nat.le_of_not_lt larger)]
    rfl

/-- What `dequeue_message_sent` does if the message needed all of `LOCKED_SIZE`. -/
def lower (env : Env) (queueName : String) (q : ℕ) (next panicked : Handler) : Handler :=
  perform (.call queueName q (.getNextBiggestPayload env.messages)) fun s =>
    match ((Queue.getNextBiggestPayload env.messages).run (s.queues q)).1 with
    | .ok size => perform (.setLockedSize env size) fun _ => next
    | .err _ => next
    | .panic => panicked

/-- `set_locked_size` is called with the entry that the array had before it was brought up to date. -/
theorem answered_lower {queueName : String} {next panicked : Handler} {t : Queue}
    (at_q : s.queues q = t)
    (granted : (lower env queueName q next panicked).Performs act Granted answers s) :
    ∃ measured, (lower env queueName q next panicked).answered act answers s =
      next.answered act answers { s with
        queues := Function.update s.queues q { t with biggestPayloads := measured }
        lockedSize := t.biggest } := by
  obtain ⟨measured, returns⟩ := Queue.run_getNextBiggestPayload env.messages t
  have step : t.step (.getNextBiggestPayload env.messages) = { t with biggestPayloads := measured } := by
    rw [Queue.step, Queue.Op.call, Method.run_discard_snd, returns]
  refine ⟨measured, ?_⟩
  simp only [lower, Performs, at_q, returns] at granted
  have lowered := setLockedSize_granted granted.2.1
  simp only [lower, answered, at_q, returns]
  apply (congrArg (next.answered act answers) lowered).trans
  rw [act, at_q, step]

theorem granted_lower {queueName : String} {next panicked : Handler} {t : Queue}
    (at_q : s.queues q = t)
    (room : ∀ s', Granted (.setLockedSize env t.biggest) s')
    (hnext : ∀ s', next.Performs act Granted answers s') :
    (lower env queueName q next panicked).Performs act Granted answers s := by
  obtain ⟨measured, returns⟩ := Queue.run_getNextBiggestPayload env.messages t
  simp only [lower, Performs, at_q, returns]
  exact ⟨trivial, room _, hnext _⟩

/-- The `LOCKED_SIZE` after the message `id` of the queue was acknowledged. -/
def lockedSizeWithout (s : Server) (q : ℕ) (id : U128) : ℕ :=
  match (s.queues q).queue.lookup id with
  | some m =>
    if s.lockedSize ≤ scaled m.payload.length then (s.queues q).biggest else s.lockedSize
  | none => s.lockedSize

theorem act_dequeue_acked (queueName : String) {clientId id : U128} {ids : List U128}
    {outcome : Outcome IoError ℕ}
    (run : (Queue.dequeue clientId none).run (s.queues q) =
      (outcome, (s.queues q).acked clientId id ids)) :
    act (.call queueName q (.dequeue clientId none)) s =
      { s with queues := Function.update s.queues q ((s.queues q).acked clientId id ids) } := by
  rw [act, Queue.step, Queue.Op.call, Method.run_discard_snd, run]

/-- A `Succeeded` without a message to remove leaves the server as it is, and one with a message
removes it and sets `LOCKED_SIZE`. -/
theorem state_succeed (found : s.getQueue d.queueName = .ok q) (rooted : (s.queues q).Rooted)
    (granted : (succeed env d).Performs act Granted answers s) :
    ((succeed env d).answered act answers s).state = s ∧
        (∀ id m, ((s.queues q).lockedIds d.clientId).head? = some id →
          (s.queues q).queue.lookup id ≠ some m) ∨
      ∃ id ids measured, (s.queues q).lockedIds d.clientId = id :: ids ∧
        ((succeed env d).answered act answers s).state = { s with
          queues := Function.update s.queues q
            { (s.queues q).acked d.clientId id ids with biggestPayloads := measured }
          lockedSize := s.lockedSizeWithout q id } := by
  rw [succeed, dequeueMessageSent, Performs, granted_getQueue, found] at granted
  rw [succeed, dequeueMessageSent, answered, answered_getQueue, found]
  obtain ⟨⟨error, refused⟩, none_first⟩ | ⟨id, ids, listed, run⟩ :=
    Queue.dequeue_none_cases rooted d.clientId
  · refine .inl ⟨?_, none_first⟩
    have same : (s.queues q).step (.dequeue d.clientId none) = s.queues q := by
      rw [Queue.step, Queue.Op.call, Method.run_bind, refused]
    simp only [answered, refused]
    exact act_call_self d.queueName same
  · right
    have called := act_dequeue_acked d.queueName run
    cases stored : (s.queues q).queue.lookup id with
    | none =>
      rw [stored] at run
      refine ⟨id, ids, (s.queues q).biggestPayloads, listed, ?_⟩
      simp only [answered, run, called, lockedSizeWithout, stored]
      rfl
    | some m =>
      rw [stored] at run
      simp only [Performs, run, called] at granted
      obtain ⟨-, -, granted⟩ := granted
      simp only [answered, run, called, lockedSizeWithout]
      change Performs act Granted (if s.lockedSize ≤ scaled m.payload.length then
        lower env d.queueName q _ _ else _) _ _ at granted
      change ∃ id' ids' measured, _ ∧ (answered act (if s.lockedSize ≤ scaled m.payload.length then
        lower env d.queueName q _ _ else _) _ _).state = _
      by_cases all : s.lockedSize ≤ scaled m.payload.length
      · rw [if_pos all] at granted ⊢
        obtain ⟨measured, same⟩ := answered_lower (Function.update_self ..) granted
        refine ⟨id, ids, measured, listed, ?_⟩
        rw [same, stored]
        simp only [if_pos all, answered, sendResponse, act, Function.update_idem]
        rfl
      · rw [if_neg all] at granted ⊢
        refine ⟨id, ids, (s.queues q).biggestPayloads, listed, ?_⟩
        rw [stored]
        simp only [if_neg all]
        rfl

/-- A `Succeeded` asks for the last entry of `biggest_payloads` at most. -/
theorem granted_succeed (found : s.getQueue d.queueName = .ok q) (rooted : (s.queues q).Rooted)
    (room : ∀ s', Granted (.setLockedSize env (s.queues q).biggest) s') :
    (succeed env d).Performs act Granted answers s := by
  rw [succeed, dequeueMessageSent, Performs, granted_getQueue, found]
  obtain ⟨⟨error, refused⟩, -⟩ | ⟨id, ids, listed, run⟩ :=
    Queue.dequeue_none_cases rooted d.clientId
  · simp only [Performs, refused]
    exact ⟨trivial, trivial⟩
  have at_q : (act (.call d.queueName q (.dequeue d.clientId none)) s).queues q =
      (s.queues q).acked d.clientId id ids := by
    rw [act_dequeue_acked d.queueName run]
    exact Function.update_self ..
  cases stored : (s.queues q).queue.lookup id with
  | none =>
    rw [stored] at run
    simp only [Performs, run]
    exact ⟨trivial, trivial⟩
  | some m =>
    rw [stored] at run
    simp only [Performs, run]
    refine ⟨trivial, trivial, ?_⟩
    split_ifs
    · exact granted_lower at_q room fun _ => trivial
    · trivial

theorem state_listM : ((listM env d).answered act answers s).state = s := by
  rw [answered_listM]
  cases s.getQueue d.queueName with
  | error code => rfl
  | ok q =>
    simp only [listQueue, answered, act]
    split <;> rfl

theorem state_collectStats (queue : HashMap Uuid ℕ) (rest : List (Σ _ : String, Uuid))
    (watcher : StatWatcher) :
    ((collectStats env queue rest watcher).answered act answers s).state = s := by
  induction rest generalizing watcher with
  | nil => rfl
  | cons entry rest ih =>
    unfold collectStats
    split
    · exact ih _
    · exact ih _

theorem state_netStats : ((netStats env).answered act answers s).state = s :=
  state_collectStats _ _ _

/-! ## The stored messages stay in the order vectors -/

theorem rooted_act (action : Action) (s : Server) (h : ∀ q, (s.queues q).Rooted) :
    ∀ q, ((act action s).queues q).Rooted := by
  have updated : ∀ {q : ℕ} {t : Queue}, t.Rooted → ∀ q', (Function.update s.queues q t q').Rooted :=
    fun rooted => (Function.forall_update_iff s.queues fun _ => Queue.Rooted).2
      ⟨rooted, fun q' _ => h q'⟩
  cases action with
  | read => exact h
  | call queueName q op => exact updated ((h q).step op)
  | updateConfig queueName q config => exact updated ⟨(h q).listed, (h q).nonzero⟩
  | setLockedSize env size => exact h
  | createQ queueName hash =>
    unfold act
    dsimp only
    split_ifs
    · exact h
    · exact updated Queue.Rooted.new
  | deleteQ queueName => exact h

theorem rooted_register (request : Env × Dispatch) (h : ∀ q, (s.queues q).Rooted) :
    ∀ q, ((s.register request).queues q).Rooted := by
  unfold register
  split
  · exact rooted_act _ s h
  · exact rooted_act _ s h
  · exact h

theorem rooted_serve (request : Exchange) (h : ∀ q, (s.queues q).Rooted) :
    ∀ q, ((s.serve request).queues q).Rooted :=
  answered_invariant rooted_act _ _ (rooted_register request.1 h)

/-! ## What a request does to the reservation -/

/-- What a request must not do: an `UpdateM` gives no message a payload that needs more than
`LOCKED_SIZE`, and no `Succeeded` of a message that needed all of it leaves one behind, in any
queue, that needs more than the last entry of the queue's `biggest_payloads`. -/
def Covers (s : Server) (request : Exchange) : Prop :=
  let d := request.1.2
  match d.message.command with
  | .updateM =>
    ∀ q, s.getQueue d.queueName = .ok q → 16 ≤ d.message.payload.length →
      BigEndian.toBitVec 16 (d.message.payload.take 16) ∈ (s.queues q).queue →
      scaled (d.message.payload.drop 16).length ≤ s.lockedSize
  | .succeeded =>
    ∀ q id m, s.getQueue d.queueName = .ok q →
      ((s.queues q).lockedIds d.clientId).head? = some id →
      (s.queues q).queue.lookup id = some m → s.lockedSize ≤ scaled m.payload.length →
      ∀ q' id' m', (q', id') ≠ (q, id) → (s.queues q').queue.lookup id' = some m' →
        scaled m'.payload.length ≤ (s.queues q).biggest
  | _ => True

theorem reserved_enqueue (received : d.Received) (h : s.Reserved)
    (granted : (enqueue env d).Performs act Granted answers s) :
    ((enqueue env d).answered act answers s).state.Reserved := by
  cases found : s.getQueue d.queueName with
  | error code =>
    rw [enqueue, state_withQueue, found]
    exact h
  | ok q =>
    rw [state_enqueue found granted, received.payloadSize]
    have larger : Reserved { s with lockedSize := max s.lockedSize (scaled d.message.payload.length) } :=
      fun q' => (h q').mono (le_max_left ..)
    exact (reserved_update larger).2 (Queue.fitsIn_enqueue (larger q) (le_max_right ..))

theorem reserved_dequeue (rooted : ∀ q, (s.queues q).Rooted) (h : s.Reserved) :
    (s.handOut d answers).state.Reserved := by
  have locked : ∀ q, (act (.call d.queueName q (.lockToRead d.clientId)) s).Reserved :=
    fun q => reserved_call (rooted q) rfl h
  rcases s.handOut_calls d answers with same | ⟨q, same | ⟨id, same⟩⟩
  · rwa [same]
  · rw [same]
    exact locked q
  · rw [same]
    exact reserved_call (rooted_act _ s rooted q) rfl (locked q)

/-- `DeleteM` and `Requeue` make one call for the id in the payload. -/
theorem reserved_callById {op : U128 → Queue.Op} {code : ErrorCode}
    (rooted : ∀ q, (s.queues q).Rooted) (none_carried : ∀ id, (op id).Carries = false)
    (h : s.Reserved) :
    ((withQueue d.queueName fun q => withMessageId d fun id =>
      callQueue d.queueName q (op id) code fun next => next).answered act answers s).state.Reserved := by
  rw [state_withQueue]
  cases s.getQueue d.queueName with
  | error code => exact h
  | ok q =>
    dsimp only
    rcases state_withMessageId fun id => callQueue d.queueName q (op id) code fun next => next
      with same | ⟨id, same⟩
    · rwa [same]
    · rw [same]
      exact state_callQueue ▸ reserved_call (rooted q) (none_carried id) h

theorem reserved_updateM (received : d.Received) (rooted : ∀ q, (s.queues q).Rooted)
    (h : s.Reserved) :
    ((updateM d).answered act answers s).state.Reserved ↔
      ∀ q, s.getQueue d.queueName = .ok q → 16 ≤ d.message.payload.length →
        BigEndian.toBitVec 16 (d.message.payload.take 16) ∈ (s.queues q).queue →
        scaled (d.message.payload.drop 16).length ≤ s.lockedSize := by
  unfold updateM
  rw [received.payloadSize]
  split_ifs with short
  · exact ⟨fun _ _ _ long => absurd long (Nat.not_le.2 short), fun _ => h⟩
  dsimp only
  rw [state_withQueue]
  cases found : s.getQueue d.queueName with
  | error code => exact ⟨fun _ q same => (by cases same), fun _ => h⟩
  | ok q =>
    dsimp only
    rw [state_callQueue]
    refine (reserved_update h).trans ((Queue.fitsIn_updateMessage (rooted q) (h q)).trans ?_)
    constructor
    · intro fits q' same _
      obtain rfl := Except.ok.inj same
      exact fits
    · exact fun fits => fits q rfl (Nat.not_lt.1 short)

/-- The messages that are left when one is gone, under another `LOCKED_SIZE`. -/
theorem reserved_acked {clientId id : U128} {ids : List U128} {measured : Vector ℕ 5} {n : ℕ} :
    Reserved { s with
        queues := Function.update s.queues q
          { (s.queues q).acked clientId id ids with biggestPayloads := measured }
        lockedSize := n } ↔
      ∀ q' id' m', (q', id') ≠ (q, id) → (s.queues q').queue.lookup id' = some m' →
        scaled m'.payload.length ≤ n := by
  refine (Function.forall_update_iff s.queues fun _ queue => queue.FitsIn n).trans ?_
  rw [Queue.fitsIn_acked]
  constructor
  · rintro ⟨own, others⟩ q' id' m' other stored
    by_cases same : q' = q
    · subst same
      exact own id' m' (fun e => other (by rw [e])) stored
    · exact others q' same id' m' stored
  · intro fits
    refine ⟨fun id' m' other => fits q id' m' ?_, fun q' other id' m' => fits q' id' m' ?_⟩
    · exact fun same => other (congrArg Prod.snd same)
    · exact fun same => other (congrArg Prod.fst same)

theorem reserved_succeed (rooted : ∀ q, (s.queues q).Rooted) (h : s.Reserved)
    (granted : (succeed env d).Performs act Granted answers s) :
    ((succeed env d).answered act answers s).state.Reserved ↔
      ∀ q id m, s.getQueue d.queueName = .ok q →
        ((s.queues q).lockedIds d.clientId).head? = some id →
        (s.queues q).queue.lookup id = some m → s.lockedSize ≤ scaled m.payload.length →
        ∀ q' id' m', (q', id') ≠ (q, id) → (s.queues q').queue.lookup id' = some m' →
          scaled m'.payload.length ≤ (s.queues q).biggest := by
  cases found : s.getQueue d.queueName with
  | error code =>
    rw [succeed, dequeueMessageSent, answered, answered_getQueue, found]
    exact ⟨fun _ q id m same => (by cases same), fun _ => h⟩
  | ok q =>
    obtain ⟨same, none_first⟩ | ⟨id, ids, measured, listed, after⟩ :=
      state_succeed found (rooted q) granted
    · rw [same]
      refine ⟨fun _ q' id m same first stored => ?_, fun _ => h⟩
      obtain rfl := Except.ok.inj same
      exact absurd stored (none_first id m first)
    have first : ((s.queues q).lockedIds d.clientId).head? = some id := by rw [listed]; rfl
    have only : ∀ q' id', Except.ok q = (Except.ok q' : Except ErrorCode ℕ) →
        ((s.queues q').lockedIds d.clientId).head? = some id' → q' = q ∧ id' = id := by
      intro q' id' same first'
      obtain rfl := Except.ok.inj same
      exact ⟨rfl, Option.some.inj (first'.symm.trans first)⟩
    rw [after, reserved_acked]
    unfold lockedSizeWithout
    cases stored : (s.queues q).queue.lookup id with
    | none =>
      refine ⟨fun _ q' id' m' same first' stored' => ?_, fun _ q' id' m' _ => h q' id' m'⟩
      obtain ⟨rfl, rfl⟩ := only q' id' same first'
      cases stored.symm.trans stored'
    | some m =>
      by_cases all : s.lockedSize ≤ scaled m.payload.length
      · simp only [if_pos all]
        constructor
        · intro fits q' id' m' same first' _ _
          obtain ⟨rfl, rfl⟩ := only q' id' same first'
          exact fits
        · exact fun covers => covers q id m rfl first stored all
      · simp only [if_neg all]
        refine ⟨fun _ q' id' m' same first' stored' all' => ?_, fun _ q' id' m' _ => h q' id' m'⟩
        obtain ⟨rfl, rfl⟩ := only q' id' same first'
        obtain rfl := Option.some.inj (stored.symm.trans stored')
        exact absurd all' all

theorem reserved_createQ (queueName : String) (hash : Uuid) (h : s.Reserved) :
    (act (.createQ queueName hash) s).Reserved := by
  unfold act
  dsimp only
  split_ifs
  · exact h
  · exact (reserved_update h).2 fun id m stored => (by cases stored)

theorem reserved_fail (rooted : ∀ q, (s.queues q).Rooted) (h : s.Reserved) :
    ((fail d).answered act answers s).state.Reserved := by
  rw [fail, state_withQueue]
  split
  · exact state_callQueue ▸ reserved_call (rooted _) rfl h
  · exact h

theorem reserved_updateQ (h : s.Reserved) : ((updateQ d).answered act answers s).state.Reserved := by
  rw [updateQ, state_withQueue]
  split
  next q found =>
    split_ifs
    · exact h
    · split
      · exact (reserved_update h).2 (h q)
      · exact h
  · exact h

/-- Whether one request keeps the reservation. -/
theorem reserved_serve {request : Exchange} (received : request.1.2.Received)
    (rooted : ∀ q, (s.queues q).Rooted) (granted : s.AllGranted request) (h : s.Reserved) :
    (s.serve request).Reserved ↔ s.Covers request := by
  obtain ⟨⟨env, d⟩, answers⟩ := request
  unfold AllGranted task register at granted
  unfold serve Covers task register
  dsimp only at received granted ⊢
  cases command : d.message.command with
  | enqueue =>
    rw [command] at granted
    exact iff_of_true (reserved_enqueue received h granted) trivial
  | dequeue => exact iff_of_true (reserved_dequeue rooted h) trivial
  | createQ => exact iff_of_true (reserved_createQ _ _ h) trivial
  | deleteQ => exact iff_of_true h trivial
  | listM =>
    refine iff_of_true ?_ trivial
    dsimp only
    rwa [state_listM]
  | deleteM => exact iff_of_true (reserved_callById rooted (fun _ => rfl) h) trivial
  | succeeded =>
    rw [command] at granted
    exact reserved_succeed rooted h granted
  | failed => exact iff_of_true (reserved_fail rooted h) trivial
  | requeue => exact iff_of_true (reserved_callById rooted (fun _ => rfl) h) trivial
  | updateM => exact reserved_updateM received rooted h
  | updateQ => exact iff_of_true (reserved_updateQ h) trivial
  | netStats =>
    refine iff_of_true ?_ trivial
    dsimp only
    rwa [state_netStats]

/-! ## Runs -/

/-- A server with empty queues that has reserved nothing. -/
def started (r : Registry) : Server := { r with queues := fun _ => Queue.new, lockedSize := 0 }

theorem rooted_run (r : Registry) (requests : List Exchange) :
    Transition.EveryState serve (fun s => ∀ q, (s.queues q).Rooted) (started r) requests := by
  have start : ∀ q, ((started r).queues q).Rooted := fun _ => Queue.Rooted.new
  exact Transition.invariant start (fun s request h => rooted_serve (s := s) request h) requests

/-- A request of client 1 to the queue `q`, all of whose responses are written. -/
noncomputable def sampleRequest (command : Request) (payload : Bytes)
    (fits : payload.length ≤ maxPayloadSize) : Exchange :=
  ((Env.sample 0, { DataBroker.sampleRequest with command, payload, payloadFits := fits }.dispatch),
    fun _ => true)

theorem received_sampleRequest (command : Request) (payload : Bytes)
    (fits : payload.length ≤ maxPayloadSize) :
    (sampleRequest command payload fits).1.2.Received :=
  ⟨usizeMax, _, [], ClientRequest.readFrame_encode
    { DataBroker.sampleRequest with command, payload, payloadFits := fits } []⟩

/-- In a run in which `set_locked_size` always returns `true`, `LOCKED_SIZE` covers every stored
message in every state if and only if every request keeps it so. -/
theorem reserved_iff_covers (r : Registry) (requests : List Exchange)
    (received : ∀ request ∈ requests, request.1.2.Received)
    (granted : Transition.EveryStep serve AllGranted (started r) requests) :
    Transition.EveryState serve Reserved (started r) requests ↔
      Transition.EveryStep serve Covers (started r) requests := by
  apply ((Transition.everyStep_of_forall received).and granted).everyState_iff (rooted_run r requests)
  · intro q id m stored
    cases stored
  · intro s request rooted ⟨received, granted⟩ h
    exact reserved_serve received rooted granted h

/-- A message of two bytes is cut to one byte. -/
noncomputable def updateRun : List Exchange :=
  [sampleRequest .enqueue [7, 8] (by decide),
    sampleRequest .updateM (List.replicate 15 0 ++ [1, 9]) (by decide)]

theorem reserved_updateRun :
    Transition.EveryState serve Reserved (started (Registry.startup [("q", 0)])) updateRun := by
  refine (reserved_iff_covers _ _ (by simp [updateRun, received_sampleRequest]) ?_).2 ?_
  · refine ⟨?_, ?_, trivial⟩
    · exact ⟨trivial, trivial, trivial, trivial, rfl, trivial⟩
    · exact ⟨trivial, trivial, trivial, trivial⟩
  · exact ⟨trivial, fun _ _ _ _ => by decide, trivial⟩

/-- Two messages of one byte are sent, and the first is read and acknowledged. -/
noncomputable def ackRun : List Exchange :=
  [sampleRequest .enqueue [7] (by decide), sampleRequest .enqueue [8] (by decide),
    sampleRequest .dequeue [] (by decide), sampleRequest .succeeded [] (by decide)]

theorem granted_ackRun :
    Transition.EveryStep serve AllGranted (started (Registry.startup [("q", 0)])) ackRun := by
  refine ⟨?_, ?_, ?_, ?_, trivial⟩
  · exact ⟨trivial, trivial, trivial, trivial, rfl, trivial⟩
  · exact ⟨trivial, trivial, trivial, trivial, trivial⟩
  · exact ⟨trivial, trivial, trivial, trivial, trivial⟩
  · exact granted_succeed (q := 0) rfl ((rooted_run _ ackRun).2.2.2.1 0) fun _ => rfl

/-- The message that is left is not covered any more. -/
theorem ack_uncovers_message :
    ¬ ∀ (r : Registry) (requests : List Exchange),
      (∀ request ∈ requests, request.1.2.Received) →
      Transition.EveryStep serve AllGranted (started r) requests →
      Transition.EveryState serve Reserved (started r) requests := by
  intro reserved
  have states := reserved (Registry.startup [("q", 0)]) ackRun
    (by simp [ackRun, received_sampleRequest]) granted_ackRun
  have covers := (reserved_serve (received_sampleRequest .succeeded [] (by decide))
    (rooted_run _ ackRun).2.2.2.1 granted_ackRun.2.2.2.1 states.2.2.2.1).1 states.2.2.2.2
  have left := covers 0 1 ⟨[7], 1, 0, some 1⟩ rfl rfl rfl (by decide) 0 2 ⟨[8], 1, 0, none⟩
    (by decide) rfl
  exact absurd left (by decide)

end Server

end DataBroker
