import DataBroker.Lib.Contract
import DataBroker.Memory.Allocator
import DataBroker.Server.Payloads
import DataBroker.Server.Registry
import DataBroker.Server.Request

/-!
# The handlers

`read_buffer` spawns a task for each request that it finds in its buffer, except that `CreateQ` and
`DeleteQ` take effect in its own loop. A task is a program over the locks of the server: the two
maps of the registry and one mutex for each queue. The guards live as long as the source lets them:
one bound by `let` to the end of its block, one in the scrutinee of a `match` through the arms, a
temporary to the end of its statement.

The mutex of the connection's writer is taken last of all and held for one write only; it is part
of the wait `respond`. `RequestMessage::new` never fails, so that a handler always has its message.
-/

namespace DataBroker

/-- What the handlers share: the registry, the queues by number, and `LOCKED_SIZE`. -/
structure Server extends Registry where
  queues : ℕ → Queue
  lockedSize : ℕ

inductive LockName where
  | queueNames
  | queue
  | mutex (q : ℕ)
deriving DecidableEq, Repr

/-- What a handler waits for besides locks. A write is answered by whether it succeeded. -/
inductive Event where
  | respond (response : ResponseMessage)
  | sleep (millis : U64)
deriving DecidableEq, Repr

/-- What a handler reads from outside the server: the clock, a `Uuid::new_v4`, the counters of the
allocator, the iteration orders of its maps and the sizes of a queue with the capacities of its
containers. -/
structure Env where
  now : U64
  hash : Uuid
  arena : Arena
  memory : MemAllocator
  names : Iteration String Uuid
  messages : Iteration U128 QueueMessage
  deepSizeOf : Queue → ℕ
  deepSizeOfLocked : Queue → ℕ

/-- What a handler does at once. A call is made on the queue `q`, for a request that names
`queueName`. -/
inductive Action where
  | read
  | call (queueName : String) (q : ℕ) (op : Queue.Op)
  | updateConfig (queueName : String) (q : ℕ) (config : NetQueueConfig)
  | setLockedSize (env : Env) (size : ℕ)
  | createQ (queueName : String) (hash : Uuid)
  | deleteQ (queueName : String)

namespace Server

def setLockedSize (s : Server) (env : Env) (size : ℕ) : Server :=
  let memory := { env.memory with lockedSize := s.lockedSize }
  { s with lockedSize := (memory.setLockedSize env.arena size).2.lockedSize }

/-- What an action changes. -/
def act : Action → Server → Server
  | .read, s => s
  | .call _ q op, s => { s with queues := Function.update s.queues q ((s.queues q).step op) }
  | .updateConfig _ q config, s =>
    { s with
      queues := Function.update s.queues q ((Queue.updateConfig config).run (s.queues q)).2 }
  | .setLockedSize env size, s => s.setLockedSize env size
  | .createQ queueName hash, s =>
    { s with
      toRegistry := s.toRegistry.createQ queueName hash
      queues := if queueName ∈ s.queueNames then s.queues
        else Function.update s.queues s.created Queue.new }
  | .deleteQ queueName, s => { s with toRegistry := s.toRegistry.deleteQ queueName }

end Server

abbrev Handler := Program LockName Action Server Event

namespace Handler

open Program

/-- `Server::send_response`, whose result nobody looks at. -/
def sendResponse (response : ResponseMessage) (next : Handler) : Handler :=
  await (.respond response) fun _ => next

def succeeded : ResponseMessage := .new .succeeded []

/-- `Server::get_queue`, called with the guard of `queue`. -/
def getQueue (queueName : String) (found : ℕ → Handler) (failed : ErrorCode → Handler) : Handler :=
  acquire .queueNames .read <| perform .read fun s =>
    let hash := s.queueNames.lookup queueName
    release .queueNames <|
      match hash with
      | some hash => perform .read fun s =>
        match s.queue.lookup hash with
        | some q => found q
        | none => failed .queueNotFound
      | none => failed .queueHashNotFound

/-- The guard of `queue` bound by `let`, and what `get_queue` finds; an error is answered under the
guard. -/
def withQueue (queueName : String) (found : ℕ → Handler) : Handler :=
  acquire .queue .read <| getQueue queueName found fun code =>
    sendResponse (.error code) <| release .queue done

/-- `match queue.lock().await.call(..)`: both guards live through the arms, which answer. -/
def callQueue (queueName : String) (q : ℕ) (op : Queue.Op) (code : ErrorCode)
    (onOk : Handler → Handler) : Handler :=
  let unlocked := release (.mutex q) <| release .queue done
  acquire (.mutex q) .write <| perform (.call queueName q op) fun s =>
    match (op.call.run (s.queues q)).1 with
    | .ok _ => onOk <| sendResponse succeeded unlocked
    | .err _ => sendResponse (.error code) unlocked
    | .panic => unlocked

/-- `invalid_message_id!` with the guard of `queue`, unless the payload has room for an id. -/
def withMessageId (d : Dispatch) (next : U128 → Handler) : Handler :=
  if d.message.payloadSize.toNat < 16 then
    sendResponse (.error .payloadMissingMessageId) <| release .queue done
  else next (BigEndian.toBitVec 16 (d.message.payload.take 16))

/-- `LOCKED_SIZE` raised to what a payload may need. -/
def raiseLockedSize (env : Env) (size : ℕ) (next : Handler) : Handler :=
  perform .read fun s =>
    if size > s.lockedSize then perform (.setLockedSize env size) fun _ => next else next

def enqueue (env : Env) (d : Dispatch) : Handler :=
  withQueue d.queueName fun q =>
    callQueue d.queueName q (.enqueue d.message.payload d.clientId env.now) .queueIsEmpty
      (raiseLockedSize env (scaled d.message.payloadSize.toNat))

/-- How `lock_and_dequeue_message` reports an error of `lock_to_read`. -/
def lockToReadCode (error : IoError) : ErrorCode :=
  if error.message = "No such message id" then .noSuchMessageId
  else if error.message = "Queue message already locked" then .messageAlreadyLocked
  else .queueIsEmpty

/-- The end of `lock_and_dequeue_message`, after the sleep. -/
def autoUnlock (queueName : String) (clientId : U128) (messageId : Option U128) (q : ℕ) : Handler :=
  let unlocked := release (.mutex q) <| release .queue done
  acquire (.mutex q) .write <|
    match messageId with
    | some id => perform .read fun s =>
      match ((Queue.isLocked clientId id).run (s.queues q)).1 with
      | .ok true => perform (.call queueName q (.unlock clientId messageId)) fun _ => unlocked
      | _ => unlocked
    | none => unlocked

/-- `Server::lock_and_dequeue_message`: the guard of `queue` lives to its end. -/
def lockAndDequeueMessage (queueName : String) (clientId : U128) (failed : ErrorCode → Handler) :
    Handler :=
  acquire .queue .read <| getQueue queueName
    (fun q => acquire (.mutex q) .write <|
      perform (.call queueName q (.lockToRead clientId)) fun s => release (.mutex q) <|
        match ((Queue.lockToRead clientId).run (s.queues q)).1 with
        | .ok (message, messageId) =>
          await (.respond (.new .succeeded message)) fun written =>
            if written then
              acquire (.mutex q) .write <| perform .read fun s => release (.mutex q) <|
                let config := (s.queues q).config
                if config.autoFail ∧ config.failTimeout ≠ 0 then
                  await (.sleep config.failTimeout) fun _ =>
                    autoUnlock queueName clientId messageId q
                else release .queue done
            else release .queue <| failed .responseFailedError
        | .err error => release .queue <| failed (lockToReadCode error)
        | .panic => release .queue done)
    fun code => release .queue <| failed code

def dequeue (d : Dispatch) : Handler :=
  lockAndDequeueMessage d.queueName d.clientId fun code => sendResponse (.error code) done

/-- The end of `CreateQ` and `DeleteQ`: a task that answers, and the guards. -/
def respondLater (response : ResponseMessage) (next : Handler) : Handler :=
  spawn (sendResponse response done) <| release .queue <| release .queueNames next

/-- `CreateQ`, in the loop of `read_buffer`. -/
def createQ (env : Env) (d : Dispatch) (next : Handler) : Handler :=
  acquire .queueNames .write <| acquire .queue .write <|
    perform (.createQ d.queueName env.hash) fun s =>
      if d.queueName ∈ s.queueNames then respondLater (.error .queueAlreadyExists) next
      else respondLater succeeded next

/-- `DeleteQ`, in the loop of `read_buffer`. -/
def deleteQ (d : Dispatch) (next : Handler) : Handler :=
  acquire .queueNames .write <| acquire .queue .write <|
    perform (.deleteQ d.queueName) fun s =>
      if d.queueName ∈ s.queueNames then respondLater succeeded next
      else respondLater (.error .queueDoesNotExist) next

/-- `ListM` looks at clones of the maps and holds one lock at a time. -/
def listM (env : Env) (d : Dispatch) : Handler :=
  let missing := sendResponse (.error .queueHashNotFound) done
  acquire .queueNames .read <| perform .read fun s => release .queueNames <|
    match s.queueNames.lookup d.queueName with
    | some hash => acquire .queue .read <| perform .read fun s => release .queue <|
      match s.queue.lookup hash with
      | some q => acquire (.mutex q) .write <| perform .read fun s => release (.mutex q) <|
        match ((Queue.listMessages env.messages).run (s.queues q)).1 with
        | .ok list => sendResponse (.new .succeeded (list.flatMap MessageMeta.toBeBytes)) done
        | _ => sendResponse succeeded done
      | none => missing
    | none => missing

def deleteM (d : Dispatch) : Handler :=
  withQueue d.queueName fun q => withMessageId d fun messageId =>
    callQueue d.queueName q (.dequeue d.clientId (some messageId)) .noSuchMessageId id

/-- `Server::dequeue_message_sent`: both guards are given up at its end. -/
def dequeueMessageSent (env : Env) (queueName : String) (clientId : U128) (answer : Handler)
    (failed : Handler) : Handler :=
  acquire .queue .read <| getQueue queueName
    (fun q =>
      let unlocked next := release (.mutex q) <| release .queue next
      acquire (.mutex q) .write <| perform (.call queueName q (.dequeue clientId none)) fun s =>
        match ((Queue.dequeue clientId none).run (s.queues q)).1 with
        | .ok size => perform .read fun s =>
          if scaled size ≥ s.lockedSize then
            perform (.call queueName q (.getNextBiggestPayload env.messages)) fun s =>
              match ((Queue.getNextBiggestPayload env.messages).run (s.queues q)).1 with
              | .ok size => perform (.setLockedSize env size) fun _ => unlocked answer
              | .err _ => unlocked answer
              | .panic => unlocked done
          else unlocked answer
        | .err _ => unlocked failed
        | .panic => unlocked done)
    fun _ => release .queue failed

def succeed (env : Env) (d : Dispatch) : Handler :=
  dequeueMessageSent env d.queueName d.clientId (sendResponse succeeded done)
    (sendResponse (.error .noSuchMessageIdLocked) done)

def fail (d : Dispatch) : Handler :=
  withQueue d.queueName fun q =>
    callQueue d.queueName q (.unlock d.clientId none) .messageNotLockedByClient id

def requeue (env : Env) (d : Dispatch) : Handler :=
  withQueue d.queueName fun q => withMessageId d fun messageId =>
    callQueue d.queueName q (.requeue d.clientId messageId env.now) .messageNotInQueue id

/-- `UpdateM` looks at its payload before it takes a lock. -/
def updateM (d : Dispatch) : Handler :=
  if d.message.payloadSize.toNat < 16 then
    sendResponse (.error .payloadMissingMessageId) done
  else
    let messageId := BigEndian.toBitVec 16 (d.message.payload.take 16)
    withQueue d.queueName fun q =>
      callQueue d.queueName q (.updateMessage messageId (d.message.payload.drop 16))
        .messageNotInQueue id

def updateQ (d : Dispatch) : Handler :=
  withQueue d.queueName fun q =>
    if d.message.payloadSize.toNat < 1 then
      sendResponse (.error .invalidConfigPayloadSize) <| release .queue done
    else
      match NetQueueConfig.fromBeBytes d.message.payload with
      | .ok (config, _) => acquire (.mutex q) .write <|
        perform (.updateConfig d.queueName q config) fun _ =>
          sendResponse succeeded <| release (.mutex q) <| release .queue done
      | .error _ => sendResponse (.error .configBytesEmpty) <| release .queue done

/-- The loop of `NetStats` over the names that are left, with the entries made so far. -/
def collectStats (env : Env) (queue : HashMap Uuid ℕ) :
    List (Σ _ : String, Uuid) → StatWatcher → Handler
  | [], watcher => sendResponse (.new .succeeded watcher.toBytes) <|
    release .queue <| release .queueNames done
  | ⟨name, hash⟩ :: rest, watcher =>
    match queue.lookup hash with
    | some q => acquire (.mutex q) .write <| perform .read fun s => release (.mutex q) <|
      collectStats env queue rest (watcher ++ [⟨name, (s.queues q).queue.keys.card,
        env.deepSizeOf (s.queues q), (s.queues q).getTotalMessagesLocked,
        env.deepSizeOfLocked (s.queues q)⟩])
    | none => collectStats env queue rest watcher

/-- `NetStats` holds both maps to its end; the totals of a queue are never an error. -/
def netStats (env : Env) : Handler :=
  acquire .queueNames .read <| acquire .queue .read <| perform .read fun s =>
    collectStats env s.queue (env.names.entries s.queueNames) []

/-- One round of the loop of `read_buffer`, which goes on with `next`. -/
def dispatch (env : Env) (d : Dispatch) (next : Handler) : Handler :=
  match d.message.command with
  | .enqueue => spawn (enqueue env d) next
  | .dequeue => spawn (dequeue d) next
  | .createQ => createQ env d next
  | .deleteQ => deleteQ d next
  | .listM => spawn (listM env d) next
  | .deleteM => spawn (deleteM d) next
  | .succeeded => spawn (succeed env d) next
  | .failed => spawn (fail d) next
  | .requeue => spawn (requeue env d) next
  | .updateM => spawn (updateM d) next
  | .updateQ => spawn (updateQ d) next
  | .netStats => spawn (netStats env) next

/-- The loop of `read_buffer` over the requests in its buffer. -/
def readLoop : List (Env × Dispatch) → Handler
  | [] => done
  | (env, d) :: requests => dispatch env d (readLoop requests)

end Handler

/-! ## What a handler holds -/

/-- The maps held in the given ways, and at most one mutex. -/
def holding (queueNames queue : Option Access) (mutex : Option ℕ) : LockName → Option Access
  | .queueNames => queueNames
  | .queue => queue
  | .mutex q => if mutex = some q then some .write else none

section Holding

variable (queueNames queue access : Option Access) (mutex : Option ℕ) (q : ℕ)

theorem holding_none : (fun _ => none) = holding none none none := by
  funext lock
  cases lock <;> rfl

@[simp] theorem holding_queueNames : holding queueNames queue mutex .queueNames = queueNames := rfl

@[simp] theorem holding_queue : holding queueNames queue mutex .queue = queue := rfl

@[simp] theorem holding_mutex :
    holding queueNames queue mutex (.mutex q) = if mutex = some q then some .write else none := rfl

@[simp] theorem update_queueNames :
    Function.update (holding queueNames queue mutex) .queueNames access =
      holding access queue mutex := by
  funext lock
  cases lock <;> simp [Function.update]

@[simp] theorem update_queue :
    Function.update (holding queueNames queue mutex) .queue access =
      holding queueNames access mutex := by
  funext lock
  cases lock <;> simp [Function.update]

@[simp] theorem update_mutex :
    Function.update (holding queueNames queue none) (.mutex q) (some .write) =
      holding queueNames queue (some q) := by
  funext lock
  cases lock <;> simp [Function.update, eq_comm]

@[simp] theorem update_mutex_none :
    Function.update (holding queueNames queue (some q)) (.mutex q) none =
      holding queueNames queue none := by
  funext lock
  cases lock with
  | mutex q' =>
    by_cases same : q' = q
    · simp [Function.update, same]
    · simp [Function.update, same, Ne.symm same]
  | _ => simp [Function.update]

end Holding

/-! ## Rules that every contract has -/

namespace Handler

open Program

section Rules

variable {K : Contract LockName Action Server Event} {names queue : Option Access} {q : ℕ}
  {s : Server} {task next : Handler}

theorem meets_done : Meets K Server.act (holding none none none) s done := by
  rw [← holding_none]
  exact fun _ => rfl

theorem meets_release (hnext : Meets K Server.act (holding names none none) s next) :
    Meets K Server.act (holding names queue none) s (release .queue next) := by
  show Meets K Server.act _ s next
  rwa [update_queue]

theorem meets_releaseNames (hnext : Meets K Server.act (holding none queue none) s next) :
    Meets K Server.act (holding names queue none) s (release .queueNames next) := by
  show Meets K Server.act _ s next
  rwa [update_queueNames]

theorem meets_unlock (hnext : Meets K Server.act (holding names queue none) s next) :
    Meets K Server.act (holding names queue (some q)) s (release (.mutex q) next) := by
  show Meets K Server.act _ s next
  rwa [update_mutex_none]

theorem meets_mutex (permitted : K.permits (holding names queue none) (.mutex q) .write)
    (hnext : ∀ s', K.rely (holding names queue none) s s' →
      Meets K Server.act (holding names queue (some q)) s' next) :
    Meets K Server.act (holding names queue none) s (acquire (.mutex q) .write next) := by
  refine ⟨permitted, by simp, fun s' rely => ?_⟩
  rw [update_mutex]
  exact hnext s' rely

theorem meets_spawn (htask : ∀ s, Meets K Server.act (holding none none none) s task)
    (hnext : Meets K Server.act (holding none none none) s next) :
    Meets K Server.act (holding none none none) s (spawn task next) := by
  refine ⟨fun s => ?_, hnext⟩
  rw [holding_none]
  exact htask s

/-- The end of `CreateQ` and `DeleteQ`: the answer is a task of its own. -/
theorem meets_respondLater {response : ResponseMessage}
    (answer : ∀ s, Meets K Server.act (holding none none none) s (sendResponse response done))
    (hnext : Meets K Server.act (holding none none none) s next) :
    Meets K Server.act (holding (some .write) (some .write) none) s (respondLater response next) := by
  constructor
  · intro s
    rw [holding_none]
    exact answer s
  · exact meets_release (meets_releaseNames hnext)

/-- `CreateQ` and `DeleteQ` take both maps for writing. -/
theorem meets_change {action : Action} {after : Server → Handler}
    (names : K.permits (holding none none none) .queueNames .write)
    (queue : K.permits (holding (some .write) none none) .queue .write)
    (pre : ∀ s, K.pre (holding (some .write) (some .write) none) action s)
    (hafter : ∀ s s', Meets K Server.act (holding (some .write) (some .write) none) s (after s')) :
    Meets K Server.act (holding none none none) s
      (acquire .queueNames .write <| acquire .queue .write <| perform action after) := by
  refine ⟨names, rfl, fun _ _ => ?_⟩
  rw [update_queueNames]
  refine ⟨queue, rfl, fun _ _ _ _ _ => ?_⟩
  rw [update_queue]
  exact ⟨pre _, hafter _ _⟩

end Rules

end Handler

/-! ## Requests to start from -/

/-- What a handler may find outside the server, with a `Uuid` of its own. -/
noncomputable def Env.sample (hash : Uuid) : Env where
  now := 0
  hash := hash
  arena := smallestArena
  memory := (Heap.init fun _ => 0).toMemAllocator
  names := default
  messages := default
  deepSizeOf _ := 0
  deepSizeOfLocked _ := 0

/-- A request of client 1 to the queue `q`. -/
def Dispatch.sample (command : Request) (payload : Bytes) : Dispatch :=
  ⟨1, "q", command, BitVec.ofNat 64 payload.length, payload⟩

/-- A server without queues. -/
def Server.new : Server := ⟨Registry.empty, fun _ => Queue.new, 0⟩

/-- A server with the queue `q`. -/
def Server.sample : Server := { Server.new with toRegistry := Registry.startup [("q", 0)] }

/-- A server with the requests in flight. -/
abbrev Broker := System LockName Action Server Event

namespace Broker

/-- A connection has requests in its buffer, or a task goes on. Here any task may go on at any time;
`Workers` has the runtimes that let it. -/
inductive Turn where
  | buffer (requests : List (Env × Dispatch))
  | run (t : ℕ) (answer : Bool)

def Turn.toTurn : Turn → System.Turn LockName Action Server Event
  | .buffer requests => .start (Handler.readLoop requests)
  | .run t answer => .run t answer

def step (c : Broker) (turn : Turn) : Broker := System.step Server.act c turn.toTurn

end Broker

end DataBroker
