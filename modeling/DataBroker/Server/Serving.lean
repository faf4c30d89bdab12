import DataBroker.Lib.Session
import DataBroker.Queue.Calls
import DataBroker.Server.Handlers

/-!
# Serving a request

The mutex of a queue makes a request take effect at one instant. `Serves` says what a request does
to the server then, and what it is answered; `serving` is the automaton of a task that serves one
request so. Every handler keeps to it (`serving_readLoop`).
-/

namespace DataBroker

open Handler Program

namespace Dispatch

variable (env : Env) (d : Dispatch)

/-- The id at the front of a payload. -/
def messageId : U128 := BigEndian.toBitVec 16 (d.message.payload.take 16)

/-- The call that a request makes on the queue it names. -/
def op : Option Queue.Op :=
  match d.message.command with
  | .enqueue => some (.enqueue d.message.payload d.clientId env.now)
  | .dequeue => some (.lockToRead d.clientId)
  | .deleteM => some (.dequeue d.clientId (some d.messageId))
  | .succeeded => some (.dequeue d.clientId none)
  | .failed => some (.unlock d.clientId none)
  | .requeue => some (.requeue d.clientId d.messageId env.now)
  | .updateM => some (.updateMessage d.messageId (d.message.payload.drop 16))
  | _ => none

/-- How an error of the call is reported. -/
def errorCode : ErrorCode :=
  match d.message.command with
  | .enqueue => .queueIsEmpty
  | .deleteM => .noSuchMessageId
  | .succeeded => .noSuchMessageIdLocked
  | .failed => .messageNotLockedByClient
  | _ => .messageNotInQueue

/-- The answer to a request whose call finds the queue `s`, and the message it hands out; there is
none where the call panics. -/
def reply (op : Queue.Op) (s : Queue) : Option (ResponseMessage × Option U128) :=
  match d.message.command with
  | .dequeue =>
    match ((Queue.lockToRead d.clientId).run s).1 with
    | .ok (message, messageId) => some (.new .succeeded message, messageId)
    | .err error => some (.error (lockToReadCode error), none)
    | .panic => none
  | _ =>
    match (op.call.run s).1 with
    | .ok _ => some (succeeded, none)
    | .err _ => some (.error d.errorCode, none)
    | .panic => none

end Dispatch

/-- What a request does in the state `s`, and how it is answered for that. -/
inductive Serves (env : Env) (d : Dispatch) :
    Action → Server → ResponseMessage → Option U128 → Prop where
  | calls {s : Server} {q : ℕ} {op : Queue.Op} {response : ResponseMessage} {handed : Option U128}
      (wants : d.op env = some op) (leads : s.resolve d.queueName = some q)
      (replies : d.reply op (s.queues q) = some (response, handed)) :
      Serves env d (.call d.queueName q op) s response handed
  | configures {s : Server} {q n : ℕ} {config : NetQueueConfig} (command : d.message.command = .updateQ)
      (reads : NetQueueConfig.fromBeBytes d.message.payload = .ok (config, n))
      (leads : s.resolve d.queueName = some q) :
      Serves env d (.updateConfig d.queueName q config) s succeeded none
  | creates {s : Server} (command : d.message.command = .createQ) :
      Serves env d (.createQ d.queueName env.hash) s
        (if d.queueName ∈ s.queueNames then .error .queueAlreadyExists else succeeded) none
  | deletes {s : Server} (command : d.message.command = .deleteQ) :
      Serves env d (.deleteQ d.queueName) s
        (if d.queueName ∈ s.queueNames then succeeded else .error .queueDoesNotExist) none

/-- The lookup of `get_queue` fails: the first state that it reads has no hash for the name, or the
second no queue for the hash. -/
inductive Unfound (queueName : String) : List Server → ErrorCode → Prop where
  | hash {s : Server} (unnamed : s.queueNames.lookup queueName = none) :
      Unfound queueName [s] .queueHashNotFound
  | queue {s s' : Server} {hash : Uuid} (named : s.queueNames.lookup queueName = some hash)
      (missing : s'.queue.lookup hash = none) : Unfound queueName [s, s'] .queueNotFound

/-- The lookup of `get_queue` succeeds. -/
inductive Found (queueName : String) (q : ℕ) : List Server → Prop where
  | queue {s s' : Server} {hash : Uuid} (named : s.queueNames.lookup queueName = some hash)
      (stored : s'.queue.lookup hash = some q) : Found queueName q [s, s']

/-- What `NetStats` tells of the names that are left: each queue as it was when its turn came. -/
inductive Collects (env : Env) (queue : HashMap Uuid ℕ) :
    List (Σ _ : String, Uuid) → List Server → StatWatcher → Prop where
  | nil : Collects env queue [] [] []
  | some {name : String} {hash : Uuid} {rest : List (Σ _ : String, Uuid)} {q : ℕ} {s : Server}
      {reads : List Server} {watcher : StatWatcher} (stored : queue.lookup hash = some q)
      (others : Collects env queue rest reads watcher) :
      Collects env queue (⟨name, hash⟩ :: rest) (s :: reads)
        (⟨name, (s.queues q).queue.keys.card, env.deepSizeOf (s.queues q),
          (s.queues q).getTotalMessagesLocked, env.deepSizeOfLocked (s.queues q)⟩ :: watcher)
  | none {name : String} {hash : Uuid} {rest : List (Σ _ : String, Uuid)} {reads : List Server}
      {watcher : StatWatcher} (missing : queue.lookup hash = none)
      (others : Collects env queue rest reads watcher) :
      Collects env queue (⟨name, hash⟩ :: rest) reads watcher

/-- The command of a request whose failed lookup is told as it is. -/
def Request.tellsLookup : Request → Bool
  | .enqueue | .dequeue | .deleteM | .failed | .requeue | .updateM | .updateQ => true
  | _ => false

/-- How a request is answered that does nothing but read the states `reads`: the lookup of its queue
failed, its payload is wrong, or it asks for what it read. -/
inductive Refuses (env : Env) (d : Dispatch) : List Server → ResponseMessage → Prop where
  | unfound {reads : List Server} {code : ErrorCode} (tells : d.message.command.tellsLookup = true)
      (unfound : Unfound d.queueName reads code) : Refuses env d reads (.error code)
  | unacked {reads : List Server} {code : ErrorCode} (command : d.message.command = .succeeded)
      (unfound : Unfound d.queueName reads code) :
      Refuses env d reads (.error .noSuchMessageIdLocked)
  | unlisted {reads : List Server} {code : ErrorCode} (command : d.message.command = .listM)
      (unfound : Unfound d.queueName reads code) : Refuses env d reads (.error .queueHashNotFound)
  | short {reads : List Server} {q : ℕ}
      (command : d.message.command = .deleteM ∨ d.message.command = .requeue)
      (found : Found d.queueName q reads) (short : d.message.payloadSize.toNat < 16) :
      Refuses env d reads (.error .payloadMissingMessageId)
  | unread (command : d.message.command = .updateM) (short : d.message.payloadSize.toNat < 16) :
      Refuses env d [] (.error .payloadMissingMessageId)
  | empty {reads : List Server} {q : ℕ} (command : d.message.command = .updateQ)
      (found : Found d.queueName q reads) (empty : d.message.payloadSize.toNat < 1) :
      Refuses env d reads (.error .invalidConfigPayloadSize)
  | garbled {reads : List Server} {q : ℕ} {error : IoError}
      (command : d.message.command = .updateQ) (found : Found d.queueName q reads)
      (garbled : NetQueueConfig.fromBeBytes d.message.payload = .error error) :
      Refuses env d reads (.error .configBytesEmpty)
  | lists {reads : List Server} {q : ℕ} {s : Server} {list : List MessageMeta}
      (command : d.message.command = .listM) (found : Found d.queueName q reads)
      (listed : ((Queue.listMessages env.messages).run (s.queues q)).1 = .ok list) :
      Refuses env d (reads ++ [s]) (.new .succeeded (list.flatMap MessageMeta.toBeBytes))
  | counts {s : Server} {reads : List Server} {watcher : StatWatcher}
      (command : d.message.command = .netStats)
      (collects : Collects env s.queue (env.names.entries s.queueNames) reads watcher) :
      Refuses env d (s :: reads) (.new .succeeded watcher.toBytes)

/-- Where a task is with its request. The loop has `requests` left, and does the first of them
itself if that changes the registry. A task that did nothing for its request yet has read the
states `reads`. -/
inductive Service where
  | reading (requests : List (Env × Dispatch))
  | changed (env : Env) (d : Dispatch) (response : ResponseMessage)
      (requests : List (Env × Dispatch))
  | asked (env : Env) (d : Dispatch) (reads : List Server)
  | owing (env : Env) (d : Dispatch) (response : ResponseMessage) (handed : Option U128)
  | finished (env : Env) (d : Dispatch) (handed : Option U128)
  | broken (env : Env) (d : Dispatch)
  | dead (env : Env) (d : Dispatch)

namespace Service

/-- The request of a task that handles one. -/
def request : Service → Option (Env × Dispatch)
  | .reading _ => none
  | .changed _ _ _ _ => none
  | .asked env d _ => some (env, d)
  | .owing env d _ _ => some (env, d)
  | .finished env d _ => some (env, d)
  | .broken env d => some (env, d)
  | .dead env d => some (env, d)

/-- A task reads, serves its request once, and may look then for the next biggest payload. A message
it handed out it may unlock later. -/
inductive Acts : Service → Action → Server → Service → Prop where
  | reads {env : Env} {d : Dispatch} {reads : List Server} (s : Server) :
      Acts (.asked env d reads) .read s (.asked env d (reads ++ [s]))
  | looks {env : Env} {d : Dispatch} {response : ResponseMessage} {handed : Option U128}
      (s : Server) : Acts (.owing env d response handed) .read s (.owing env d response handed)
  | wakes {env : Env} {d : Dispatch} {handed : Option U128} (s : Server) :
      Acts (.finished env d handed) .read s (.finished env d handed)
  | serves {env : Env} {d : Dispatch} {reads : List Server} {action : Action} {s : Server}
      {response : ResponseMessage} {handed : Option U128}
      (serves : Serves env d action s response handed) :
      Acts (.asked env d reads) action s (.owing env d response handed)
  | panics {env : Env} {d : Dispatch} {reads : List Server} {s : Server} {q : ℕ} {op : Queue.Op}
      (wants : d.op env = some op) (leads : s.resolve d.queueName = some q)
      (panics : (op.call.run (s.queues q)).1 = .panic) :
      Acts (.asked env d reads) (.call d.queueName q op) s (.dead env d)
  | changes {env : Env} {d : Dispatch} {action : Action} {s : Server} {response : ResponseMessage}
      {requests : List (Env × Dispatch)}
      (registers : d.message.command = .createQ ∨ d.message.command = .deleteQ)
      (serves : Serves env d action s response none) :
      Acts (.reading ((env, d) :: requests)) action s (.changed env d response requests)
  | measures {env : Env} {d : Dispatch} {s : Server} {q : ℕ} {response : ResponseMessage}
      {handed : Option U128} (command : d.message.command = .succeeded)
      (leads : s.resolve d.queueName = some q) :
      Acts (.owing env d response handed) (.call d.queueName q (.getNextBiggestPayload env.messages))
        s (.owing env d response handed)
  | reserves {env : Env} {d : Dispatch} {s : Server} {response : ResponseMessage}
      {handed : Option U128} (size : ℕ) :
      Acts (.owing env d response handed) (.setLockedSize env size) s
        (.owing env d response handed)
  | expires {env : Env} {d : Dispatch} {s : Server} {q : ℕ} {id : U128}
      (command : d.message.command = .dequeue) (leads : s.resolve d.queueName = some q) :
      Acts (.finished env d (some id)) (.call d.queueName q (.unlock d.clientId (some id))) s
        (.finished env d none)

/-- A response tells what the task did, or what it read if it did nothing, or that a response was
not written. -/
inductive Hears : Service → Event → Bool → Service → Prop where
  | refuses {env : Env} {d : Dispatch} {reads : List Server} {response : ResponseMessage}
      (refuses : Refuses env d reads response) (written : Bool) :
      Hears (.asked env d reads) (.respond response) written (.finished env d none)
  | answers {env : Env} {d : Dispatch} {response : ResponseMessage} {handed : Option U128}
      (written : Bool) :
      Hears (.owing env d response handed) (.respond response) written
        (if written then .finished env d handed else .broken env d)
  | fails {env : Env} {d : Dispatch} (written : Bool) :
      Hears (.broken env d) (.respond (.error .responseFailedError)) written (.finished env d none)
  | sleeps {env : Env} {d : Dispatch} {handed : Option U128} (millis : U64) (answer : Bool) :
      Hears (.finished env d handed) (.sleep millis) answer (.finished env d handed)

/-- The loop starts a task for a request it knows, to serve it or to answer for what it did. -/
inductive Forks (K : Env × Dispatch → Prop) : Service → Service → Service → Prop where
  | serve {env : Env} {d : Dispatch} {requests : List (Env × Dispatch)} (known : K (env, d)) :
      Forks K (.reading ((env, d) :: requests)) (.asked env d []) (.reading requests)
  | answer {env : Env} {d : Dispatch} {response : ResponseMessage}
      {requests : List (Env × Dispatch)} (known : K (env, d)) :
      Forks K (.changed env d response requests) (.owing env d response none) (.reading requests)

end Service

/-- An action on a queue is done where the registry has the queue. -/
def Leads (action : Action) (s : Server) : Prop :=
  match action with
  | .call queueName q _ => s.resolve queueName = some q
  | .updateConfig queueName q _ => s.resolve queueName = some q
  | _ => True

/-- How requests that `K` knows are served. -/
def serving (K : Env × Dispatch → Prop) : Session Action Server Event Service where
  given := Leads
  acts := Service.Acts
  hears := Service.Hears
  forks := Service.Forks K
  enters b := ∃ requests, b = .reading requests
  ends
    | .reading requests => requests = []
    | .changed _ _ _ _ => False
    | .asked _ _ _ => False
    | .owing _ _ _ _ => False
    | _ => True
  worth _ _ := 0
  owed _ := 0

theorem serving_lawful (K : Env × Dispatch → Prop) : (serving K).Lawful where
  acts _ _ _ _ _ := rfl
  hears _ _ _ _ _ := rfl
  forks _ _ _ _ := rfl

namespace Handler

variable {K : Env × Dispatch → Prop} {env : Env} {d : Dispatch} {b : Service} {task next : Handler}
  {q : ℕ} {response : ResponseMessage} {handed : Option U128} {code : ErrorCode}
  {reads : List Server}

/-- A handler that keeps to the automaton from a phase on. -/
abbrev Serving (K : Env × Dispatch → Prop) (b : Service) (task : Handler) : Prop :=
  task.Follows (serving K) b

theorem serving_read {next : Server → Handler}
    (hnext : ∀ s, Serving K (.asked env d (reads ++ [s])) (next s)) :
    Serving K (.asked env d reads) (perform .read next) :=
  fun s _ => ⟨_, .reads s, hnext s⟩

theorem serving_look {next : Server → Handler}
    (hnext : ∀ s, Serving K (.owing env d response handed) (next s)) :
    Serving K (.owing env d response handed) (perform .read next) :=
  fun s _ => ⟨_, .looks s, hnext s⟩

theorem serving_wake {next : Server → Handler}
    (hnext : ∀ s, Serving K (.finished env d handed) (next s)) :
    Serving K (.finished env d handed) (perform .read next) :=
  fun s _ => ⟨_, .wakes s, hnext s⟩

/-- A refusal is the last that a task does. -/
theorem serving_refuse (refuses : Refuses env d reads response)
    (hnext : Serving K (.finished env d none) next) :
    Serving K (.asked env d reads) (sendResponse response next) :=
  fun written => ⟨_, .refuses refuses written, hnext⟩

/-- The answer to a request that was served. -/
theorem serving_respond {next : Bool → Handler}
    (finished : Serving K (.finished env d handed) (next true))
    (broken : Serving K (.broken env d) (next false)) :
    Serving K (.owing env d response handed) (await (.respond response) next) := by
  intro written
  refine ⟨_, .answers written, ?_⟩
  cases written
  · exact broken
  · exact finished

theorem serving_answer (finished : Serving K (.finished env d handed) next)
    (broken : Serving K (.broken env d) next) :
    Serving K (.owing env d response handed) (sendResponse response next) :=
  serving_respond finished broken

theorem serving_getQueue {found : ℕ → Handler} {failed : ErrorCode → Handler}
    (hfound : ∀ q reads, Found d.queueName q reads → Serving K (.asked env d reads) (found q))
    (hfailed : ∀ code reads, Unfound d.queueName reads code →
      Serving K (.asked env d reads) (failed code)) :
    Serving K (.asked env d []) (getQueue d.queueName found failed) := by
  refine serving_read fun s => ?_
  simp only [Follows]
  split
  · refine serving_read fun s' => ?_
    split
    · exact hfound _ _ (.queue ‹_› ‹_›)
    · exact hfailed _ _ (.queue ‹_› ‹_›)
  · exact hfailed _ _ (.hash ‹_›)

theorem serving_withQueue {found : ℕ → Handler} (tells : d.message.command.tellsLookup = true)
    (hfound : ∀ q reads, Found d.queueName q reads → Serving K (.asked env d reads) (found q)) :
    Serving K (.asked env d []) (withQueue d.queueName found) := by
  rw [withQueue, Serving, Follows]
  exact serving_getQueue hfound fun code reads unfound =>
    serving_refuse (.unfound tells unfound) trivial

theorem serving_callQueue {op : Queue.Op} {onOk : Handler → Handler} (wants : d.op env = some op)
    (other : d.message.command ≠ .dequeue) (reports : d.errorCode = code)
    (hok : ∀ next, Serving K (.owing env d succeeded none) next →
      Serving K (.owing env d succeeded none) (onOk next)) :
    Serving K (.asked env d reads) (callQueue d.queueName q op code onOk) := by
  have replies : ∀ s : Queue, d.reply op s = match (op.call.run s).1 with
      | .ok _ => some (succeeded, none)
      | .err _ => some (.error d.errorCode, none)
      | .panic => none := by
    intro s
    unfold Dispatch.reply
    split
    · exact absurd ‹_› other
    · rfl
  intro s leads
  have replies := replies (s.queues q)
  dsimp only
  cases outcome : (op.call.run (s.queues q)).1 with
  | ok _ =>
    rw [outcome] at replies
    exact ⟨_, .serves (.calls wants leads replies), hok _ (serving_answer trivial trivial)⟩
  | err _ =>
    rw [outcome] at replies
    rw [← reports]
    exact ⟨_, .serves (.calls wants leads replies), serving_answer trivial trivial⟩
  | panic => exact ⟨_, .panics wants leads outcome, trivial⟩

theorem serving_withMessageId {next : U128 → Handler}
    (command : d.message.command = .deleteM ∨ d.message.command = .requeue)
    (found : Found d.queueName q reads) (hnext : Serving K (.asked env d reads) (next d.messageId)) :
    Serving K (.asked env d reads) (withMessageId d next) := by
  unfold withMessageId
  split_ifs with short
  · exact serving_refuse (.short command found short) trivial
  · exact hnext

theorem serving_raiseLockedSize {size : ℕ} (hnext : Serving K (.owing env d response handed) next) :
    Serving K (.owing env d response handed) (raiseLockedSize env size next) := by
  refine serving_look fun s => ?_
  split_ifs
  · exact fun s _ => ⟨_, .reserves size, hnext⟩
  · exact hnext

theorem serving_autoUnlock (command : d.message.command = .dequeue) (q : ℕ) (handed : Option U128) :
    Serving K (.finished env d handed) (autoUnlock d.queueName d.clientId handed q) := by
  cases handed with
  | none => trivial
  | some id =>
    refine serving_wake fun s => ?_
    split
    · exact fun s leads => ⟨_, .expires command leads, trivial⟩
    · trivial

theorem serving_dequeue (command : d.message.command = .dequeue) :
    Serving K (.asked env d []) (dequeue d) := by
  have wants : d.op env = some (.lockToRead d.clientId) := by rw [Dispatch.op, command]
  rw [dequeue, lockAndDequeueMessage, Serving, Follows]
  refine serving_getQueue (fun q reads found => ?_) fun code reads unfound => ?_
  · intro s leads
    have replies : d.reply (.lockToRead d.clientId) (s.queues q) =
        match ((Queue.lockToRead d.clientId).run (s.queues q)).1 with
        | .ok (message, messageId) => some (.new .succeeded message, messageId)
        | .err error => some (.error (lockToReadCode error), none)
        | .panic => none := by
      rw [Dispatch.reply, command]
    simp only [Follows]
    cases outcome : ((Queue.lockToRead d.clientId).run (s.queues q)).1 with
    | ok handed =>
      obtain ⟨message, messageId⟩ := handed
      rw [outcome] at replies
      refine ⟨_, .serves (.calls wants leads replies), serving_respond ?_ ?_⟩
      · rw [if_pos rfl]
        refine serving_wake fun s => ?_
        simp only [Follows]
        split_ifs
        · exact fun answer => ⟨_, .sleeps _ answer, serving_autoUnlock command q messageId⟩
        · trivial
      · exact fun written => ⟨_, .fails written, trivial⟩
    | err error =>
      rw [outcome] at replies
      exact ⟨_, .serves (.calls wants leads replies), serving_answer trivial trivial⟩
    | panic => exact ⟨_, .panics wants leads (Method.run_bind_panic outcome), trivial⟩
  · exact serving_refuse (.unfound (by rw [command]; rfl) unfound) trivial

theorem serving_listM (command : d.message.command = .listM) :
    Serving K (.asked env d []) (listM env d) := by
  refine serving_read fun s => ?_
  simp only [Follows]
  split
  · refine serving_read fun s' => ?_
    simp only [Follows]
    split
    · rename_i q leads
      refine serving_read fun s'' => ?_
      have found : Found d.queueName q [s, s'] := .queue ‹_› leads
      exact serving_refuse (.lists command found rfl) trivial
    · exact serving_refuse (.unlisted command (.queue ‹_› ‹_›)) trivial
  · exact serving_refuse (.unlisted command (.hash ‹_›)) trivial

theorem serving_succeed (command : d.message.command = .succeeded) :
    Serving K (.asked env d []) (succeed env d) := by
  have wants : d.op env = some (.dequeue d.clientId none) := by rw [Dispatch.op, command]
  have answer : Serving K (.owing env d succeeded none) (sendResponse succeeded done) :=
    serving_answer trivial trivial
  rw [succeed, dequeueMessageSent, Serving, Follows]
  refine serving_getQueue (fun q reads found => ?_) fun code reads unfound => ?_
  · intro s leads
    have replies : d.reply (.dequeue d.clientId none) (s.queues q) =
        match ((Queue.Op.dequeue d.clientId none).call.run (s.queues q)).1 with
        | .ok _ => some (succeeded, none)
        | .err _ => some (.error .noSuchMessageIdLocked, none)
        | .panic => none := by
      rw [Dispatch.reply, Dispatch.errorCode, command]
    dsimp only
    cases outcome : ((Queue.dequeue d.clientId none).run (s.queues q)).1 with
    | ok size =>
      have settled : ((Queue.Op.dequeue d.clientId none).call.run (s.queues q)).1 = .ok () := by
        rw [Queue.Op.call, Method.run_bind_ok (Prod.ext outcome rfl)]
        rfl
      rw [settled] at replies
      refine ⟨_, .serves (.calls wants leads replies), serving_look fun s => ?_⟩
      split_ifs
      · intro s leads
        refine ⟨_, .measures command leads, ?_⟩
        obtain ⟨measured, run⟩ := Queue.run_getNextBiggestPayload env.messages (s.queues q)
        dsimp only
        rw [run]
        exact fun s _ => ⟨_, .reserves _, answer⟩
      · exact answer
    | err error =>
      have settled : ((Queue.Op.dequeue d.clientId none).call.run (s.queues q)).1 = .err error :=
        Method.run_bind_err outcome
      rw [settled] at replies
      exact ⟨_, .serves (.calls wants leads replies), serving_answer trivial trivial⟩
    | panic =>
      exact ⟨_, .panics wants leads (Method.run_bind_panic outcome), trivial⟩
  · exact serving_refuse (.unacked command unfound) trivial

theorem serving_updateQ (command : d.message.command = .updateQ) :
    Serving K (.asked env d []) (updateQ d) := by
  apply serving_withQueue (by rw [command]; rfl)
  intro q reads found
  split_ifs with empty
  · exact serving_refuse (.empty command found empty) trivial
  · split
    · rename_i config n reads
      exact fun s leads =>
        ⟨_, .serves (.configures command reads leads), serving_answer trivial trivial⟩
    · exact serving_refuse (.garbled command found ‹_›) trivial

/-- The loop of `NetStats` tells of each queue what it reads when its turn comes. -/
theorem serving_collectStats {queue : HashMap Uuid ℕ} (rest : List (Σ _ : String, Uuid))
    (watcher : StatWatcher) (tells : ∀ more others, Collects env queue rest more others →
      Refuses env d (reads ++ more) (.new .succeeded (watcher ++ others).toBytes)) :
    Serving K (.asked env d reads) (collectStats env queue rest watcher) := by
  induction rest generalizing reads watcher with
  | nil => exact serving_refuse (by simpa using tells [] [] .nil) trivial
  | cons entry rest ih =>
    unfold collectStats
    split
    · refine serving_read fun s => ih _ fun more others collects => ?_
      simpa using tells _ _ (.some ‹_› collects)
    · exact ih _ fun more others collects => tells _ _ (.none ‹_› collects)

theorem serving_netStats (command : d.message.command = .netStats) :
    Serving K (.asked env d []) (netStats env) :=
  serving_read fun _ => serving_collectStats _ [] fun _ _ collects => .counts command collects

/-- The loop of `read_buffer` serves the requests that change the registry, and starts a task for
each of the others. -/
theorem serving_readLoop (requests : List (Env × Dispatch)) (known : ∀ r ∈ requests, K r) :
    Serving K (.reading requests) (readLoop requests) := by
  induction requests with
  | nil => exact rfl
  | cons request requests ih =>
    obtain ⟨env, d⟩ := request
    have mine : K (env, d) := known _ List.mem_cons_self
    have rest := ih fun r inside => known r (List.mem_cons_of_mem _ inside)
    have spawned : ∀ {task : Handler}, Serving K (.asked env d []) task →
        Serving K (.reading ((env, d) :: requests)) (spawn task (readLoop requests)) :=
      fun serves => ⟨_, _, .serve mine, serves, rest⟩
    have later : ∀ {response : ResponseMessage}, Serving K (.changed env d response requests)
        (respondLater response (readLoop requests)) :=
      ⟨_, _, .answer mine, serving_answer trivial trivial, rest⟩
    unfold readLoop dispatch
    split
    · exact spawned (serving_withQueue (by simp [*, Request.tellsLookup]) fun _ _ _ =>
        serving_callQueue (by simp [Dispatch.op, *]) (by simp [*])
          (by simp [Dispatch.errorCode, *]) fun _ => serving_raiseLockedSize)
    · exact spawned (serving_dequeue ‹_›)
    · intro s _
      refine ⟨_, .changes (.inl ‹_›) (.creates ‹_›), ?_⟩
      dsimp only
      split_ifs <;> exact later
    · intro s _
      refine ⟨_, .changes (.inr ‹_›) (.deletes ‹_›), ?_⟩
      dsimp only
      split_ifs <;> exact later
    · exact spawned (serving_listM ‹_›)
    · exact spawned (serving_withQueue (by simp [*, Request.tellsLookup]) fun _ _ found =>
        serving_withMessageId (.inl ‹_›) found <| serving_callQueue (by simp [Dispatch.op, *])
          (by simp [*]) (by simp [Dispatch.errorCode, *]) fun _ h => h)
    · exact spawned (serving_succeed ‹_›)
    · exact spawned (serving_withQueue (by simp [*, Request.tellsLookup]) fun _ _ _ =>
        serving_callQueue (by simp [Dispatch.op, *]) (by simp [*])
          (by simp [Dispatch.errorCode, *]) fun _ h => h)
    · exact spawned (serving_withQueue (by simp [*, Request.tellsLookup]) fun _ _ found =>
        serving_withMessageId (.inr ‹_›) found <| serving_callQueue (by simp [Dispatch.op, *])
          (by simp [*]) (by simp [Dispatch.errorCode, *]) fun _ h => h)
    · apply spawned
      unfold updateM
      split_ifs with short
      · exact serving_refuse (.unread ‹_› short) trivial
      · exact serving_withQueue (by simp [*, Request.tellsLookup]) fun _ _ _ =>
          serving_callQueue (by simp [Dispatch.op, *]; rfl) (by simp [*])
            (by simp [Dispatch.errorCode, *]) fun _ h => h
    · exact spawned (serving_updateQ ‹_›)
    · exact spawned (serving_netStats ‹_›)

end Handler

end DataBroker
