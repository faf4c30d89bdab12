import DataBroker.Lib.Method
import DataBroker.Lib.BigEndian
import DataBroker.Lib.HashMap
import Mathlib.Data.BitVec

/-!
# The queue

`Queue` keeps its messages twice: `queue` maps an id to the message, and `order` lists the ids in
delivery order, a removed message leaving the tombstone `0` behind. A lock is recorded twice as
well, in the message's `lockedBy` and in the list `locked` keeps for the client. `nextId` is the
cursor, the id of the message that the next `lockToRead` hands out.

A `Queue` is only reached through its mutex, so the `RwLock` around a client's list is never
contended and the list stands here for itself. The clock is an argument of the calls that read it.
-/

namespace DataBroker

abbrev U64 := BitVec 64
abbrev U128 := BitVec 128
abbrev Bytes := List UInt8

instance (id : U128) (ids : List U128) : Decidable (id ∈ ids) := inferInstance

inductive ErrorKind where
  | invalidData
  | invalidInput
  | brokenPipe
  | other
deriving DecidableEq, Repr

/-- An `std::io::Error`: its kind and its message. -/
structure IoError where
  kind : ErrorKind
  message : String
deriving DecidableEq, Repr

def invalidData (message : String) : IoError := ⟨.invalidData, message⟩

def magicDrainVec : ℕ := 10

structure QueueMessage where
  payload : Bytes
  publisherId : U128
  timestamp : U64
  lockedBy : Option U128
deriving DecidableEq, Repr

structure MessageMeta where
  id : U128
  publisherId : U128
  timestamp : U64
  lockedBy : Option U128
deriving DecidableEq, Repr

structure QueueConfig where
  autoFail : Bool
  failTimeout : U64
deriving DecidableEq, Repr

structure Queue where
  order : List U128
  queue : HashMap U128 QueueMessage
  locked : HashMap U128 (List U128)
  nextId : Option U128
  config : QueueConfig
  biggestPayloads : Vector ℕ 5
deriving DecidableEq

/-- A call of one of the methods of `Queue`. -/
abbrev QueueM := Method Queue IoError

namespace QueueMessage

/-- `QueueMessage::new` at the clock reading `now`. -/
def new (payload : Bytes) (publisherId : U128) (now : U64) : QueueMessage :=
  ⟨payload, publisherId, now, none⟩

def isLocked (m : QueueMessage) : Bool := m.lockedBy.isSome

def lock (m : QueueMessage) (id : U128) : QueueMessage := { m with lockedBy := some id }

def unlock (m : QueueMessage) : QueueMessage := { m with lockedBy := none }

end QueueMessage

/-- `MessageMeta::to_be_bytes`; the owner `u128::MAX` stands for "not locked". -/
def MessageMeta.toBeBytes (m : MessageMeta) : Bytes :=
  BigEndian.ofBitVec 16 m.id ++ BigEndian.ofBitVec 16 m.publisherId ++
    BigEndian.ofBitVec 8 m.timestamp ++ BigEndian.ofBitVec 16 (m.lockedBy.getD (BitVec.allOnes 128))

def getMetaAsVec (messageId : U128) (m : QueueMessage) : Bytes :=
  (MessageMeta.mk messageId m.publisherId m.timestamp m.lockedBy).toBeBytes

namespace Queue

/-- `Queue::new`. -/
def new : Queue where
  order := []
  queue := ∅
  locked := ∅
  nextId := none
  config := ⟨false, 0⟩
  biggestPayloads := Vector.replicate 5 0

/-- The ids a client has locked, in locking order; no entry of `locked` reads as no ids. -/
def lockedIds (s : Queue) (clientId : U128) : List U128 := (s.locked.lookup clientId).getD []

/-- The id a message enqueued behind `order` gets: the successor of the last entry, never `0`. A
tombstone at the end counts as the entry `0`. -/
def newId (order : List U128) : U128 :=
  match order.getLast? with
  | none => 1
  | some last => if last + 1 = 0 then 1 else last + 1

/-- The entry behind the first occurrence of `id`. -/
def entryAfter (order : List U128) (id : U128) : Option U128 := order[order.idxOf id + 1]?

/-- The first entry that is not a tombstone. -/
def firstEntry (order : List U128) : Option U128 := order.find? (· ≠ 0)

/-- A cursor that landed on a tombstone goes back to the first entry of `order`. -/
def skipTombstone (order : List U128) (next : Option U128) : Option U128 :=
  if next = some 0 then firstEntry order else next

/-- `remove_zeroes` on the vector: drop the leading tombstones once there are enough of them. -/
def drain (order : List U128) : List U128 :=
  if order.length ≥ magicDrainVec then
    match order.findIdx? (· ≠ 0) with
    | some id => if id ≥ magicDrainVec - 1 then order.drop id else order
    | none => []
  else order

def removeZeroes : QueueM Unit := modify fun s => { s with order := drain s.order }

def enqueue (payload : Bytes) (publisherId : U128) (now : U64) : QueueM Unit := do
  let id := newId (← get).order
  if (← get).nextId.isNone then
    modify fun s => { s with nextId := some id }
  modify fun s => { s with
    order := s.order ++ [id]
    queue := s.queue.insert id (QueueMessage.new payload publisherId now) }

def lockToRead (clientId : U128) : QueueM (Bytes × Option U128) := do
  let self ← get
  if self.order.isEmpty ∨ self.nextId.isNone then
    Method.fail (invalidData "Queue is empty")
  else do
    let id ← Method.unwrap self.nextId
    if id ∉ self.queue then
      Method.fail (invalidData "No such message id")
    else do
      let message ← Method.unwrap (self.queue.lookup id)
      if message.isLocked then
        Method.fail (invalidData "Queue message already locked")
      else do
        let message := message.lock clientId
        modify fun s => { s with
          queue := s.queue.insert id message
          locked := s.locked.insert clientId (s.lockedIds clientId ++ [id]) }
        let payload := getMetaAsVec id message ++ message.payload
        modify fun s => { s with nextId := skipTombstone s.order (entryAfter s.order id) }
        if (← get).nextId = none then
          removeZeroes
        return (payload, self.nextId)

/-- `dequeue` with an id that is a key of `queue`: any client may remove any message. -/
def dequeueById (clientId messageId : U128) : QueueM ℕ := do
  match (← get).order.idxOf? messageId with
  | some id =>
    if (← get).nextId = some messageId then
      modify fun s => { s with nextId := s.order[id + 1]? }
    modify fun s => { s with order := s.order.set id 0 }
    modify fun s => { s with nextId := skipTombstone s.order s.nextId }
  | none => pure ()
  let message := (← get).queue.lookup messageId
  modify fun s => { s with queue := s.queue.erase messageId }
  -- only the caller's list is searched, whoever holds the lock
  if messageId ∈ (← get).lockedIds clientId then
    match ((← get).lockedIds clientId).idxOf? messageId with
    | some id =>
      modify fun s => { s with
        locked := s.locked.insert clientId ((s.lockedIds clientId).eraseIdx id) }
      removeZeroes
    | none => Method.fail (invalidData "No such message id")
  return (← Method.unwrap message).payload.length

/-- `dequeue` without an id: remove the message the client locked first. -/
def dequeueLocked (clientId : U128) : QueueM ℕ := do
  match (← get).locked.lookup clientId with
  | some ids =>
    match ids.head? with
    | some id =>
      let message := (← get).queue.lookup id
      modify fun s => { s with
        queue := s.queue.erase id
        locked := s.locked.insert clientId (ids.eraseIdx 0) }
      match (← get).order.idxOf? id with
      | some i => modify fun s => { s with order := s.order.set i 0 }
      | none => pure ()
      removeZeroes
      return (← Method.unwrap message).payload.length
    | none => Method.fail (invalidData "No such message id locked")
  | none => Method.fail (invalidData "Queue message is not locked by client {client_id}")

def dequeue (clientId : U128) (messageId : Option U128) : QueueM ℕ := do
  if (← get).order.isEmpty then
    Method.fail (invalidData "Queue is empty")
  else
    match messageId with
    | some id => if id ∈ (← get).queue then dequeueById clientId id else dequeueLocked clientId
    | none => dequeueLocked clientId

def isLocked (clientId messageId : U128) : QueueM Bool := do
  match (← get).locked.lookup clientId with
  | some ids => return decide (messageId ∈ ids)
  | none => return false

/-- The part of `unlock` that releases the lock on `id`, an entry of the client's list `ids`. -/
def unlockFound (clientId : U128) (ids : List U128) (id : U128) : QueueM Unit := do
  let i ← Method.unwrap (ids.idxOf? id)
  modify fun s => { s with locked := s.locked.insert clientId (ids.eraseIdx i) }
  match (← get).queue.lookup id with
  | some message => modify fun s => { s with queue := s.queue.insert id message.unlock }
  | none => pure ()
  match (← get).nextId with
  | some next => if id < next then modify fun s => { s with nextId := some id }
  | none => modify fun s => { s with nextId := some id }

def unlock (clientId : U128) (messageId : Option U128) : QueueM Unit := do
  if (← get).order.isEmpty then
    Method.fail (invalidData "Queue is empty")
  else
    match (← get).locked.lookup clientId with
    | none => Method.fail (invalidData "Queue message is not locked by client {client_id}")
    | some ids =>
      match messageId with
      | some id =>
        if id ∈ ids then unlockFound clientId ids id
        else Method.fail (invalidData "Queue message is not locked by client {client_id}")
      | none =>
        match ids.head? with
        | some id => unlockFound clientId ids id
        | none => pure ()

def requeue (clientId messageId : U128) (now : U64) : QueueM Unit := do
  if (← get).order.isEmpty then
    Method.fail (invalidData "Queue is empty")
  else
    match (← get).queue.lookup messageId with
    | some message => do
      enqueue message.payload message.publisherId now
      let _ ← dequeue clientId (some messageId)
    | none => Method.fail (invalidData "Message is not in queue")

def updateMessage (messageId : U128) (payload : Bytes) : QueueM Unit := do
  if (← get).order.isEmpty then
    Method.fail (invalidData "Queue is empty")
  else
    match (← get).queue.lookup messageId with
    | some message =>
      modify fun s => { s with queue := s.queue.insert messageId { message with payload := payload } }
    | none => Method.fail (invalidData "Message is not in queue")

def listMessages (iter : Iteration U128 QueueMessage) : QueueM (List MessageMeta) := do
  return (iter.entries (← get).queue).map fun e =>
    ⟨e.1, e.2.publisherId, e.2.timestamp, e.2.lockedBy⟩

def setBiggest (i value : ℕ) : QueueM Unit := do
  let _ ← Method.unwrap (← get).biggestPayloads[i]?
  modify fun s => { s with biggestPayloads := s.biggestPayloads.setIfInBounds i value }

/-- The inner loop of `find_biggest_payloads`: entries `0 .. decrId - 1` take their successors. -/
def shiftBiggest (decrId : ℕ) : QueueM Unit :=
  (List.range decrId).forM fun id => do
    let next ← Method.unwrap (← get).biggestPayloads[id + 1]?
    setBiggest id next

/-- The loop over `decr_id` for one message, entered with `decr_id + 1`. -/
def placePayload (len : ℕ) : ℕ → QueueM Unit
  | 0 => pure ()
  | decrId + 1 => do
    let biggest ← Method.unwrap (← get).biggestPayloads[decrId]?
    if len > biggest then do
      shiftBiggest decrId
      setBiggest decrId len
    else placePayload len decrId

def findBiggestPayloads (iter : Iteration U128 QueueMessage) : QueueM Unit := do
  (iter.entries (← get).queue).forM fun e => placePayload e.2.payload.length 5

def getNextBiggestPayload (iter : Iteration U128 QueueMessage) : QueueM ℕ := do
  let result ← Method.unwrap (← get).biggestPayloads[4]?
  findBiggestPayloads iter
  return result

/-- `get_total_messages_locked`, which `NetStats` reports. -/
def getTotalMessagesLocked (s : Queue) : ℕ := (s.locked.entries.map fun e => e.2.length).sum

/-! ## Runs of calls -/

/-- A call of one of the methods of a `Queue` with all its arguments. The setters of the configuration
are left out: the other methods neither read nor change it (`step_configure`). -/
inductive Op where
  | enqueue (payload : Bytes) (publisherId : U128) (now : U64)
  | lockToRead (clientId : U128)
  | dequeue (clientId : U128) (messageId : Option U128)
  | unlock (clientId : U128) (messageId : Option U128)
  | requeue (clientId messageId : U128) (now : U64)
  | updateMessage (messageId : U128) (payload : Bytes)
  | isLocked (clientId messageId : U128)
  | listMessages (iter : Iteration U128 QueueMessage)
  | getNextBiggestPayload (iter : Iteration U128 QueueMessage)

/-- Run the call; what it returns is dropped, its outcome kept. -/
def Op.call : Op → QueueM Unit
  | .enqueue payload publisherId now => Queue.enqueue payload publisherId now
  | .lockToRead clientId => do let _ ← Queue.lockToRead clientId
  | .dequeue clientId messageId => do let _ ← Queue.dequeue clientId messageId
  | .unlock clientId messageId => Queue.unlock clientId messageId
  | .requeue clientId messageId now => Queue.requeue clientId messageId now
  | .updateMessage messageId payload => Queue.updateMessage messageId payload
  | .isLocked clientId messageId => do let _ ← Queue.isLocked clientId messageId
  | .listMessages iter => do let _ ← Queue.listMessages iter
  | .getNextBiggestPayload iter => do let _ ← Queue.getNextBiggestPayload iter

/-- The queue after a call, whatever the outcome: a panic ends the calling task and leaves the
queue, whose mutex is not poisoned, as it was at the panic. -/
def step (s : Queue) (op : Op) : Queue := (op.call.run s).2

end Queue

end DataBroker
