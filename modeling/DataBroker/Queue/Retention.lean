import DataBroker.Queue.Calls

/-!
# What takes a message away

A stored message stays where it is, with its publisher and its timestamp, until a client that has it
first on its list acknowledges it, somebody deletes or requeues it by its id, or its id is given to
another message. Its payload changes only by an `update_message`.
-/

namespace DataBroker

namespace Queue

/-- The call takes away what is stored under `id`. -/
def Takes (s : Queue) (id : U128) : Op → Prop
  | .enqueue .. => newId s.order = id
  | .dequeue clientId messageId => messageId = some id ∨ (s.lockedIds clientId).head? = some id
  | .requeue _ messageId _ => messageId = id ∨ newId s.order = id
  | _ => False

/-- The call neither brings a message nor asks to take one away. -/
def Op.keeps : Op → Bool
  | enqueue .. => false
  | dequeue .. => false
  | requeue .. => false
  | _ => true

/-- `m'` is `m` after some of the calls, unlike it in its lock, and in its payload where one of the
calls brought another one. -/
structure Stays (id : U128) (ops : List Op) (m m' : QueueMessage) : Prop where
  publisherId : m'.publisherId = m.publisherId
  timestamp : m'.timestamp = m.timestamp
  payload : m'.payload = m.payload ∨ .updateMessage id m'.payload ∈ ops

variable {s : Queue} {id : U128} {m m' : QueueMessage} {ops : List Op} {op : Op}

theorem Stays.refl (id : U128) (ops : List Op) (m : QueueMessage) : Stays id ops m m :=
  ⟨rfl, rfl, .inl rfl⟩

theorem Stays.trans {ops' : List Op} {m'' : QueueMessage} (first : Stays id ops m m')
    (later : Stays id ops' m' m'') : Stays id (ops ++ ops') m m'' where
  publisherId := later.publisherId.trans first.publisherId
  timestamp := later.timestamp.trans first.timestamp
  payload := by
    rcases later.payload with same | brought
    · rw [same]
      exact first.payload.imp_right (List.mem_append_left _)
    · exact .inr (List.mem_append_right _ brought)

end Queue

end DataBroker
