import DataBroker.Queue.Ownership
import DataBroker.Server.Linearization

/-!
# Where messages come from

A queue changes only by the calls of requests that came in, whatever the interleaving
(`Broker.queues_invariant`). So no message is made up: what is stored was sent by the client it is
attributed to, and is locked only by a client that asked for one (`Broker.messages_authentic`).
-/

namespace DataBroker

open Handler Program

/-- A call that a task makes for a request, be it behind a `Succeeded` or by the timer of a
`Dequeue`. -/
inductive CalledFor (K : Env × Dispatch → Prop) : Queue.Op → Prop where
  | asks {env : Env} {d : Dispatch} {op : Queue.Op} (sent : K (env, d)) (wants : d.op env = some op) :
      CalledFor K op
  | measures {env : Env} {d : Dispatch} (sent : K (env, d))
      (command : d.message.command = .succeeded) : CalledFor K (.getNextBiggestPayload env.messages)
  | expires {env : Env} {d : Dispatch} (sent : K (env, d)) (command : d.message.command = .dequeue)
      (id : U128) : CalledFor K (.unlock d.clientId (some id))

namespace Broker

open System (deedsOf actionsOf Kept Born)

variable {K : Env × Dispatch → Prop} {c : Broker} {l : List (ℕ × Deed Action Server Event)}
  {first now : ℕ → Service} {came t : ℕ}

/-- Every call of a queue is for a request. -/
theorem calledFor_of_perform (kept : Kept (serving K) c l first now came)
    (born : Born (serving K) c l first) (sound : c.Sound (terms fun _ => True) Server.act)
    {queueName : String} {q : ℕ} {op : Queue.Op} {next : Server → Handler}
    (program : c.tasks t = perform (.call queueName q op) next) : CalledFor K op := by
  have known : t < c.started := kept.lt_started (by simp [program])
  have same := Service.request_walk (kept.walks t known)
  have follows := kept.follows t known
  rw [program] at follows
  obtain ⟨b, acts, -⟩ := follows c.state (leads_of_perform sound program)
  have sent : ∀ {env : Env} {d : Dispatch}, (now t).request = some (env, d) → K (env, d) :=
    fun request => (origin_of_request kept born known (same.symm.trans request)).1
  generalize now t = phase at acts sent
  cases acts with
  | serves serves =>
    cases serves with
    | calls wants => exact .asks (sent rfl) wants
  | panics wants => exact .asks (sent rfl) wants
  | changes registers serves =>
    cases serves with
    | calls wants => rcases registers with command | command <;> simp [Dispatch.op, command] at wants
  | measures command => exact .measures (sent rfl) command
  | expires command => exact .expires (sent rfl) command _

/-- The call that an action makes on the queue `q`. -/
def callOn (q : ℕ) : Action → Option Queue.Op
  | .call _ q' op => if q' = q then some op else none
  | _ => none

/-- The calls on the queue `q`. -/
def callsOn (q : ℕ) (l : List (ℕ × Deed Action Server Event)) : List Queue.Op :=
  (actionsOf l).filterMap (callOn q)

theorem callsOn_append (q : ℕ) (l l' : List (ℕ × Deed Action Server Event)) :
    callsOn q (l ++ l') = callsOn q l ++ callsOn q l' := by
  rw [callsOn, System.actionsOf_append, List.filterMap_append]
  rfl

theorem actionsOf_deed (c : Broker) (t : ℕ) (answer : Bool) :
    actionsOf (System.Turn.deed c (.run t answer)) = [] ∨
      ∃ action next, c.tasks t = perform action next ∧
        actionsOf (System.Turn.deed c (.run t answer)) = [action] := by
  rw [System.Turn.deed, System.deed]
  cases c.tasks t with
  | perform action next => exact .inr ⟨action, next, rfl, rfl⟩
  | _ => exact .inl rfl

/-- `P` holds of each queue and the calls that were made on it, and none were made on a queue that
is not there yet. -/
structure Traced (P : List Queue.Op → Queue → Prop) (ops : ℕ → List Queue.Op) (s : Server) :
    Prop where
  holds : ∀ q, P (ops q) (s.queues q)
  unborn : ∀ q, s.created ≤ q → ops q = []

theorem created_le_act (action : Action) (s : Server) : s.created ≤ (Server.act action s).created := by
  cases action with
  | createQ queueName hash =>
    show s.created ≤ (s.toRegistry.createQ queueName hash).created
    unfold Registry.createQ
    split_ifs
    · exact le_rfl
    · exact Nat.le_succ _
  | deleteQ queueName =>
    show s.created ≤ (s.toRegistry.deleteQ queueName).created
    unfold Registry.deleteQ
    split <;> exact le_rfl
  | _ => exact le_rfl

theorem Traced.act {P : List Queue.Op → Queue → Prop} {ops : ℕ → List Queue.Op} {s : Server}
    {action : Action} (traced : Traced P ops s) (leads : Leads action s) (new : P [] Queue.new)
    (calls : ∀ q ops op x, callOn q action = some op → P ops x → P (ops ++ [op]) (x.step op))
    (configures : ∀ ops config x, P ops x → P ops ((Queue.updateConfig config).run x).2) :
    Traced P (fun q => ops q ++ (callOn q action).toList) (Server.act action s) := by
  have numbered : ∀ {queueName : String} {q : ℕ}, s.resolve queueName = some q → q < s.created := by
    intro queueName q resolved
    obtain ⟨hash, -, stored⟩ := Option.bind_eq_some_iff.1 resolved
    exact s.numbered hash q stored
  constructor
  · intro q
    cases action with
    | call queueName q' op =>
      show P _ (Function.update s.queues q' ((s.queues q').step op) q)
      by_cases here : q' = q
      · subst here
        have made : callOn q' (.call queueName q' op) = some op := if_pos rfl
        rw [Function.update_self, made]
        exact calls q' _ op _ made (traced.holds q')
      · have made : callOn q (.call queueName q' op) = none := if_neg here
        rw [Function.update_of_ne (Ne.symm here), made, Option.toList_none, List.append_nil]
        exact traced.holds q
    | updateConfig queueName q' config =>
      show P (ops q ++ []) (Function.update s.queues q' _ q)
      rw [List.append_nil]
      by_cases here : q = q'
      · rw [here, Function.update_self]
        exact configures _ config _ (traced.holds q')
      · rw [Function.update_of_ne here]
        exact traced.holds q
    | createQ queueName hash =>
      show P (ops q ++ []) ((if queueName ∈ s.queueNames then s.queues
        else Function.update s.queues s.created Queue.new) q)
      rw [List.append_nil]
      split_ifs
      · exact traced.holds q
      · by_cases here : q = s.created
        · rw [here, Function.update_self, traced.unborn _ le_rfl]
          exact new
        · rw [Function.update_of_ne here]
          exact traced.holds q
    | _ =>
      show P (ops q ++ []) _
      rw [List.append_nil]
      exact traced.holds q
  · intro q beyond
    have unborn := traced.unborn q ((created_le_act action s).trans beyond)
    rw [unborn, List.nil_append]
    cases action with
    | call queueName q' op =>
      have other : q' ≠ q := (Nat.lt_of_lt_of_le (numbered leads) beyond).ne
      rw [show callOn q (.call queueName q' op) = none from if_neg other]
      rfl
    | _ => rfl

/-- What holds of a new queue without calls, of a queue at the start, and is preserved by the calls
for the requests that came in and by a new configuration, holds at any time of every queue and the
calls on it that the log has. -/
theorem queues_invariant {P : List Queue.Op → Queue → Prop} {s : Server} {turns : List Turn}
    (start : ∀ q, P [] (s.queues q)) (new : P [] Queue.new)
    (calls : ∀ ops op x, CalledFor (Sent turns) op → P ops x → P (ops ++ [op]) (x.step op))
    (configures : ∀ ops config x, P ops x → P ops ((Queue.updateConfig config).run x).2) (q : ℕ) :
    P (callsOn q (log (System.init s) turns))
      ((Transition.run step (System.init s) turns).state.queues q) := by
  suffices every : ∀ (c : Broker) (l : List (ℕ × Deed Action Server Event))
      (first now : ℕ → Service) (came : ℕ) (turns' : List Turn),
      Kept (serving (Sent turns)) c l first now came → Born (serving (Sent turns)) c l first →
      c.Sound (terms fun _ => True) Server.act → (∀ turn ∈ turns', turn ∈ turns) →
      Traced P (fun q => callsOn q l) c.state →
      Traced P (fun q => callsOn q (l ++ log c turns')) (Transition.run step c turns').state by
    exact (every _ [] (fun _ => .reading []) (fun _ => .reading []) 0 turns (System.kept_init s _)
      (System.born_init s _) (System.sound_init s) (fun _ inside => inside)
      ⟨start, fun _ _ => rfl⟩).holds q
  intro c l first now came turns' kept born sound inside traced
  induction turns' generalizing c l first now came with
  | nil =>
    rw [show l ++ log c [] = l from List.append_nil l]
    exact traced
  | cons turn turns' ih =>
    have sound' : (c.step turn).Sound (terms fun _ => True) Server.act := sound_step sound trivial
    have later : ∀ turn ∈ turns', turn ∈ turns := fun turn mem =>
      inside turn (List.mem_cons_of_mem _ mem)
    rw [log_cons, ← List.append_assoc]
    cases turn with
    | buffer requests =>
      have mine : ∀ r ∈ requests, Sent turns r := fun r mem =>
        ⟨requests, inside _ List.mem_cons_self, mem⟩
      rw [show l ++ (Turn.buffer requests).toTurn.deed c = l from List.append_nil l]
      exact ih _ _ _ _ _ (kept.add (.inl ⟨requests, rfl⟩) (Handler.serving_readLoop requests mine))
        (kept.born_add born _ _) sound' later traced
    | run t answer =>
      obtain ⟨first', now', kept', born'⟩ := kept.run born (serving_lawful _) answer
        fun action next program => leads_of_perform sound program
      refine ih _ _ _ _ _ kept' born' sound' later ?_
      have state : (c.step (.run t answer)).state =
          System.perform Server.act (actionsOf (System.Turn.deed c (.run t answer))) c.state :=
        System.perform_deed c (.run t answer)
      have ops : (fun q => callsOn q (l ++ System.Turn.deed c (.run t answer))) = fun q =>
          callsOn q l ++ (actionsOf (System.Turn.deed c (.run t answer))).filterMap (callOn q) :=
        funext fun q => callsOn_append q _ _
      show Traced P (fun q => callsOn q (l ++ System.Turn.deed c (.run t answer))) _
      rw [state, ops]
      rcases actionsOf_deed c t answer with quiet | ⟨action, next, program, acts⟩
      · simp only [quiet, List.filterMap_nil, List.append_nil]
        exact traced
      · have one : ∀ q, [action].filterMap (callOn q) = (callOn q action).toList := by
          intro q
          cases call : callOn q action <;> simp [call]
        simp only [acts, one]
        refine traced.act (leads_of_perform sound program) new (fun q ops op x made => ?_) configures
        refine calls ops op x ?_
        unfold callOn at made
        split at made
        · split_ifs at made
          obtain rfl := Option.some.inj made
          exact calledFor_of_perform kept born sound program
        · cases made

end Broker

/-! ## No message is made up -/

/-- The message comes from requests that `K` knows: an `Enqueue` of its publisher, which brought its
payload unless an `UpdateM` did, and a `Dequeue` of the client that has it locked. -/
structure QueueMessage.Authentic (K : Env × Dispatch → Prop) (m : QueueMessage) : Prop where
  published : ∃ env d, K (env, d) ∧ d.message.command = .enqueue ∧ d.clientId = m.publisherId
  brought : ∃ env d, K (env, d) ∧
    (d.message.command = .enqueue ∧ d.clientId = m.publisherId ∧ d.message.payload = m.payload ∨
      d.message.command = .updateM ∧ d.message.payload.drop 16 = m.payload)
  locked : ∀ c, m.lockedBy = some c → ∃ env d, K (env, d) ∧ d.message.command = .dequeue ∧
    d.clientId = c

namespace QueueMessage.Authentic

variable {K : Env × Dispatch → Prop} {m : QueueMessage}

theorem free (authentic : m.Authentic K) (now : U64) :
    (QueueMessage.new m.payload m.publisherId now).Authentic K :=
  ⟨authentic.published, authentic.brought, fun _ locked => by cases locked⟩

theorem unlock (authentic : m.Authentic K) : m.unlock.Authentic K :=
  ⟨authentic.published, authentic.brought, fun _ locked => by cases locked⟩

theorem lock (authentic : m.Authentic K) {clientId : U128} (asked : ∃ env d, K (env, d) ∧
    d.message.command = .dequeue ∧ d.clientId = clientId) : (m.lock clientId).Authentic K :=
  ⟨authentic.published, authentic.brought, fun _ locked => Option.some.inj locked ▸ asked⟩

theorem update (authentic : m.Authentic K) {payload : Bytes} (sent : ∃ env d, K (env, d) ∧
    d.message.command = .updateM ∧ d.message.payload.drop 16 = payload) :
    QueueMessage.Authentic K { m with payload := payload } := by
  obtain ⟨env, d, known, command, same⟩ := sent
  exact ⟨authentic.published, ⟨env, d, known, .inr ⟨command, same⟩⟩, authentic.locked⟩

end QueueMessage.Authentic

/-- What the requests have stored, and who is told to have it. -/
structure Queue.Sourced (K : Env × Dispatch → Prop) (s : Queue) : Prop where
  rooted : s.Rooted
  listed : s.locks.Listed
  authentic : ∀ id m, s.queue.lookup id = some m → m.Authentic K

namespace Queue.Sourced

variable {K : Env × Dispatch → Prop} {s : Queue}

theorem new : Queue.new.Sourced K where
  rooted := .new
  listed := by
    rw [locks_new]
    intro c i held
    cases held
  authentic id m stored := by cases stored

/-- What a call for a request stores comes from that request. -/
theorem step (sourced : s.Sourced K) {op : Queue.Op} (called : CalledFor K op) :
    (s.step op).Sourced K := by
  refine ⟨sourced.rooted.step op, listed_step sourced.rooted sourced.listed op, ?_⟩
  have effect := step_effect sourced.rooted op
  have old := sourced.authentic
  generalize s.step op = t at effect
  intro k m stored
  cases effect with
  | idle => exact old k m stored
  | measured => exact old k m stored
  | enqueued payload publisherId now =>
    obtain ⟨env, d, known, command, rfl, rfl⟩ : ∃ env d, K (env, d) ∧
        d.message.command = .enqueue ∧ d.clientId = publisherId ∧ d.message.payload = payload := by
      cases called with
      | @asks env d _ known wants =>
        unfold Dispatch.op at wants
        split at wants <;> cases wants
        exact ⟨env, d, known, ‹_›, rfl, rfl⟩
    rw [lookup_enqueued] at stored
    split_ifs at stored
    · obtain rfl := Option.some.inj stored
      exact ⟨⟨env, d, known, command, rfl⟩, ⟨env, d, known, .inl ⟨command, rfl, rfl⟩⟩,
        fun _ locked => by cases locked⟩
    · exact old k m stored
  | delivered clientId id m' cursor stored' =>
    have asked : ∃ env d, K (env, d) ∧ d.message.command = .dequeue ∧ d.clientId = clientId := by
      cases called with
      | @asks env d _ known wants =>
        unfold Dispatch.op at wants
        split at wants <;> cases wants
        exact ⟨env, d, known, ‹_›, rfl⟩
    rw [lookup_delivered] at stored
    split_ifs at stored
    · obtain rfl := Option.some.inj stored
      exact (old id m' stored').lock asked
    · exact old k m stored
  | removed clientId id =>
    rw [lookup_removed] at stored
    split_ifs at stored
    exact old k m stored
  | acked clientId id ids =>
    rw [lookup_acked] at stored
    split_ifs at stored
    exact old k m stored
  | released clientId id =>
    rw [lookup_released] at stored
    split_ifs at stored
    · obtain ⟨m', stored', rfl⟩ := Option.map_eq_some_iff.1 stored
      exact (old k m' stored').unlock
    · exact old k m stored
  | requeued clientId id now m' stored' =>
    rw [lookup_requeued] at stored
    split_ifs at stored
    · obtain rfl := Option.some.inj stored
      exact (old id m' stored').free now
    · exact old k m stored
  | updated id m' payload stored' =>
    have sent : ∃ env d, K (env, d) ∧ d.message.command = .updateM ∧
        d.message.payload.drop 16 = payload := by
      cases called with
      | @asks env d _ known wants =>
        unfold Dispatch.op at wants
        split at wants <;> cases wants
        exact ⟨env, d, known, ‹_›, rfl⟩
    rw [lookup_updated] at stored
    split_ifs at stored
    · obtain rfl := Option.some.inj stored
      exact (old id m' stored').update sent
    · exact old k m stored

end Queue.Sourced

/-- Whatever the interleaving, a stored message was sent by the client it is attributed to, and is
locked only by a client that asked for a message and has it on its list. -/
theorem Broker.messages_authentic (r : Registry) (lockedSize : ℕ) (turns : List Turn) (q : ℕ)
    (id : U128) (m : QueueMessage) :
    let x := (Transition.run step
      (System.init ⟨r, fun _ => Queue.new, lockedSize⟩) turns).state.queues q
    x.queue.lookup id = some m →
      m.Authentic (Sent turns) ∧ ∀ c, m.lockedBy = some c → id ∈ x.lockedIds c := by
  intro x stored
  have sourced : x.Sourced (Sent turns) :=
    queues_invariant (P := fun _ => Queue.Sourced (Sent turns)) (fun _ => .new) .new
      (fun _ op s called sourced => sourced.step called)
      (fun _ config s sourced => ⟨⟨sourced.rooted.listed, sourced.rooted.nonzero⟩, sourced.listed,
        sourced.authentic⟩) q
  exact ⟨sourced.authentic id m stored, fun c locked =>
    sourced.listed c id (Queue.holder_eq_some.2 ⟨m, stored, locked⟩)⟩

/-- A message put into the queue `q` by client 1. -/
theorem Broker.messages_authentic_enqueue :
    let turns : List Turn := .buffer [(Env.sample 7, Dispatch.sample .enqueue [5])] ::
      .run 0 true :: List.replicate 7 (.run 1 true)
    (QueueMessage.new [5] 1 0).Authentic (Sent turns) := by
  intro turns
  exact (messages_authentic (Registry.startup [("q", 0)]) 0 turns 0 1 (QueueMessage.new [5] 1 0)
    rfl).1

end DataBroker
