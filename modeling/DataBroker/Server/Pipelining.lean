import DataBroker.Lib.Alone
import DataBroker.Server.Discipline

/-!
# Pipelining

A client may send a request before the one in front of it is answered. `read_buffer` then finds both
in its buffer: it carries out every `CreateQ` and `DeleteQ` of the buffer while it goes over it, and
the tasks of the other requests run when it waits for the socket again, in the order in which they
were spawned. A request can so be overtaken by a `CreateQ` or `DeleteQ` behind it.

With no other client, no pending timer and a socket that takes every response at once, each task runs
to its end before the next one starts.
-/

namespace DataBroker

open Handler Program

/-- `get_queue` on the registry. -/
def Registry.getQueue (r : Registry) (queueName : String) : Except ErrorCode ℕ :=
  match r.queueNames.lookup queueName with
  | some hash =>
    match r.queue.lookup hash with
    | some q => .ok q
    | none => .error .queueNotFound
  | none => .error .queueHashNotFound

/-- What a request does to the registry in the loop of `read_buffer`. -/
def Registry.register (r : Registry) (request : Env × Dispatch) : Registry :=
  match request.2.message.command with
  | .createQ => r.createQ request.2.queueName request.1.hash
  | .deleteQ => r.deleteQ request.2.queueName
  | _ => r

/-- The request meets the same queue in both registries, if it is not a change itself. An `UpdateM`
without room for an id does not look for its queue. -/
def Dispatch.Unmoved (d : Dispatch) (r r' : Registry) : Prop :=
  match d.message.command with
  | .createQ | .deleteQ => True
  | .netStats => r'.queueNames = r.queueNames ∧ r'.queue = r.queue
  | .updateM =>
    16 ≤ d.message.payloadSize.toNat → r'.getQueue d.queueName = r.getQueue d.queueName
  | _ => r'.getQueue d.queueName = r.getQueue d.queueName

/-- Every request finds at its turn the queue that it finds behind all `CreateQ` and `DeleteQ` of the
buffer. -/
def Settled : List (Env × Dispatch) → Registry → Prop
  | [], _ => True
  | request :: rest, r =>
    request.2.Unmoved (r.register request) (rest.foldl Registry.register (r.register request)) ∧
      Settled rest (r.register request)

namespace Server

/-- What a request does to the server in the loop of `read_buffer`. -/
def register (s : Server) (request : Env × Dispatch) : Server :=
  match request.2.message.command with
  | .createQ => act (.createQ request.2.queueName request.1.hash) s
  | .deleteQ => act (.deleteQ request.2.queueName) s
  | _ => s

/-- The requests are all in the buffer: the loop of `read_buffer`, then the tasks it spawned. The
events are the responses in the order in which they are written. -/
def pipelined (requests : List (Env × Dispatch)) (s : Server) : Server × List Event :=
  let loop := (readLoop requests).alone act s
  let rest := aloneAll act loop.spawned loop.state
  (rest.1, loop.events ++ rest.2)

/-- Every request is sent when the one before it has been answered. -/
def sequential : List (Env × Dispatch) → Server → Server × List Event
  | [], s => (s, [])
  | request :: rest, s =>
    let one := pipelined [request] s
    let more := sequential rest one.1
    (more.1, one.2 ++ more.2)

end Server

theorem Dispatch.unmoved_self (d : Dispatch) (r : Registry) : d.Unmoved r r := by
  unfold Dispatch.Unmoved
  split
  · trivial
  · trivial
  · exact ⟨rfl, rfl⟩
  · exact fun _ => rfl
  · rfl

/-! ## Tasks that know their queues -/

namespace Handler

/-- The servers look the same to a task that knows the queues `S`. -/
def Agree (S : Set ℕ) (s s' : Server) : Prop :=
  (∀ q ∈ S, s.queues q = s'.queues q) ∧ s.lockedSize = s'.lockedSize

/-- The action touches the queues `S` at most. -/
def Within (S : Set ℕ) : Action → Prop
  | .read => True
  | .call _ q _ => q ∈ S
  | .updateConfig _ q _ => q ∈ S
  | .setLockedSize _ _ => True
  | .createQ _ _ => False
  | .deleteQ _ => False

/-- The task sees and touches the queues `S` at most, and starts no other. -/
def Local (S : Set ℕ) : Handler → Prop
  | .done => True
  | .acquire _ _ next => Local S next
  | .release _ next => Local S next
  | .perform action next =>
    Within S action ∧ (∀ s s', Agree S s s' → next s = next s') ∧ ∀ s, Local S (next s)
  | .await _ next => ∀ answer, Local S (next answer)
  | .spawn _ _ => False

variable {S : Set ℕ} {s : Server} {rest : List (Env × Dispatch)}

theorem toRegistry_register (s : Server) (request : Env × Dispatch) :
    (s.register request).toRegistry = s.toRegistry.register request := by
  unfold Server.register Registry.register
  cases request.2.message.command <;> rfl

theorem toRegistry_foldl (rest : List (Env × Dispatch)) (s : Server) :
    (rest.foldl Server.register s).toRegistry = rest.foldl Registry.register s.toRegistry := by
  induction rest generalizing s with
  | nil => rfl
  | cons request rest ih =>
    rw [List.foldl_cons, List.foldl_cons, ih, toRegistry_register]

theorem created_le_register (s : Server) (request : Env × Dispatch) :
    s.created ≤ (s.register request).created := by
  unfold Server.register
  split
  · show s.created ≤ (s.toRegistry.createQ _ _).created
    unfold Registry.createQ
    split_ifs
    · exact le_rfl
    · exact Nat.le_succ _
  · show s.created ≤ (s.toRegistry.deleteQ _).created
    unfold Registry.deleteQ
    split <;> exact le_rfl
  · exact le_rfl

/-- A new queue is none of those that there are. -/
theorem agree_register (old : ∀ q ∈ S, q < s.created) (request : Env × Dispatch) :
    Agree S (s.register request) s := by
  unfold Server.register
  split
  · refine ⟨fun q inside => ?_, rfl⟩
    simp only [Server.act]
    split_ifs
    · rfl
    · exact Function.update_of_ne (Nat.ne_of_lt (old q inside)) _ _
  · exact ⟨fun _ _ => rfl, rfl⟩
  · exact ⟨fun _ _ => rfl, rfl⟩

/-- An action on the queues there are, and a change of the registry, in either order. -/
theorem act_register {action : Action} (within : Within S action) (old : ∀ q ∈ S, q < s.created)
    (request : Env × Dispatch) :
    Server.act action (s.register request) = (Server.act action s).register request := by
  have overtakes : ∀ q ∈ S, ∀ f : Queue → Queue,
      (let queues := if request.2.queueName ∈ s.queueNames then s.queues
        else Function.update s.queues s.created Queue.new
      Function.update queues q (f (queues q))) =
        if request.2.queueName ∈ s.queueNames then Function.update s.queues q (f (s.queues q))
        else Function.update (Function.update s.queues q (f (s.queues q))) s.created Queue.new := by
    intro q inside f
    have ne := Nat.ne_of_lt (old q inside)
    dsimp only
    split_ifs
    · rfl
    · rw [Function.update_of_ne ne, Function.update_comm ne]
  unfold Server.register
  cases command : request.2.message.command with
  | createQ =>
    cases action with
    | createQ => exact within.elim
    | deleteQ => exact within.elim
    | read => rfl
    | setLockedSize env size => rfl
    | call queueName q op => exact congrArg (Server.mk _ · _) (overtakes q within (·.step op))
    | updateConfig queueName q config =>
      exact congrArg (Server.mk _ · _)
        (overtakes q within fun queue => ((Queue.updateConfig config).run queue).2)
  | deleteQ =>
    cases action with
    | createQ => exact within.elim
    | deleteQ => exact within.elim
    | _ => rfl
  | _ => rfl

theorem agree_foldl (old : ∀ q ∈ S, q < s.created) (rest : List (Env × Dispatch)) :
    Agree S (rest.foldl Server.register s) s := by
  induction rest generalizing s with
  | nil => exact ⟨fun _ _ => rfl, rfl⟩
  | cons request rest ih =>
    have first := agree_register old request
    have later := ih fun q inside => (old q inside).trans_le (created_le_register s request)
    exact ⟨fun q inside => (later.1 q inside).trans (first.1 q inside), later.2.trans first.2⟩

theorem act_foldl {action : Action} (within : Within S action) (old : ∀ q ∈ S, q < s.created)
    (rest : List (Env × Dispatch)) :
    Server.act action (rest.foldl Server.register s) =
      rest.foldl Server.register (Server.act action s) := by
  induction rest generalizing s with
  | nil => rfl
  | cons request rest ih =>
    rw [List.foldl_cons, List.foldl_cons, ← act_register within old]
    exact ih fun q inside => (old q inside).trans_le (created_le_register s request)

/-- An action of a task that knows its queues leaves the registry as it is. -/
theorem toRegistry_act {action : Action} (within : Within S action) (s : Server) :
    (Server.act action s).toRegistry = s.toRegistry := by
  cases action with
  | createQ => exact within.elim
  | deleteQ => exact within.elim
  | _ => rfl

/-- A task that knows its queues does the same where the changes of the registry come first, and
leaves the registry as it is. -/
theorem Local.alone {p : Handler} (localTo : Local S p) (old : ∀ q ∈ S, q < s.created)
    (rest : List (Env × Dispatch)) :
    p.alone Server.act (rest.foldl Server.register s) =
        { p.alone Server.act s with
          state := rest.foldl Server.register (p.alone Server.act s).state } ∧
      (p.alone Server.act s).state.toRegistry = s.toRegistry ∧
      (p.alone Server.act s).spawned = [] := by
  induction p generalizing s with
  | done => exact ⟨rfl, rfl, rfl⟩
  | acquire _ _ next ih => exact ih localTo old
  | release _ next ih => exact ih localTo old
  | perform action next ih =>
    obtain ⟨within, sees, localTo⟩ := localTo
    have registry := toRegistry_act within s
    have old' : ∀ q ∈ S, q < (Server.act action s).created := by rwa [registry]
    obtain ⟨same, kept, spawned⟩ := ih s (localTo s) old'
    refine ⟨?_, kept.trans registry, spawned⟩
    rw [Program.alone, sees _ _ (agree_foldl old rest), act_foldl within old]
    exact same
  | await event next ih =>
    obtain ⟨same, kept, spawned⟩ := ih true (localTo true) old
    exact ⟨by rw [Program.alone, Program.alone, same], kept, spawned⟩
  | spawn => exact localTo.elim

/-! ## What the tasks look up -/

/-- In every registry that looks the same to it, the task is one that knows its queues. -/
def Served (same : Registry → Registry → Prop) (p : Handler) : Prop :=
  ∀ s : Server, ∃ (S : Set ℕ) (body : Handler), Local S body ∧ (∀ q ∈ S, q < s.created) ∧
    ∀ s' : Server, same s.toRegistry s'.toRegistry →
      p.alone Server.act s' = body.alone Server.act s'

theorem served_sendResponse {same : Registry → Registry → Prop} (response : ResponseMessage) :
    Served same (sendResponse response done) := fun _ =>
  ⟨∅, sendResponse response done, fun _ => trivial, fun _ inside => inside.elim, fun _ _ => rfl⟩

theorem Served.mono {same same' : Registry → Registry → Prop} {p : Handler}
    (weaker : ∀ r r', same' r r' → same r r') (served : Served same p) : Served same' p := by
  intro s
  obtain ⟨S, body, localTo, old, alone⟩ := served s
  exact ⟨S, body, localTo, old, fun s' looks => alone s' (weaker _ _ looks)⟩

theorem Served.acquire {same : Registry → Registry → Prop} {lock : LockName} {access : Access}
    {next : Handler} (served : Served same next) : Served same (acquire lock access next) := served

theorem answered_getQueue (queueName : String) (found : ℕ → Handler) (failed : ErrorCode → Handler)
    (answers : ℕ → Bool) (s : Server) :
    (getQueue queueName found failed).answered Server.act answers s =
      match s.getQueue queueName with
      | .ok q => (found q).answered Server.act answers s
      | .error code => (failed code).answered Server.act answers s := by
  unfold getQueue Registry.getQueue
  simp only [Program.answered, Server.act]
  cases s.queueNames.lookup queueName with
  | none => rfl
  | some hash =>
    simp only [Program.answered, Server.act]
    cases s.queue.lookup hash <;> rfl

theorem alone_getQueue (queueName : String) (found : ℕ → Handler) (failed : ErrorCode → Handler)
    (s : Server) :
    (getQueue queueName found failed).alone Server.act s =
      match s.getQueue queueName with
      | .ok q => (found q).alone Server.act s
      | .error code => (failed code).alone Server.act s := by
  simp only [← answered_true, answered_getQueue]

theorem lt_created_of_getQueue {r : Registry} {queueName : String} {q : ℕ}
    (found : r.getQueue queueName = .ok q) : q < r.created := by
  unfold Registry.getQueue at found
  split at found
  · split at found
    next stored =>
      obtain rfl := Except.ok.inj found
      exact r.numbered _ _ stored
    · cases found
  · cases found

/-- Where `get_queue` finds the same, the task goes on with the same queue. -/
theorem served_getQueue {queueName : String} {found : ℕ → Handler} {failed : ErrorCode → Handler}
    (hfound : ∀ q, Local {q} (found q)) (hfailed : ∀ code, Local ∅ (failed code)) :
    Served (fun r r' => r'.getQueue queueName = r.getQueue queueName)
      (getQueue queueName found failed) := by
  intro s
  cases looked : s.getQueue queueName with
  | ok q =>
    refine ⟨{q}, found q, hfound q, ?_, fun s' same => ?_⟩
    · rintro _ rfl
      exact lt_created_of_getQueue looked
    · rw [alone_getQueue, same, looked]
  | error code =>
    refine ⟨∅, failed code, hfailed code, fun _ inside => inside.elim, fun s' same => ?_⟩
    rw [alone_getQueue, same, looked]

/-- A task that takes the guard of `queue` and calls `get_queue`. -/
theorem served_withQueue {queueName : String} {found : ℕ → Handler}
    (hfound : ∀ q, Local {q} (found q)) :
    Served (fun r r' => r'.getQueue queueName = r.getQueue queueName)
      (withQueue queueName found) :=
  Served.acquire (served_getQueue hfound fun _ _ => trivial)

theorem local_raiseLockedSize {env : Env} {size : ℕ} {next : Handler} (hnext : Local S next) :
    Local S (raiseLockedSize env size next) := by
  refine ⟨trivial, fun s s' agree => ?_, fun s => ?_⟩
  · dsimp only
    rw [agree.2]
  · dsimp only
    split_ifs
    · exact ⟨trivial, fun _ _ _ => rfl, fun _ => hnext⟩
    · exact hnext

theorem local_callQueue {queueName : String} {q : ℕ} {op : Queue.Op} {code : ErrorCode}
    {onOk : Handler → Handler} (hok : ∀ next, Local {q} next → Local {q} (onOk next)) :
    Local {q} (callQueue queueName q op code onOk) := by
  refine ⟨rfl, fun s s' agree => ?_, fun s => ?_⟩
  · dsimp only
    rw [agree.1 q rfl]
  · dsimp only
    split
    · exact hok _ fun _ => trivial
    · exact fun _ => trivial
    · trivial

theorem local_withMessageId {d : Dispatch} {next : U128 → Handler} (hnext : ∀ id, Local S (next id)) :
    Local S (withMessageId d next) := by
  unfold withMessageId
  split_ifs
  · exact fun _ => trivial
  · exact hnext _

theorem local_autoUnlock {queueName : String} {clientId : U128} {messageId : Option U128} {q : ℕ} :
    Local {q} (autoUnlock queueName clientId messageId q) := by
  unfold autoUnlock
  cases messageId with
  | none => trivial
  | some id =>
    refine ⟨trivial, fun s s' agree => ?_, fun s => ?_⟩
    · dsimp only
      rw [agree.1 q rfl]
    · dsimp only
      split
      · exact ⟨rfl, fun _ _ _ => rfl, fun _ => trivial⟩
      · trivial

theorem served_dequeue (d : Dispatch) :
    Served (fun r r' => r'.getQueue d.queueName = r.getQueue d.queueName) (dequeue d) := by
  refine Served.acquire (served_getQueue (fun q => ?_) fun _ _ => trivial)
  refine ⟨rfl, fun s s' agree => ?_, fun s => ?_⟩
  · dsimp only
    rw [agree.1 q rfl]
  · dsimp only
    split
    · intro written
      dsimp only
      split_ifs
      · refine ⟨trivial, fun s s' agree => ?_, fun s => ?_⟩
        · dsimp only
          rw [agree.1 q rfl]
        · dsimp only
          split_ifs
          · exact fun _ => local_autoUnlock
          · trivial
      · exact fun _ => trivial
    · exact fun _ => trivial
    · trivial

theorem served_succeed (env : Env) (d : Dispatch) :
    Served (fun r r' => r'.getQueue d.queueName = r.getQueue d.queueName) (succeed env d) := by
  refine Served.acquire (served_getQueue (fun q => ?_) fun _ _ => trivial)
  refine ⟨rfl, fun s s' agree => ?_, fun s => ?_⟩
  · dsimp only
    rw [agree.1 q rfl]
  · dsimp only
    split
    · refine ⟨trivial, fun s s' agree => ?_, fun s => ?_⟩
      · dsimp only
        rw [agree.2]
      · dsimp only
        split_ifs
        · refine ⟨rfl, fun s s' agree => ?_, fun s => ?_⟩
          · dsimp only
            rw [agree.1 q rfl]
          · dsimp only
            split
            · exact ⟨trivial, fun _ _ _ => rfl, fun _ _ => trivial⟩
            · exact fun _ => trivial
            · trivial
        · exact fun _ => trivial
    · exact fun _ => trivial
    · trivial

theorem served_updateQ (d : Dispatch) :
    Served (fun r r' => r'.getQueue d.queueName = r.getQueue d.queueName) (updateQ d) := by
  apply served_withQueue
  intro q
  split_ifs
  · exact fun _ => trivial
  · split
    · exact ⟨rfl, fun _ _ _ => rfl, fun _ _ => trivial⟩
    · exact fun _ => trivial

/-- What `ListM` does with the queue that it finds. -/
def listQueue (env : Env) (q : ℕ) : Handler :=
  acquire (.mutex q) .write <| perform .read fun s => release (.mutex q) <|
    match ((Queue.listMessages env.messages).run (s.queues q)).1 with
    | .ok list => sendResponse (.new .succeeded (list.flatMap MessageMeta.toBeBytes)) done
    | _ => sendResponse succeeded done

/-- `ListM` makes the lookup of `get_queue` by itself, and answers both errors alike. -/
theorem answered_listM (env : Env) (d : Dispatch) (answers : ℕ → Bool) (s : Server) :
    (listM env d).answered Server.act answers s =
      match s.getQueue d.queueName with
      | .ok q => (listQueue env q).answered Server.act answers s
      | .error _ => (sendResponse (.error .queueHashNotFound) done).answered Server.act answers s := by
  unfold listM Registry.getQueue
  simp only [Program.answered, Server.act]
  cases s.queueNames.lookup d.queueName with
  | none => rfl
  | some hash =>
    simp only [Program.answered, Server.act]
    cases s.queue.lookup hash <;> rfl

theorem alone_listM (env : Env) (d : Dispatch) (s : Server) :
    (listM env d).alone Server.act s =
      match s.getQueue d.queueName with
      | .ok q => (listQueue env q).alone Server.act s
      | .error _ => (sendResponse (.error .queueHashNotFound) done).alone Server.act s := by
  simp only [← answered_true, answered_listM]

theorem served_listM (env : Env) (d : Dispatch) :
    Served (fun r r' => r'.getQueue d.queueName = r.getQueue d.queueName) (listM env d) := by
  intro s
  cases looked : s.getQueue d.queueName with
  | ok q =>
    refine ⟨{q}, listQueue env q, ?_, ?_, fun s' same => by rw [alone_listM, same, looked]⟩
    · refine ⟨trivial, fun s s' agree => ?_, fun s => ?_⟩
      · dsimp only
        rw [agree.1 q rfl]
      · dsimp only [Local]
        split <;> exact fun _ => trivial
    · rintro _ rfl
      exact lt_created_of_getQueue looked
  | error code =>
    exact ⟨∅, sendResponse (.error .queueHashNotFound) done, fun _ => trivial,
      fun _ inside => inside.elim, fun s' same => by rw [alone_listM, same, looked]⟩

theorem local_collectStats (env : Env) {map : HashMap Uuid ℕ}
    (known : ∀ hash q, map.lookup hash = some q → q ∈ S) (rest : List (Σ _ : String, Uuid))
    (watcher : StatWatcher) : Local S (collectStats env map rest watcher) := by
  induction rest generalizing watcher with
  | nil => exact fun _ => trivial
  | cons entry rest ih =>
    unfold collectStats
    split
    next q stored =>
      refine ⟨trivial, fun s s' agree => ?_, fun s => ih _⟩
      dsimp only
      rw [agree.1 q (known _ _ stored)]
    · exact ih _

theorem served_netStats (env : Env) :
    Served (fun r r' => r'.queueNames = r.queueNames ∧ r'.queue = r.queue) (netStats env) := by
  intro s
  refine ⟨{q | ∃ hash, s.queue.lookup hash = some q},
    collectStats env s.queue (env.names.entries s.queueNames) [],
    local_collectStats env ?_ _ _, ?_, fun s' same => ?_⟩
  · exact fun hash q stored => ⟨hash, stored⟩
  · rintro q ⟨hash, stored⟩
    exact s.numbered hash q stored
  · show (collectStats env s'.queue (env.names.entries s'.queueNames) []).alone Server.act s' = _
    rw [same.1, same.2]

/-! ## The two orders -/

/-- The task that a request is left to, with the registry that the loop finds. -/
def task (r : Registry) (request : Env × Dispatch) : Handler :=
  let env := request.1
  let d := request.2
  match d.message.command with
  | .enqueue => enqueue env d
  | .dequeue => dequeue d
  | .createQ =>
    sendResponse (if d.queueName ∈ r.queueNames then .error .queueAlreadyExists else succeeded) done
  | .deleteQ =>
    sendResponse (if d.queueName ∈ r.queueNames then succeeded else .error .queueDoesNotExist) done
  | .listM => listM env d
  | .deleteM => deleteM d
  | .succeeded => succeed env d
  | .failed => fail d
  | .requeue => requeue env d
  | .updateM => updateM d
  | .updateQ => updateQ d
  | .netStats => netStats env

/-- The tasks that the loop spawns. -/
def tasks : Registry → List (Env × Dispatch) → List Handler
  | _, [] => []
  | r, request :: rest => task r request :: tasks (r.register request) rest

theorem alone_dispatch (request : Env × Dispatch) (next : Handler) (s : Server) :
    (dispatch request.1 request.2 next).alone Server.act s =
      { next.alone Server.act (s.register request) with
        spawned := task s.toRegistry request ::
          (next.alone Server.act (s.register request)).spawned } := by
  obtain ⟨env, d⟩ := request
  unfold dispatch task Server.register
  dsimp only
  cases d.message.command with
  | createQ =>
    simp only [createQ, Program.alone]
    split_ifs <;> rfl
  | deleteQ =>
    simp only [deleteQ, Program.alone]
    split_ifs <;> rfl
  | _ => rfl

/-- The loop makes the changes of the registry and answers nothing. -/
theorem alone_readLoop (requests : List (Env × Dispatch)) (s : Server) :
    (readLoop requests).alone Server.act s =
      ⟨requests.foldl Server.register s, [], tasks s.toRegistry requests⟩ := by
  induction requests generalizing s with
  | nil => rfl
  | cons request requests ih =>
    rw [tasks, ← toRegistry_register]
    exact (alone_dispatch request (readLoop requests) s).trans (by rw [ih]; rfl)

theorem served_task (r : Registry) (request : Env × Dispatch) :
    Served request.2.Unmoved (task r request) := by
  obtain ⟨env, d⟩ := request
  unfold task Dispatch.Unmoved
  dsimp only
  cases d.message.command with
  | enqueue => exact served_withQueue fun q => local_callQueue fun _ => local_raiseLockedSize
  | dequeue => exact served_dequeue d
  | createQ => exact served_sendResponse _
  | deleteQ => exact served_sendResponse _
  | listM => exact served_listM env d
  | deleteM =>
    exact served_withQueue fun q => local_withMessageId fun _ => local_callQueue fun _ => id
  | succeeded => exact served_succeed env d
  | failed => exact served_withQueue fun q => local_callQueue fun _ => id
  | requeue =>
    exact served_withQueue fun q => local_withMessageId fun _ => local_callQueue fun _ => id
  | updateM =>
    dsimp only [updateM]
    split_ifs with short
    · exact served_sendResponse _
    · exact (served_withQueue fun q => local_callQueue fun _ => id).mono
        fun r r' looks => looks (Nat.le_of_not_lt short)
  | updateQ => exact served_updateQ d
  | netStats => exact served_netStats env

theorem tasks_alone_spawned (r : Registry) (requests : List (Env × Dispatch)) (s : Server) :
    ∀ p ∈ tasks r requests, (p.alone Server.act s).spawned = [] := by
  induction requests generalizing r with
  | nil => simp [tasks]
  | cons request requests ih =>
    intro p inside
    rcases List.mem_cons.1 inside with rfl | later
    · obtain ⟨S, body, localTo, old, same⟩ := served_task r request s
      rw [same s (request.2.unmoved_self _)]
      exact (localTo.alone old []).2.2
    · exact ih _ p later

theorem pipelined_eq (requests : List (Env × Dispatch)) (s : Server) :
    Server.pipelined requests s =
      aloneAll Server.act (tasks s.toRegistry requests) (requests.foldl Server.register s) := by
  rw [Server.pipelined, alone_readLoop]
  rfl

/-- The tasks of a settled buffer do behind all its changes what they do behind their own. -/
theorem aloneAll_tasks (requests : List (Env × Dispatch)) (s : Server)
    (settled : Settled requests s.toRegistry) :
    aloneAll Server.act (tasks s.toRegistry requests) (requests.foldl Server.register s) =
      Server.sequential requests s := by
  induction requests generalizing s with
  | nil => rfl
  | cons request rest ih =>
    obtain ⟨unmoved, settled⟩ := settled
    rw [← toRegistry_register] at unmoved settled
    obtain ⟨S, body, localTo, old, same⟩ := served_task s.toRegistry request (s.register request)
    obtain ⟨late, kept, -⟩ := localTo.alone old rest
    have own := same _ (request.2.unmoved_self _)
    have overtaken := same (rest.foldl Server.register (s.register request))
      (by rwa [toRegistry_foldl])
    have one : Server.pipelined [request] s =
        ((body.alone Server.act (s.register request)).state,
          (body.alone Server.act (s.register request)).events) := by
      rw [pipelined_eq, ← own]
      simp [tasks, aloneAll]
    have more := ih (body.alone Server.act (s.register request)).state (by rwa [kept])
    rw [kept] at more
    rw [tasks, aloneAll, List.foldl_cons, overtaken, late, ← toRegistry_register, more,
      Server.sequential, one]

end Handler

/-- The loop and its tasks by themselves are a run of the server. -/
theorem Broker.pipelined_run (requests : List (Env × Dispatch)) (s : Server) :
    ∃ us : List ℕ, Transition.run Broker.step (System.init s)
        (.buffer requests :: us.map fun u => .run u true) =
      System.only (Server.pipelined requests s).1 (fun _ => none) 0
        (.done :: (tasks s.toRegistry requests).map fun _ => .done) := by
  have lawful := terms_lawful fun _ => True
  have meets := @disciplined_readLoop (fun _ => True) requests s
  rw [← holding_none] at meets
  have start : Broker.step (System.init s) (.buffer requests) =
      System.only s (fun _ => none) 0 [readLoop requests] := by
    refine congrArg (System.mk _ _ · _) (funext fun u => ?_)
    cases u with
    | zero => exact Function.update_self ..
    | succ u => exact Function.update_of_ne (Nat.succ_ne_zero u) ..
  have inside : 0 < [(done : Handler)].length := Nat.zero_lt_one
  obtain ⟨n, loop⟩ := System.run_alone lawful (fun _ _ => trivial) inside meets
  rw [alone_readLoop] at loop
  obtain ⟨us, rest⟩ := System.run_aloneAll lawful (fun _ _ => trivial) [.done]
    (requests.foldl Server.register s)
    (fun p inside => System.meets_spawned lawful (fun _ _ => trivial) meets p
      (by rwa [alone_readLoop]))
    (fun p inside s' => tasks_alone_spawned s.toRegistry requests s' p inside)
  refine ⟨List.replicate n 0 ++ us, ?_⟩
  have turns (us : List ℕ) (c : Broker) :
      Transition.run Broker.step c (us.map fun u => .run u true) =
        Transition.run (System.step Server.act) c (us.map fun u => .run u true) := by
    rw [Transition.run, Transition.run, List.foldl_map, List.foldl_map]
    rfl
  rw [Transition.run_cons, start, turns, List.map_append, List.map_replicate,
    Transition.run_append, pipelined_eq]
  exact (congrArg (Transition.run (System.step Server.act) · _) loop).trans rest

namespace Server

/-- Where every request finds at its turn the queue that it finds behind all changes of the buffer,
pipelining gives the same server and the same responses as sending the requests one at a time. -/
theorem pipelined_of_settled (requests : List (Env × Dispatch)) (s : Server)
    (settled : Settled requests s.toRegistry) : pipelined requests s = sequential requests s := by
  rw [pipelined_eq, aloneAll_tasks requests s settled]

/-- A queue is created, filled and read in one buffer. -/
theorem pipelined_create_first :
    pipelined [(Env.sample 1, .sample .createQ []), (Env.sample 2, .sample .enqueue [7]),
        (Env.sample 3, .sample .dequeue [])] new =
      sequential [(Env.sample 1, .sample .createQ []), (Env.sample 2, .sample .enqueue [7]),
        (Env.sample 3, .sample .dequeue [])] new :=
  pipelined_of_settled _ _ ⟨trivial, rfl, rfl, trivial⟩

/-- A message sent in front of the `CreateQ` of its queue is refused, unless both are in one
buffer. -/
theorem enqueue_before_createQ :
    ¬ ∀ (requests : List (Env × Dispatch)) (s : Server),
      pipelined requests s = sequential requests s := by
  intro same
  have events := congrArg Prod.snd
    (same [(Env.sample 1, .sample .enqueue [7]), (Env.sample 2, .sample .createQ [])] new)
  have refused : (sequential [(Env.sample 1, .sample .enqueue [7]),
      (Env.sample 2, .sample .createQ [])] new).2 =
        [.respond (.error .queueHashNotFound), .respond succeeded] := by rfl
  have stored : (pipelined [(Env.sample 1, .sample .enqueue [7]),
      (Env.sample 2, .sample .createQ [])] new).2 =
        [.respond succeeded, .respond succeeded] := by rfl
  rw [refused, stored] at events
  exact absurd events (by decide)

end Server

end DataBroker
