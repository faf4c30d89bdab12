import DataBroker.Lib.Contract
import DataBroker.Lib.Transition
import DataBroker.Queue.Calls
import DataBroker.Server.Handlers

/-!
# Guards held over a wait

A handler that waits for a client to read its response, or for a timer whose length a client chose,
should not hold a lock meanwhile. Those that give up their guards before they answer do not; the
others answer under the guard of `queue`, most under the mutex of the queue as well, and a `Dequeue`
that has delivered a message sleeps under the guard of `queue`.
-/

namespace DataBroker

open Handler Program

/-- `lock_to_read` finds nothing to hand out. -/
def Queue.NothingToRead (s : Queue) : Prop := s.order = [] ∨ s.Stuck

instance (s : Queue) : Decidable s.Stuck :=
  have := Option.decidableForallMem s.nextId (p := fun id =>
    ∀ m ∈ s.queue.lookup id, m.lockedBy ≠ none)
  decidable_of_iff (∀ id ∈ s.nextId, ∀ m ∈ s.queue.lookup id, m.lockedBy ≠ none)
    ⟨fun h id m cursor stored => h id cursor m stored, fun h id cursor m stored => h id m cursor stored⟩

instance (s : Queue) : Decidable s.NothingToRead := inferInstanceAs (Decidable (_ ∨ _))

/-- A request whose handler has given up its guards before it answers, with or without a message at
hand. -/
def Dispatch.Brief (d : Dispatch) : Prop :=
  match d.message.command with
  | .createQ | .deleteQ | .listM | .succeeded | .dequeue => True
  | .updateM => d.message.payloadSize.toNat < 16
  | _ => False

instance (d : Dispatch) : Decidable d.Brief := by
  unfold Dispatch.Brief
  split <;> infer_instance

/-- No lock is held at a wait, where `lock_to_read` finds nothing to hand out. -/
def waitsFreely : Contract LockName Action Server Event where
  permits _ _ _ := True
  rely _ _ _ := True
  given action s :=
    match action with
    | .call _ q (.lockToRead _) => (s.queues q).NothingToRead
    | _ => True
  pre _ _ _ := True
  waits held _ := ∀ lock, held lock = none

theorem waitsFreely_lawful : waitsFreely.Lawful Server.act where
  refl _ _ := trivial
  trans _ _ _ _ _ _ := trivial
  anti _ _ _ _ _ := trivial
  others _ _ _ _ _ _ _ := trivial

theorem Queue.NothingToRead.run_lockToRead {s : Queue} (nothing : s.NothingToRead)
    (clientId : U128) : ∃ e, (lockToRead clientId).run s = (.err e, s) := by
  rcases lockToRead_cases s clientId with ⟨failed, -⟩ | ⟨id, m, nonempty, cursor, stored, free⟩
  · exact failed
  · rcases nothing with empty | stuck
    · exact absurd empty nonempty
    · exact absurd free (stuck id m cursor stored)

namespace Handler

variable {held : LockName → Option Access} {names queue : Option Access} {queueName : String} {q : ℕ}
  {s : Server}

/-- A handler that gives up its guards before it waits. -/
abbrev Free (held : LockName → Option Access) (s : Server) (task : Handler) : Prop :=
  task.Meets waitsFreely Server.act held s

theorem free_answer (response : ResponseMessage) (s : Server) :
    Free (holding none none none) s (sendResponse response done) := by
  rw [← holding_none]
  exact ⟨fun _ => rfl, fun _ _ _ _ => rfl⟩

theorem free_mutex {next : Handler} (hnext : ∀ s, Free (holding names queue (some q)) s next) :
    Free (holding names queue none) s (acquire (.mutex q) .write next) :=
  meets_mutex trivial fun s' _ => hnext s'

theorem free_getQueue {found : ℕ → Handler} {failed : ErrorCode → Handler}
    (hfound : ∀ q s, Free (holding none (some .read) none) s (found q))
    (hfailed : ∀ code s, Free (holding none (some .read) none) s (failed code)) :
    Free (holding none (some .read) none) s (getQueue queueName found failed) := by
  refine ⟨trivial, rfl, fun _ _ s₁ _ _ => ⟨trivial, ?_⟩⟩
  simp only [Meets, update_queueNames]
  cases s₁.queueNames.lookup queueName with
  | none => exact hfailed _ _
  | some hash =>
    refine fun s₂ _ _ => ⟨trivial, ?_⟩
    dsimp only
    cases s₂.queue.lookup hash with
    | none => exact hfailed _ _
    | some q => exact hfound q _

theorem free_dequeue (d : Dispatch) : Free (holding none none none) s (dequeue d) := by
  refine ⟨trivial, rfl, fun s₁ _ => ?_⟩
  rw [update_queue]
  refine free_getQueue (fun q s => free_mutex fun s₁ s₂ _ nothing => ⟨trivial, meets_unlock ?_⟩)
    fun code s => meets_release (free_answer _ _)
  obtain ⟨e, failed⟩ := Queue.NothingToRead.run_lockToRead nothing d.clientId
  rw [failed]
  exact meets_release (free_answer _ _)

theorem free_succeed (env : Env) (d : Dispatch) : Free (holding none none none) s (succeed env d) := by
  refine ⟨trivial, rfl, fun s₁ _ => ?_⟩
  rw [update_queue]
  have unlocked : ∀ {q : ℕ} {s : Server} {next : Handler}, Free (holding none none none) s next →
      Free (holding none (some .read) (some q)) s (release (.mutex q) <| release .queue next) :=
    fun hnext => meets_unlock (meets_release hnext)
  refine free_getQueue (fun q s => free_mutex fun s₁ s₂ _ _ => ⟨trivial, ?_⟩)
    fun code s => meets_release (free_answer _ _)
  dsimp only
  split
  · refine fun s₃ _ _ => ⟨trivial, ?_⟩
    dsimp only
    split_ifs
    · refine fun s₄ _ _ => ⟨trivial, ?_⟩
      dsimp only
      split
      · exact fun _ _ _ => ⟨trivial, unlocked (free_answer _ _)⟩
      · exact unlocked (free_answer _ _)
      · exact unlocked meets_done
    · exact unlocked (free_answer _ _)
  · exact unlocked (free_answer _ _)
  · exact unlocked meets_done

theorem free_listM (env : Env) (d : Dispatch) : Free (holding none none none) s (listM env d) := by
  refine ⟨trivial, rfl, fun _ _ s₁ _ _ => ⟨trivial, ?_⟩⟩
  simp only [Meets, update_queueNames]
  split
  · refine ⟨trivial, rfl, fun _ _ s₂ _ _ => ⟨trivial, ?_⟩⟩
    simp only [Meets, update_queue]
    split
    · refine free_mutex fun _ s₃ _ _ => ⟨trivial, meets_unlock ?_⟩
      split <;> exact free_answer _ _
    · exact free_answer _ _
  · exact free_answer _ _

theorem free_change {action : Action} {after : Server → Handler}
    (hafter : ∀ s s', Free (holding (some .write) (some .write) none) s (after s')) :
    Free (holding none none none) s
      (acquire .queueNames .write <| acquire .queue .write <| perform action after) :=
  meets_change trivial trivial (fun _ => trivial) hafter

theorem free_dispatch (env : Env) {d : Dispatch} (brief : d.Brief) {next : Handler}
    (hnext : ∀ s, Free (holding none none none) s next) :
    Free (holding none none none) s (dispatch env d next) := by
  have spawned : ∀ {task : Handler}, (∀ s, Free (holding none none none) s task) →
      Free (holding none none none) s (spawn task next) := fun htask => meets_spawn htask (hnext _)
  unfold Dispatch.Brief at brief
  unfold dispatch
  cases command : d.message.command with
  | createQ =>
    apply free_change
    intro s s'
    split_ifs <;> exact meets_respondLater (free_answer _) (hnext _)
  | deleteQ =>
    apply free_change
    intro s s'
    split_ifs <;> exact meets_respondLater (free_answer _) (hnext _)
  | listM => exact spawned fun _ => free_listM env d
  | succeeded => exact spawned fun _ => free_succeed env d
  | dequeue => exact spawned fun _ => free_dequeue d
  | updateM =>
    rw [command] at brief
    apply spawned
    intro _
    rw [updateM, if_pos brief]
    exact free_answer _ _
  | _ =>
    rw [command] at brief
    exact brief.elim

theorem free_readLoop {requests : List (Env × Dispatch)} (brief : ∀ r ∈ requests, r.2.Brief)
    (s : Server) : Free (holding none none none) s (readLoop requests) := by
  induction requests generalizing s with
  | nil => exact meets_done
  | cons request requests ih =>
    exact free_dispatch _ (brief _ (List.mem_cons_self ..)) fun s =>
      ih (fun r inside => brief r (List.mem_cons_of_mem _ inside)) s

/-- The queue that the handler is about to read from. -/
def readsFrom : Handler → Option ℕ
  | .perform (.call _ q (.lockToRead _)) _ => some q
  | _ => none

end Handler

namespace Broker

/-- Only requests that are answered without guards come in, and a `Dequeue` finds nothing to hand
out. -/
def Brief (c : Broker) : Turn → Prop
  | .buffer requests => ∀ r ∈ requests, r.2.Brief
  | .run t _ => ∀ q ∈ readsFrom (c.tasks t), (c.state.queues q).NothingToRead

instance (c : Broker) : (turn : Turn) → Decidable (c.Brief turn)
  | .buffer requests => inferInstanceAs (Decidable (∀ r ∈ requests, r.2.Brief))
  | .run t _ => Option.decidableForallMem (readsFrom (c.tasks t))

/-- Who waits for a client or a timer holds no lock. -/
def WaitsFreely (c : Broker) : Prop :=
  ∀ t event next, c.tasks t = await event next → ∀ lock, c.held t lock = none

variable {c : Broker} {turn : Turn}

theorem free_step (sound : c.Sound waitsFreely Server.act) (brief : c.Brief turn) :
    (c.step turn).Sound waitsFreely Server.act := by
  cases turn with
  | buffer requests =>
    refine sound.step waitsFreely_lawful (fun task starts => ?_) fun _ _ _ _ turn => by cases turn
    obtain rfl : readLoop requests = task := System.Turn.start.inj starts
    rw [holding_none]
    exact free_readLoop brief _
  | run t answer =>
    refine sound.step waitsFreely_lawful (fun task starts => by cases starts) ?_
    intro t' answer' action next turn program
    obtain ⟨rfl, -⟩ := System.Turn.run.inj turn
    cases action with
    | call queueName q op =>
      cases op with
      | lockToRead clientId => exact brief q (by rw [program]; rfl)
      | _ => trivial
    | _ => trivial

/-- As long as only such requests come in, no handler holds a lock while it waits for a client or a
timer. -/
theorem waitsFreely_of_brief (s : Server) (turns : List Turn)
    (brief : Transition.EveryStep step Brief (System.init s) turns) :
    Transition.EveryState step WaitsFreely (System.init s) turns := by
  refine (brief.invariant (System.sound_init s) fun _ _ sound brief => free_step sound brief).mono ?_
  intro c sound t event next program
  have meets := sound.meets t
  rw [program] at meets
  exact meets.1

/-- A `Dequeue` from an empty queue. -/
theorem waitsFreely_dequeue_empty :
    Transition.EveryState step WaitsFreely (System.init Server.sample)
      [.buffer [(.sample 1, .sample .dequeue [])], .run 0 true, .run 1 true, .run 1 true,
        .run 1 true, .run 1 true, .run 1 true, .run 1 true, .run 1 true, .run 1 true, .run 1 true] :=
  waitsFreely_of_brief _ _ (by decide)

/-- An `Enqueue` to a name that is not there waits for its client under the guard of `queue`. -/
theorem answers_under_guard :
    ¬ ∀ (s : Server) (turns : List Turn),
      Transition.EveryState step WaitsFreely (System.init s) turns := by
  intro free
  have last := (free Server.new [.buffer [(.sample 1, .sample .enqueue [5])], .run 0 true,
    .run 1 true, .run 1 true, .run 1 true, .run 1 true]).last
  exact absurd (last 1 _ _ rfl .queue) (by decide)

end Broker

end DataBroker
