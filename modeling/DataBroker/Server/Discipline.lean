import DataBroker.Lib.Contract
import DataBroker.Server.Handlers

/-!
# The discipline of the handlers

Every handler takes the locks in one order (`permits`), and calls a queue only while it holds
`queue` since the registry led it there: `CreateQ` and `DeleteQ` hold the maps for writing, so the
name leads to the queue still.
-/

namespace DataBroker

open Handler Program

/-- The order in which a task takes the locks.
* A mutex comes last, and only one is held.
* `queueNames` is taken for reading by itself or under a reader of `queue`, for writing by itself.
* `queue` is taken for reading without a writer of `queueNames`, for writing only under one. -/
def permits (held : LockName → Option Access) : LockName → Access → Prop
  | .queueNames, access =>
    (∀ q, held (.mutex q) = none) ∧ held .queue ≠ some .write ∧ (access = .write → held .queue = none)
  | .queue, .read => (∀ q, held (.mutex q) = none) ∧ held .queueNames ≠ some .write
  | .queue, .write => (∀ q, held (.mutex q) = none) ∧ held .queueNames = some .write
  | .mutex _, _ => ∀ q, held (.mutex q) = none

/-- Whoever holds `queue` relies on the registry, a queue is called where the registry has it, and
`QueueNotFound` is an answer only where a registry as assumed can lack a queue. -/
def terms (assumed : Registry → Prop) : Contract LockName Action Server Event where
  permits := permits
  rely held s s' := held .queue ≠ none → s'.toRegistry = s.toRegistry
  given _ s := assumed s.toRegistry
  pre held action s :=
    match action with
    | .call queueName q _ => s.resolve queueName = some q
    | .updateConfig queueName q _ => s.resolve queueName = some q
    | .createQ _ _ => held .queue = some .write
    | .deleteQ _ => held .queue = some .write
    | .read => True
    | .setLockedSize _ _ => True
  waits _ event := event = .respond (.error .queueNotFound) → ∃ r, assumed r ∧ ¬ r.Consistent

theorem terms_lawful (assumed : Registry → Prop) : (terms assumed).Lawful Server.act where
  refl _ _ _ := rfl
  trans _ _ _ _ first second holds := (second holds).trans (first holds)
  anti held lock s s' rely holds := by
    refine rely fun free => holds ?_
    by_cases same : LockName.queue = lock
    · rw [← same, Function.update_self]
    · rw [Function.update_of_ne same, free]
  others held held' action s compatible pre _ holds := by
    have alone : held .queue ≠ some .write := by
      intro writer
      obtain ⟨access, reader⟩ := Option.ne_none_iff_exists'.1 holds
      exact absurd (compatible _ _ _ writer reader).1 (by decide)
    cases action with
    | createQ => exact absurd pre alone
    | deleteQ => exact absurd pre alone
    | _ => rfl

namespace Handler

variable {assumed : Registry → Prop} {held : LockName → Option Access}
  {names queue : Option Access} {queueName : String} {q : ℕ} {s : Server}

/-- A handler that meets the terms from the state `s` on. -/
abbrev Disciplined (assumed : Registry → Prop) (held : LockName → Option Access) (s : Server)
    (task : Handler) : Prop := task.Meets (terms assumed) Server.act held s

theorem error_eq_queueNotFound {code : ErrorCode}
    (same : ResponseMessage.error code = .error .queueNotFound) : code = .queueNotFound := by
  revert same
  cases code <;> decide

theorem new_succeeded_ne (payload : Bytes) (code : ErrorCode) :
    ResponseMessage.new .succeeded payload ≠ .error code := by
  intro same
  cases congrArg ResponseMessage.status same

theorem disciplined_unlocked : Disciplined assumed (holding none queue (some q)) s
    (release (.mutex q) <| release .queue done) :=
  meets_unlock (meets_release meets_done)

theorem disciplined_succeeded {payload : Bytes} {next : Handler}
    (hnext : ∀ s, Disciplined assumed held s next) :
    Disciplined assumed held s (sendResponse (.new .succeeded payload) next) :=
  ⟨fun same => absurd (Event.respond.inj same) (new_succeeded_ne _ _), fun _ _ _ => hnext _⟩

theorem disciplined_error {code : ErrorCode} {next : Handler}
    (excused : code = .queueNotFound → ∃ r, assumed r ∧ ¬ r.Consistent)
    (hnext : ∀ s, Disciplined assumed held s next) :
    Disciplined assumed held s (sendResponse (.error code) next) :=
  ⟨fun same => excused (error_eq_queueNotFound (Event.respond.inj same)), fun _ _ _ => hnext _⟩

theorem disciplined_mutex {next : Handler}
    (hnext : ∀ s', (queue ≠ none → s'.toRegistry = s.toRegistry) →
      Disciplined assumed (holding names queue (some q)) s' next) :
    Disciplined assumed (holding names queue none) s (acquire (.mutex q) .write next) :=
  meets_mutex (by simp [terms, permits]) hnext

/-- `get_queue` finds the queue that the registry has and keeps as long as `queue` is held. -/
theorem disciplined_getQueue {found : ℕ → Handler} {failed : ErrorCode → Handler}
    (hfound : ∀ q s, s.resolve queueName = some q →
      Disciplined assumed (holding none (some .read) none) s (found q))
    (hfailed : ∀ code s, (code = .queueNotFound → ∃ r, assumed r ∧ ¬ r.Consistent) →
      Disciplined assumed (holding none (some .read) none) s (failed code)) :
    Disciplined assumed (holding none (some .read) none) s (getQueue queueName found failed) := by
  refine ⟨by simp [terms, permits], rfl, fun _ _ s₁ _ _ => ⟨trivial, ?_⟩⟩
  simp only [Meets, update_queueNames]
  cases named : s₁.queueNames.lookup queueName with
  | none => exact hfailed _ _ fun same => by cases same
  | some hash =>
    intro s₂ rely given
    have same : s₂.toRegistry = s₁.toRegistry := rely (by simp)
    refine ⟨trivial, ?_⟩
    dsimp only
    cases stored : s₂.queue.lookup hash with
    | some q =>
      apply hfound q _
      show s₂.toRegistry.resolve queueName = some q
      rw [Registry.resolve, same, named, Option.bind_some, ← same, stored]
    | none =>
      refine hfailed _ _ fun _ => ⟨s₂.toRegistry, given, fun consistent => ?_⟩
      have dangles : hash ∉ s₂.queue := Finmap.lookup_eq_none.1 stored
      exact dangles (consistent.found queueName hash (by rw [same, named]))

theorem disciplined_withQueue {found : ℕ → Handler}
    (hfound : ∀ q s, s.resolve queueName = some q →
      Disciplined assumed (holding none (some .read) none) s (found q)) :
    Disciplined assumed (holding none none none) s (withQueue queueName found) := by
  refine ⟨by simp [terms, permits], rfl, fun _ _ => ?_⟩
  rw [update_queue]
  exact disciplined_getQueue hfound fun _ _ excused =>
    disciplined_error excused fun _ => meets_release meets_done

/-- A lookup under the guard of `queue` is as good later. -/
theorem resolve_of_rely {s' : Server} (resolved : s.resolve queueName = some q)
    (same : s'.toRegistry = s.toRegistry) : s'.resolve queueName = some q := by
  rwa [same]

theorem disciplined_callQueue {op : Queue.Op} {code : ErrorCode} {onOk : Handler → Handler}
    (resolved : s.resolve queueName = some q) (other : code ≠ .queueNotFound)
    (hok : ∀ s next, (∀ s, Disciplined assumed (holding none (some .read) (some q)) s next) →
      Disciplined assumed (holding none (some .read) (some q)) s (onOk next)) :
    Disciplined assumed (holding none (some .read) none) s
      (callQueue queueName q op code onOk) := by
  apply disciplined_mutex
  intro s₁ rely₁ s₂ rely₂ _
  have resolved := resolve_of_rely resolved (rely₁ (by simp))
  refine ⟨resolve_of_rely resolved (rely₂ (by simp)), ?_⟩
  dsimp only
  cases (op.call.run (s₂.queues q)).1 with
  | ok _ => exact hok _ _ fun _ => disciplined_succeeded fun _ => disciplined_unlocked
  | err _ => exact disciplined_error (fun e => absurd e other) fun _ => disciplined_unlocked
  | panic => exact disciplined_unlocked

theorem disciplined_withMessageId {d : Dispatch} {next : U128 → Handler}
    (hnext : ∀ id, Disciplined assumed (holding none (some .read) none) s (next id)) :
    Disciplined assumed (holding none (some .read) none) s (withMessageId d next) := by
  unfold withMessageId
  split_ifs
  · exact disciplined_error (fun e => by cases e) fun _ => meets_release meets_done
  · exact hnext _

theorem disciplined_raiseLockedSize {env : Env} {size : ℕ} {next : Handler}
    (hnext : ∀ s, Disciplined assumed held s next) :
    Disciplined assumed held s (raiseLockedSize env size next) := by
  refine fun _ _ _ => ⟨trivial, ?_⟩
  dsimp only
  split_ifs
  · exact fun _ _ _ => ⟨trivial, hnext _⟩
  · exact hnext _

theorem disciplined_autoUnlock {clientId : U128} {messageId : Option U128}
    (resolved : s.resolve queueName = some q) :
    Disciplined assumed (holding none (some .read) none) s
      (autoUnlock queueName clientId messageId q) := by
  apply disciplined_mutex
  intro s₁ rely₁
  have resolved := resolve_of_rely resolved (rely₁ (by simp))
  cases messageId with
  | none => exact disciplined_unlocked
  | some id =>
    refine fun s₂ rely₂ _ => ⟨trivial, ?_⟩
    have resolved := resolve_of_rely resolved (rely₂ (by simp))
    dsimp only
    split
    · exact fun s₃ rely₃ _ => ⟨resolve_of_rely resolved (rely₃ (by simp)), disciplined_unlocked⟩
    · exact disciplined_unlocked

theorem disciplined_lockAndDequeueMessage {clientId : U128} {failed : ErrorCode → Handler}
    (hfailed : ∀ code s, (code = .queueNotFound → ∃ r, assumed r ∧ ¬ r.Consistent) →
      Disciplined assumed (holding none none none) s (failed code)) :
    Disciplined assumed (holding none none none) s
      (lockAndDequeueMessage queueName clientId failed) := by
  refine ⟨by simp [terms, permits], rfl, fun _ _ => ?_⟩
  rw [update_queue]
  refine disciplined_getQueue (fun q s resolved => disciplined_mutex fun s₁ rely₁ => ?_)
    fun code _ excused => meets_release (hfailed code _ excused)
  have resolved := resolve_of_rely resolved (rely₁ (by simp))
  intro s₂ rely₂ _
  have resolved := resolve_of_rely resolved (rely₂ (by simp))
  refine ⟨resolved, meets_unlock ?_⟩
  split
  · refine ⟨fun same => absurd (Event.respond.inj same) (new_succeeded_ne _ _), ?_⟩
    intro s₃ rely₃ written
    have resolved := resolve_of_rely (q := q) resolved (rely₃ (by simp))
    dsimp only
    split_ifs
    · refine disciplined_mutex fun s₄ rely₄ s₅ rely₅ _ => ⟨trivial, meets_unlock ?_⟩
      have resolved := resolve_of_rely resolved (rely₄ (by simp))
      have resolved := resolve_of_rely resolved (rely₅ (by simp))
      split_ifs
      · exact ⟨fun same => (by cases same), fun s₆ rely₆ _ =>
          disciplined_autoUnlock (resolve_of_rely resolved (rely₆ (by simp)))⟩
      · exact meets_release meets_done
    · exact meets_release (hfailed _ _ fun same => by cases same)
  · refine meets_release (hfailed _ _ fun same => ?_)
    unfold lockToReadCode at same
    split_ifs at same
  · exact meets_release meets_done

theorem disciplined_dequeue (d : Dispatch) :
    Disciplined assumed (holding none none none) s (dequeue d) :=
  disciplined_lockAndDequeueMessage fun _ _ excused =>
    disciplined_error excused fun _ => meets_done

theorem disciplined_succeed (env : Env) (d : Dispatch) :
    Disciplined assumed (holding none none none) s (succeed env d) := by
  have answer : ∀ s, Disciplined assumed (holding none none none) s (sendResponse succeeded done) :=
    fun _ => disciplined_succeeded fun _ => meets_done
  have failed : ∀ s, Disciplined assumed (holding none none none) s
      (sendResponse (.error .noSuchMessageIdLocked) done) :=
    fun _ => disciplined_error (fun e => by cases e) fun _ => meets_done
  have unlocked : ∀ {q : ℕ} {s : Server} {next : Handler},
      (∀ s, Disciplined assumed (holding none none none) s next) →
      Disciplined assumed (holding none (some .read) (some q)) s
        (release (.mutex q) <| release .queue next) :=
    fun hnext => meets_unlock (meets_release (hnext _))
  refine ⟨by simp [terms, permits], rfl, fun _ _ => ?_⟩
  rw [update_queue]
  refine disciplined_getQueue (fun q s resolved => disciplined_mutex fun s₁ rely₁ => ?_)
    fun _ _ _ => meets_release (failed _)
  have resolved := resolve_of_rely resolved (rely₁ (by simp))
  intro s₂ rely₂ _
  have resolved := resolve_of_rely resolved (rely₂ (by simp))
  refine ⟨resolved, ?_⟩
  dsimp only
  split
  · intro s₃ rely₃ _
    have resolved := resolve_of_rely (q := q) resolved (rely₃ (by simp))
    refine ⟨trivial, ?_⟩
    dsimp only
    split_ifs
    · intro s₄ rely₄ _
      refine ⟨resolve_of_rely resolved (rely₄ (by simp)), ?_⟩
      dsimp only
      split
      · exact fun _ _ _ => ⟨trivial, unlocked answer⟩
      · exact unlocked answer
      · exact unlocked fun _ => meets_done
    · exact unlocked answer
  · exact unlocked failed
  · exact unlocked fun _ => meets_done

theorem disciplined_listM (env : Env) (d : Dispatch) :
    Disciplined assumed (holding none none none) s (listM env d) := by
  have missing : ∀ s, Disciplined assumed (holding none none none) s
      (sendResponse (.error .queueHashNotFound) done) :=
    fun _ => disciplined_error (fun e => by cases e) fun _ => meets_done
  refine ⟨by simp [terms, permits], rfl, fun _ _ s₁ _ _ => ⟨trivial, ?_⟩⟩
  simp only [Meets, update_queueNames]
  split
  · refine ⟨by simp [terms, permits], rfl, fun _ _ s₂ _ _ => ⟨trivial, ?_⟩⟩
    simp only [Meets, update_queue]
    split
    · refine disciplined_mutex fun _ _ s₃ _ _ => ⟨trivial, meets_unlock ?_⟩
      split <;> exact disciplined_succeeded fun _ => meets_done
    · exact missing _
  · exact missing _

theorem disciplined_updateQ (d : Dispatch) :
    Disciplined assumed (holding none none none) s (updateQ d) := by
  have answer : ∀ {code : ErrorCode} {s : Server}, code ≠ .queueNotFound →
      Disciplined assumed (holding none (some .read) none) s
        (sendResponse (.error code) <| release .queue done) :=
    fun other => disciplined_error (fun e => absurd e other) fun _ =>
      meets_release meets_done
  apply disciplined_withQueue
  intro q s resolved
  split_ifs
  · exact answer (by decide)
  · split
    · apply disciplined_mutex
      intro s₁ rely₁ s₂ rely₂ _
      have resolved := resolve_of_rely resolved (rely₁ (by simp))
      exact ⟨resolve_of_rely resolved (rely₂ (by simp)),
        disciplined_succeeded fun _ => disciplined_unlocked⟩
    · exact answer (by decide)

theorem disciplined_collectStats (env : Env) (map : HashMap Uuid ℕ)
    (rest : List (Σ _ : String, Uuid)) (watcher : StatWatcher) (s : Server) :
    Disciplined assumed (holding (some .read) (some .read) none) s
      (collectStats env map rest watcher) := by
  induction rest generalizing watcher s with
  | nil =>
    exact disciplined_succeeded fun s => meets_release (meets_releaseNames meets_done)
  | cons entry rest ih =>
    unfold collectStats
    split
    · exact disciplined_mutex fun _ _ _ _ _ => ⟨trivial, meets_unlock (ih _ _)⟩
    · exact ih _ _

theorem disciplined_netStats (env : Env) :
    Disciplined assumed (holding none none none) s (netStats env) := by
  refine ⟨by simp [terms, permits], rfl, fun _ _ => ?_⟩
  rw [update_queueNames]
  refine ⟨by simp [terms, permits], rfl, fun _ _ _ _ _ => ⟨trivial, ?_⟩⟩
  rw [update_queue]
  exact disciplined_collectStats ..

/-- The end of `CreateQ` and `DeleteQ`. -/
theorem disciplined_respondLater {response : ResponseMessage} {next : Handler}
    (other : response ≠ .error .queueNotFound)
    (hnext : Disciplined assumed (holding none none none) s next) :
    Disciplined assumed (holding (some .write) (some .write) none) s
      (respondLater response next) :=
  meets_respondLater
    (fun _ => ⟨fun same => absurd (Event.respond.inj same) other, fun _ _ _ => meets_done⟩) hnext

/-- `CreateQ` and `DeleteQ` take both maps for writing. -/
theorem disciplined_change {action : Action} {after : Server → Handler}
    (pre : ∀ s, (terms assumed).pre (holding (some .write) (some .write) none) action s)
    (hafter : ∀ s s', Disciplined assumed (holding (some .write) (some .write) none) s (after s')) :
    Disciplined assumed (holding none none none) s
      (acquire .queueNames .write <| acquire .queue .write <| perform action after) :=
  meets_change (by simp [terms, permits]) (by simp [terms, permits]) pre hafter

theorem disciplined_dispatch (env : Env) (d : Dispatch) {next : Handler}
    (hnext : ∀ s, Disciplined assumed (holding none none none) s next) :
    Disciplined assumed (holding none none none) s (dispatch env d next) := by
  have spawned : ∀ {task : Handler}, (∀ s, Disciplined assumed (holding none none none) s task) →
      Disciplined assumed (holding none none none) s (spawn task next) :=
    fun htask => meets_spawn htask (hnext _)
  unfold dispatch
  split
  · exact spawned fun _ => disciplined_withQueue fun _ _ resolved =>
      disciplined_callQueue resolved (by decide) fun _ _ => disciplined_raiseLockedSize
  · exact spawned fun _ => disciplined_dequeue d
  · refine disciplined_change (fun _ => rfl) fun s s' => ?_
    split_ifs
    · exact disciplined_respondLater (fun e => nomatch error_eq_queueNotFound e) (hnext _)
    · exact disciplined_respondLater (new_succeeded_ne _ _) (hnext _)
  · refine disciplined_change (fun _ => rfl) fun s s' => ?_
    split_ifs
    · exact disciplined_respondLater (new_succeeded_ne _ _) (hnext _)
    · exact disciplined_respondLater (fun e => nomatch error_eq_queueNotFound e) (hnext _)
  · exact spawned fun _ => disciplined_listM env d
  · exact spawned fun _ => disciplined_withQueue fun _ _ resolved =>
      disciplined_withMessageId fun _ => disciplined_callQueue resolved (by decide) fun s _ h => h s
  · exact spawned fun _ => disciplined_succeed env d
  · exact spawned fun _ => disciplined_withQueue fun _ _ resolved =>
      disciplined_callQueue resolved (by decide) fun s _ h => h s
  · exact spawned fun _ => disciplined_withQueue fun _ _ resolved =>
      disciplined_withMessageId fun _ => disciplined_callQueue resolved (by decide) fun s _ h => h s
  · apply spawned
    intro _
    unfold updateM
    split_ifs
    · exact disciplined_error (fun e => by cases e) fun _ => meets_done
    · exact disciplined_withQueue fun _ _ resolved =>
        disciplined_callQueue resolved (by decide) fun s _ h => h s
  · exact spawned fun _ => disciplined_updateQ d
  · exact spawned fun _ => disciplined_netStats env

/-- Whatever a connection has in its buffer, what it starts keeps to the discipline. -/
theorem disciplined_readLoop (requests : List (Env × Dispatch)) (s : Server) :
    Disciplined assumed (holding none none none) s (readLoop requests) := by
  induction requests generalizing s with
  | nil => exact meets_done
  | cons request requests ih => exact disciplined_dispatch _ _ ih

end Handler

/-- Every turn keeps the handlers to their discipline. -/
theorem Broker.sound_step {assumed : Registry → Prop} {c : Broker} {turn : Broker.Turn}
    (sound : c.Sound (terms assumed) Server.act) (given : assumed c.state.toRegistry) :
    (c.step turn).Sound (terms assumed) Server.act := by
  refine sound.step (terms_lawful assumed) (fun task starts => ?_) fun _ _ _ _ _ _ => given
  cases turn with
  | run t answer => cases starts
  | buffer requests =>
    obtain rfl : readLoop requests = task := System.Turn.start.inj starts
    rw [holding_none]
    exact disciplined_readLoop requests _

end DataBroker
