import DataBroker.Server.Pool

/-!
# Pressure against jobs

A job whose blocking task fails stays charged to the worker that it was meant for: of the ways in
which `spawn` fails, only a missing sender lowers the counter again, and every worker has its
sender. So the counters tell the jobs of the channels as long as every job that is sent gets into
one.
-/

namespace DataBroker

namespace Pool

namespace State

variable {s : State} {k queueCapacity : ℕ} {call call' : Call}

/-! ## Refusals -/

/-- No job was refused. -/
def NoneRefused (s : State) : Prop :=
  ∀ (k : ℕ) (call : Call), s.calls[k]? = some call → call.refusal = none

theorem noneRefused_setCall (old : s.calls[k]? = some call) (before : call.refusal = none) :
    (s.setCall k call').NoneRefused ↔ s.NoneRefused ∧ call'.refusal = none := by
  constructor
  · intro none
    refine ⟨fun j c found => ?_, none k call' (setCall_self old)⟩
    by_cases same : k = j
    · subst same
      obtain rfl := Option.some.inj (old.symm.trans found)
      exact before
    · exact none j c ((setCall_other same).trans found)
  · rintro ⟨none, after⟩ j c found
    by_cases same : k = j
    · subst same
      obtain rfl := Option.some.inj ((setCall_self old).symm.trans found)
      exact after
    · exact none j c ((setCall_other same).symm.trans found)

/-- A step of a call that refuses nothing. -/
theorem noneRefused_other (old : s.calls[k]? = some call) (before : call.refusal = none)
    (after : call'.refusal = none) : (s.setCall k call').NoneRefused ↔ s.NoneRefused :=
  (noneRefused_setCall old before).trans (and_iff_left after)

theorem noneRefused_answer (s : State) (k : ℕ) : (s.answer k).NoneRefused ↔ s.NoneRefused := by
  unfold answer
  split
  next w returned finished old => exact noneRefused_other old rfl rfl
  next w error returned old =>
    -- a refusal is on record before and behind the return
    constructor
    · intro none
      cases none k _ (setCall_self old)
    · intro none
      cases none k _ old
  · rfl

theorem handed_send (s : State) (k : ℕ) : s.Handed (.send k) ↔
    ∀ call ∈ s.calls[k]?, ∀ w ∈ call.target, ∀ worker ∈ s.workers[w]?, worker.stage ≠ .gone := .rfl

theorem handed_cancel (s : State) (k : ℕ) :
    s.Handed (.cancel k) ↔ ∀ call ∈ s.calls[k]?, call.target = none := .rfl

/-- A send meets a receiver that is gone, or refuses nothing. -/
theorem noneRefused_send (s : State) (k : ℕ) :
    (s.send queueCapacity k).NoneRefused ↔ s.NoneRefused ∧ s.Handed (.send k) := by
  rw [handed_send]
  unfold send
  split
  next w old =>
    split
    next worker found =>
      have handed : (∀ call ∈ s.calls[k]?, ∀ w ∈ call.target, ∀ worker ∈ s.workers[w]?,
          worker.stage ≠ .gone) ↔ worker.stage ≠ .gone := by
        simp [old, Call.target, found]
      rw [handed]
      split_ifs with dead room
      · rw [noneRefused_setCall old rfl]
        refine and_congr_right fun _ => iff_of_false (fun none => ?_) (absurd dead)
        cases none
      · exact (noneRefused_other old rfl rfl).trans (and_iff_left dead).symm
      · exact (and_iff_left dead).symm
    next nowhere => simp [old, Call.target, nowhere]
  next other =>
    refine (and_iff_left ?_).symm
    rintro (_ | _ | _ | w | _ | _ | _ | _) old v target
    all_goals cases target
    exact absurd old (other w)

theorem noneRefused_cancel (s : State) (k : ℕ) :
    (s.cancel k).NoneRefused ↔ s.NoneRefused ∧ s.Handed (.cancel k) := by
  rw [handed_cancel]
  unfold cancel
  split
  next w old =>
    rw [noneRefused_setCall old rfl, old]
    refine and_congr_right fun _ => iff_of_false (fun none => ?_) fun idle => ?_
    · cases none
    · cases idle _ rfl
  next other =>
    refine (and_iff_left ?_).symm
    rintro (_ | _ | _ | w | _ | _ | _ | _) old
    case sending => exact absurd old (other w)
    all_goals rfl

theorem noneRefused_scan (s : State) (k : ℕ) : (s.scan k).NoneRefused ↔ s.NoneRefused := by
  unfold scan
  split
  next next least old =>
    split
    · exact noneRefused_other old rfl rfl
    · exact noneRefused_other old rfl rfl
  · rfl

theorem noneRefused_raise (s : State) (k : ℕ) : (s.raise k).NoneRefused ↔ s.NoneRefused := by
  unfold raise
  split
  next w old =>
    split_ifs
    · exact noneRefused_other (s := s.setPressure w _) old rfl rfl
    · exact noneRefused_other old rfl rfl
  · rfl

theorem noneRefused_look (s : State) (k : ℕ) : (s.look k).NoneRefused ↔ s.NoneRefused := by
  unfold look
  split
  next w old =>
    split
    · exact noneRefused_other old rfl rfl
    · exact noneRefused_other (s := s.setPressure w _) old rfl rfl
  · rfl

theorem noneRefused_begin (s : State) :
    (NoneRefused { s with calls := s.calls ++ [.scanning 0 none] }) ↔ s.NoneRefused := by
  constructor
  · intro none k call found
    obtain ⟨inside, -⟩ := List.getElem?_eq_some_iff.1 found
    exact none k call ((List.getElem?_append_left inside).trans found)
  · intro none k call found
    rcases List.mem_append.1 (List.mem_of_getElem? found) with old | new
    · obtain ⟨j, found⟩ := List.getElem?_of_mem old
      exact none j call found
    · rw [List.mem_singleton.1 new]
      rfl

theorem noneRefused_finish (s : State) (w : ℕ) : (s.finish w).NoneRefused ↔ s.NoneRefused := by
  have same (call : Call) : call.finish.refusal = call.refusal := by cases call <;> rfl
  unfold finish
  split
  next channel k found =>
    have entry (j : ℕ) : (s.calls.modify k Call.finish)[j]? =
        s.calls[j]?.map fun call => if k = j then call.finish else call := List.getElem?_modify ..
    constructor
    · intro none j call found
      have changed := none j _ ((entry j).trans (congrArg (Option.map _) found))
      split_ifs at changed
      · exact (same call).symm.trans changed
      · exact changed
    · intro none j call found
      obtain ⟨before, old, rfl⟩ := Option.map_eq_some_iff.1 ((entry j).symm.trans found)
      split_ifs
      · exact (same before).trans (none j before old)
      · exact none j before old
  · rfl

theorem noneRefused_step (s : State) (turn : Turn) :
    (s.step queueCapacity turn).NoneRefused ↔ s.NoneRefused ∧ s.Handed turn := by
  have handed {P : Prop} : P ↔ P ∧ True := (and_iff_left trivial).symm
  cases turn with
  | send k => exact noneRefused_send s k
  | cancel k => exact noneRefused_cancel s k
  | answer k => exact (noneRefused_answer s k).trans handed
  | scan k => exact (noneRefused_scan s k).trans handed
  | raise k => exact (noneRefused_raise s k).trans handed
  | look k => exact (noneRefused_look s k).trans handed
  | call => exact (noneRefused_begin s).trans handed
  | finish w => exact (noneRefused_finish s w).trans handed
  | build w => exact handed
  | receive w => exact handed
  | blockOn w => exact handed
  | again w => exact handed
  | panic w => exact handed

end State

/-- A call that is not in progress has raised a counter for an unfinished job, or for a refused
one. -/
theorem Call.charge_of_ended {call : Call} (ended : ¬ call.InProgress) (w : ℕ) :
    (if call.charge = some w then 1 else 0) =
      (if call.outstanding = some w then 1 else 0) + if call.refusal = some w then 1 else 0 := by
  cases call with
  | raised v => exact absurd trivial ended
  | sending v => exact absurd trivial ended
  | accepted v returned finished => cases finished <;> rfl
  | refused v error returned => exact (Nat.zero_add _).symm
  | scanning next least => rfl
  | chosen v => rfl
  | notFound => rfl
  | panicked => rfl

namespace State

variable {s : State} {workers queueCapacity : ℕ}

/-- Between the calls of `spawn`, a counter is raised for the unfinished jobs and for the refused
ones. -/
theorem charged_of_quiet (quiet : s.Quiet) (w : ℕ) :
    s.charged w = s.outstanding w + s.refused w := by
  obtain ⟨pool, threads, calls⟩ := s
  unfold Quiet at quiet
  unfold charged outstanding refused
  dsimp only at quiet ⊢
  induction calls with
  | nil => rfl
  | cons call calls ih =>
    obtain ⟨ended, others⟩ := List.forall_mem_cons.1 quiet
    have first := Call.charge_of_ended ended w
    have rest := ih others
    simp only [List.countP_cons, decide_eq_true_eq]
    omega

/-- Where no job was refused, no worker was to get one that was. -/
theorem refused_eq_zero_iff (h : s.Balanced workers) :
    (∀ w < workers, s.refused w = 0) ↔ s.NoneRefused := by
  unfold refused
  simp only [List.countP_eq_zero, decide_eq_true_eq]
  constructor
  · intro none k call found
    cases refusal : call.refusal with
    | none => rfl
    | some w =>
      have charge : call.charge = some w := by
        cases call <;> cases refusal
        rfl
      have small := h.charges k w call found charge
      exact absurd refusal (none w small call (List.mem_of_getElem? found))
  · intro none w _ call member refusal
    obtain ⟨k, found⟩ := List.getElem?_of_mem member
    cases (none k call found).symm.trans refusal

/-- Whenever no call of `spawn` is in progress, every counter is the number of the jobs that its
worker's channel accepted and that are not finished, if and only if no job of the run was sent to a
worker whose receiver was gone or lost with its blocking task. -/
theorem pressure_iff_handed {turns : List Turn}
    (quiet : (Transition.run (step queueCapacity) (start workers) turns).Quiet) :
    let s := Transition.run (step queueCapacity) (start workers) turns
    (∀ w < workers, s.pool.pressure[w]? = some (s.outstanding w)) ↔
      Transition.EveryStep (step queueCapacity) Handed (start workers) turns := by
  intro s
  have balanced : s.Balanced workers := (Transition.invariant (Balanced.start workers)
    (fun _ turn h => h.step turn) turns).last
  have nothing : (start workers).NoneRefused := fun k call found => by cases found
  have handed : s.NoneRefused ↔
      Transition.EveryStep (step queueCapacity) Handed (start workers) turns :=
    (Transition.run_iff_everyStep noneRefused_step (start workers) turns).trans
      (and_iff_right nothing)
  rw [← handed, ← refused_eq_zero_iff balanced]
  refine forall₂_congr fun w small => ?_
  have inside : w < s.pool.pressure.length := small.trans_eq balanced.length.symm
  have counted : s.pool.pressure[w]? = some (s.outstanding w + s.refused w) := by
    rw [List.getElem?_eq_getElem inside,
      balanced.pressure w _ (List.getElem?_eq_getElem inside), charged_of_quiet quiet]
  rw [counted, Option.some.injEq]
  omega

/-- One worker counts down the one job that it gets. -/
theorem pressure_one_job :
    let s := Transition.run (step 1) (start 1) [.build 0, .call, .scan 0, .scan 0, .raise 0,
      .look 0, .send 0, .answer 0, .receive 0, .blockOn 0, .finish 0, .again 0]
    ∀ w < 1, s.pool.pressure[w]? = some (s.outstanding w) := by
  intro s
  exact (pressure_iff_handed (by decide +kernel)).2 (by decide +kernel)

/-- A job panics the thread of its worker, and the next call chooses the worker again: `spawn`
fails, and the counter stays raised. -/
theorem pressure_of_panicked_worker :
    ¬ ∀ (workers queueCapacity : ℕ) (turns : List Turn), 0 < workers →
      let s := Transition.run (step queueCapacity) (start workers) turns
      s.Quiet → ∀ w < workers, s.pool.pressure[w]? = some (s.outstanding w) := by
  intro counts
  have leaked := counts 1 1 [.build 0, .call, .scan 0, .scan 0, .raise 0, .look 0, .send 0,
    .answer 0, .receive 0, .panic 0, .call, .scan 1, .scan 1, .raise 1, .look 1, .send 1, .answer 1]
    Nat.zero_lt_one (by decide +kernel) 0 Nat.zero_lt_one
  revert leaked
  decide +kernel

end State

end Pool

end DataBroker
