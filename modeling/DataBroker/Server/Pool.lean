import DataBroker.Lib.Transition
import DataBroker.Lib.HashMap
import Mathlib.Data.List.Nodup

/-!
# The pressure of the workers

`Pool::spawn` gives a job to the worker with the least pressure. It raises the pressure before a
blocking task sends the job into the worker's channel; the worker lowers it behind `block_on`. Calls
run at once, so that another call may come between any two steps of one, and so may the workers. A
worker whose thread panics drops its receiver with all that is in the channel.
-/

namespace DataBroker

/-- How `spawn` fails: no sender for the worker, a blocking task that does not end, a receiver that
is gone. -/
inductive SpawnError where
  | workerNotFound
  | brokenPipe
  | other
deriving DecidableEq, Repr

/-- The senders by worker, each named by the worker that has its receiver, and the counters. -/
structure Pool where
  map : HashMap ℕ ℕ
  pressure : List ℕ

namespace Pool

/-- A call of `spawn`, numbered as its job is. `least` is the least counter that `min_by_key` has
loaded, with its worker; `finished` records that the worker has counted the job down. -/
inductive Call where
  | scanning (next : ℕ) (least : Option (ℕ × ℕ))
  | chosen (w : ℕ)
  | raised (w : ℕ)
  | sending (w : ℕ)
  | accepted (w : ℕ) (returned finished : Bool)
  | refused (w : ℕ) (error : SpawnError) (returned : Bool)
  | notFound
  | panicked
deriving DecidableEq, Repr

/-- Where a worker stands in its loop: `ran` between `block_on` and `fetch_sub`, `counted` behind
it. -/
inductive Stage where
  | building
  | waiting
  | running (k : ℕ)
  | ran (k : ℕ)
  | counted
  | gone
deriving DecidableEq, Repr

/-- A worker's thread, and the jobs in its channel. -/
structure Worker where
  channel : List ℕ
  stage : Stage
deriving DecidableEq, Repr

structure State where
  pool : Pool
  workers : List Worker
  calls : List Call

/-- A step of a call of `spawn`, of its blocking task, or of a worker. -/
inductive Turn where
  | call
  | scan (k : ℕ)
  | raise (k : ℕ)
  | look (k : ℕ)
  | send (k : ℕ)
  | cancel (k : ℕ)
  | answer (k : ℕ)
  | build (w : ℕ)
  | receive (w : ℕ)
  | blockOn (w : ℕ)
  | finish (w : ℕ)
  | again (w : ℕ)
  | panic (w : ℕ)
deriving DecidableEq, Repr

/-- `Pool::new` -/
def new (workers : ℕ) : Pool :=
  (List.range workers).foldl (fun pool workerId =>
    ⟨pool.map.insert workerId workerId, pool.pressure ++ [0]⟩) ⟨∅, []⟩

/-- `min_by_key` keeps the first of the least keys. -/
def lesser (least : Option (ℕ × ℕ)) (entry : ℕ × ℕ) : ℕ × ℕ :=
  match least with
  | none => entry
  | some best => if entry.1 < best.1 then entry else best

/-- The record of a job that its worker has counted down. -/
def Call.finish : Call → Call
  | .accepted w returned _ => .accepted w returned true
  | call => call

namespace Worker

/-- The channel takes another job. One of capacity 0 hands it over to a worker that waits. -/
def HasRoom (queueCapacity : ℕ) (worker : Worker) : Prop :=
  worker.channel.length < queueCapacity ∨
    queueCapacity = 0 ∧ worker.stage = .waiting ∧ worker.channel = []

instance (queueCapacity : ℕ) (worker : Worker) : Decidable (worker.HasRoom queueCapacity) :=
  inferInstanceAs (Decidable (_ ∨ _))

/-- The runtime is built. -/
def build (worker : Worker) : Worker :=
  match worker.stage with
  | .building => { worker with stage := .waiting }
  | _ => worker

/-- `receiver.recv` -/
def receive (worker : Worker) : Worker :=
  match worker.stage, worker.channel with
  | .waiting, k :: channel => ⟨channel, .running k⟩
  | _, _ => worker

/-- `block_on` returns. -/
def blockOn (worker : Worker) : Worker :=
  match worker.stage with
  | .running k => { worker with stage := .ran k }
  | _ => worker

/-- The loop of the worker goes on. -/
def again (worker : Worker) : Worker :=
  match worker.stage with
  | .counted => { worker with stage := .waiting }
  | _ => worker

/-- The thread panics: the runtime cannot be built, a job panics, or a `println!` does. -/
def panic (worker : Worker) : Worker :=
  match worker.stage with
  | .building => ⟨[], .gone⟩
  | .running _ => ⟨[], .gone⟩
  | .counted => ⟨[], .gone⟩
  | _ => worker

/-- The jobs that the worker has not counted down: the one at hand and those in the channel. -/
def jobs (worker : Worker) : List ℕ :=
  match worker.stage with
  | .running k => k :: worker.channel
  | .ran k => k :: worker.channel
  | _ => worker.channel

theorem jobs_push (worker : Worker) (k : ℕ) :
    jobs { worker with channel := worker.channel ++ [k] } = worker.jobs ++ [k] := by
  unfold jobs
  dsimp only
  split <;> rfl

theorem jobs_build (worker : Worker) : worker.build.jobs = worker.jobs := by
  obtain ⟨channel, stage⟩ := worker
  cases stage <;> rfl

theorem jobs_receive (worker : Worker) : worker.receive.jobs = worker.jobs := by
  obtain ⟨channel, stage⟩ := worker
  cases stage <;> cases channel <;> rfl

theorem jobs_blockOn (worker : Worker) : worker.blockOn.jobs = worker.jobs := by
  obtain ⟨channel, stage⟩ := worker
  cases stage <;> rfl

theorem jobs_again (worker : Worker) : worker.again.jobs = worker.jobs := by
  obtain ⟨channel, stage⟩ := worker
  cases stage <;> rfl

/-- A worker that panics loses the job at hand and those in its channel. -/
theorem jobs_panic (worker : Worker) : worker.panic.jobs.Sublist worker.jobs := by
  obtain ⟨channel, stage⟩ := worker
  cases stage with
  | building => exact List.nil_sublist _
  | running k => exact List.nil_sublist _
  | counted => exact List.nil_sublist _
  | waiting => exact .refl _
  | ran k => exact .refl _
  | gone => exact .refl _

end Worker

/-- Every worker has its counter, at 0, and its sender. -/
theorem new_spec (workers : ℕ) : (new workers).pressure = List.replicate workers 0 ∧
    ∀ w < workers, (new workers).map.lookup w = some w := by
  induction workers with
  | zero => exact ⟨rfl, fun w small => by cases small⟩
  | succ workers ih =>
    have next : new (workers + 1) =
        ⟨(new workers).map.insert workers workers, (new workers).pressure ++ [0]⟩ := by
      rw [new, List.range_succ, List.foldl_append]
      rfl
    rw [next]
    constructor
    · rw [ih.1, List.replicate_succ']
    · intro w small
      rw [HashMap.lookup_insert_eq]
      split_ifs with same
      · rw [same]
      · exact ih.2 w (by omega)

namespace State

/-- `Pool::new`, with the threads of its workers. -/
def start (workers : ℕ) : State := ⟨.new workers, List.replicate workers ⟨[], .building⟩, []⟩

def setCall (s : State) (k : ℕ) (call : Call) : State := { s with calls := s.calls.set k call }

def modifyWorker (s : State) (w : ℕ) (f : Worker → Worker) : State :=
  { s with workers := s.workers.modify w f }

def setPressure (s : State) (w : ℕ) (f : ℕ → ℕ) : State :=
  { s with pool := { s.pool with pressure := s.pool.pressure.modify w f } }

/-- `min_by_key` loads the next counter, or has loaded all of them. -/
def scan (s : State) (k : ℕ) : State :=
  match s.calls[k]? with
  | some (.scanning next least) =>
    match s.pool.pressure[next]? with
    | some counter => s.setCall k (.scanning (next + 1) (some (lesser least (counter, next))))
    | none => s.setCall k (.chosen ((least.map Prod.snd).getD 0))
  | _ => s

/-- `fetch_add`, where the index is not out of bounds. -/
def raise (s : State) (k : ℕ) : State :=
  match s.calls[k]? with
  | some (.chosen w) =>
    if w < s.pool.pressure.length then (s.setPressure w (· + 1)).setCall k (.raised w)
    else s.setCall k .panicked
  | _ => s

/-- `map.get`, and the blocking task; without a sender the counter is lowered again. -/
def look (s : State) (k : ℕ) : State :=
  match s.calls[k]? with
  | some (.raised w) =>
    match s.pool.map.lookup w with
    | some channel => s.setCall k (.sending channel)
    | none => (s.setPressure w (· - 1)).setCall k .notFound
  | _ => s

/-- `sender.send`, which waits for room in the channel and fails once its receiver is gone. -/
def send (queueCapacity : ℕ) (s : State) (k : ℕ) : State :=
  match s.calls[k]? with
  | some (.sending w) =>
    match s.workers[w]? with
    | some worker =>
      if worker.stage = .gone then s.setCall k (.refused w .other false)
      else if worker.HasRoom queueCapacity then
        (s.modifyWorker w fun worker => { worker with channel := worker.channel ++ [k] }).setCall k
          (.accepted w false false)
      else s
    | none => s
  | _ => s

/-- The blocking task ends without having sent the job. -/
def cancel (s : State) (k : ℕ) : State :=
  match s.calls[k]? with
  | some (.sending w) => s.setCall k (.refused w .brokenPipe false)
  | _ => s

/-- `spawn` returns. -/
def answer (s : State) (k : ℕ) : State :=
  match s.calls[k]? with
  | some (.accepted w _ finished) => s.setCall k (.accepted w true finished)
  | some (.refused w error _) => s.setCall k (.refused w error true)
  | _ => s

/-- `fetch_sub` behind `block_on`: the job is finished. -/
def finish (s : State) (w : ℕ) : State :=
  match s.workers[w]? with
  | some ⟨channel, .ran k⟩ =>
    { (s.setPressure w (· - 1)).modifyWorker w fun _ => ⟨channel, .counted⟩ with
      calls := s.calls.modify k Call.finish }
  | _ => s

def step (queueCapacity : ℕ) (s : State) : Turn → State
  | .call => { s with calls := s.calls ++ [.scanning 0 none] }
  | .scan k => s.scan k
  | .raise k => s.raise k
  | .look k => s.look k
  | .send k => s.send queueCapacity k
  | .cancel k => s.cancel k
  | .answer k => s.answer k
  | .build w => s.modifyWorker w Worker.build
  | .receive w => s.modifyWorker w Worker.receive
  | .blockOn w => s.modifyWorker w Worker.blockOn
  | .finish w => s.finish w
  | .again w => s.modifyWorker w Worker.again
  | .panic w => s.modifyWorker w Worker.panic

end State

/-- The worker whose counter the call has raised, as long as nobody has lowered it. -/
def Call.charge : Call → Option ℕ
  | .raised w => some w
  | .sending w => some w
  | .accepted w _ false => some w
  | .refused w _ _ => some w
  | _ => none

/-- The worker whose channel accepted the job, as long as it is not finished. -/
def Call.outstanding : Call → Option ℕ
  | .accepted w _ false => some w
  | _ => none

/-- The worker that was to get the job, once the blocking task has failed. -/
def Call.refusal : Call → Option ℕ
  | .refused w _ _ => some w
  | _ => none

/-- `spawn` has not returned. -/
def Call.InProgress : Call → Prop
  | .scanning _ _ => True
  | .chosen _ => True
  | .raised _ => True
  | .sending _ => True
  | .accepted _ returned _ => returned = false
  | .refused _ _ returned => returned = false
  | .notFound => False
  | .panicked => False

instance : DecidablePred Call.InProgress
  | .scanning _ _ => .isTrue trivial
  | .chosen _ => .isTrue trivial
  | .raised _ => .isTrue trivial
  | .sending _ => .isTrue trivial
  | .accepted _ returned _ => inferInstanceAs (Decidable (returned = false))
  | .refused _ _ returned => inferInstanceAs (Decidable (returned = false))
  | .notFound => .isFalse id
  | .panicked => .isFalse id

/-- The worker to which a blocking task is sending the job. -/
def Call.target : Call → Option ℕ
  | .sending w => some w
  | _ => none

namespace State

def charged (s : State) (w : ℕ) : ℕ := s.calls.countP fun call => call.charge = some w

def outstanding (s : State) (w : ℕ) : ℕ := s.calls.countP fun call => call.outstanding = some w

def refused (s : State) (w : ℕ) : ℕ := s.calls.countP fun call => call.refusal = some w

/-- No call of `spawn` is in progress. -/
def Quiet (s : State) : Prop := ∀ call ∈ s.calls, ¬ call.InProgress

instance (s : State) : Decidable s.Quiet := inferInstanceAs (Decidable (∀ _ ∈ _, _))

/-- A job that is sent finds the receiver of its channel there, and no blocking task ends without
having sent its job. -/
def Handed (s : State) : Turn → Prop
  | .send k => ∀ call ∈ s.calls[k]?, ∀ w ∈ call.target, ∀ worker ∈ s.workers[w]?,
      worker.stage ≠ .gone
  | .cancel k => ∀ call ∈ s.calls[k]?, call.target = none
  | _ => True

instance (s : State) : DecidablePred s.Handed
  | .send _ => inferInstanceAs (Decidable (∀ call ∈ _, ∀ w ∈ Call.target call, ∀ worker ∈ _, _))
  | .cancel _ => inferInstanceAs (Decidable (∀ call ∈ _, Call.target call = none))
  | .call => .isTrue trivial
  | .scan _ => .isTrue trivial
  | .raise _ => .isTrue trivial
  | .look _ => .isTrue trivial
  | .answer _ => .isTrue trivial
  | .build _ => .isTrue trivial
  | .receive _ => .isTrue trivial
  | .blockOn _ => .isTrue trivial
  | .finish _ => .isTrue trivial
  | .again _ => .isTrue trivial
  | .panic _ => .isTrue trivial

/-! ## What the counters count -/

/-- The counters count the calls that have raised them, every worker has its sender, and every job
that a worker holds is on record as accepted by its channel and not finished. -/
structure Balanced (workers : ℕ) (s : State) : Prop where
  length : s.pool.pressure.length = workers
  pressure : ∀ (w p : ℕ), s.pool.pressure[w]? = some p → p = s.charged w
  senders : ∀ w < workers, s.pool.map.lookup w = some w
  charges : ∀ (k w : ℕ) (call : Call), s.calls[k]? = some call → call.charge = some w → w < workers
  nodup : ∀ (w : ℕ) (worker : Worker), s.workers[w]? = some worker → worker.jobs.Nodup
  jobs : ∀ (w : ℕ) (worker : Worker), s.workers[w]? = some worker → ∀ k ∈ worker.jobs,
    ∃ returned, s.calls[k]? = some (.accepted w returned false)

variable {s : State} {k w workers queueCapacity : ℕ} {call call' : Call}

/-- What a count over the calls loses and gains with another record of one call. -/
theorem countP_setCall (P : Call → Prop) [DecidablePred P] (old : s.calls[k]? = some call) :
    ((s.setCall k call').calls.countP fun c => P c) + (if P call then 1 else 0) =
      (s.calls.countP fun c => P c) + if P call' then 1 else 0 := by
  obtain ⟨inside, rfl⟩ := List.getElem?_eq_some_iff.1 old
  have counted : P s.calls[k] → 0 < s.calls.countP fun c => P c := fun holds =>
    List.countP_pos_iff.2 ⟨_, List.getElem_mem inside, decide_eq_true holds⟩
  rw [setCall, List.countP_set inside]
  simp only [decide_eq_true_eq]
  by_cases holds : P s.calls[k]
  · have := counted holds
    rw [if_pos holds]
    omega
  · rw [if_neg holds]
    omega

theorem charged_setCall (old : s.calls[k]? = some call) (call' : Call) (w : ℕ) :
    (s.setCall k call').charged w + (if call.charge = some w then 1 else 0) =
      s.charged w + if call'.charge = some w then 1 else 0 :=
  countP_setCall (fun c => c.charge = some w) old

/-- The other calls keep their records. -/
theorem setCall_other {j : ℕ} (other : k ≠ j) : (s.setCall k call').calls[j]? = s.calls[j]? :=
  List.getElem?_set_ne other

theorem setCall_self (old : s.calls[k]? = some call) :
    (s.setCall k call').calls[k]? = some call' := by
  obtain ⟨inside, -⟩ := List.getElem?_eq_some_iff.1 old
  exact List.getElem?_set_self inside

namespace Balanced

/-- A changed counter, told by what the counters count. -/
theorem pressure_modify (h : s.Balanced workers) {f : ℕ → ℕ} {v p : ℕ}
    (found : (s.pool.pressure.modify w f)[v]? = some p) :
    p = if w = v then f (s.charged v) else s.charged v := by
  rw [List.getElem?_modify] at found
  obtain ⟨old, here, rfl⟩ := Option.map_eq_some_iff.1 found
  rw [h.pressure v old here]

theorem charges_setCall (h : s.Balanced workers) (old : s.calls[k]? = some call)
    (inside : ∀ w, call'.charge = some w → w < workers) (j w : ℕ) (c : Call)
    (found : (s.setCall k call').calls[j]? = some c) (charge : c.charge = some w) :
    w < workers := by
  by_cases same : k = j
  · subst same
    obtain rfl := Option.some.inj ((setCall_self old).symm.trans found)
    exact inside w charge
  · exact h.charges j w c ((setCall_other same).symm.trans found) charge

/-- The jobs of a worker stay on record where an unfinished job does not become another. -/
theorem jobs_setCall (h : s.Balanced workers) (old : s.calls[k]? = some call)
    (kept : ∀ w returned, call = .accepted w returned false →
      ∃ returned', call' = .accepted w returned' false)
    {worker : Worker} (found : s.workers[w]? = some worker) {j : ℕ} (held : j ∈ worker.jobs) :
    ∃ returned, (s.setCall k call').calls[j]? = some (.accepted w returned false) := by
  obtain ⟨returned, accepted⟩ := h.jobs w worker found j held
  by_cases same : k = j
  · subst same
    obtain ⟨returned', kept⟩ := kept w returned (Option.some.inj (old.symm.trans accepted))
    exact ⟨returned', (setCall_self old).trans (congrArg some kept)⟩
  · exact ⟨returned, (setCall_other same).trans accepted⟩

/-- A call goes on without a change to what it has raised. -/
theorem setCall (h : s.Balanced workers) (old : s.calls[k]? = some call)
    (charge : call'.charge = call.charge)
    (kept : ∀ w returned, call = .accepted w returned false →
      ∃ returned', call' = .accepted w returned' false) :
    (s.setCall k call').Balanced workers where
  length := h.length
  pressure w p found := by
    have counts := charged_setCall old call' w
    rw [charge] at counts
    exact (h.pressure w p found).trans (Nat.add_right_cancel counts).symm
  senders := h.senders
  charges := h.charges_setCall old fun w raised => h.charges k w call old (charge.symm.trans raised)
  nodup := h.nodup
  jobs _ _ found _ held := h.jobs_setCall old kept found held

/-- A worker goes on with the jobs that it holds, or loses them. -/
theorem modifyWorker (h : s.Balanced workers) {f : Worker → Worker}
    (fewer : ∀ worker, (f worker).jobs.Sublist worker.jobs) :
    (s.modifyWorker w f).Balanced workers := by
  have origin : ∀ (v : ℕ) (worker : Worker), (s.modifyWorker w f).workers[v]? = some worker →
      ∃ old, s.workers[v]? = some old ∧ worker.jobs.Sublist old.jobs := by
    intro v worker found
    rw [State.modifyWorker, List.getElem?_modify] at found
    obtain ⟨old, here, rfl⟩ := Option.map_eq_some_iff.1 found
    refine ⟨old, here, ?_⟩
    split_ifs
    · exact fewer old
    · exact .refl _
  refine ⟨h.length, h.pressure, h.senders, h.charges, fun v worker found => ?_,
    fun v worker found k held => ?_⟩
  · obtain ⟨old, here, sub⟩ := origin v worker found
    exact (h.nodup v old here).sublist sub
  · obtain ⟨old, here, sub⟩ := origin v worker found
    exact h.jobs v old here k (sub.subset held)

/-- A call begins. -/
theorem begin (h : s.Balanced workers) :
    Balanced workers { s with calls := s.calls ++ [.scanning 0 none] } := by
  have before : ∀ {j : ℕ} {call : Call}, call ≠ .scanning 0 none →
      ((s.calls ++ [.scanning 0 none])[j]? = some call ↔ s.calls[j]? = some call) := by
    intro j call other
    rw [List.getElem?_append]
    split_ifs with inside
    · rfl
    · rw [List.getElem?_eq_none (not_lt.1 inside), List.getElem?_singleton]
      split_ifs <;> simp [other.symm]
  refine ⟨h.length, fun w p found => ?_, h.senders, fun k w call found charge => ?_, h.nodup,
    fun w worker found k held => ?_⟩
  · rw [h.pressure w p found, charged, charged, List.countP_append]
    rfl
  · refine h.charges k w call ((before ?_).1 found) charge
    rintro rfl
    cases charge
  · obtain ⟨returned, accepted⟩ := h.jobs w worker found k held
    exact ⟨returned, (before (by simp)).2 accepted⟩

theorem scan (h : s.Balanced workers) (k : ℕ) : (s.scan k).Balanced workers := by
  unfold State.scan
  split
  next next least old =>
    split
    · exact h.setCall old rfl (fun _ _ same => by cases same)
    · exact h.setCall old rfl (fun _ _ same => by cases same)
  · exact h

theorem raise (h : s.Balanced workers) (k : ℕ) : (s.raise k).Balanced workers := by
  unfold State.raise
  split
  next w old =>
    split_ifs with inside
    · refine ⟨(List.length_modify ..).trans h.length, fun v p found => ?_, h.senders,
        h.charges_setCall old fun v raised => ?_, h.nodup, fun v worker found j held =>
          h.jobs_setCall old (fun _ _ same => by cases same) found held⟩
      · have counts := charged_setCall old (.raised w) v
        simp only [Call.charge, reduceCtorEq, if_false, Option.some.injEq] at counts
        change p = (s.setCall k (.raised w)).charged v
        rw [h.pressure_modify found]
        split_ifs at * <;> omega
      · cases raised
        exact inside.trans_eq h.length
    · exact h.setCall old rfl (fun _ _ same => by cases same)
  · exact h

/-- Every worker has its sender, so the counter is not lowered again. -/
theorem look (h : s.Balanced workers) (k : ℕ) : (s.look k).Balanced workers := by
  unfold State.look
  split
  next w old =>
    rw [h.senders w (h.charges k w _ old rfl)]
    exact h.setCall old rfl (fun _ _ same => by cases same)
  · exact h

/-- The channel takes the job. -/
theorem accept (h : s.Balanced workers) (old : s.calls[k]? = some (.sending w)) :
    ((s.modifyWorker w fun worker => { worker with channel := worker.channel ++ [k] }).setCall k
      (.accepted w false false)).Balanced workers := by
  have new : (s.setCall k (.accepted w false false)).calls[k]? = some (.accepted w false false) :=
    setCall_self old
  -- a job that is being sent is held by no worker
  have absent : ∀ (v : ℕ) (worker : Worker), s.workers[v]? = some worker → k ∉ worker.jobs := by
    intro v worker found held
    obtain ⟨returned, accepted⟩ := h.jobs v worker found k held
    cases old.symm.trans accepted
  have origin : ∀ (v : ℕ) (worker : Worker),
      (s.workers.modify w fun worker => { worker with channel := worker.channel ++ [k] })[v]? =
        some worker → ∃ before, s.workers[v]? = some before ∧
          worker.jobs = if w = v then before.jobs ++ [k] else before.jobs := by
    intro v worker found
    rw [List.getElem?_modify] at found
    obtain ⟨before, here, rfl⟩ := Option.map_eq_some_iff.1 found
    refine ⟨before, here, ?_⟩
    split_ifs
    · exact before.jobs_push k
    · rfl
  refine ⟨h.length, fun v p found => ?_, h.senders, h.charges_setCall old fun v raised => ?_,
    fun v worker found => ?_, fun v worker found j held => ?_⟩
  · have counts := charged_setCall old (.accepted w false false) v
    exact (h.pressure v p found).trans (Nat.add_right_cancel counts).symm
  · exact h.charges k v _ old raised
  · obtain ⟨before, here, jobs⟩ := origin v worker found
    rw [jobs]
    split_ifs
    · rw [← List.concat_eq_append]
      exact (h.nodup v before here).concat (absent v before here)
    · exact h.nodup v before here
  · obtain ⟨before, here, jobs⟩ := origin v worker found
    have kept : j ∈ before.jobs → ∃ returned,
        (s.setCall k (.accepted w false false)).calls[j]? = some (.accepted v returned false) :=
      h.jobs_setCall old (fun _ _ same => by cases same) here
    rw [jobs] at held
    split_ifs at held with same
    · rcases List.mem_append.1 held with held | last
      · exact kept held
      · obtain rfl := List.mem_singleton.1 last
        exact ⟨false, same ▸ new⟩
    · exact kept held

theorem send (h : s.Balanced workers) (k : ℕ) : (s.send queueCapacity k).Balanced workers := by
  unfold State.send
  split
  next w old =>
    split
    next worker found =>
      split_ifs with dead room
      · exact h.setCall old rfl (fun _ _ same => by cases same)
      · exact h.accept old
      · exact h
    · exact h
  · exact h

theorem cancel (h : s.Balanced workers) (k : ℕ) : (s.cancel k).Balanced workers := by
  unfold State.cancel
  split
  next w old => exact h.setCall old rfl (fun _ _ same => by cases same)
  · exact h

theorem answer (h : s.Balanced workers) (k : ℕ) : (s.answer k).Balanced workers := by
  unfold State.answer
  split
  next w returned finished old =>
    refine h.setCall old ?_ fun v returned' same => ?_
    · cases finished <;> rfl
    · cases same
      exact ⟨true, rfl⟩
  next w error returned old =>
    exact h.setCall old rfl (fun _ _ same => by cases same)
  · exact h

/-- Behind `fetch_sub` the job belongs to no worker any more. -/
theorem jobs_finish (h : s.Balanced workers) {channel : List ℕ}
    (found : s.workers[w]? = some ⟨channel, .ran k⟩) (v : ℕ) (worker : Worker)
    (here : (s.workers.modify w fun _ => ⟨channel, .counted⟩)[v]? = some worker) :
    worker.jobs.Nodup ∧ ∀ j ∈ worker.jobs, k ≠ j ∧
      ∃ returned, s.calls[j]? = some (.accepted v returned false) := by
  have held : k ∈ Worker.jobs ⟨channel, .ran k⟩ := List.mem_cons_self
  obtain ⟨returned, old⟩ := h.jobs w _ found k held
  obtain ⟨notInChannel, nodup⟩ := List.nodup_cons.1 (h.nodup w _ found)
  rw [List.getElem?_modify] at here
  obtain ⟨before, unchanged, rfl⟩ := Option.map_eq_some_iff.1 here
  split_ifs with same
  · subst same
    refine ⟨nodup, fun j inside => ⟨?_, h.jobs w _ found j (List.mem_cons_of_mem _ inside)⟩⟩
    rintro rfl
    exact notInChannel inside
  · refine ⟨h.nodup v before unchanged, fun j inside => ?_⟩
    obtain ⟨returned', accepted⟩ := h.jobs v before unchanged j inside
    refine ⟨?_, returned', accepted⟩
    rintro rfl
    cases old.symm.trans accepted
    exact same rfl

/-- The worker lowers the counter that the call for its job has raised. -/
theorem finish (h : s.Balanced workers) (w : ℕ) : (s.finish w).Balanced workers := by
  unfold State.finish
  split
  next channel k found =>
    have held : k ∈ Worker.jobs ⟨channel, .ran k⟩ := List.mem_cons_self
    obtain ⟨returned, old⟩ := h.jobs w _ found k held
    have counted : s.calls.modify k Call.finish = s.calls.set k (.accepted w returned true) := by
      rw [List.modify_eq_set_getElem?, old]
      rfl
    rw [counted]
    refine ⟨(List.length_modify ..).trans h.length, fun v p here => ?_, h.senders,
      h.charges_setCall old fun v raised => ?_, fun v worker here =>
        (h.jobs_finish found v worker here).1, fun v worker here j inside => ?_⟩
    · have counts := charged_setCall old (.accepted w returned true) v
      simp only [Call.charge, reduceCtorEq, if_false, Option.some.injEq, Nat.add_zero] at counts
      change p = (s.setCall k (.accepted w returned true)).charged v
      rw [h.pressure_modify here]
      split_ifs at * <;> omega
    · cases raised
    · obtain ⟨other, returned', accepted⟩ := (h.jobs_finish found v worker here).2 j inside
      exact ⟨returned', (setCall_other other).trans accepted⟩
  · exact h

theorem start (workers : ℕ) : (State.start workers).Balanced workers where
  length := by
    change (Pool.new workers).pressure.length = workers
    rw [(new_spec workers).1, List.length_replicate]
  pressure w p found := by
    change (Pool.new workers).pressure[w]? = some p at found
    rw [(new_spec workers).1] at found
    obtain rfl := List.eq_of_mem_replicate (List.mem_of_getElem? found)
    rfl
  senders := (new_spec workers).2
  charges k w call found := by cases found
  nodup w worker found := by
    obtain rfl := List.eq_of_mem_replicate (List.mem_of_getElem? found)
    exact .nil
  jobs w worker found k held := by
    obtain rfl := List.eq_of_mem_replicate (List.mem_of_getElem? found)
    cases held

theorem step (h : s.Balanced workers) (turn : Turn) :
    (s.step queueCapacity turn).Balanced workers := by
  cases turn with
  | call => exact h.begin
  | scan k => exact h.scan k
  | raise k => exact h.raise k
  | look k => exact h.look k
  | send k => exact h.send k
  | cancel k => exact h.cancel k
  | answer k => exact h.answer k
  | build w => exact h.modifyWorker fun worker => by rw [Worker.jobs_build]
  | receive w => exact h.modifyWorker fun worker => by rw [Worker.jobs_receive]
  | blockOn w => exact h.modifyWorker fun worker => by rw [Worker.jobs_blockOn]
  | finish w => exact h.finish w
  | again w => exact h.modifyWorker fun worker => by rw [Worker.jobs_again]
  | panic w => exact h.modifyWorker Worker.jobs_panic

end Balanced

end State

end Pool

end DataBroker
