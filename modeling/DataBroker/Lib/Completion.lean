import DataBroker.Lib.Contract
import Mathlib.Data.Multiset.DershowitzManna
import Mathlib.SetTheory.Ordinal.Family

/-!
# Systems that come to rest

A program has a rank, an ordinal that each of its operations lowers, whatever the state and the
environment answer. A task that stands in line has done a half of its `acquire`. The multiset of
these ranks falls with every turn of a task that can go on (`System.Sound.work_run`), so tasks that
get no company do not go on for ever. Where none can go on but some that are held up from outside,
each task is done, or held up, or waits for one that is, or there is a deadlock
(`System.Sound.rest`).
-/

/-- What falls with every move and stays the same otherwise makes the moves come to an end. -/
theorem WellFounded.exists_quiet {α : Type*} {r : α → α → Prop} (wf : WellFounded r) {f : ℕ → α}
    {moves : ℕ → Prop} (falls : ∀ n, moves n → r (f (n + 1)) (f n))
    (same : ∀ n, ¬ moves n → f (n + 1) = f n) : ∃ N, ∀ n, N ≤ n → ¬ moves n := by
  obtain ⟨least, ⟨N, rfl⟩, lowest⟩ := wf.has_min (Set.range f) ⟨_, 0, rfl⟩
  have quiet : ∀ n, f n = f N → ¬ moves n := fun n here move =>
    lowest _ ⟨n + 1, rfl⟩ (here ▸ falls n move)
  refine ⟨N, fun n later => quiet n ?_⟩
  induction n, later using Nat.le_induction with
  | base => rfl
  | succ n _ ih => rw [same n (quiet n ih), ih]

/-- The values `f u` below `n`, of which the one at `t` falls, the others do not rise, and new ones
come in below the one at `t`. -/
theorem Multiset.isDershowitzMannaLT_map_range {α : Type*} [Preorder α] {f g : ℕ → α} {n m t : ℕ}
    (inside : t < n) (more : n ≤ m) (falls : g t < f t)
    (others : ∀ u < n, u ≠ t → g u = f u ∨ g u < f u) (new : ∀ u < m, n ≤ u → g u < f t) :
    IsDershowitzMannaLT ((range m).map g) ((range n).map f) := by
  classical
  obtain ⟨k, rfl⟩ := Nat.exists_eq_add_of_le more
  have split : (range (n + k)).map g =
      (range n).map g + (range k).map fun i => g (n + i) := by
    rw [range_add, map_add, map_map]
    rfl
  have parts (h : ℕ → α) : (range n).map h =
      ((range n).filter fun u => g u = f u).map h +
        ((range n).filter fun u => ¬ g u = f u).map h := by
    rw [← map_add, filter_add_not]
  have same : ((range n).filter fun u => g u = f u).map g =
      ((range n).filter fun u => g u = f u).map f :=
    map_congr rfl fun u hu => (mem_filter.1 hu).2
  have changed : t ∈ (range n).filter fun u => ¬ g u = f u :=
    mem_filter.2 ⟨mem_range.2 inside, falls.ne⟩
  refine ⟨_, ((range n).filter fun u => ¬ g u = f u).map g + (range k).map fun i => g (n + i), _, ?_,
    ?_, parts f, ?_⟩
  · intro none
    exact notMem_zero _ (none ▸ mem_map_of_mem f changed)
  · rw [split, parts g, same, add_assoc]
  · intro y hy
    rcases mem_add.1 hy with hy | hy
    · obtain ⟨u, hu, rfl⟩ := mem_map.1 hy
      refine ⟨f u, mem_map_of_mem f hu, ?_⟩
      obtain ⟨below, differs⟩ := mem_filter.1 hu
      by_cases self : u = t
      · exact self ▸ falls
      · exact (others u (mem_range.1 below) self).resolve_left differs
    · obtain ⟨i, hi, rfl⟩ := mem_map.1 hy
      have := mem_range.1 hi
      exact ⟨f t, mem_map_of_mem f changed, new (n + i) (by omega) (by omega)⟩

/-- Another request leaves those who wait where they are, and no others. -/
theorem FairLock.waits_request_other {τ : Type*} {l : FairLock τ} {t u : τ} {access : Access}
    (other : u ≠ t) : (l.request t access).Waits u ↔ l.Waits u := by
  refine ⟨fun ⟨r, inside, own⟩ => ?_, waits_of_waits⟩
  rcases mem_waiting_request inside with old | rfl
  · exact ⟨r, old, own⟩
  · exact absurd own.symm other

theorem FairLock.eq_unheld {τ : Type*} {l : FairLock τ} (holders : ∀ h, h ∉ l.holders)
    (waiting : ∀ r, r ∉ l.waiting) : l = unheld := by
  obtain ⟨held, line⟩ := l
  obtain rfl : held = [] := List.eq_nil_iff_forall_not_mem.2 holders
  obtain rfl : line = [] := List.eq_nil_iff_forall_not_mem.2 waiting
  rfl

variable {κ α σ ε : Type}

namespace Program

/-- How much a program has before it. An `acquire` counts twice, for standing in line. -/
noncomputable def rank : Program κ α σ ε → Ordinal.{0}
  | done => 0
  | acquire _ _ next => next.rank + 1 + 1
  | release _ next => next.rank + 1
  | perform _ next => ⨆ s, (next s).rank + 1
  | await _ next => ⨆ answer, (next answer).rank + 1
  | spawn task next => max task.rank next.rank + 1

theorem rank_perform (action : α) (next : σ → Program κ α σ ε) (s : σ) :
    (next s).rank < (perform action next : Program κ α σ ε).rank :=
  Ordinal.lt_iSup_add_one (fun s => (next s).rank) s

theorem rank_await (event : ε) (next : Bool → Program κ α σ ε) (answer : Bool) :
    (next answer).rank < (await event next).rank :=
  Ordinal.lt_iSup_add_one (fun answer => (next answer).rank) answer

end Program

namespace System

/-- The task has something to do and stands in no line. -/
def Ready (c : System κ α σ ε) (t : ℕ) : Prop :=
  c.tasks t ≠ .done ∧ ∀ lock, ¬ (c.locks lock).Waits t

open Classical in
/-- What the task has before it. In line, it is between the halves of its `acquire`. -/
noncomputable def weight (c : System κ α σ ε) (t : ℕ) : Ordinal.{0} :=
  if ∃ lock, (c.locks lock).Waits t then (c.tasks t).resume.rank + 1 else (c.tasks t).rank

/-- What the tasks have before them. -/
noncomputable def work (c : System κ α σ ε) : Multiset Ordinal.{0} :=
  (Multiset.range c.started).map c.weight

variable {c c' : System κ α σ ε} {t u : ℕ} {lock : κ} {access : Access} {next : Program κ α σ ε}

theorem weight_active (active : ∀ lock, ¬ (c.locks lock).Waits t) (program : c.tasks t = next) :
    c.weight t = next.rank := by
  rw [weight, if_neg fun ⟨lock, waits⟩ => active lock waits, program]

theorem weight_inLine (waits : (c.locks lock).Waits t)
    (program : c.tasks t = .acquire lock access next) : c.weight t = next.rank + 1 := by
  rw [weight, if_pos ⟨lock, waits⟩, program]
  rfl

theorem weight_congr (tasks : c'.tasks u = c.tasks u)
    (waits : ∀ lock, (c'.locks lock).Waits u ↔ (c.locks lock).Waits u) :
    c'.weight u = c.weight u := by
  classical
  unfold weight
  rw [tasks]
  exact if_congr (exists_congr waits) rfl rfl

variable [DecidableEq κ]

/-- Who waits after one lock changed, where that lock has the same line. -/
theorem waits_update {l : FairLock ℕ} (same : l.Waits u ↔ (c.locks lock).Waits u) (lock' : κ) :
    (Function.update c.locks lock l lock').Waits u ↔ (c.locks lock').Waits u := by
  by_cases here : lock' = lock
  · subst here
    rwa [Function.update_self]
  · rw [Function.update_of_ne here]

namespace Sound

variable {K : Contract κ α σ ε} {act : α → σ → σ} {s : σ}

/-- A new task is in no line. -/
theorem active_started (sound : c.Sound K act) (lock : κ) : ¬ (c.locks lock).Waits c.started := by
  apply sound.not_waits
  intro access next program
  rw [sound.idle _ le_rfl] at program
  cases program

/-- One task goes on, the others stay where they are. -/
theorem work_lt {tasks : ℕ → Program κ α σ ε} {locks : κ → FairLock ℕ} (sound : c.Sound K act)
    (ready : c.Ready t) (falls : weight ⟨s, locks, tasks, c.started⟩ t < c.weight t)
    (others : ∀ u, u ≠ t → tasks u = c.tasks u)
    (waits : ∀ u, u ≠ t → ∀ lock, (locks lock).Waits u ↔ (c.locks lock).Waits u) :
    Multiset.IsDershowitzMannaLT (work ⟨s, locks, tasks, c.started⟩) c.work := by
  refine Multiset.isDershowitzMannaLT_map_range (sound.lt_started ready.1) le_rfl falls ?_ ?_
  · exact fun u _ other => .inl (weight_congr (others u other) (waits u other))
  · exact fun u below above => absurd below (not_lt.2 above)

/-- A task goes on, with the locks as they are. -/
theorem work_move (sound : c.Sound K act) (ready : c.Ready t)
    (lower : next.rank < (c.tasks t).rank) :
    Multiset.IsDershowitzMannaLT
      (work { c with state := s, tasks := Function.update c.tasks t next }) c.work := by
  refine sound.work_lt ready ?_ (fun u other => Function.update_of_ne other ..) fun _ _ _ => Iff.rfl
  rw [weight_active (c := c) ready.2 rfl]
  exact lt_of_eq_of_lt (weight_active ready.2 (Function.update_self ..)) lower

/-- A task comes to stand in line. -/
theorem work_line (sound : c.Sound K act) (ready : c.Ready t)
    (program : c.tasks t = .acquire lock access next)
    (waits : ((c.locks lock).request t access).Waits t) :
    Multiset.IsDershowitzMannaLT (work { c with
      locks := Function.update c.locks lock ((c.locks lock).request t access) }) c.work := by
  refine sound.work_lt ready ?_ (fun _ _ => rfl) fun u other =>
    waits_update (FairLock.waits_request_other other)
  rw [weight_active ready.2 program]
  have inLine : (Function.update c.locks lock ((c.locks lock).request t access) lock).Waits t := by
    rwa [Function.update_self]
  exact lt_of_eq_of_lt (weight_inLine inLine program) (Order.lt_add_one_iff.2 le_rfl)

/-- A task takes a lock. -/
theorem work_grant (sound : c.Sound K act) (ready : c.Ready t)
    (program : c.tasks t = .acquire lock access next)
    (granted : ¬ ((c.locks lock).request t access).Waits t) :
    Multiset.IsDershowitzMannaLT (work { c with
      locks := Function.update c.locks lock ((c.locks lock).request t access)
      tasks := Function.update c.tasks t next }) c.work := by
  refine sound.work_lt ready ?_ (fun u other => Function.update_of_ne other ..) fun u other =>
    waits_update (FairLock.waits_request_other other)
  rw [weight_active ready.2 program]
  refine lt_of_eq_of_lt (weight_active (fun lock' waits => ?_) (Function.update_self ..)) ?_
  · exact ready.2 lock' ((waits_update (iff_of_false granted (ready.2 lock)) lock').1 waits)
  · exact (Order.lt_add_one_iff.2 le_rfl).trans (Order.lt_add_one_iff.2 le_rfl)

/-- A task gives a lock back, and those who are let in go on. -/
theorem work_release (sound : c.Sound K act) (ready : c.Ready t)
    (program : c.tasks t = .release lock next) :
    Multiset.IsDershowitzMannaLT (work { c with
      locks := Function.update c.locks lock ((c.locks lock).release t)
      tasks := Function.update (c.afterRelease lock t) t next }) c.work := by
  -- who waits behind the release waited before it
  have older : ∀ u lock', (Function.update c.locks lock ((c.locks lock).release t) lock').Waits u →
      (c.locks lock').Waits u := by
    intro u lock' waits
    by_cases here : lock' = lock
    · subst here
      rw [Function.update_self] at waits
      obtain ⟨r, inside, own⟩ := waits
      exact ⟨r, FairLock.mem_waiting_release inside, own⟩
    · rwa [Function.update_of_ne here] at waits
  refine Multiset.isDershowitzMannaLT_map_range (sound.lt_started ready.1) le_rfl ?_ ?_ ?_
  · rw [weight_active ready.2 program]
    have active := fun lock' waits => ready.2 lock' (older t lock' waits)
    exact lt_of_eq_of_lt (weight_active active (Function.update_self ..))
      (Order.lt_add_one_iff.2 le_rfl)
  · intro u _ other
    have tasks : Function.update (c.afterRelease lock t) t next u = c.afterRelease lock t u :=
      Function.update_of_ne other ..
    by_cases letIn : (c.locks lock).Waits u ∧ ¬ ((c.locks lock).release t).Waits u
    · obtain ⟨access, next', program'⟩ := sound.acquires letIn.1
      have resumed : c.afterRelease lock t u = next' := by
        rw [afterRelease, if_pos letIn, program']
        rfl
      right
      rw [weight_inLine letIn.1 program']
      have active : ∀ lock',
          ¬ (Function.update c.locks lock ((c.locks lock).release t) lock').Waits u := by
        intro lock' waits
        obtain rfl := sound.waits_once letIn.1 (older u lock' waits)
        rw [Function.update_self] at waits
        exact letIn.2 waits
      exact lt_of_eq_of_lt (weight_active active (tasks.trans resumed))
        (Order.lt_add_one_iff.2 le_rfl)
    · refine .inl (weight_congr (tasks.trans (if_neg letIn)) (waits_update ⟨fun waits => ?_, ?_⟩))
      · obtain ⟨r, inside, own⟩ := waits
        exact ⟨r, FairLock.mem_waiting_release inside, own⟩
      · exact fun waits => by_contra fun gone => letIn ⟨waits, gone⟩
  · exact fun u below above => absurd below (not_lt.2 above)

/-- A task starts another one. -/
theorem work_spawn {task : Program κ α σ ε} (sound : c.Sound K act) (ready : c.Ready t)
    (program : c.tasks t = .spawn task next) :
    Multiset.IsDershowitzMannaLT
      (work (System.add { c with tasks := Function.update c.tasks t next } task)) c.work := by
  have known := sound.lt_started ready.1
  have falls : max task.rank next.rank < c.weight t := by
    rw [weight_active ready.2 program]
    exact Order.lt_add_one_iff.2 le_rfl
  have tasks : ∀ u, u ≠ c.started →
      Function.update (Function.update c.tasks t next) c.started task u =
        Function.update c.tasks t next u := fun u other => Function.update_of_ne other ..
  refine Multiset.isDershowitzMannaLT_map_range known (Nat.le_succ _) ?_ ?_ ?_
  · have goesOn := (tasks t known.ne).trans (Function.update_self ..)
    exact lt_of_eq_of_lt (weight_active ready.2 goesOn) ((le_max_right ..).trans_lt falls)
  · intro u below other
    exact .inl (weight_congr ((tasks u below.ne).trans (Function.update_of_ne other ..))
      fun _ => Iff.rfl)
  · intro u below above
    obtain rfl : u = c.started := le_antisymm (Nat.lt_succ_iff.1 below) above
    exact lt_of_eq_of_lt (weight_active sound.active_started (Function.update_self ..))
      ((le_max_left ..).trans_lt falls)

/-- A turn of a task that can go on takes from the work. -/
theorem work_run (sound : c.Sound K act) (ready : c.Ready t) (answer : Bool) :
    Multiset.IsDershowitzMannaLT (c.run act t answer).work c.work := by
  cases program : c.tasks t with
  | done => exact absurd program ready.1
  | acquire lock access next =>
    rw [run, program]
    dsimp only
    rw [if_neg (ready.2 lock)]
    split_ifs with waits
    · exact sound.work_line ready program waits
    · exact sound.work_grant ready program waits
  | release lock next =>
    rw [run, program]
    exact sound.work_release ready program
  | perform action next =>
    rw [run, program]
    exact sound.work_move ready (program ▸ Program.rank_perform action next c.state)
  | await event next =>
    rw [run, program]
    exact sound.work_move ready (program ▸ Program.rank_await event next answer)
  | spawn task next =>
    rw [run, program]
    exact sound.work_spawn ready program

/-- A task that cannot go on has no use of its turn. -/
theorem run_of_not_ready (sound : c.Sound K act) (stands : ¬ c.Ready t) (answer : Bool) :
    c.run act t answer = c := by
  by_cases done : c.tasks t = .done
  · rw [run, done]
  · obtain ⟨lock, waits⟩ : ∃ lock, (c.locks lock).Waits t := by
      simpa [Ready, done] using stands
    obtain ⟨access, next, program⟩ := sound.acquires waits
    rw [run, program]
    exact if_pos waits

/-- A task that is done holds nothing. -/
theorem busy_of_holds (sound : c.Sound K act) (holds : (t, access) ∈ (c.locks lock).holders) :
    c.held t lock ≠ none ∧ c.tasks t ≠ .done := by
  have held : c.held t lock = some access := (FairLock.mode_eq_some (sound.locks lock)).2 holds
  refine ⟨held ▸ Option.some_ne_none _, fun program => ?_⟩
  have meets := sound.meets t
  rw [program] at meets
  exact Option.some_ne_none _ (held.symm.trans (meets lock))

/-- The first in a line waits for one who holds the lock. -/
theorem holder_of_waits (sound : c.Sound K act) (waits : (c.locks lock).Waits t) :
    ∃ h, h ∈ (c.locks lock).holders := by
  obtain ⟨r, inLine, -⟩ := waits
  obtain ⟨first, front⟩ : ∃ first, (c.locks lock).waiting.head? = some first := by
    cases line : (c.locks lock).waiting with
    | nil => rw [line] at inLine; cases inLine
    | cons first rest => exact ⟨first, rfl⟩
  have blocked := (sound.locks lock).blocked first front
  by_contra free
  rw [List.eq_nil_iff_forall_not_mem.2 fun h inside => free ⟨h, inside⟩] at blocked
  cases mode : first.2 with
  | read => exact blocked (mode ▸ fun h inside => by cases inside)
  | write => exact blocked (mode ▸ rfl)

theorem unheld_of_done (sound : c.Sound K act) (done : ∀ t, c.tasks t = .done) (lock : κ) :
    c.locks lock = .unheld := by
  refine FairLock.eq_unheld (fun h holds => ?_) fun r inLine => ?_
  · exact (sound.busy_of_holds holds).2 (done h.1)
  · obtain ⟨access, next, program⟩ := sound.acquires ⟨r, inLine, rfl⟩
    cases program.symm.trans (done r.1)

/-- A task in line waits for another one, which has something to do. -/
theorem waitsFor_of_waits (sound : c.Sound K act) (waits : (c.locks lock).Waits t) :
    ∃ u, u ≠ t ∧ c.WaitsFor t u ∧ c.tasks u ≠ .done := by
  obtain ⟨h, holds⟩ := sound.holder_of_waits waits
  obtain ⟨held, active⟩ := sound.busy_of_holds holds
  refine ⟨h.1, ?_, ⟨lock, waits, held⟩, active⟩
  rintro rfl
  exact FairLock.not_waits_of_holds (sound.locks lock) held waits

/-- Where no task can go on but some that are held up, each task is done, or held up, or waits for
one that is, or others have come to a deadlock. -/
theorem rest (sound : c.Sound K act) {heldUp : ℕ → Prop} (still : ∀ t, c.Ready t → heldUp t) :
    (∀ t, c.tasks t = .done ∨ heldUp t ∨ ∃ u, heldUp u ∧ Relation.TransGen c.WaitsFor t u) ∨
      ∃ S, c.Deadlock S ∧ ∀ t ∈ S, ¬ heldUp t := by
  by_cases settled : ∀ t, c.tasks t = .done ∨ heldUp t ∨
      ∃ u, heldUp u ∧ Relation.TransGen c.WaitsFor t u
  · exact .inl settled
  -- those that do not wait for anybody who is held up wait for each other
  refine .inr ⟨{t | ¬ (c.tasks t = .done ∨ heldUp t ∨
    ∃ u, heldUp u ∧ Relation.TransGen c.WaitsFor t u)}, ⟨not_forall.1 settled, fun t stuck => ?_⟩,
    fun t stuck up => stuck (.inr (.inl up))⟩
  obtain ⟨lock, waits⟩ : ∃ lock, (c.locks lock).Waits t := by
    by_contra free
    exact stuck (.inr (.inl (still t ⟨fun done => stuck (.inl done), not_exists.1 free⟩)))
  obtain ⟨u, other, waitsFor, active⟩ := sound.waitsFor_of_waits waits
  refine ⟨u, ?_, other, waitsFor⟩
  rintro (done | up | ⟨v, up, chain⟩)
  · exact active done
  · exact stuck (.inr (.inr ⟨u, up, .single waitsFor⟩))
  · exact stuck (.inr (.inr ⟨v, up, .head waitsFor chain⟩))

end Sound

end System
