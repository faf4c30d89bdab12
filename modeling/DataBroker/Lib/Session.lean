import DataBroker.Lib.Contract
import Mathlib.Algebra.Order.BigOperators.Group.Finset
import Mathlib.Algebra.Order.Ring.Nat

/-!
# Sessions of programs

What a task does to the shared state, the answers it gets to the events it waits for and the tasks
it starts walk an automaton. A `Session` is such an automaton; `Program.Follows` says of a program
that it keeps to it from a state on, and ends only where the session may end.

`System.Kept` holds in every run of such programs: the deeds of each task walk the automaton, and
the answers heard and those still owed add up to what came in.
-/

open Function (update update_self update_of_ne)

variable {κ α σ ε β : Type}

/-- What a task does before the eyes of others: it does an action in some state, gets the answer to
an event that it waited for, or starts another task. -/
inductive Deed (α σ ε : Type) where
  | acts (action : α) (s : σ)
  | hears (event : ε) (answer : Bool)
  | starts (u : ℕ)

/-- An automaton over the deeds of a task.
* `given`: what may be assumed of the state in which an action is done.
* `acts`, `hears`: the deeds that are allowed in a state, and the state behind them.
* `forks`: the states of a new task and of the task that starts it.
* `enters`, `ends`: where a task from outside may begin, and where a task may end.
* `worth`: what an answer counts, `owed`: what a task in a state still has to hear. -/
structure Session (α σ ε β : Type) where
  given : α → σ → Prop
  acts : β → α → σ → β → Prop
  hears : β → ε → Bool → β → Prop
  forks : β → β → β → Prop
  enters : β → Prop
  ends : β → Prop
  worth : ε → Bool → ℕ
  owed : β → ℕ

/-- Nothing that is owed is lost or made up. -/
structure Session.Lawful (P : Session α σ ε β) : Prop where
  acts : ∀ b action s b', P.acts b action s b' → P.owed b' = P.owed b
  hears : ∀ b event answer b', P.hears b event answer b' →
    P.worth event answer + P.owed b' = P.owed b
  forks : ∀ b b₁ b₂, P.forks b b₁ b₂ → P.owed b₁ + P.owed b₂ = P.owed b

namespace Session

/-- A deed leads from a state to another. -/
def Next (P : Session α σ ε β) (b : β) : Deed α σ ε → β → Prop
  | .acts action s, b' => P.acts b action s b'
  | .hears event answer, b' => P.hears b event answer b'
  | .starts _, b' => ∃ b₁, P.forks b b₁ b'

/-- Some deeds lead from a state to another. -/
inductive Walk (P : Session α σ ε β) (b : β) : List (Deed α σ ε) → β → Prop where
  | nil : Walk P b [] b
  | snoc {deeds : List (Deed α σ ε)} {deed : Deed α σ ε} {b' b'' : β} (before : Walk P b deeds b')
      (last : P.Next b' deed b'') : Walk P b (deeds ++ [deed]) b''

section Walk

variable {P : Session α σ ε β} {b b'' : β} {deed : Deed α σ ε} {deeds deeds' : List (Deed α σ ε)}

theorem Walk.eq_of_nil (walk : P.Walk b [] b'') : b'' = b := by
  generalize none : ([] : List (Deed α σ ε)) = deeds at walk
  cases walk with
  | nil => rfl
  | snoc => simp at none

theorem Walk.last (walk : P.Walk b (deeds ++ [deed]) b'') :
    ∃ b', P.Walk b deeds b' ∧ P.Next b' deed b'' := by
  generalize whole : deeds ++ [deed] = all at walk
  cases walk with
  | nil => simp at whole
  | snoc before last =>
    obtain ⟨rfl, same⟩ := List.append_inj' whole rfl
    obtain rfl := List.singleton_inj.1 same
    exact ⟨_, before, last⟩

/-- The state between two parts of a walk. -/
theorem Walk.split (walk : P.Walk b (deeds ++ deeds') b'') :
    ∃ b', P.Walk b deeds b' ∧ P.Walk b' deeds' b'' := by
  induction deeds' using List.reverseRecOn generalizing b'' with
  | nil =>
    rw [List.append_nil] at walk
    exact ⟨b'', walk, .nil⟩
  | append_singleton rest deed ih =>
    rw [← List.append_assoc] at walk
    obtain ⟨b₁, before, last⟩ := walk.last
    obtain ⟨b', first, second⟩ := ih before
    exact ⟨b', first, second.snoc last⟩

theorem Walk.head (walk : P.Walk b (deed :: deeds) b'') :
    ∃ b', P.Next b deed b' ∧ P.Walk b' deeds b'' := by
  have whole : P.Walk b ([deed] ++ deeds) b'' := walk
  obtain ⟨b', first, rest⟩ := whole.split
  have single : P.Walk b ([] ++ [deed]) b' := first
  obtain ⟨b₁, nothing, last⟩ := single.last
  obtain rfl := nothing.eq_of_nil
  exact ⟨b', last, rest⟩

end Walk

/-- What a deed counts. -/
def counts (P : Session α σ ε β) : Deed α σ ε → ℕ
  | .hears event answer => P.worth event answer
  | _ => 0

end Session

/-- From the state `b` of the session on, the program keeps to the session. -/
def Program.Follows (P : Session α σ ε β) : β → Program κ α σ ε → Prop
  | b, .done => P.ends b
  | b, .acquire _ _ next => next.Follows P b
  | b, .release _ next => next.Follows P b
  | b, .perform action next =>
    ∀ s, P.given action s → ∃ b', P.acts b action s b' ∧ (next s).Follows P b'
  | b, .await event next => ∀ answer, ∃ b', P.hears b event answer b' ∧ (next answer).Follows P b'
  | b, .spawn task next => ∃ b₁ b₂, P.forks b b₁ b₂ ∧ task.Follows P b₁ ∧ next.Follows P b₂

theorem Program.Follows.resume {P : Session α σ ε β} {b : β} {task : Program κ α σ ε}
    (follows : task.Follows P b) : task.resume.Follows P b := by
  cases task <;> exact follows

namespace System

/-- The deed of the task `t` at its next operation, if that is one. -/
def deed (c : System κ α σ ε) (t : ℕ) (answer : Bool) : Option (Deed α σ ε) :=
  match c.tasks t with
  | .perform action _ => some (.acts action c.state)
  | .await event _ => some (.hears event answer)
  | .spawn _ _ => some (.starts c.started)
  | _ => none

/-- The deed of a turn, and whose it is. -/
def Turn.deed (c : System κ α σ ε) : Turn κ α σ ε → List (ℕ × Deed α σ ε)
  | .start _ => []
  | .run t answer => ((c.deed t answer).map fun deed => (t, deed)).toList

/-- The deeds of the task `t`. -/
def deedsOf (log : List (ℕ × Deed α σ ε)) (t : ℕ) : List (Deed α σ ε) :=
  (log.filter fun entry => entry.1 = t).map Prod.snd

theorem deedsOf_append (log log' : List (ℕ × Deed α σ ε)) (t : ℕ) :
    deedsOf (log ++ log') t = deedsOf log t ++ deedsOf log' t := by
  simp [deedsOf]

theorem deedsOf_cons_self (t : ℕ) (deed : Deed α σ ε) (log : List (ℕ × Deed α σ ε)) :
    deedsOf ((t, deed) :: log) t = deed :: deedsOf log t := by
  simp [deedsOf]

theorem deedsOf_cons_ne {t u : ℕ} (other : u ≠ t) (deed : Deed α σ ε)
    (log : List (ℕ × Deed α σ ε)) : deedsOf ((u, deed) :: log) t = deedsOf log t := by
  simp [deedsOf, other]

theorem mem_deedsOf {log : List (ℕ × Deed α σ ε)} {t : ℕ} {deed : Deed α σ ε} :
    deed ∈ deedsOf log t ↔ (t, deed) ∈ log := by
  simp [deedsOf]

/-- What the answers that were given count. -/
def heard (P : Session α σ ε β) (log : List (ℕ × Deed α σ ε)) : ℕ :=
  (log.map fun entry => P.counts entry.2).sum

theorem heard_append (P : Session α σ ε β) (log log' : List (ℕ × Deed α σ ε)) :
    heard P (log ++ log') = heard P log + heard P log' := by
  simp [heard]

/-- The tasks began in the states `first` and are in the states `now`, by the deeds in the log;
`came` is what was owed by those that came in from outside. -/
structure Kept (P : Session α σ ε β) (c : System κ α σ ε) (log : List (ℕ × Deed α σ ε))
    (first now : ℕ → β) (came : ℕ) : Prop where
  origin : ∀ t < c.started, P.enters (first t) ∨ ∃ u, (u, .starts t) ∈ log
  walks : ∀ t < c.started, P.Walk (first t) (deedsOf log t) (now t)
  follows : ∀ t < c.started, (c.tasks t).Follows P (now t)
  unknown : ∀ t, c.started ≤ t → deedsOf log t = []
  idle : ∀ t, c.started ≤ t → c.tasks t = .done
  balance : heard P log + ∑ t ∈ Finset.range c.started, P.owed (now t) = came

/-- A task that another one started began where the session forked in what the other had done. -/
def Born (P : Session α σ ε β) (c : System κ α σ ε) (log : List (ℕ × Deed α σ ε)) (first : ℕ → β) :
    Prop :=
  ∀ before u t after, log = before ++ (u, .starts t) :: after →
    t < c.started ∧ ∃ b b₂, P.Walk (first u) (deedsOf before u) b ∧ P.forks b (first t) b₂

variable {P : Session α σ ε β} {act : α → σ → σ} {c : System κ α σ ε} {log : List (ℕ × Deed α σ ε)}
  {first now : ℕ → β} {came t : ℕ} {task next : Program κ α σ ε} {b : β}

theorem Born.of_mem (born : Born P c log first) {u : ℕ} (started : (u, .starts t) ∈ log) :
    t < c.started ∧ ∃ before b b₂, before <+: log ∧
      P.Walk (first u) (deedsOf before u) b ∧ P.forks b (first t) b₂ := by
  obtain ⟨before, after, rfl⟩ := List.append_of_mem started
  obtain ⟨known, b, b₂, walk, fork⟩ := born before u t after rfl
  exact ⟨known, before, b, b₂, List.prefix_append _ _, walk, fork⟩

theorem born_init (s : σ) (first : ℕ → β) : Born P (init s : System κ α σ ε) [] first :=
  fun _ _ _ _ split => by simp at split

theorem kept_init (s : σ) (first : ℕ → β) :
    Kept P (init s : System κ α σ ε) [] first first 0 where
  origin _ known := absurd known (Nat.not_lt_zero _)
  walks _ known := absurd known (Nat.not_lt_zero _)
  follows _ known := absurd known (Nat.not_lt_zero _)
  unknown _ _ := rfl
  idle _ _ := rfl
  balance := rfl

/-- What the others owe does not change. -/
theorem sum_owed_update (P : Session α σ ε β) (now : ℕ → β) {t n : ℕ} (known : t < n) (b : β) :
    ∑ u ∈ Finset.range n, P.owed (update now t b u) + P.owed (now t) =
      ∑ u ∈ Finset.range n, P.owed (now u) + P.owed b := by
  have inside : t ∈ Finset.range n := Finset.mem_range.2 known
  rw [← Finset.add_sum_erase _ _ inside, ← Finset.add_sum_erase _ (fun u => P.owed (now u)) inside,
    update_self]
  have others : ∑ u ∈ (Finset.range n).erase t, P.owed (update now t b u) =
      ∑ u ∈ (Finset.range n).erase t, P.owed (now u) :=
    Finset.sum_congr rfl fun u mem => by rw [update_of_ne (Finset.ne_of_mem_erase mem)]
  omega

namespace Kept

theorem lt_started (kept : Kept P c log first now came) (busy : c.tasks t ≠ .done) :
    t < c.started :=
  Nat.lt_of_not_le fun later => busy (kept.idle t later)

/-- Tasks that go on without a deed. -/
theorem silent (kept : Kept P c log first now came) {s : σ} {locks : κ → FairLock ℕ}
    {tasks : ℕ → Program κ α σ ε} (follows : ∀ t < c.started, (tasks t).Follows P (now t))
    (idle : ∀ t, c.started ≤ t → tasks t = .done) :
    Kept P ⟨s, locks, tasks, c.started⟩ log first now came where
  origin := kept.origin
  walks := kept.walks
  follows := follows
  unknown := kept.unknown
  idle := idle
  balance := kept.balance

/-- One task goes on without a deed. -/
theorem goesOn (kept : Kept P c log first now came) {s : σ} {locks : κ → FairLock ℕ}
    (known : t < c.started) (follows : next.Follows P (now t)) :
    Kept P ⟨s, locks, update c.tasks t next, c.started⟩ log first now came := by
  apply kept.silent
  · intro u started
    by_cases same : u = t
    · rw [same, update_self]
      exact follows
    · rw [update_of_ne same]
      exact kept.follows u started
  · intro u later
    rw [update_of_ne (by omega)]
    exact kept.idle u later

/-- A task that starts. -/
theorem add (kept : Kept P c log first now came)
    (origin : P.enters b ∨ ∃ u, (u, .starts c.started) ∈ log) (follows : task.Follows P b) :
    Kept P (c.add task) log (update first c.started b) (update now c.started b)
      (came + P.owed b) := by
  have new : (c.add task).started = c.started + 1 := rfl
  have old : ∀ t < c.started + 1, t ≠ c.started → t < c.started := fun t known other => by omega
  constructor
  · intro t known
    by_cases same : t = c.started
    · rw [same, update_self]
      exact origin
    · rw [update_of_ne same]
      exact kept.origin t (old t known same)
  · intro t known
    by_cases same : t = c.started
    · rw [same, update_self, update_self, kept.unknown _ le_rfl]
      exact .nil
    · rw [update_of_ne same, update_of_ne same]
      exact kept.walks t (old t known same)
  · intro t known
    show (update c.tasks c.started task t).Follows P _
    by_cases same : t = c.started
    · rw [same, update_self, update_self]
      exact follows
    · rw [update_of_ne same, update_of_ne same]
      exact kept.follows t (old t known same)
  · exact fun t later => kept.unknown t (by omega)
  · intro t later
    show update c.tasks c.started task t = .done
    rw [update_of_ne (by omega)]
    exact kept.idle t (by omega)
  · have before : ∑ t ∈ Finset.range c.started, P.owed (update now c.started b t) =
        ∑ t ∈ Finset.range c.started, P.owed (now t) :=
      Finset.sum_congr rfl fun t mem => by
        rw [update_of_ne (Nat.ne_of_lt (Finset.mem_range.1 mem))]
    rw [new, Finset.sum_range_succ, update_self, before, ← kept.balance, Nat.add_assoc]

/-- A task does a deed and goes on in the state behind it. -/
theorem does (kept : Kept P c log first now came) {deed : Deed α σ ε} (known : t < c.started)
    (behind : P.Next (now t) deed b) (follows : next.Follows P b) {n : ℕ}
    (balance : heard P [(t, deed)] + P.owed b + n = P.owed (now t)) :
    ∃ came', came' + n = came ∧ Kept P { c with tasks := update c.tasks t next }
      (log ++ [(t, deed)]) first (update now t b) came' := by
  have total := sum_owed_update P now known b
  refine ⟨came - n, ?_, ?_⟩
  · have := kept.balance
    have := Finset.single_le_sum (f := fun u => P.owed (now u)) (fun _ _ => Nat.zero_le _)
      (Finset.mem_range.2 known)
    omega
  constructor
  · intro u started
    exact (kept.origin u started).imp_right fun ⟨v, inside⟩ => ⟨v, List.mem_append_left _ inside⟩
  · intro u started
    rw [deedsOf_append]
    by_cases same : u = t
    · have own : deedsOf [(t, deed)] t = [deed] := deedsOf_cons_self ..
      rw [same, own, update_self]
      exact (kept.walks t known).snoc behind
    · have none : deedsOf [(t, deed)] u = [] := deedsOf_cons_ne (Ne.symm same) ..
      rw [none, List.append_nil, update_of_ne same]
      exact kept.walks u started
  · intro u started
    dsimp only
    by_cases same : u = t
    · rw [same, update_self, update_self]
      exact follows
    · rw [update_of_ne same, update_of_ne same]
      exact kept.follows u started
  · intro u later
    have later : c.started ≤ u := later
    have none : deedsOf [(t, deed)] u = [] := deedsOf_cons_ne (by omega) ..
    rw [deedsOf_append, none, List.append_nil]
    exact kept.unknown u later
  · intro u later
    have later : c.started ≤ u := later
    dsimp only
    rw [update_of_ne (by omega)]
    exact kept.idle u later
  · have := kept.balance
    rw [heard_append]
    dsimp only
    omega

/-- What a release leaves of another task keeps to the session. -/
theorem afterRelease (kept : Kept P c log first now came) (lock : κ) (t u : ℕ)
    (started : u < c.started) : (c.afterRelease lock t u).Follows P (now u) := by
  unfold System.afterRelease
  split_ifs
  · exact (kept.follows u started).resume
  · exact kept.follows u started

/-- Who has done something is known. -/
theorem lt_of_mem (kept : Kept P c log first now came) {deed : Deed α σ ε}
    (inside : (t, deed) ∈ log) : t < c.started := by
  refine Nat.lt_of_not_le fun later => ?_
  have own : deed ∈ deedsOf log t := mem_deedsOf.2 inside
  rw [kept.unknown t later] at own
  cases own

/-- A task that starts leaves the origins of the others as they are. -/
theorem born_add (kept : Kept P c log first now came) (born : Born P c log first)
    (task : Program κ α σ ε) (b : β) : Born P (c.add task) log (update first c.started b) := by
  intro before u t after split
  obtain ⟨known, forked⟩ := born before u t after split
  have doer : u < c.started := kept.lt_of_mem (split ▸ List.mem_append_right _ List.mem_cons_self)
  rw [update_of_ne (Nat.ne_of_lt known), update_of_ne (Nat.ne_of_lt doer)]
  exact ⟨Nat.lt_succ_of_lt known, forked⟩

/-- Where nothing new is started, the origins are as they were. -/
theorem born_snoc (born : Born P c log first) {entry : ℕ × Deed α σ ε}
    (none : ∀ u t, (u, .starts t) ≠ entry) {c' : System κ α σ ε} (same : c'.started = c.started) :
    Born P c' (log ++ [entry]) first := by
  intro before u t after split
  rcases List.eq_nil_or_concat' after with rfl | ⟨after, last, rfl⟩
  · obtain ⟨-, new⟩ := List.append_inj' split rfl
    exact absurd (List.singleton_inj.1 new).symm (none u t)
  · rw [← List.cons_append, ← List.append_assoc] at split
    exact same ▸ born before u t after (List.append_inj' split rfl).1

variable [DecidableEq κ]

/-- A turn keeps the tasks to their sessions, where the action of the turn is as assumed. -/
theorem run (kept : Kept P c log first now came) (born : Born P c log first) (lawful : P.Lawful)
    (answer : Bool)
    (given : ∀ action next, c.tasks t = .perform action next → P.given action c.state) :
    ∃ first now,
      Kept P (c.run act t answer) (log ++ Turn.deed c (.run t answer)) first now came ∧
        Born P (c.run act t answer) (log ++ Turn.deed c (.run t answer)) first := by
  have known : c.tasks t ≠ .done → t < c.started := kept.lt_started
  have follows : c.tasks t ≠ .done → (c.tasks t).Follows P (now t) :=
    fun busy => kept.follows t (known busy)
  cases program : c.tasks t with
  | done =>
    have quiet : Turn.deed c (.run t answer) = [] := by simp [Turn.deed, deed, program]
    rw [quiet, List.append_nil, System.run, program]
    exact ⟨first, now, kept, born⟩
  | acquire lock access next =>
    have quiet : Turn.deed c (.run t answer) = [] := by simp [Turn.deed, deed, program]
    rw [quiet, List.append_nil, System.run, program]
    rw [program] at known follows
    dsimp only
    split_ifs
    · exact ⟨first, now, kept, born⟩
    · exact ⟨first, now, kept.silent kept.follows kept.idle, born⟩
    · exact ⟨first, now, kept.goesOn (known (by simp)) (follows (by simp)), born⟩
  | release lock next =>
    have quiet : Turn.deed c (.run t answer) = [] := by simp [Turn.deed, deed, program]
    rw [quiet, List.append_nil, System.run, program]
    rw [program] at known follows
    refine ⟨first, now, kept.silent (fun u started => ?_) fun u later => ?_, born⟩
    · by_cases same : u = t
      · rw [same, update_self]
        exact follows (by simp)
      · rw [update_of_ne same]
        exact kept.afterRelease lock t u started
    · have other : u ≠ t := (Nat.lt_of_lt_of_le (known (by simp)) later).ne'
      rw [update_of_ne other, System.afterRelease, kept.idle u later]
      exact ite_self Program.done
  | perform action next =>
    have done : Turn.deed c (.run t answer) = [(t, .acts action c.state)] := by
      simp [Turn.deed, deed, program]
    rw [done, System.run, program]
    rw [program] at known follows
    obtain ⟨b, behind, rest⟩ := follows (by simp) _ (given action next program)
    have owed : P.owed b = P.owed (now t) := lawful.acts _ _ _ _ behind
    have behind : P.Next (now t) (.acts action c.state) b := behind
    obtain ⟨came', rfl, kept'⟩ := kept.does (known (by simp)) behind rest (n := 0)
      (by simpa [heard, Session.counts])
    exact ⟨first, _, kept'.silent kept'.follows kept'.idle, born_snoc born (by simp) rfl⟩
  | await event next =>
    have done : Turn.deed c (.run t answer) = [(t, .hears event answer)] := by
      simp [Turn.deed, deed, program]
    rw [done, System.run, program]
    rw [program] at known follows
    obtain ⟨b, behind, rest⟩ := follows (by simp) answer
    have owed : P.worth event answer + P.owed b = P.owed (now t) := lawful.hears _ _ _ _ behind
    have behind : P.Next (now t) (.hears event answer) b := behind
    obtain ⟨came', rfl, kept'⟩ := kept.does (known (by simp)) behind rest (n := 0)
      (by simpa [heard, Session.counts])
    exact ⟨first, _, kept', born_snoc born (by simp) rfl⟩
  | spawn task next =>
    have done : Turn.deed c (.run t answer) = [(t, .starts c.started)] := by
      simp [Turn.deed, deed, program]
    rw [done, System.run, program]
    rw [program] at known follows
    obtain ⟨b₁, b₂, fork, own, rest⟩ := follows (by simp)
    have owed : P.owed b₁ + P.owed b₂ = P.owed (now t) := lawful.forks _ _ _ fork
    have behind : P.Next (now t) (.starts c.started) b₂ := ⟨b₁, fork⟩
    obtain ⟨came', rfl, kept'⟩ := kept.does (known (by simp)) behind rest (n := P.owed b₁)
      (by simp only [heard, List.map_cons, List.map_nil, List.sum_cons, List.sum_nil,
        Session.counts]; omega)
    have here : (t, .starts c.started) ∈ log ++ [(t, .starts c.started)] :=
      List.mem_append_right _ (List.mem_singleton_self _)
    refine ⟨_, _, kept'.add (.inr ⟨t, here⟩) own, fun before u v after split => ?_⟩
    show v < c.started + 1 ∧ _
    rcases List.eq_nil_or_concat' after with rfl | ⟨after, last, rfl⟩
    · obtain ⟨rfl, new⟩ := List.append_inj' split rfl
      obtain ⟨rfl, rfl⟩ : t = u ∧ c.started = v := by simpa using new
      dsimp only
      rw [update_self, update_of_ne (Nat.ne_of_lt (known (by simp)))]
      exact ⟨by omega, _, _, kept.walks t (known (by simp)), fork⟩
    · rw [← List.cons_append, ← List.append_assoc] at split
      obtain ⟨rfl, -⟩ := List.append_inj' split rfl
      obtain ⟨later, b, b₃, walk, fork⟩ := born before u v after rfl
      have doer : u < c.started :=
        kept.lt_of_mem (List.mem_append_right before List.mem_cons_self)
      dsimp only
      rw [update_of_ne (Nat.ne_of_lt later), update_of_ne (Nat.ne_of_lt doer)]
      exact ⟨by omega, b, b₃, walk, fork⟩

end Kept

/-! ## The log of a run -/

section Log

variable [DecidableEq κ] (act)

/-- The deeds of a run, in order. -/
def history (c : System κ α σ ε) : List (Turn κ α σ ε) → List (ℕ × Deed α σ ε)
  | [] => []
  | turn :: turns => turn.deed c ++ history (c.step act turn) turns

/-- The actions in a log. -/
def actionsOf (log : List (ℕ × Deed α σ ε)) : List α :=
  log.filterMap fun entry => match entry.2 with
    | .acts action _ => some action
    | _ => none

/-- The actions, one after the other. -/
def perform (actions : List α) (s : σ) : σ := actions.foldl (fun s action => act action s) s

variable {act}

theorem actionsOf_append (l l' : List (ℕ × Deed α σ ε)) :
    actionsOf (l ++ l') = actionsOf l ++ actionsOf l' :=
  List.filterMap_append

theorem perform_deed (c : System κ α σ ε) (turn : Turn κ α σ ε) :
    (c.step act turn).state = perform act (actionsOf (turn.deed c)) c.state := by
  cases turn with
  | start task => rfl
  | run t answer =>
    show (c.run act t answer).state = _
    rw [run, Turn.deed, deed]
    cases c.tasks t with
    | acquire lock access next =>
      dsimp only
      split_ifs <;> rfl
    | _ => rfl

end Log

end System
