import DataBroker.Lib.Contract

/-!
# Tasks that get no turn

A task that gets no turn keeps the locks that it holds, and who waits for one of them waits on: the
first in line does not fit beside it, and nobody overtakes the first in line (`System.Sound.parked_step`).
-/

namespace System

variable {κ α σ ε : Type} {act : α → σ → σ} {c c' : System κ α σ ε} {t u : ℕ} {turn : Turn κ α σ ε}
  {lock : κ}

/-- What the others have left of a task that got no turn: what it held it holds, who waited for that
waits, and the task stands where it stood unless a lock was given to it. -/
structure Parked (t : ℕ) (c c' : System κ α σ ε) : Prop where
  held : ∀ lock, c.held t lock ≠ none → c'.held t lock = c.held t lock
  waits : ∀ lock u, c.held t lock ≠ none → (c.locks lock).Waits u → (c'.locks lock).Waits u
  stands : (∀ lock, ¬ (c.locks lock).Waits t) →
    c'.tasks t = c.tasks t ∧ ∀ lock, ¬ (c'.locks lock).Waits t

namespace Parked

theorem refl (t : ℕ) (c : System κ α σ ε) : Parked t c c :=
  ⟨fun _ _ => rfl, fun _ _ _ waits => waits, fun active => ⟨rfl, active⟩⟩

theorem trans {c'' : System κ α σ ε} (first : Parked t c c') (later : Parked t c' c'') :
    Parked t c c'' where
  held lock holds := by
    have same := first.held lock holds
    rw [later.held lock (same ▸ holds), same]
  waits lock u holds waits :=
    later.waits lock u (first.held lock holds ▸ holds) (first.waits lock u holds waits)
  stands active := by
    obtain ⟨same, active'⟩ := first.stands active
    obtain ⟨same', active''⟩ := later.stands active'
    exact ⟨same'.trans same, active''⟩

variable [DecidableEq κ]

/-- One lock changes, and the program of the task does not. -/
theorem of_lock {l : FairLock ℕ} {s : σ} {tasks : ℕ → Program κ α σ ε} {n : ℕ}
    (mode : (c.locks lock).mode t ≠ none → l.mode t = (c.locks lock).mode t)
    (waits : ∀ u, (c.locks lock).mode t ≠ none → (c.locks lock).Waits u → l.Waits u)
    (old : l.Waits t → (c.locks lock).Waits t)
    (same : (∀ lock, ¬ (c.locks lock).Waits t) → tasks t = c.tasks t) :
    Parked t c ⟨s, Function.update c.locks lock l, tasks, n⟩ where
  held lock' holds := by
    rw [held_update]
    by_cases here : lock' = lock
    · subst here
      rw [Function.update_self]
      exact mode holds
    · rw [Function.update_of_ne here]
  waits lock' u holds waiting := by
    dsimp only
    by_cases here : lock' = lock
    · subst here
      rw [Function.update_self]
      exact waits u holds waiting
    · rwa [Function.update_of_ne here]
  stands active := by
    refine ⟨same active, fun lock' waiting => ?_⟩
    dsimp only at waiting
    by_cases here : lock' = lock
    · subst here
      rw [Function.update_self] at waiting
      exact active lock' (old waiting)
    · rw [Function.update_of_ne here] at waiting
      exact active lock' waiting

/-- A request of another task. -/
theorem of_request {s : σ} {tasks : ℕ → Program κ α σ ε} {n : ℕ} {access : Access} (other : t ≠ u)
    (same : tasks t = c.tasks t) : Parked t c
      ⟨s, Function.update c.locks lock ((c.locks lock).request u access), tasks, n⟩ := by
  refine of_lock (fun _ => ?_) (fun _ _ => FairLock.waits_of_waits) (fun waits => ?_) fun _ => same
  · rw [FairLock.mode_request, if_neg fun own => other own.1]
  · obtain ⟨r, inside, own⟩ := waits
    rcases FairLock.mem_waiting_request inside with old | rfl
    · exact ⟨r, old, own⟩
    · exact absurd own.symm other

end Parked

/-- The turn of another task, or a new one. -/
theorem Sound.parked_step [DecidableEq κ] {K : Contract κ α σ ε} (sound : c.Sound K act)
    (known : t < c.started) (other : ∀ answer, turn ≠ .run t answer) :
    Parked t c (c.step act turn) := by
  have quiet : ∀ {s : σ} {tasks : ℕ → Program κ α σ ε} {n : ℕ}, tasks t = c.tasks t →
      Parked t c ⟨s, c.locks, tasks, n⟩ := fun same =>
    ⟨fun _ _ => rfl, fun _ _ _ waits => waits, fun active => ⟨same, active⟩⟩
  cases turn with
  | start task => exact quiet (Function.update_of_ne (Nat.ne_of_lt known) ..)
  | run u answer =>
    have other : t ≠ u := by
      rintro rfl
      exact other answer rfl
    have effect : Effect act c u answer (c.step act (.run u answer)) := run_effect c u answer
    generalize c.step act (.run u answer) = c' at effect
    cases effect with
    | idle => exact .refl t c
    | line => exact .of_request other rfl
    | grant => exact .of_request other (Function.update_of_ne other ..)
    | @release lock next =>
      refine .of_lock (fun holds => ?_) (fun v holds waits => ?_) (fun waits => ?_) fun active => ?_
      · rcases FairLock.mode_release_other (sound.locks lock) other with ⟨same, -⟩ | ⟨_, inLine, -⟩
        · exact same
        · exact absurd ⟨_, inLine, rfl⟩ (FairLock.not_waits_of_holds (sound.locks lock) holds)
      · rwa [FairLock.Waits, FairLock.waiting_release_of_holds (sound.locks lock) holds other]
      · obtain ⟨r, inside, own⟩ := waits
        exact ⟨r, FairLock.mem_waiting_release inside, own⟩
      · rw [Function.update_of_ne other]
        exact if_neg fun letIn => active lock letIn.1
    | perform => exact quiet (Function.update_of_ne other ..)
    | await => exact quiet (Function.update_of_ne other ..)
    | spawn =>
      refine quiet ?_
      dsimp only
      rw [Function.update_of_ne (Nat.ne_of_lt known), Function.update_of_ne other]

end System
