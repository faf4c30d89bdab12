import Mathlib.Data.List.Basic

/-!
# Runs of a labelled transition function

A system takes one labelled step after another, every step being total. A property of all runs is
stated in two ways: every state of a run has it (`EveryState`), or every step of it meets a
condition on the state before the step and on its label (`EveryStep`).

* `EveryStep.invariant`: what each guarded step preserves holds in every state of a guarded run.
* `EveryStep.simulated`: where a run of another system does what one step does, a run of it does what
  the whole run does.
* `moves_le`: a measure that falls with every step that changes the state bounds how many do.
* `everyState_iff_everyStep`: where a guard decides whether one step preserves a property, it
  decides whether the whole run has it.
-/

namespace Transition

variable {σ ι : Type*} (step : σ → ι → σ)

/-- The state after the steps of a run. -/
def run (s : σ) (is : List ι) : σ := is.foldl step s

/-- Every step of the run from `s` meets `G`. -/
def EveryStep (G : σ → ι → Prop) : σ → List ι → Prop
  | _, [] => True
  | s, i :: is => G s i ∧ EveryStep G (step s i) is

/-- Every state of the run from `s` has `P`, the first and the last included. -/
def EveryState (P : σ → Prop) : σ → List ι → Prop
  | s, [] => P s
  | s, i :: is => P s ∧ EveryState P (step s i) is

section Decidable

variable {step}

instance EveryStep.decidable {G : σ → ι → Prop} [∀ s i, Decidable (G s i)] :
    ∀ s is, Decidable (EveryStep step G s is)
  | _, [] => .isTrue trivial
  | s, i :: is =>
    have := EveryStep.decidable (G := G) (step s i) is
    inferInstanceAs (Decidable (G s i ∧ EveryStep step G (step s i) is))

instance EveryState.decidable {P : σ → Prop} [∀ s, Decidable (P s)] :
    ∀ s is, Decidable (EveryState step P s is)
  | s, [] => inferInstanceAs (Decidable (P s))
  | s, i :: is =>
    have := EveryState.decidable (P := P) (step s i) is
    inferInstanceAs (Decidable (P s ∧ EveryState step P (step s i) is))

end Decidable

@[simp] theorem run_nil (s : σ) : run step s [] = s := rfl

@[simp] theorem run_cons (s : σ) (i : ι) (is : List ι) :
    run step s (i :: is) = run step (step s i) is := rfl

theorem run_append (s : σ) (is js : List ι) :
    run step s (is ++ js) = run step (run step s is) js := List.foldl_append

variable {step} {A G H : σ → ι → Prop} {I P Q : σ → Prop} {s : σ} {is : List ι}

theorem EveryState.first (h : EveryState step P s is) : P s := by
  cases is with
  | nil => exact h
  | cons => exact h.1

theorem EveryState.last (h : EveryState step P s is) : P (run step s is) := by
  induction is generalizing s with
  | nil => exact h
  | cons i is ih => exact ih h.2

theorem EveryState.mono (hPQ : ∀ s, P s → Q s) (h : EveryState step P s is) :
    EveryState step Q s is := by
  induction is generalizing s with
  | nil => exact hPQ s h
  | cons i is ih => exact ⟨hPQ s h.1, ih h.2⟩

theorem EveryState.and (hP : EveryState step P s is) (hQ : EveryState step Q s is) :
    EveryState step (fun s => P s ∧ Q s) s is := by
  induction is generalizing s with
  | nil => exact ⟨hP, hQ⟩
  | cons i is ih => exact ⟨⟨hP.1, hQ.1⟩, ih hP.2 hQ.2⟩

theorem EveryStep.mono (hGH : ∀ s i, G s i → H s i) (h : EveryStep step G s is) :
    EveryStep step H s is := by
  induction is generalizing s with
  | nil => trivial
  | cons i is ih => exact ⟨hGH s i h.1, ih h.2⟩

/-- A condition on steps that every state of the run makes follow from another. -/
theorem EveryStep.mono_of (hI : EveryState step I s is) (hGH : ∀ s i, I s → G s i → H s i)
    (h : EveryStep step G s is) : EveryStep step H s is := by
  induction is generalizing s with
  | nil => trivial
  | cons i is ih => exact ⟨hGH s i hI.1 h.1, ih hI.2 h.2⟩

theorem EveryStep.and (hG : EveryStep step G s is) (hH : EveryStep step H s is) :
    EveryStep step (fun s i => G s i ∧ H s i) s is := by
  induction is generalizing s with
  | nil => trivial
  | cons i is ih => exact ⟨⟨hG.1, hH.1⟩, ih hG.2 hH.2⟩

theorem EveryStep.append {js : List ι} (h : EveryStep step G s is)
    (h' : EveryStep step G (run step s is) js) : EveryStep step G s (is ++ js) := by
  induction is generalizing s with
  | nil => exact h'
  | cons i is ih => exact ⟨h.1, ih h.2 h'⟩

theorem EveryStep.append_right {js : List ι} (h : EveryStep step G s (is ++ js)) :
    EveryStep step G (run step s is) js := by
  induction is generalizing s with
  | nil => exact h
  | cons i is ih => exact ih h.2

/-- What the state after a step says about the step. -/
theorem EveryState.everyStep (hP : EveryState step P s is) (hI : EveryState step I s is)
    (hstep : ∀ s i, I s → P (step s i) → G s i) : EveryStep step G s is := by
  induction is generalizing s with
  | nil => trivial
  | cons i is ih => exact ⟨hstep s i hI.1 hP.2.first, ih hP.2 hI.2⟩

/-- A condition on the labels alone. -/
theorem everyStep_of_forall {G : ι → Prop} (h : ∀ i ∈ is, G i) :
    EveryStep step (fun _ i => G i) s is := by
  induction is generalizing s with
  | nil => trivial
  | cons i is ih => exact ⟨h i List.mem_cons_self, ih fun j mem => h j (List.mem_cons_of_mem _ mem)⟩

theorem everyStep_true : EveryStep step (fun _ _ => True) s is := by
  induction is generalizing s with
  | nil => trivial
  | cons i is ih => exact ⟨trivial, ih⟩

/-- What each guarded step preserves holds in every state of a guarded run. -/
theorem EveryStep.invariant (hs : I s) (hstep : ∀ s i, I s → G s i → I (step s i))
    (h : EveryStep step G s is) : EveryState step I s is := by
  induction is generalizing s with
  | nil => exact hs
  | cons i is ih => exact ⟨hs, ih (hstep s i hs h.1) h.2⟩

/-- Two conditions on steps that say the same as long as they are met. -/
theorem EveryStep.iff (hs : I s) (hGH : ∀ s i, I s → (G s i ↔ H s i))
    (hstep : ∀ s i, I s → G s i → I (step s i)) : EveryStep step G s is ↔ EveryStep step H s is := by
  induction is generalizing s with
  | nil => rfl
  | cons i is ih =>
    rw [EveryStep, EveryStep, ← hGH s i hs]
    exact and_congr_right fun h => ih (hstep s i hs h)

/-- Where a step leads to `P` if and only if `P` held before it and `G` allows the step. -/
theorem run_iff_everyStep (hstep : ∀ s i, P (step s i) ↔ P s ∧ G s i) (s : σ) (is : List ι) :
    P (run step s is) ↔ P s ∧ EveryStep step G s is := by
  induction is generalizing s with
  | nil => exact (and_iff_left trivial).symm
  | cons i is ih => rw [run_cons, ih, hstep, EveryStep, and_assoc]

/-- What every step preserves holds in every state of every run. -/
theorem invariant (hs : I s) (hstep : ∀ s i, I s → I (step s i)) (is : List ι) :
    EveryState step I s is :=
  EveryStep.invariant hs (fun s i h _ => hstep s i h) everyStep_true

/-- Where `G` decides whether a step that meets `A` preserves `P`, it decides whether a run of such
steps has `P` throughout. The invariant `I` holds along the run whatever `G` says. -/
theorem EveryStep.everyState_iff (hA : EveryStep step A s is) (hI : EveryState step I s is)
    (hs : P s) (hstep : ∀ s i, I s → A s i → P s → (P (step s i) ↔ G s i)) :
    EveryState step P s is ↔ EveryStep step G s is := by
  induction is generalizing s with
  | nil => exact ⟨fun _ => trivial, fun _ => hs⟩
  | cons i is ih =>
    have next := hstep s i hI.1 hA.1 hs
    constructor
    · rintro ⟨-, h⟩
      exact ⟨next.1 h.first, (ih hA.2 hI.2 h.first).1 h⟩
    · rintro ⟨hG, h⟩
      exact ⟨hs, (ih hA.2 hI.2 (next.2 hG)).2 h⟩

/-- Where `G` decides whether a step preserves `P`, it decides whether a run has `P` throughout. -/
theorem everyState_iff_everyStep (hI : EveryState step I s is) (hs : P s)
    (hstep : ∀ s i, I s → P s → (P (step s i) ↔ G s i)) :
    EveryState step P s is ↔ EveryStep step G s is :=
  everyStep_true.everyState_iff hI hs fun s i h _ => hstep s i h

/-- Where a run of the second system does what a step of the first one does, a run of it does what
a run of the first one does. -/
theorem EveryStep.simulated {τ κ : Type*} {step' : τ → κ → τ} {B : τ → κ → Prop} {R : σ → τ → Prop}
    {t : τ} (hstep : ∀ s t i, R s t → A s i →
      ∃ js, EveryStep step' B t js ∧ R (step s i) (run step' t js))
    (hR : R s t) (h : EveryStep step A s is) :
    ∃ js, EveryStep step' B t js ∧ R (run step s is) (run step' t js) := by
  induction is generalizing s t with
  | nil => exact ⟨[], trivial, hR⟩
  | cons i is ih =>
    obtain ⟨js, met, hR⟩ := hstep s t i hR h.1
    obtain ⟨js', met', hR⟩ := ih hR h.2
    exact ⟨js ++ js', met.append met', by rwa [run_append]⟩

/-- What holds at the start of a run, but not at its end, was given up at a step of it. -/
theorem EveryStep.exists_step (h : EveryStep step A s is) (hs : P s)
    (hstep : ∀ s i, A s i → P s → P (step s i) ∨ G s i) (hend : ¬ P (run step s is)) :
    ∃ pre i post, is = pre ++ i :: post ∧ G (run step s pre) i := by
  induction is generalizing s with
  | nil => exact absurd hs hend
  | cons i is ih =>
    rcases hstep s i h.1 hs with next | now
    · obtain ⟨pre, j, post, rfl, found⟩ := ih h.2 next hend
      exact ⟨i :: pre, j, post, rfl, found⟩
    · exact ⟨[], i, is, rfl, now⟩

/-- How many steps of the run from `s` change the state. -/
def moves [DecidableEq σ] (step : σ → ι → σ) : σ → List ι → ℕ
  | _, [] => 0
  | s, i :: is => (if step s i = s then 0 else 1) + moves step (step s i) is

/-- Where every step that changes the state lowers `μ`, a run from `s` changes it `μ s` times at
most. -/
theorem moves_le [DecidableEq σ] {μ : σ → ℕ} (hs : I s) (hstep : ∀ s i, I s → I (step s i))
    (falls : ∀ s i, I s → step s i ≠ s → μ (step s i) < μ s) (is : List ι) :
    moves step s is ≤ μ s := by
  induction is generalizing s with
  | nil => exact Nat.zero_le _
  | cons i is ih =>
    have rest := ih (hstep s i hs)
    rw [moves]
    split_ifs with same
    · rw [same] at rest ⊢
      omega
    · have := falls s i hs same
      omega

theorem everyState_iff :
    EveryState step P s is ↔ ∀ pre post, is = pre ++ post → P (run step s pre) := by
  constructor
  · rintro h pre post rfl
    induction pre generalizing s with
    | nil => exact h.first
    | cons i pre ih => exact ih h.2
  · intro h
    induction is generalizing s with
    | nil => exact h [] [] rfl
    | cons i is ih =>
      exact ⟨h [] _ rfl, ih fun pre post e => h (i :: pre) post (by rw [e]; rfl)⟩

end Transition
