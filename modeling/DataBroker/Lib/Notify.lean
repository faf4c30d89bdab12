import DataBroker.Lib.Transition

/-!
# Notifications without memory

A call of `notify` wakes the loops that wait for it at that moment, and nobody else: a loop that
comes to its `select` later waits for the next call. A woken loop stops when it looks at the
notification, but where an input is ready as well its `select` may take the input.

`everyState_of_timely`: where a call finds no loop at work, no woken loop takes an input and no loop
starts later, an input that comes behind the call is taken by nobody.
-/

/-- Where a loop stands. In its `select` it waits for an input, and for a notification that has
woken it or not. -/
inductive Stand where
  | select (woken : Bool)
  | work
  | ended
deriving DecidableEq, Repr

/-- How a loop goes on. -/
inductive Next where
  | select
  | work
  | stop
deriving DecidableEq, Repr

/-- A loop that waits again has a new future. -/
def Next.stand : Next → Stand
  | select => .select false
  | work => .work
  | stop => .ended

/-- A loop and its variables. -/
structure Loop (σ : Type) where
  stand : Stand
  data : σ

/-- The code of a loop over variables `σ` with inputs `ι`. It begins at work; `take` is told whether
the notification has been called, for the record, and `work` what it reads from outside. -/
structure LoopCode (σ ι φ : Type) where
  new : σ
  take : Bool → σ → ι → Next × σ
  work : σ → φ → Next × σ

/-- The loops that share a notification, and whether it has been called. -/
structure Loops (σ : Type) where
  called : Bool
  loops : List (Loop σ)

/-- A loop starts, takes one of the two arms of its `select` or does a part of its work, or the
notification is called. -/
inductive Loops.Turn (ι φ : Type) where
  | start
  | stop (i : ℕ)
  | input (i : ℕ) (x : ι)
  | work (i : ℕ) (outside : φ)
  | notify

variable {σ ι φ : Type}

namespace Loop

def wake (l : Loop σ) : Loop σ :=
  match l.stand with
  | .select _ => { l with stand := .select true }
  | _ => l

/-- The arm of the notification. -/
def stop (l : Loop σ) : Loop σ :=
  match l.stand with
  | .select true => { l with stand := .ended }
  | _ => l

/-- The arm of the input. -/
def input (code : LoopCode σ ι φ) (called : Bool) (x : ι) (l : Loop σ) : Loop σ :=
  match l.stand with
  | .select _ => let (next, data) := code.take called l.data x; ⟨next.stand, data⟩
  | _ => l

def goOn (code : LoopCode σ ι φ) (outside : φ) (l : Loop σ) : Loop σ :=
  match l.stand with
  | .work => let (next, data) := code.work l.data outside; ⟨next.stand, data⟩
  | _ => l

end Loop

namespace Loops

def init : Loops σ := ⟨false, []⟩

def step (code : LoopCode σ ι φ) (s : Loops σ) : Turn ι φ → Loops σ
  | .start => { s with loops := s.loops ++ [⟨.work, code.new⟩] }
  | .stop i => { s with loops := s.loops.modify i Loop.stop }
  | .input i x => { s with loops := s.loops.modify i (Loop.input code s.called x) }
  | .work i outside => { s with loops := s.loops.modify i (Loop.goOn code outside) }
  | .notify => ⟨true, s.loops.map Loop.wake⟩

/-- The call comes when no loop is at work, no loop starts behind it, and none that it has woken
takes an input. -/
def Timely (s : Loops σ) : Turn ι φ → Prop
  | .start => s.called = false
  | .input i _ => ∀ l ∈ s.loops[i]?, l.stand ≠ .select true
  | .notify => ∀ l ∈ s.loops, l.stand ≠ .work
  | _ => True

instance : DecidableRel (Timely : Loops σ → Turn ι φ → Prop)
  | _, .start => inferInstanceAs (Decidable (_ = _))
  | s, .input i _ => Option.decidableForallMem s.loops[i]?
  | _, .notify => inferInstanceAs (Decidable (∀ l ∈ _, _))
  | _, .stop _ => .isTrue trivial
  | _, .work _ _ => .isTrue trivial

/-- Every loop has been woken or has ended. -/
def Reached (s : Loops σ) : Prop :=
  s.called = true → ∀ l ∈ s.loops, l.stand = .select true ∨ l.stand = .ended

/-! ## Turns -/

variable {code : LoopCode σ ι φ} {s : Loops σ} {turn : Turn ι φ}

theorem mem_modify {α : Type} {f : α → α} {i : ℕ} {as : List α} {a : α}
    (inside : a ∈ as.modify i f) : a ∈ as ∨ ∃ b, as[i]? = some b ∧ a = f b := by
  obtain ⟨j, found⟩ := List.mem_iff_getElem?.1 inside
  by_cases same : i = j
  · subst same
    rw [List.getElem?_modify_eq] at found
    obtain ⟨b, old, rfl⟩ := Option.map_eq_some_iff.1 found
    exact .inr ⟨b, old, rfl⟩
  · rw [List.getElem?_modify_ne _ _ same] at found
    exact .inl (List.mem_of_getElem? found)

/-- What a turn makes of a loop. -/
inductive Effect (code : LoopCode σ ι φ) (s : Loops σ) : Turn ι φ → Loop σ → Prop where
  | kept {turn : Turn ι φ} {l : Loop σ} (old : l ∈ s.loops) (quiet : turn ≠ .notify) :
      Effect code s turn l
  | started : Effect code s .start ⟨.work, code.new⟩
  | stopped {i : ℕ} {l : Loop σ} (old : l ∈ s.loops) : Effect code s (.stop i) ⟨.ended, l.data⟩
  | took {i : ℕ} {x : ι} {l : Loop σ} {woken : Bool} (found : s.loops[i]? = some l)
      (stand : l.stand = .select woken) : Effect code s (.input i x)
        ⟨(code.take s.called l.data x).1.stand, (code.take s.called l.data x).2⟩
  | worked {i : ℕ} {outside : φ} {l : Loop σ} (old : l ∈ s.loops) (stand : l.stand = .work) :
      Effect code s (.work i outside)
        ⟨(code.work l.data outside).1.stand, (code.work l.data outside).2⟩
  | woken {l : Loop σ} (old : l ∈ s.loops) : Effect code s .notify l.wake

theorem effect_step {l : Loop σ} (inside : l ∈ (s.step code turn).loops) :
    Effect code s turn l := by
  cases turn with
  | start =>
    rcases List.mem_append.1 inside with old | added
    · exact .kept old (by simp)
    · rw [List.mem_singleton.1 added]
      exact .started
  | stop i =>
    rcases mem_modify inside with old | ⟨l, found, rfl⟩
    · exact .kept old (by simp)
    · have old := List.mem_of_getElem? found
      unfold Loop.stop
      split
      · exact .stopped old
      · exact .kept old (by simp)
  | input i x =>
    rcases mem_modify inside with old | ⟨l, found, rfl⟩
    · exact .kept old (by simp)
    · unfold Loop.input
      split
      next stand => exact .took found stand
      · exact .kept (List.mem_of_getElem? found) (by simp)
  | work i outside =>
    rcases mem_modify inside with old | ⟨l, found, rfl⟩
    · exact .kept old (by simp)
    · have old := List.mem_of_getElem? found
      unfold Loop.goOn
      split
      next stand => exact .worked old stand
      · exact .kept old (by simp)
  | notify =>
    obtain ⟨l, old, rfl⟩ := List.mem_map.1 inside
    exact .woken old

/-- A timely call reaches every loop. -/
theorem Reached.step (reached : s.Reached) (timely : s.Timely turn) : (s.step code turn).Reached := by
  intro called l inside
  have before : turn ≠ .notify → s.called = true := by
    intro quiet
    cases turn with
    | notify => exact absurd rfl quiet
    | _ => exact called
  cases effect_step inside with
  | kept old quiet => exact reached (before quiet) l old
  | started => cases timely.symm.trans (before (by simp))
  | stopped old => exact .inr rfl
  | @took i x l woken found stand =>
    rcases reached (before (by simp)) l (List.mem_of_getElem? found) with waits | ended
    · exact absurd waits (timely l found)
    · cases stand.symm.trans ended
  | worked old stand =>
    rcases reached (before (by simp)) _ old with waits | ended
    · cases stand.symm.trans waits
    · cases stand.symm.trans ended
  | @woken l old =>
    unfold Loop.wake
    cases stand : l.stand with
    | select woken => exact .inl rfl
    | work => exact absurd stand (timely l old)
    | ended => exact .inr stand

/-- What holds of the variables until the notification is called still does when the call was
timely. -/
theorem data_step {Q : σ → Prop} (new : Q code.new) (take : ∀ d x, Q d → Q (code.take false d x).2)
    (work : ∀ d outside, Q d → Q (code.work d outside).2) (reached : s.Reached)
    (timely : s.Timely turn) (before : ∀ l ∈ s.loops, Q l.data) :
    ∀ l ∈ (s.step code turn).loops, Q l.data := by
  intro l inside
  cases effect_step inside with
  | kept old _ => exact before l old
  | started => exact new
  | @stopped i l old => exact before l old
  | @took i x l woken found stand =>
    have early : s.called = false := by
      apply Bool.eq_false_iff.2
      intro called
      rcases reached called l (List.mem_of_getElem? found) with waits | ended
      · exact timely l found waits
      · cases stand.symm.trans ended
    rw [early]
    exact take _ _ (before l (List.mem_of_getElem? found))
  | worked old _ => exact work _ _ (before _ old)
  | @woken l old =>
    unfold Loop.wake
    split <;> exact before l old

/-! ## Runs -/

/-- Behind a timely call no loop takes an input, so that what only an early input can change stays
as it was. -/
theorem everyState_of_timely {Q : σ → Prop} (new : Q code.new)
    (take : ∀ d x, Q d → Q (code.take false d x).2)
    (work : ∀ d outside, Q d → Q (code.work d outside).2) {turns : List (Turn ι φ)}
    (timely : Transition.EveryStep (step code) Timely init turns) :
    Transition.EveryState (step code) (fun s => ∀ l ∈ s.loops, Q l.data) init turns := by
  have invariant := timely.invariant (I := fun s => Reached s ∧ ∀ l ∈ s.loops, Q l.data)
    ⟨fun called => (by cases called), fun l inside => (by cases inside)⟩
    fun s turn h now => ⟨h.1.step now, data_step new take work h.1 now h.2⟩
  exact invariant.mono fun s h => h.2

end Loops
