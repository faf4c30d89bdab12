import DataBroker.Lib.Transition
import DataBroker.Server.Discipline

/-!
# Deadlocks

`CreateQ` and `DeleteQ` take `queueNames` before `queue`, the handlers that call a queue the other
way round. In between, a handler of either kind can wait for the other (`Overlap`); the order of the
locks leaves no other deadlock.
-/

namespace DataBroker

open Handler Program

namespace Broker

/-- The task `t` is about to look up a name under the guard of `queue`, while `u` is about to take
`queue` for writing under the guard of `queueNames`. -/
def Crosses (c : Broker) (t u : ℕ) : Prop :=
  (c.held t .queue = some .read ∧ ∃ next, c.tasks t = acquire .queueNames .read next) ∧
    c.held u .queueNames = some .write ∧ ∃ next, c.tasks u = acquire .queue .write next

/-- A request on a queue and a `CreateQ` or `DeleteQ` are between their two locks. -/
def Overlap (c : Broker) : Prop := ∃ t u, c.Crosses t u

variable {assumed : Registry → Prop} {c : Broker} {S : Set ℕ} {t u : ℕ} {lock : LockName}

/-- What a task in line holds and is about to take. -/
theorem waiting_permits (sound : c.Sound (terms assumed) Server.act)
    (waits : (c.locks lock).Waits t) :
    ∃ access next, c.tasks t = acquire lock access next ∧ permits (c.held t) lock access ∧
      c.held t lock = none := by
  obtain ⟨access, next, program⟩ := sound.acquires waits
  have meets := sound.meets t
  rw [program] at meets
  exact ⟨access, next, program, meets.1, meets.2.1⟩

/-- Who waits holds no mutex. -/
theorem no_mutex_of_waits (sound : c.Sound (terms assumed) Server.act)
    (waits : (c.locks lock).Waits t) (q : ℕ) : c.held t (.mutex q) = none := by
  obtain ⟨access, -, -, permitted, -⟩ := waiting_permits sound waits
  cases lock with
  | queueNames => exact permitted.1 q
  | queue => cases access <;> exact permitted.1 q
  | mutex q' => exact permitted q

/-- In a deadlock, each task waits for one of the maps, and who holds a map waits for the other. -/
theorem waits_in_deadlock (sound : c.Sound (terms assumed) Server.act) (dead : c.Deadlock S)
    (inside : t ∈ S) :
    (c.held t .queueNames = none ∧ (c.locks .queueNames).Waits t ∧
        ∃ u ∈ S, c.held u .queueNames ≠ none) ∨
      c.held t .queue = none ∧ (c.locks .queue).Waits t ∧ ∃ u ∈ S, c.held u .queue ≠ none := by
  obtain ⟨u, holder, -, lock, waits, held⟩ := dead.2 t inside
  obtain ⟨-, -, -, -, free⟩ := waiting_permits sound waits
  cases lock with
  | queueNames => exact .inl ⟨free, waits, u, holder, held⟩
  | queue => exact .inr ⟨free, waits, u, holder, held⟩
  | mutex q =>
    obtain ⟨v, -, -, lock', waits', -⟩ := dead.2 u holder
    exact absurd (no_mutex_of_waits sound waits' q) held

/-- A task of a deadlock that waits for `queueNames`, with another that holds it and waits for
`queue`, and a third that holds `queue` and waits for `queueNames`. -/
theorem cycle_of_deadlock (sound : c.Sound (terms assumed) Server.act) (dead : c.Deadlock S) :
    ∃ t u, ((c.locks .queueNames).Waits t ∧ c.held t .queue ≠ none) ∧
      (c.locks .queue).Waits u ∧ c.held u .queueNames ≠ none := by
  have holder_names : ∀ u ∈ S, c.held u .queueNames ≠ none →
      (c.locks .queue).Waits u ∧ ∃ v ∈ S, c.held v .queue ≠ none := fun u inside held =>
    ((waits_in_deadlock sound dead inside).resolve_left fun h => held h.1).2
  have holder_queue : ∀ u ∈ S, c.held u .queue ≠ none →
      (c.locks .queueNames).Waits u ∧ ∃ v ∈ S, c.held v .queueNames ≠ none := fun u inside held =>
    ((waits_in_deadlock sound dead inside).resolve_right fun h => held h.1).2
  obtain ⟨t, inside⟩ := dead.1
  rcases waits_in_deadlock sound dead inside with ⟨-, -, u, hu, held⟩ | ⟨-, -, u, hu, held⟩
  · obtain ⟨waits, v, hv, held'⟩ := holder_names u hu held
    exact ⟨v, u, ⟨(holder_queue v hv held').1, held'⟩, waits, held⟩
  · obtain ⟨waits, v, hv, held'⟩ := holder_queue u hu held
    exact ⟨u, v, ⟨waits, held⟩, (holder_names v hv held').1, held'⟩

/-- A reader waits for `queue` only behind a writer of `queueNames`: while another reads
`queueNames` and a third reads `queue`, it does not wait. -/
theorem not_waits_reader (sound : c.Sound (terms assumed) Server.act)
    (reads : c.held t .queue = some .read) (named : c.held u .queueNames = some .read) :
    ¬ (c.locks .queue).Waits u := by
  rintro ⟨⟨v, access⟩, inLine, -⟩
  obtain ⟨⟨w, first⟩, front⟩ : ∃ r, (c.locks .queue).waiting.head? = some r := by
    cases line : (c.locks .queue).waiting with
    | nil => rw [line] at inLine; cases inLine
    | cons r rest => exact ⟨r, rfl⟩
  have blocked := (sound.locks .queue).blocked (w, first) front
  have reader : (t, Access.read) ∈ (c.locks .queue).holders :=
    (FairLock.mode_eq_some (sound.locks .queue)).1 reads
  cases first with
  | read =>
    apply blocked
    intro h inside
    obtain ⟨x, access⟩ := h
    cases access with
    | read => rfl
    | write =>
      rw [(sound.locks .queue).exclusive x inside, List.mem_singleton] at reader
      cases reader
  | write =>
    have waits : (c.locks .queue).Waits w := ⟨_, List.mem_of_mem_head? front, rfl⟩
    obtain ⟨next, program⟩ := sound.waits .queue w .write (List.mem_of_mem_head? front)
    have meets := sound.meets w
    rw [program] at meets
    have writer : c.held w .queueNames = some .write := meets.1.2
    have other : w ≠ u := by
      rintro rfl
      rw [named] at writer
      cases writer
    cases (sound.compatible other _ _ _ writer named).1

/-- A deadlock is an overlap of two tasks that are in line. -/
theorem crosses_of_deadlock (sound : c.Sound (terms assumed) Server.act) (dead : c.Deadlock S) :
    ∃ t u, c.Crosses t u ∧ (c.locks .queueNames).Waits t ∧ (c.locks .queue).Waits u := by
  obtain ⟨t, u, ⟨waits, holds⟩, waits', holds'⟩ := cycle_of_deadlock sound dead
  obtain ⟨access, next, program, permitted, -⟩ := waiting_permits sound waits
  obtain ⟨access', next', program', permitted', -⟩ := waiting_permits sound waits'
  have reads : c.held t .queue = some .read := by
    obtain ⟨mode, held⟩ := Option.ne_none_iff_exists'.1 holds
    cases mode with
    | read => exact held
    | write => exact absurd held permitted.2.1
  have access_read : access = .read := by
    cases access with
    | read => rfl
    | write => exact absurd (permitted.2.2 rfl) holds
  subst access_read
  obtain ⟨mode, named⟩ := Option.ne_none_iff_exists'.1 holds'
  cases mode with
  | read => exact absurd waits' (not_waits_reader sound reads named)
  | write =>
    cases access' with
    | read => exact absurd named permitted'.2
    | write => exact ⟨t, u, ⟨⟨reads, next, program⟩, named, next', program'⟩, waits, waits'⟩

/-- The turn that leaves a deadlock behind finds an overlap. -/
theorem overlap_before (sound : c.Sound (terms fun _ => True) Server.act) {turn : Turn}
    (dead : (c.step turn).Deadlock S) : c.Overlap := by
  obtain ⟨t, u, ⟨⟨reads, program⟩, named, program'⟩, waits, waits'⟩ :=
    crosses_of_deadlock (sound_step sound trivial) dead
  obtain ⟨same, held⟩ := sound.before_waiting waits
  obtain ⟨same', held'⟩ := sound.before_waiting waits'
  refine ⟨t, u, ⟨?_, ?_⟩, ?_, ?_⟩
  · rw [← held]; exact reads
  · rw [← same]; exact program
  · rw [← held']; exact named
  · rw [← same']; exact program'

/-- An overlap is a deadlock as soon as both tasks have had a turn. -/
theorem deadlock_of_crosses (sound : c.Sound (terms fun _ => True) Server.act)
    (crosses : c.Crosses t u) : ((c.step (.run t true)).step (.run u true)).Deadlock {t, u} := by
  obtain ⟨⟨reads, next, program⟩, named, next', program'⟩ := crosses
  have full : ¬ FairLock.Fits (c.locks .queueNames).holders .read := fun fits => by
    cases fits _ ((FairLock.mode_eq_some (sound.locks _)).1 named)
  obtain ⟨waits, tasks, held, -⟩ := System.run_blocked Server.act program full true
  have sound' := @sound_step _ c (.run t true) sound trivial
  change (c.run Server.act t true).Sound (terms fun _ => True) Server.act at sound'
  have full' : ¬ FairLock.Fits ((c.run Server.act t true).locks .queue).holders .write := by
    intro fits
    have reader := (FairLock.mode_eq_some (sound'.locks .queue)).1 ((congrFun (held t) _).trans reads)
    rw [show (((c.run Server.act t true).locks .queue).holders) = [] from fits] at reader
    cases reader
  obtain ⟨waits', -, held', kept⟩ := System.run_blocked Server.act
    ((congrFun tasks u).trans program') full' true
  have other : u ≠ t := by
    rintro rfl
    rw [program] at program'
    cases program'
  refine ⟨⟨t, .inl rfl⟩, ?_⟩
  rintro s (rfl | rfl)
  · refine ⟨u, .inr rfl, other, .queueNames, kept _ _ waits, ?_⟩
    show (System.run Server.act (System.run Server.act c s true) u true).held u _ ≠ none
    rw [held', held, named]
    exact Option.some_ne_none _
  · refine ⟨t, .inl rfl, other.symm, .queue, waits', ?_⟩
    show (System.run Server.act (System.run Server.act c t true) s true).held t _ ≠ none
    rw [held', held, reads]
    exact Option.some_ne_none _

/-- The handlers keep to their discipline and are not deadlocked. -/
def Live (c : Broker) : Prop :=
  c.Sound (terms fun _ => True) Server.act ∧ ∀ S, ¬ c.Deadlock S

theorem live_init (s : Server) : Live (System.init s) := by
  refine ⟨System.sound_init s, fun S dead => ?_⟩
  obtain ⟨t, inside⟩ := dead.1
  obtain ⟨u, -, -, lock, ⟨r, inLine, -⟩, -⟩ := dead.2 t inside
  cases inLine

/-- Where no request on a queue stands between `queue` and `queueNames` while a `CreateQ` or
`DeleteQ` stands between `queueNames` and `queue`, there is no deadlock. -/
theorem deadlockFree_of_apart (s : Server) (turns : List Turn)
    (apart : Transition.EveryStep step (fun c _ => ¬ c.Overlap) (System.init s) turns) :
    Transition.EveryState step (fun c => ∀ S, ¬ c.Deadlock S) (System.init s) turns :=
  (apart.invariant (live_init s) fun _ _ (live : Live _) apart =>
    ⟨sound_step live.1 trivial, fun _ dead => apart (overlap_before live.1 dead)⟩).mono
    fun _ live => live.2

/-- Without a writer of `queueNames`, or without a reader of `queue`, there is no overlap. -/
theorem not_overlap (h : (∀ r ∈ (c.locks .queueNames).holders, r.2 = .read) ∨
    ∀ r ∈ (c.locks .queue).holders, r.2 = .write) : ¬ c.Overlap := by
  have holder : ∀ {t : ℕ} {lock : LockName} {access : Access}, c.held t lock = some access →
      ∃ r ∈ (c.locks lock).holders, r.2 = access := by
    intro t lock access held
    obtain ⟨r, found, mode⟩ := Option.map_eq_some_iff.1 held
    exact ⟨r, List.mem_of_find?_eq_some found, mode⟩
  rintro ⟨t, u, ⟨reads, -⟩, named, -⟩
  rcases h with h | h
  · obtain ⟨r, inside, mode⟩ := holder named
    exact absurd ((h r inside).symm.trans mode) (by decide)
  · obtain ⟨r, inside, mode⟩ := holder reads
    exact absurd ((h r inside).symm.trans mode) (by decide)

/-- A `CreateQ`, and an `Enqueue` that comes when it is done. -/
theorem deadlockFree_one_by_one :
    Transition.EveryState step (fun c => ∀ S, ¬ c.Deadlock S) (System.init Server.new)
      [.buffer [(.sample 1, .sample .createQ [])], .run 0 true, .run 0 true, .run 0 true,
        .buffer [(.sample 2, .sample .enqueue [5])], .run 2 true] := by
  refine deadlockFree_of_apart _ _ (Transition.EveryStep.mono (fun c _ => not_overlap) ?_)
  decide

/-- An `Enqueue` has taken `queue`, a `CreateQ` has taken `queueNames`, and each asks for what the
other has. -/
noncomputable def crossed : List Turn :=
  [.buffer [(.sample 1, .sample .enqueue [5])], .run 0 true,
    .buffer [(.sample 2, .sample .createQ [])], .run 1 true, .run 2 true, .run 2 true, .run 1 true]

theorem enqueue_createQ_deadlock :
    ¬ ∀ (s : Server) (turns : List Turn),
      Transition.EveryState step (fun c => ∀ S, ¬ c.Deadlock S) (System.init s) turns := by
  intro free
  refine (free Server.sample crossed).last {1, 2} ⟨⟨1, .inl rfl⟩, ?_⟩
  rintro t (rfl | rfl)
  · exact ⟨2, .inr rfl, by decide, .queueNames, by decide, by decide⟩
  · exact ⟨1, .inl rfl, by decide, .queue, by decide, by decide⟩

end Broker

end DataBroker
