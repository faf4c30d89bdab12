import Mathlib.Data.List.Nodup

/-!
# Fair locks

A fair lock admits any number of readers or one writer. A request that does not fit waits in line,
and none overtakes it: a reader waits behind a waiting writer even while other readers hold the
lock. A release admits from the front of the line as long as the requests fit.
-/

/-- How a lock is held. -/
inductive Access where
  | read
  | write
deriving DecidableEq, Repr

/-- Who holds a lock, and who waits for it, the longest waiting first. -/
structure FairLock (τ : Type*) where
  holders : List (τ × Access)
  waiting : List (τ × Access)

namespace FairLock

variable {τ : Type*}

/-- An access that the holders leave room for. -/
def Fits (holders : List (τ × Access)) : Access → Prop
  | .read => ∀ h ∈ holders, h.2 = .read
  | .write => holders = []

instance (holders : List (τ × Access)) : (access : Access) → Decidable (Fits holders access)
  | .read => inferInstanceAs (Decidable (∀ h ∈ holders, h.2 = .read))
  | .write => decidable_of_iff (holders.isEmpty = true) List.isEmpty_iff

def unheld : FairLock τ := ⟨[], []⟩

/-- The requests at the front of the line join the holders as long as they fit. -/
def letIn (holders : List (τ × Access)) : List (τ × Access) → FairLock τ
  | [] => ⟨holders, []⟩
  | request :: waiting =>
    if Fits holders request.2 then letIn (request :: holders) waiting
    else ⟨holders, request :: waiting⟩

def request (l : FairLock τ) (t : τ) (access : Access) : FairLock τ :=
  if l.waiting.isEmpty ∧ Fits l.holders access then ⟨(t, access) :: l.holders, l.waiting⟩
  else ⟨l.holders, l.waiting ++ [(t, access)]⟩

section DecidableEq

variable [DecidableEq τ]

def release (l : FairLock τ) (t : τ) : FairLock τ :=
  letIn (l.holders.filter fun h => h.1 ≠ t) l.waiting

/-- How `t` holds the lock, if it does. -/
def mode (l : FairLock τ) (t : τ) : Option Access := (l.holders.find? fun h => h.1 = t).map Prod.snd

/-- `t` stands in line. -/
def Waits (l : FairLock τ) (t : τ) : Prop := ∃ request ∈ l.waiting, request.1 = t

instance (l : FairLock τ) (t : τ) : Decidable (l.Waits t) :=
  inferInstanceAs (Decidable (∃ request ∈ l.waiting, request.1 = t))

end DecidableEq

/-- A writer is the only holder. -/
def Exclusive (holders : List (τ × Access)) : Prop :=
  ∀ t, (t, Access.write) ∈ holders → holders = [(t, .write)]

/-- A writer is the only holder, nobody holds or awaits the lock twice, and the first in line does
not fit. -/
structure Sound (l : FairLock τ) : Prop where
  exclusive : Exclusive l.holders
  once : ((l.holders ++ l.waiting).map Prod.fst).Nodup
  blocked : ∀ request ∈ l.waiting.head?, ¬ Fits l.holders request.2

theorem sound_unheld : (unheld : FairLock τ).Sound where
  exclusive := by simp [Exclusive, unheld]
  once := by simp [unheld]
  blocked := by simp [unheld]

theorem Exclusive.cons {holders : List (τ × Access)} {request : τ × Access}
    (exclusive : Exclusive holders) (fits : Fits holders request.2) :
    Exclusive (request :: holders) := by
  intro t writer
  obtain ⟨u, access⟩ := request
  cases access with
  | write =>
    obtain rfl : holders = [] := fits
    rw [List.mem_singleton.1 writer]
  | read =>
    have inside : (t, Access.write) ∈ holders := by simpa using writer
    cases fits _ inside

/-- What `letIn` does: a part of the line moves over, and the next in line does not fit. -/
theorem letIn_spec (holders waiting : List (τ × Access)) :
    ∃ admitted, waiting = admitted ++ (letIn holders waiting).waiting ∧
      (letIn holders waiting).holders = admitted.reverse ++ holders ∧
      ∀ request ∈ (letIn holders waiting).waiting.head?,
        ¬ Fits (letIn holders waiting).holders request.2 := by
  induction waiting generalizing holders with
  | nil => exact ⟨[], rfl, rfl, by simp [letIn]⟩
  | cons request waiting ih =>
    rw [letIn]
    split_ifs with fits
    · obtain ⟨admitted, line, held, blocked⟩ := ih (request :: holders)
      refine ⟨request :: admitted, congrArg _ line, ?_, blocked⟩
      rw [held, List.reverse_cons, List.append_assoc]
      rfl
    · exact ⟨[], rfl, rfl, by simpa using fits⟩

theorem exclusive_letIn {holders : List (τ × Access)} (exclusive : Exclusive holders)
    (waiting : List (τ × Access)) : Exclusive (letIn holders waiting).holders := by
  induction waiting generalizing holders with
  | nil => exact exclusive
  | cons request waiting ih =>
    rw [letIn]
    split_ifs with fits
    · exact ih (exclusive.cons fits)
    · exact exclusive

section Calls

variable [DecidableEq τ] {l : FairLock τ} {t u : τ} {access : Access}

theorem mode_eq_some (sound : l.Sound) : l.mode t = some access ↔ (t, access) ∈ l.holders := by
  have once : (l.holders.map Prod.fst).Nodup := by
    have := sound.once
    rw [List.map_append] at this
    exact this.of_append_left
  unfold mode
  constructor
  · intro found
    obtain ⟨⟨u, access'⟩, first, rfl⟩ := Option.map_eq_some_iff.1 found
    obtain rfl : u = t := by simpa using List.find?_some first
    exact List.mem_of_find?_eq_some first
  · intro inside
    obtain ⟨h, first⟩ : ∃ h, l.holders.find? (fun h => h.1 = t) = some h :=
      Option.isSome_iff_exists.1 (List.find?_isSome.2 ⟨(t, access), inside, by simp⟩)
    have same : h.1 = t := by simpa using List.find?_some first
    have : h = (t, access) :=
      List.inj_on_of_nodup_map once (List.mem_of_find?_eq_some first) inside same
    rw [first, this, Option.map_some]

theorem mode_eq_none : l.mode t = none ↔ ∀ access, (t, access) ∉ l.holders := by
  unfold mode
  rw [Option.map_eq_none_iff, List.find?_eq_none]
  constructor
  · intro none access inside
    exact none _ inside (by simp)
  · rintro none ⟨u, access⟩ inside same
    obtain rfl : u = t := by simpa using same
    exact none access inside

theorem request_sound (sound : l.Sound) (outside : l.mode t = none) (new : ¬ l.Waits t) :
    (l.request t access).Sound := by
  have fresh : t ∉ (l.holders ++ l.waiting).map Prod.fst := by
    intro inside
    obtain ⟨⟨u, access'⟩, there, rfl⟩ := List.mem_map.1 inside
    rcases List.mem_append.1 there with held | waits
    · exact mode_eq_none.1 outside access' held
    · exact new ⟨_, waits, rfl⟩
  unfold request
  split_ifs with granted
  · exact {
      exclusive := sound.exclusive.cons granted.2
      once := List.nodup_cons.2 ⟨fresh, sound.once⟩
      blocked := by simp [List.isEmpty_iff.1 granted.1] }
  · refine ⟨sound.exclusive, ?_, ?_⟩
    · dsimp only
      rw [← List.append_assoc, List.map_append]
      exact List.nodup_append_comm.1 (List.nodup_cons.2 ⟨fresh, sound.once⟩)
    · intro first hfirst
      dsimp only at hfirst ⊢
      cases hline : l.waiting with
      | nil =>
        rw [hline, List.nil_append, List.head?_cons, Option.mem_some_iff] at hfirst
        subst hfirst
        intro fits
        exact granted ⟨by rw [hline]; rfl, fits⟩
      | cons head tail =>
        rw [hline] at hfirst
        exact sound.blocked first (by rw [hline]; exact hfirst)

/-- Who held the lock before a release and is not the one who leaves. -/
theorem mem_others {h : τ × Access} :
    h ∈ l.holders.filter (fun h => h.1 ≠ t) ↔ h ∈ l.holders ∧ h.1 ≠ t := by
  simp [List.mem_filter]

theorem release_sound (sound : l.Sound) (t : τ) : (l.release t).Sound := by
  obtain ⟨admitted, line, held, blocked⟩ := letIn_spec (l.holders.filter fun h => h.1 ≠ t) l.waiting
  refine ⟨exclusive_letIn ?_ _, ?_, blocked⟩
  · intro u writer
    obtain ⟨inside, other⟩ := mem_others.1 writer
    rw [sound.exclusive u inside]
    simpa using other
  · unfold release
    rw [held]
    have order : (admitted.reverse ++ l.holders.filter (fun h => h.1 ≠ t) ++
        (letIn (l.holders.filter fun h => h.1 ≠ t) l.waiting).waiting).Perm
        (l.holders.filter (fun h => h.1 ≠ t) ++ l.waiting) := by
      conv_rhs => rw [line, ← List.append_assoc]
      apply List.Perm.append_right _
      exact List.perm_append_comm.trans ((List.reverse_perm admitted).append_left _)
    refine ((order.map Prod.fst).nodup_iff).2 (sound.once.sublist ?_)
    exact (List.filter_sublist.append_right _).map _

/-! ## Who holds the lock after a call -/

omit [DecidableEq τ] in
theorem mem_waiting_request {r : τ × Access} (inside : r ∈ (l.request t access).waiting) :
    r ∈ l.waiting ∨ r = (t, access) := by
  unfold request at inside
  split_ifs at inside
  · exact .inl inside
  · exact (List.mem_append.1 inside).imp_right List.mem_singleton.1

omit [DecidableEq τ] in
/-- A request that does not fit waits. -/
theorem waits_request (blocked : ¬ Fits l.holders access) : (l.request t access).Waits t := by
  rw [request, if_neg (fun h => blocked h.2)]
  exact ⟨(t, access), List.mem_append_right _ (List.mem_singleton_self _), rfl⟩

omit [DecidableEq τ] in
/-- Who waits still does after another request. -/
theorem waits_of_waits (waits : l.Waits u) : (l.request t access).Waits u := by
  obtain ⟨r, inside, own⟩ := waits
  unfold request
  split_ifs
  · exact ⟨r, inside, own⟩
  · exact ⟨r, List.mem_append_left _ inside, own⟩

/-- A request that does not have to wait is granted. -/
theorem mode_request (u : τ) : (l.request t access).mode u =
    if u = t ∧ ¬ (l.request t access).Waits t then some access else l.mode u := by
  unfold request
  split_ifs with granted here here
  · obtain ⟨rfl, -⟩ := here
    simp [mode]
  · have other : u ≠ t := by
      rintro rfl
      refine here ⟨rfl, ?_⟩
      rintro ⟨r, inside, -⟩
      rw [List.isEmpty_iff.1 granted.1] at inside
      cases inside
    simp [mode, other.symm]
  · exact absurd ⟨(t, access), by simp, rfl⟩ here.2
  · rfl

theorem mem_waiting_release {r : τ × Access} (inside : r ∈ (l.release t).waiting) :
    r ∈ l.waiting := by
  obtain ⟨admitted, line, -⟩ := letIn_spec (l.holders.filter fun h => h.1 ≠ t) l.waiting
  rw [line]
  exact List.mem_append_right _ inside

theorem mode_release_self (idle : ¬ l.Waits t) : (l.release t).mode t = none := by
  obtain ⟨admitted, line, held, -⟩ := letIn_spec (l.holders.filter fun h => h.1 ≠ t) l.waiting
  rw [mode_eq_none]
  intro access inside
  unfold release at inside
  rw [held] at inside
  rcases List.mem_append.1 inside with inside | inside
  · refine idle ⟨(t, access), ?_, rfl⟩
    rw [line]
    exact List.mem_append_left _ (List.mem_reverse.1 inside)
  · exact (mem_others.1 inside).2 rfl

/-- A release leaves another where it was, or lets it in. -/
theorem mode_release_other (sound : l.Sound) (other : u ≠ t) :
    ((l.release t).mode u = l.mode u ∧ (l.Waits u → (l.release t).Waits u)) ∨
      ∃ access, (u, access) ∈ l.waiting ∧ ¬ (l.release t).Waits u ∧
        (l.release t).mode u = some access := by
  have after := release_sound sound t
  obtain ⟨admitted, line, held, -⟩ := letIn_spec (l.holders.filter fun h => h.1 ≠ t) l.waiting
  change (l.release t).holders = _ at held
  change l.waiting = admitted ++ (l.release t).waiting at line
  by_cases letIn : ∃ access, (u, access) ∈ admitted
  · obtain ⟨access, letIn⟩ := letIn
    have holds : (u, access) ∈ (l.release t).holders := by
      rw [held]
      exact List.mem_append_left _ (List.mem_reverse.2 letIn)
    refine .inr ⟨access, ?_, ?_, (mode_eq_some after).2 holds⟩
    · rw [line]
      exact List.mem_append_left _ letIn
    · rintro ⟨r, inside, rfl⟩
      have once := after.once
      rw [List.map_append] at once
      have left : r.1 ∈ (l.release t).holders.map Prod.fst := List.mem_map.2 ⟨_, holds, rfl⟩
      have right : r.1 ∈ (l.release t).waiting.map Prod.fst := List.mem_map.2 ⟨_, inside, rfl⟩
      exact List.disjoint_of_nodup_append once left right
  · refine .inl ⟨?_, ?_⟩
    · ext access
      rw [mode_eq_some after, mode_eq_some sound, held, List.mem_append, List.mem_reverse,
        mem_others]
      exact ⟨fun h => (h.resolve_left fun h => letIn ⟨access, h⟩).1, fun h => .inr ⟨h, other⟩⟩
    · rintro ⟨r, inside, rfl⟩
      rw [line] at inside
      exact ⟨r, (List.mem_append.1 inside).resolve_left fun h => letIn ⟨r.2, h⟩, rfl⟩

/-- Who holds the lock does not stand in line for it. -/
theorem not_waits_of_holds (sound : l.Sound) (holds : l.mode t ≠ none) : ¬ l.Waits t := by
  obtain ⟨access, holds⟩ := Option.ne_none_iff_exists'.1 holds
  rintro ⟨r, inside, rfl⟩
  have once := sound.once
  rw [List.map_append] at once
  exact List.disjoint_of_nodup_append once
    (List.mem_map.2 ⟨_, (mode_eq_some sound).1 holds, rfl⟩) (List.mem_map.2 ⟨r, inside, rfl⟩)

/-- While somebody holds the lock, what another one gives back lets nobody in. -/
theorem waiting_release_of_holds (sound : l.Sound) (holds : l.mode u ≠ none) (other : u ≠ t) :
    (l.release t).waiting = l.waiting := by
  obtain ⟨access, holds⟩ := Option.ne_none_iff_exists'.1 holds
  have inside := (mode_eq_some sound).1 holds
  have left : (u, access) ∈ l.holders.filter fun h => h.1 ≠ t := mem_others.2 ⟨inside, other⟩
  unfold release
  cases line : l.waiting with
  | nil => rfl
  | cons first rest =>
    have blocked := sound.blocked first (by rw [line]; rfl)
    rw [letIn, if_neg]
    intro fits
    cases mode : first.2 with
    | write =>
      rw [mode] at fits
      rw [show l.holders.filter (fun h => h.1 ≠ t) = [] from fits] at left
      cases left
    | read =>
      rw [mode] at fits blocked
      refine blocked fun h held => ?_
      -- a writer would be the only holder
      obtain ⟨v, access'⟩ := h
      cases access' with
      | read => rfl
      | write =>
        rw [sound.exclusive v held, List.mem_singleton] at inside
        cases inside
        exact fits _ left

end Calls

end FairLock
