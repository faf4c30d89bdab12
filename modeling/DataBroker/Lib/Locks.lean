import Mathlib.Data.List.Count
import Mathlib.Data.List.Nodup

/-!
# Locks recorded twice

A store of items hands out locks on them and keeps two records: each stored item names its holder,
and each client has the list of the ids it locked, in locking order. The records are updated
separately, so nothing but the discipline of the callers makes them agree.

* `Agree`: the two records say the same. `agree_put`, `agree_grant`, `agree_remove` and
  `agree_release` say exactly when an operation keeps it.
* `Sound`: a listed id that is stored is locked by the client that lists it.
* `Backed`: a listed id is stored.
* `Listed`: a locked id is listed by its holder; every operation keeps it.
* `Eases`: no lock is taken and no list loses a held id; every operation but `grant` does so.
-/

/-- What the store records for each id (`none`: not stored), and the list of each client. -/
structure Locks (κ ι : Type*) where
  status : ι → Option (Option κ)
  ids : κ → List ι

namespace Locks

variable {κ ι : Type*} [DecidableEq κ] [DecidableEq ι]

/-- Who holds the lock on a stored id. -/
def holder (L : Locks κ ι) (i : ι) : Option κ := (L.status i).join

/-- A fresh item stored under `i`, over whatever was there. -/
def put (L : Locks κ ι) (i : ι) : Locks κ ι where
  status k := if k = i then some none else L.status k
  ids := L.ids

/-- The lock on `i` given to `c`. -/
def grant (L : Locks κ ι) (c : κ) (i : ι) : Locks κ ι where
  status k := if k = i then some (some c) else L.status k
  ids d := if d = c then L.ids d ++ [i] else L.ids d

/-- The item `i` removed by `c`, whose list forgets it. -/
def remove (L : Locks κ ι) (c : κ) (i : ι) : Locks κ ι where
  status k := if k = i then none else L.status k
  ids d := if d = c then (L.ids d).erase i else L.ids d

/-- The lock of `c` on `i` given up. -/
def release (L : Locks κ ι) (c : κ) (i : ι) : Locks κ ι where
  status k := if k = i then (L.status k).map fun _ => none else L.status k
  ids d := if d = c then (L.ids d).erase i else L.ids d

variable {L : Locks κ ι} {c d : κ} {i j k : ι}

omit [DecidableEq κ] in
theorem holder_put : (L.put i).holder k = if k = i then none else L.holder k := by
  unfold holder put
  dsimp only
  split_ifs <;> rfl

theorem holder_grant : (L.grant c i).holder k = if k = i then some c else L.holder k := by
  unfold holder grant
  dsimp only
  split_ifs <;> rfl

theorem holder_remove : (L.remove c i).holder k = if k = i then none else L.holder k := by
  unfold holder remove
  dsimp only
  split_ifs <;> rfl

theorem holder_release : (L.release c i).holder k = if k = i then none else L.holder k := by
  unfold holder release
  dsimp only
  split_ifs with same
  · cases L.status k <;> rfl
  · rfl

omit [DecidableEq κ] in
theorem count_put : ((L.put i).ids d).count k = (L.ids d).count k := rfl

theorem count_grant : ((L.grant c i).ids d).count k =
    (L.ids d).count k + if d = c ∧ k = i then 1 else 0 := by
  unfold grant
  dsimp only
  by_cases client : d = c <;> by_cases same : k = i <;>
    simp [client, same, List.count_append, Ne.symm]

theorem count_erase_ids : (if d = c then (L.ids d).erase i else L.ids d).count k =
    (L.ids d).count k - if d = c ∧ k = i then 1 else 0 := by
  by_cases client : d = c <;> by_cases same : k = i <;>
    simp [client, same]

theorem count_remove : ((L.remove c i).ids d).count k =
    (L.ids d).count k - if d = c ∧ k = i then 1 else 0 := count_erase_ids

theorem count_release : ((L.release c i).ids d).count k =
    (L.ids d).count k - if d = c ∧ k = i then 1 else 0 := count_erase_ids

/-! ## Agreement -/

/-- `i` is on the list of its holder, once, and on no other list. -/
def AgreeOn (L : Locks κ ι) (i : ι) : Prop :=
  ∀ c, (L.ids c).count i = if L.holder i = some c then 1 else 0

/-- The two records agree. -/
def Agree (L : Locks κ ι) : Prop := ∀ i, L.AgreeOn i

/-- Nobody but `c` holds the lock on `i`. -/
def OnlyFor (L : Locks κ ι) (c : κ) (i : ι) : Prop := L.holder i = none ∨ L.holder i = some c

instance : Decidable (L.OnlyFor c i) := inferInstanceAs (Decidable (_ ∨ _))

theorem Agree.mem_iff (h : L.Agree) : i ∈ L.ids c ↔ L.holder i = some c := by
  rw [← List.count_pos_iff, h i c]
  split_ifs with held <;> simp [held]

theorem Agree.nodup (h : L.Agree) (c : κ) : (L.ids c).Nodup := by
  apply List.nodup_iff_count_le_one.2
  intro i
  rw [h i c]
  split_ifs <;> omega

theorem agree_iff : L.Agree ↔ (∀ c i, i ∈ L.ids c ↔ L.holder i = some c) ∧ ∀ c, (L.ids c).Nodup := by
  refine ⟨fun h => ⟨fun _ _ => h.mem_iff, h.nodup⟩, fun ⟨mem, nodup⟩ i c => ?_⟩
  split_ifs with held
  · exact List.count_eq_one_of_mem (nodup c) ((mem c i).2 held)
  · exact List.count_eq_zero.2 fun listed => held ((mem c i).1 listed)

/-- An operation on `i` that leaves the other ids alone has to be checked at `i` only. -/
theorem agree_iff_of_frame {L' : Locks κ ι} (h : L.Agree)
    (frame : ∀ k ≠ i, L'.AgreeOn k ↔ L.AgreeOn k) : L'.Agree ↔ L'.AgreeOn i := by
  refine ⟨fun h' => h' i, fun h' k => ?_⟩
  by_cases same : k = i
  · exact same ▸ h'
  · exact (frame k same).2 (h k)

theorem agreeOn_put_of_ne (ne : k ≠ i) : (L.put i).AgreeOn k ↔ L.AgreeOn k := by
  simp [AgreeOn, holder_put, count_put, ne]

theorem agreeOn_remove_of_ne (ne : k ≠ i) : (L.remove c i).AgreeOn k ↔ L.AgreeOn k := by
  simp [AgreeOn, holder_remove, count_remove, ne]

theorem agreeOn_put_self (h : L.AgreeOn i) : (L.put i).AgreeOn i ↔ L.holder i = none := by
  simp only [AgreeOn, holder_put, count_put, if_true, h _]
  cases L.holder i <;> simp

theorem agreeOn_remove_self (h : L.AgreeOn i) : (L.remove c i).AgreeOn i ↔ L.OnlyFor c i := by
  simp only [AgreeOn, holder_remove, count_remove, if_true, h _, OnlyFor]
  cases held : L.holder i with
  | none => simp
  | some d =>
    constructor
    · intro gone
      by_contra other
      have ne : d ≠ c := fun e => other (.inr (by rw [e]))
      simpa [ne] using gone d
    · rintro (no | mine) e
      · cases no
      · obtain rfl : d = c := by simpa using mine
        by_cases same : e = d
        · simp [same]
        · simp [same, Ne.symm same]

theorem agree_put (h : L.Agree) : (L.put i).Agree ↔ L.holder i = none :=
  (agree_iff_of_frame h fun _ => agreeOn_put_of_ne).trans (agreeOn_put_self (h i))

theorem agree_remove (h : L.Agree) : (L.remove c i).Agree ↔ L.OnlyFor c i :=
  (agree_iff_of_frame h fun _ => agreeOn_remove_of_ne).trans (agreeOn_remove_self (h i))

theorem agree_grant (h : L.Agree) (free : L.holder i = none) : (L.grant c i).Agree := by
  refine (agree_iff_of_frame (i := i) h fun k ne => ?_).2 fun d => ?_
  · simp [AgreeOn, holder_grant, count_grant, ne]
  · rw [count_grant, holder_grant, h i d, free]
    simp [eq_comm]

theorem agree_release (h : L.Agree) (listed : i ∈ L.ids c) : (L.release c i).Agree := by
  refine (agree_iff_of_frame (i := i) h fun k ne => ?_).2 fun d => ?_
  · simp [AgreeOn, holder_release, count_release, ne]
  · rw [count_release, holder_release, h i d, h.mem_iff.1 listed]
    simp [eq_comm]

theorem put_remove_self : (L.put i).remove c i = L.remove c i := by
  unfold put remove
  congr 1
  funext k
  dsimp only
  split_ifs <;> rfl

/-- An item moved from `i` to `j` by `c`. -/
theorem agree_put_remove (h : L.Agree) :
    ((L.put j).remove c i).Agree ↔ L.OnlyFor c i ∧ (j = i ∨ L.holder j = none) := by
  by_cases same : j = i
  · rw [same, put_remove_self, agree_remove h]
    simp
  · have other : (L.put j).AgreeOn i := (agreeOn_put_of_ne (Ne.symm same)).2 (h i)
    have holder : (L.put j).OnlyFor c i ↔ L.OnlyFor c i := by
      simp [OnlyFor, holder_put, Ne.symm same]
    constructor
    · intro moved
      have atJ : (L.put j).AgreeOn j := (agreeOn_remove_of_ne same).1 (moved j)
      exact ⟨holder.1 ((agreeOn_remove_self other).1 (moved i)), .inr ((agreeOn_put_self (h j)).1 atJ)⟩
    · rintro ⟨mine, eq | free⟩
      · exact absurd eq same
      · exact (agree_remove ((agree_put h).2 free)).2 (holder.2 mine)

/-! ## Listed ids that are stored -/

/-- Nobody lists an id that somebody else holds or that is stored unlocked, and nobody lists an id
twice. -/
structure Sound (L : Locks κ ι) : Prop where
  holder : ∀ c, ∀ i ∈ L.ids c, L.status i = none ∨ L.status i = some (some c)
  nodup : ∀ c, (L.ids c).Nodup

omit [DecidableEq κ] in
theorem Sound.put (h : L.Sound) (fresh : ∀ c, i ∉ L.ids c) : (L.put i).Sound where
  holder c k listed := by
    have ne : k ≠ i := fun e => fresh c (e ▸ listed)
    simpa [Locks.put, ne] using h.holder c k listed
  nodup := h.nodup

theorem Sound.grant (h : L.Sound) (free : L.status i = some none) : (L.grant c i).Sound := by
  have fresh : ∀ d, i ∉ L.ids d := fun d listed => by
    rcases h.holder d i listed with e | e <;> rw [free] at e <;> cases e
  constructor
  · intro d k listed
    have old : k ∈ L.ids d → (L.grant c i).status k = none ∨
        (L.grant c i).status k = some (some d) := fun listed => by
      have ne : k ≠ i := fun e => fresh d (e ▸ listed)
      simpa [Locks.grant, ne] using h.holder d k listed
    by_cases client : d = c
    · simp only [Locks.grant, client, if_true, List.mem_append, List.mem_singleton] at listed
      rcases listed with listed | new
      · exact old (client ▸ listed)
      · exact .inr (by simp [Locks.grant, new, client])
    · exact old (by simpa [Locks.grant, client] using listed)
  · intro d
    by_cases client : d = c
    · simpa [Locks.grant, client, List.nodup_append] using
        ⟨h.nodup c, fun a listed e => fresh c (e ▸ listed)⟩
    · simpa [Locks.grant, client] using h.nodup d

theorem mem_of_mem_erase_ids (h : k ∈ if d = c then (L.ids d).erase i else L.ids d) :
    k ∈ L.ids d := by
  split_ifs at h
  · exact List.mem_of_mem_erase h
  · exact h

theorem nodup_erase_ids (h : (L.ids d).Nodup) :
    (if d = c then (L.ids d).erase i else L.ids d).Nodup := by
  split_ifs
  · exact h.erase i
  · exact h

theorem Sound.remove (h : L.Sound) : (L.remove c i).Sound where
  holder d k listed := by
    by_cases same : k = i
    · exact .inl (by simp [Locks.remove, same])
    · simpa [Locks.remove, same] using h.holder d k (mem_of_mem_erase_ids listed)
  nodup d := nodup_erase_ids (h.nodup d)

theorem Sound.release (h : L.Sound) (listed : i ∈ L.ids c) : (L.release c i).Sound where
  holder d k mem := by
    have old := h.holder d k (mem_of_mem_erase_ids mem)
    by_cases same : k = i
    · subst same
      rcases h.holder c k listed with gone | held
      · exact .inl (by simp [Locks.release, gone])
      · obtain rfl : d = c := by
          rw [held] at old
          simpa [eq_comm] using old
        exact absurd mem (by simp [Locks.release, (h.nodup d).not_mem_erase])
    · simpa [Locks.release, same] using old
  nodup d := nodup_erase_ids (h.nodup d)

/-! ## Listed ids are stored -/

/-- Every listed id is stored. -/
def Backed (L : Locks κ ι) : Prop := ∀ c, ∀ i ∈ L.ids c, L.status i ≠ none

/-- Nobody but `c` lists `i`, and `c` does so at most once. -/
def OnlyOn (L : Locks κ ι) (c : κ) (i : ι) : Prop :=
  (∀ d, d ≠ c → i ∉ L.ids d) ∧ (L.ids c).count i ≤ 1

omit [DecidableEq κ] in
theorem Backed.put (h : L.Backed) : (L.put i).Backed := by
  intro d k listed
  simp only [Locks.put]
  split_ifs
  · simp
  · exact h d k listed

theorem Backed.grant (h : L.Backed) : (L.grant c i).Backed := by
  intro d k listed
  simp only [Locks.grant] at listed ⊢
  split_ifs with same
  · simp
  · split_ifs at listed
    · exact h d k (by simpa [same] using listed)
    · exact h d k listed

theorem Backed.release (h : L.Backed) : (L.release c i).Backed := by
  intro d k listed
  have stored := h d k (mem_of_mem_erase_ids listed)
  simp only [Locks.release]
  split_ifs
  · simpa using stored
  · exact stored

/-- With the removal of `i` by `c` no list has it any more. -/
theorem onlyOn_iff : L.OnlyOn c i ↔ ∀ d, i ∉ (L.remove c i).ids d := by
  have unlisted : ∀ d, i ∉ (L.remove c i).ids d ↔ (L.ids d).count i ≤ if d = c then 1 else 0 := by
    intro d
    rw [← List.count_eq_zero, count_remove, Nat.sub_eq_zero_iff_le]
    simp
  simp only [unlisted]
  constructor
  · rintro ⟨elsewhere, once⟩ d
    split_ifs with client
    · exact client ▸ once
    · exact Nat.le_of_eq (List.count_eq_zero.2 (elsewhere d client))
  · intro h
    refine ⟨fun d ne => List.count_eq_zero.1 ?_, by simpa using h c⟩
    simpa [ne] using h d

theorem backed_remove (h : L.Backed) : (L.remove c i).Backed ↔ L.OnlyOn c i := by
  rw [onlyOn_iff]
  constructor
  · exact fun h' d listed => h' d i listed (by simp [Locks.remove])
  · intro unlisted d k listed
    have ne : k ≠ i := fun e => unlisted d (e ▸ listed)
    simpa [Locks.remove, ne] using h d k (mem_of_mem_erase_ids listed)

/-! ## Locked ids are listed -/

/-- Every locked id is on the list of its holder. -/
def Listed (L : Locks κ ι) : Prop := ∀ c i, L.holder i = some c → i ∈ L.ids c

omit [DecidableEq κ] in
theorem Listed.put (h : L.Listed) : (L.put i).Listed := by
  intro d k held
  rw [holder_put] at held
  split_ifs at held
  exact h d k held

theorem Listed.grant (h : L.Listed) : (L.grant c i).Listed := by
  intro d k held
  rw [holder_grant] at held
  simp only [Locks.grant]
  split_ifs at held with same
  · obtain rfl : c = d := by simpa using held
    simp [same]
  · split_ifs
    · exact List.mem_append_left _ (h d k held)
    · exact h d k held

theorem mem_erase_ids (listed : k ∈ L.ids d) (ne : k ≠ i) :
    k ∈ if d = c then (L.ids d).erase i else L.ids d := by
  split_ifs
  · exact (List.mem_erase_of_ne ne).2 listed
  · exact listed

theorem Listed.remove (h : L.Listed) : (L.remove c i).Listed := by
  intro d k held
  rw [holder_remove] at held
  split_ifs at held with same
  exact mem_erase_ids (h d k held) same

theorem Listed.release (h : L.Listed) : (L.release c i).Listed := by
  intro d k held
  rw [holder_release] at held
  split_ifs at held with same
  exact mem_erase_ids (h d k held) same

/-! ## Locks only given up -/

/-- Nobody gets a lock, and what a client holds behind the change stays on its list in its order. -/
structure Eases (L L' : Locks κ ι) : Prop where
  held : ∀ c i, L'.holder i = some c → L.holder i = some c
  listed : ∀ c (ids : List ι), ids.Sublist (L.ids c) → (∀ i ∈ ids, L'.holder i = some c) →
    ids.Sublist (L'.ids c)

omit [DecidableEq κ] [DecidableEq ι] in
theorem Eases.refl (L : Locks κ ι) : L.Eases L := ⟨fun _ _ => id, fun _ _ sub _ => sub⟩

omit [DecidableEq κ] [DecidableEq ι] in
theorem Eases.trans {L' L'' : Locks κ ι} (first : L.Eases L') (second : L'.Eases L'') :
    L.Eases L'' where
  held c i h := first.held c i (second.held c i h)
  listed c ids sub h :=
    second.listed c ids (first.listed c ids sub fun i mem => second.held c i (h i mem)) h

omit [DecidableEq κ] in
theorem eases_put : L.Eases (L.put i) where
  held c k h := by
    rw [holder_put] at h
    split_ifs at h
    exact h
  listed _ _ sub _ := sub

/-- A list that holds no `i` is not affected by taking out an `i`. -/
theorem sublist_erase_ids {ids : List ι} (sub : ids.Sublist (L.ids d)) (absent : i ∉ ids) :
    ids.Sublist (if d = c then (L.ids d).erase i else L.ids d) := by
  split_ifs
  · rw [← List.erase_of_not_mem absent]
    exact sub.erase i
  · exact sub

theorem eases_remove : L.Eases (L.remove c i) where
  held d k h := by
    rw [holder_remove] at h
    split_ifs at h
    exact h
  listed d ids sub h := sublist_erase_ids sub fun mem => by
    simpa [holder_remove] using h i mem

theorem eases_release : L.Eases (L.release c i) where
  held d k h := by
    rw [holder_release] at h
    split_ifs at h
    exact h
  listed d ids sub h := sublist_erase_ids sub fun mem => by
    simpa [holder_release] using h i mem

end Locks
