import Mathlib.Data.Finmap

/-!
# Hash maps

A hash map is a finite map whose iteration order is not specified: code that iterates takes the
order as an argument (`Iteration`).
-/

/-- A finite map without a specified iteration order. -/
abbrev HashMap (K V : Type) := Finmap fun _ : K => V

/-- An order in which the entries of each map are visited. -/
structure Iteration (K V : Type) where
  entries : HashMap K V → List (Σ _ : K, V)
  complete : ∀ m, (entries m : Multiset (Σ _ : K, V)) = m.entries

noncomputable instance {K V : Type} : Inhabited (Iteration K V) :=
  ⟨fun m => m.entries.toList, fun m => m.entries.coe_toList⟩

namespace HashMap

variable {K V : Type} [DecidableEq K]

/-- One equation for both cases of a lookup after an insertion. -/
theorem lookup_insert_eq (m : HashMap K V) (k k' : K) (v : V) :
    (m.insert k v).lookup k' = if k' = k then some v else m.lookup k' := by
  split_ifs with h
  · rw [h, Finmap.lookup_insert]
  · exact Finmap.lookup_insert_of_ne m h

/-- One equation for both cases of a lookup after a removal. -/
theorem lookup_erase_eq (m : HashMap K V) (k k' : K) :
    (m.erase k).lookup k' = if k' = k then none else m.lookup k' := by
  split_ifs with h
  · rw [h, Finmap.lookup_erase]
  · exact Finmap.lookup_erase_ne h

theorem mem_of_lookup {m : HashMap K V} {k : K} {v : V} (h : m.lookup k = some v) : k ∈ m :=
  Finmap.mem_of_lookup_eq_some h

/-- Overwriting a value adds no key. -/
theorem mem_insert_of_lookup {m : HashMap K V} {k : K} {v v' : V} (h : m.lookup k = some v) (k' : K) :
    k' ∈ m.insert k v' ↔ k' ∈ m := by
  refine Finmap.mem_insert.trans ⟨?_, .inr⟩
  rintro (rfl | mem)
  · exact mem_of_lookup h
  · exact mem

/-- The entries inserted one after the other. -/
def insertAll (m : HashMap K V) (entries : List (K × V)) : HashMap K V :=
  entries.foldl (fun m entry => m.insert entry.1 entry.2) m

variable {m : HashMap K V} {entries : List (K × V)} {k : K} {v : V}

theorem lookup_insertAll_of_notMem (absent : k ∉ entries.map Prod.fst) :
    (m.insertAll entries).lookup k = m.lookup k := by
  induction entries generalizing m with
  | nil => rfl
  | cons entry entries ih =>
    rw [List.map_cons, List.mem_cons, not_or] at absent
    obtain ⟨other, absent⟩ := absent
    change (HashMap.insertAll (m.insert entry.1 entry.2) entries).lookup k = _
    rw [ih absent, lookup_insert_eq, if_neg other]

/-- Where the keys differ, each of them is found with its value. -/
theorem lookup_insertAll (nodup : (entries.map Prod.fst).Nodup) (member : (k, v) ∈ entries) :
    (m.insertAll entries).lookup k = some v := by
  induction entries generalizing m with
  | nil => cases member
  | cons entry entries ih =>
    obtain ⟨absent, nodup⟩ := List.nodup_cons.1 nodup
    change (HashMap.insertAll (m.insert entry.1 entry.2) entries).lookup k = _
    rcases List.mem_cons.1 member with rfl | member
    · rw [lookup_insertAll_of_notMem absent, lookup_insert_eq, if_pos rfl]
    · exact ih nodup member

/-- The last value of a key is the one that stays. -/
theorem lookup_insertAll_iff : (insertAll ∅ entries).lookup k = some v ↔
    ∃ pre post, entries = pre ++ (k, v) :: post ∧ k ∉ post.map Prod.fst := by
  constructor
  · intro found
    induction entries using List.reverseRecOn with
    | nil => cases found
    | append_singleton entries entry ih =>
      rw [insertAll, List.foldl_concat, ← insertAll, lookup_insert_eq] at found
      split_ifs at found with here
      · obtain rfl := Option.some.inj found
        exact ⟨entries, [], by rw [here], List.not_mem_nil⟩
      · obtain ⟨pre, post, rfl, absent⟩ := ih found
        refine ⟨pre, post ++ [entry], by simp, ?_⟩
        rw [List.map_append, List.mem_append, List.map_singleton, List.mem_singleton]
        exact not_or.2 ⟨absent, here⟩
  · rintro ⟨pre, post, rfl, absent⟩
    rw [insertAll, List.foldl_append, List.foldl_cons, ← insertAll, ← insertAll,
      lookup_insertAll_of_notMem absent, lookup_insert_eq, if_pos rfl]

theorem lookup_insertAll_eq_none_iff :
    (insertAll ∅ entries).lookup k = none ↔ k ∉ entries.map Prod.fst := by
  refine ⟨fun missing inside => ?_, fun absent => ?_⟩
  · induction entries using List.reverseRecOn with
    | nil => cases inside
    | append_singleton entries entry ih =>
      rw [insertAll, List.foldl_concat, ← insertAll, lookup_insert_eq] at missing
      split_ifs at missing with here
      rw [List.map_append, List.mem_append, List.map_singleton, List.mem_singleton] at inside
      exact ih missing (inside.resolve_right here)
  · rw [lookup_insertAll_of_notMem absent, Finmap.lookup_empty]

end HashMap
