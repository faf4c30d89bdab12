import DataBroker.Queue.Basic
import Mathlib.Data.List.Basic

/-!
# The order vector

What burying an entry, draining the leading tombstones and following an entry do to `order`.
-/

namespace DataBroker

namespace Queue

theorem idxOf?_of_mem {l : List U128} {a : U128} (h : a ∈ l) : l.idxOf? a = some (l.idxOf a) := by
  obtain ⟨i, hi⟩ : ∃ i, l.idxOf? a = some i :=
    Option.ne_none_iff_exists'.1 fun e => List.idxOf?_eq_none_iff.1 e h
  rw [List.idxOf_eq_getD_idxOf?, hi, Option.getD_some]

/-- `order` with the first entry `id` turned into a tombstone. -/
def bury (order : List U128) (id : U128) : List U128 := order.set (order.idxOf id) 0

theorem bury_of_notMem {order : List U128} {id : U128} (absent : id ∉ order) :
    bury order id = order := by
  rw [bury, List.idxOf_of_notMem absent, List.set_eq_of_length_le le_rfl]

theorem bury_append {pre suf : List U128} {id : U128} (fresh : id ∉ pre) :
    bury (pre ++ id :: suf) id = pre ++ 0 :: suf := by
  simp [bury, List.idxOf_append_of_notMem fresh]

theorem entryAfter_append {pre suf : List U128} {id : U128} (fresh : id ∉ pre) :
    entryAfter (pre ++ id :: suf) id = suf.head? := by
  rw [entryAfter, List.idxOf_append_of_notMem fresh, List.idxOf_cons_self,
    List.getElem?_append_right (by omega), List.head?_eq_getElem?]
  simp

/-- Burying an entry adds at most a tombstone. -/
theorem mem_of_mem_bury {order : List U128} {id x : U128} (h : x ∈ bury order id) (hx : x ≠ 0) :
    x ∈ order := by
  rcases List.mem_or_eq_of_mem_set h with h | h
  · exact h
  · exact absurd h hx

theorem mem_bury {order : List U128} {id x : U128} (h : x ∈ order) (hx : x ≠ id) :
    x ∈ bury order id := by
  by_cases listed : id ∈ order
  · obtain ⟨pre, suf, rfl, fresh⟩ := List.eq_append_cons_of_mem listed
    rw [bury_append fresh]
    simp only [List.mem_append, List.mem_cons] at h ⊢
    rcases h with h | h | h
    · exact .inl h
    · exact absurd h hx
    · exact .inr (.inr h)
  · rwa [bury_of_notMem listed]

/-- Only leading tombstones are drained. -/
theorem eq_append_drain (order : List U128) : ∃ k, order = List.replicate k 0 ++ drain order := by
  have zeros : ∀ k, (∀ x ∈ order.take k, x = 0) →
      ∃ j, order = List.replicate j 0 ++ order.drop k := fun k h =>
    ⟨_, by rw [← List.eq_replicate_length.2 h, List.take_append_drop]⟩
  unfold drain
  split_ifs with long
  · split
    next id found =>
      split_ifs
      · apply zeros id
        intro x hx
        obtain ⟨i, hi, rfl⟩ := List.mem_take_iff_getElem.1 hx
        have before := (List.findIdx?_eq_some_iff_getElem.1 found).2.2 i (by omega)
        simpa using before
      · exact ⟨0, rfl⟩
    next absent =>
      obtain ⟨j, hj⟩ := zeros order.length fun x hx => by
        have := List.findIdx?_eq_none_iff.1 absent x (List.mem_of_mem_take hx)
        simpa using this
      exact ⟨j, by simpa using hj⟩
  · exact ⟨0, rfl⟩

theorem mem_drain {order : List U128} {x : U128} (hx : x ≠ 0) : x ∈ drain order ↔ x ∈ order := by
  obtain ⟨k, hk⟩ := eq_append_drain order
  conv_rhs => rw [hk]
  simp only [List.mem_append, List.mem_replicate]
  exact ⟨.inr, fun h => h.resolve_left fun h => hx h.2⟩

/-- Draining drops no entry. -/
theorem filter_drain (order : List U128) :
    (drain order).filter (· ≠ 0) = order.filter (· ≠ 0) := by
  obtain ⟨k, split⟩ := eq_append_drain order
  conv_rhs => rw [split]
  rw [List.filter_append, List.filter_replicate_of_neg (by simp), List.nil_append]

/-- Burying drops at most one entry. -/
theorem filter_bury_sublist (order : List U128) (id : U128) :
    ((bury order id).filter (· ≠ 0)).Sublist (order.filter (· ≠ 0)) := by
  by_cases listed : id ∈ order
  · obtain ⟨pre, suf, rfl, fresh⟩ := List.eq_append_cons_of_mem listed
    rw [bury_append fresh, List.filter_append, List.filter_append,
      List.filter_cons_of_neg (by simp)]
    exact (List.Sublist.refl _).append ((List.sublist_cons_self id suf).filter _)
  · rw [bury_of_notMem listed]

/-- An id that has one entry has none when that is buried. -/
theorem notMem_bury_of_once {order : List U128} {id : U128} (once : (order.filter (· ≠ 0)).Nodup)
    (ne_zero : id ≠ 0) : id ∉ bury order id := by
  by_cases listed : id ∈ order
  · obtain ⟨pre, suf, rfl, fresh⟩ := List.eq_append_cons_of_mem listed
    rw [List.filter_append, List.filter_cons_of_pos (by simpa using ne_zero)] at once
    have behind := (List.nodup_cons.1 (List.nodup_append.1 once).2.1).1
    rw [bury_append fresh, List.mem_append, List.mem_cons]
    rintro (before | zero | after)
    · exact fresh before
    · exact ne_zero zero
    · exact behind (List.mem_filter.2 ⟨after, by simpa using ne_zero⟩)
  · rwa [bury_of_notMem listed]

theorem bury_append_of_mem {order suf : List U128} {id : U128} (listed : id ∈ order) :
    bury (order ++ suf) id = bury order id ++ suf := by
  rw [bury, List.idxOf_append_of_mem listed, List.set_append_left _ _ (List.idxOf_lt_length_of_mem listed),
    bury]

theorem mem_of_entryAfter {order : List U128} {id next : U128}
    (behind : entryAfter order id = some next) : next ∈ order := List.mem_of_getElem? behind

/-- The entry behind `id` is still there when `id` is buried. -/
theorem mem_bury_of_entryAfter {order : List U128} {id next : U128}
    (behind : entryAfter order id = some next) : next ∈ bury order id := by
  apply @List.mem_of_getElem? _ _ (order.idxOf id + 1)
  rw [bury, List.getElem?_set_ne (by omega)]
  exact behind

/-- A cursor that skips a tombstone is at an entry. -/
theorem mem_of_skipTombstone {order : List U128} {next : Option U128} {id : U128}
    (listed : ∀ k, next = some k → k ∈ order) (skipped : skipTombstone order next = some id) :
    id ∈ order ∧ id ≠ 0 := by
  unfold skipTombstone at skipped
  split_ifs at skipped with tombstone
  · exact ⟨List.mem_of_find?_eq_some skipped, by simpa using List.find?_some skipped⟩
  · refine ⟨listed id skipped, ?_⟩
    rintro rfl
    exact tombstone skipped

theorem newId_ne_zero (order : List U128) : newId order ≠ 0 := by
  unfold newId
  split
  · decide
  · split_ifs with wraps
    · decide
    · exact wraps

end Queue

end DataBroker
