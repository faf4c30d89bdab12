import Mathlib.Data.List.Pairwise
import Mathlib.Data.Multiset.Sort
import Mathlib.Data.Multiset.Lattice

/-!
# The largest elements

`largest k s` are the `k` largest elements of a multiset, with multiplicity and in ascending order.
A record of `k` elements that puts every element it is offered in its place and drops the least one
holds the largest of all elements it has seen, in whatever order they came (`foldl_offer`).
-/

namespace Largest

variable {α : Type*} [LinearOrder α]

/-- The `k` largest elements of `s`, in ascending order. -/
def largest (k : ℕ) (s : Multiset α) : List α := (s.sort (· ≤ ·)).drop (s.card - k)

/-- `a` put in its place in the record, and the least element dropped. -/
def offer (record : List α) (a : α) : List α := (record.orderedInsert (· ≤ ·) a).tail

variable {record : List α} {rest : Multiset α} {a : α}

theorem length_offer (record : List α) (a : α) : (offer record a).length = record.length := by
  rw [offer, List.length_tail, List.orderedInsert_length, Nat.add_sub_cancel]

theorem offer_ascending (ascending : record.Pairwise (· ≤ ·)) (a : α) :
    (offer record a).Pairwise (· ≤ ·) :=
  (ascending.orderedInsert a record).sublist (List.tail_sublist _)

/-- Where `a` belongs in the record. -/
theorem offer_append {lo hi : List α} (below : ∀ x ∈ lo, x < a) (above : ∀ y ∈ hi, a ≤ y) :
    offer (lo ++ hi) a = (lo ++ a :: hi).tail := by
  have front : ∀ x ∈ lo, decide (¬ a ≤ x) = true := fun x mem => by simpa using below x mem
  have back : (hi.takeWhile fun b => ¬ a ≤ b) = [] ∧ (hi.dropWhile fun b => ¬ a ≤ b) = hi := by
    cases hi with
    | nil => exact ⟨rfl, rfl⟩
    | cons y hi =>
      have stop : ¬ decide (¬ a ≤ y) = true := by simpa using above y List.mem_cons_self
      exact ⟨List.takeWhile_cons_of_neg stop, List.dropWhile_cons_of_neg stop⟩
  rw [offer, List.orderedInsert_eq_take_drop, List.takeWhile_append_of_pos front,
    List.dropWhile_append_of_pos front, back.1, back.2, List.append_nil]

/-- Where the elements of a record are at least the others, they are the largest ones. -/
theorem largest_eq (ascending : record.Pairwise (· ≤ ·)) (above : ∀ x ∈ rest, ∀ y ∈ record, x ≤ y) :
    largest record.length (rest + (record : Multiset α)) = record := by
  have sorted : (rest.sort (· ≤ ·) ++ record).Pairwise (· ≤ ·) :=
    List.pairwise_append.2 ⟨Multiset.pairwise_sort rest _, ascending,
      fun x mem => above x ((Multiset.mem_sort _).1 mem)⟩
  have same : (rest + (record : Multiset α)).sort (· ≤ ·) = rest.sort (· ≤ ·) ++ record := by
    refine List.Perm.eq_of_pairwise' (Multiset.pairwise_sort _ _) sorted (Multiset.coe_eq_coe.1 ?_)
    rw [Multiset.sort_eq, ← Multiset.coe_add, Multiset.sort_eq]
  have others : (rest + (record : Multiset α)).card - record.length = (rest.sort (· ≤ ·)).length := by
    rw [Multiset.card_add, Multiset.coe_card, Nat.add_sub_cancel, Multiset.length_sort]
  rw [largest, same, others, List.drop_left]

/-- What an offer drops is at most what it keeps. -/
theorem exists_dropped (ascending : record.Pairwise (· ≤ ·)) (a : α) :
    ∃ least, (a :: record).Perm (least :: offer record a) ∧ ∀ y ∈ offer record a, least ≤ y := by
  have inserted := List.perm_orderedInsert (· ≤ ·) a record
  have sorted := ascending.orderedInsert a record
  unfold offer
  cases all : record.orderedInsert (· ≤ ·) a with
  | nil => simp [all] at inserted
  | cons least kept =>
    rw [all] at inserted sorted
    exact ⟨least, inserted.symm, (List.pairwise_cons.1 sorted).1⟩

/-- An element that is kept is above one that was there before. -/
theorem exists_old_le {least y : α} (same : (a :: record).Perm (least :: offer record a))
    (below : ∀ y ∈ offer record a, least ≤ y) (kept : y ∈ offer record a) : ∃ z ∈ record, z ≤ y := by
  rcases List.mem_cons.1 (same.mem_iff.2 (List.mem_cons_self (a := least))) with rfl | old
  · exact ⟨y, same.cons_inv.mem_iff.2 kept, le_rfl⟩
  · exact ⟨least, old, below y kept⟩

theorem foldl_offer_above (ascending : record.Pairwise (· ≤ ·))
    (above : ∀ x ∈ rest, ∀ y ∈ record, x ≤ y) (as : List α) :
    as.foldl offer record =
      largest record.length (rest + (record : Multiset α) + (as : Multiset α)) := by
  induction as generalizing record rest with
  | nil => rw [List.foldl_nil, Multiset.coe_nil, Multiset.add_zero, largest_eq ascending above]
  | cons a as ih =>
    obtain ⟨least, same, below⟩ := exists_dropped ascending a
    have all : rest + (record : Multiset α) + ((a :: as : List α) : Multiset α) =
        (least ::ₘ rest) + (offer record a : Multiset α) + (as : Multiset α) := by
      have split : a ::ₘ (record : Multiset α) = least ::ₘ (offer record a : Multiset α) :=
        Multiset.coe_eq_coe.2 same
      rw [← Multiset.cons_coe, Multiset.add_cons, ← Multiset.cons_add, ← Multiset.add_cons, split,
        Multiset.add_cons, Multiset.cons_add least rest]
    have above' : ∀ x ∈ least ::ₘ rest, ∀ y ∈ offer record a, x ≤ y := by
      intro x mem y kept
      rcases Multiset.mem_cons.1 mem with rfl | mem
      · exact below y kept
      · obtain ⟨z, old, upto⟩ := exists_old_le same below kept
        exact (above x mem z old).trans upto
    rw [List.foldl_cons, ih (offer_ascending ascending a) above', length_offer, all]

/-- After any number of offers the record holds the largest of the elements it began with and of
those it was offered. -/
theorem foldl_offer (ascending : record.Pairwise (· ≤ ·)) (as : List α) :
    as.foldl offer record = largest record.length ((record : Multiset α) + (as : Multiset α)) := by
  have none : ∀ x ∈ (0 : Multiset α), ∀ y ∈ record, x ≤ y := by simp
  rw [foldl_offer_above ascending none as, Multiset.zero_add]

theorem largest_ascending (k : ℕ) (s : Multiset α) : (largest k s).Pairwise (· ≤ ·) :=
  (Multiset.pairwise_sort s _).sublist (List.drop_sublist _ _)

/-- The last of the largest elements is an upper bound of all. -/
theorem getLast?_largest [OrderBot α] {k : ℕ} {s : Multiset α} (positive : 0 < k)
    (enough : k ≤ s.card) :
    (largest k s).getLast? = some s.sup := by
  have sorted := Multiset.pairwise_sort s (· ≤ ·)
  have nonempty : s.sort (· ≤ ·) ≠ [] := by
    intro empty
    have := congrArg List.length empty
    rw [Multiset.length_sort, List.length_nil] at this
    omega
  rw [largest, List.getLast?_drop, Multiset.length_sort, if_neg (by omega),
    List.getLast?_eq_some_getLast nonempty]
  have last := (Multiset.mem_sort (· ≤ ·)).1 (List.getLast_mem nonempty)
  refine congrArg some (le_antisymm (Multiset.le_sup last) (Multiset.sup_le.2 fun x mem => ?_))
  exact sorted.rel_getLast ((Multiset.mem_sort (· ≤ ·)).2 mem)

end Largest
