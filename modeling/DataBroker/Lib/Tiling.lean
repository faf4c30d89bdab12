import Mathlib.Algebra.Order.BigOperators.Group.List
import Mathlib.Algebra.BigOperators.Ring.List
import Mathlib.Algebra.Order.Ring.Nat
import Mathlib.Algebra.Group.Action.Defs
import Mathlib.Order.Interval.Finset.Nat
import Mathlib.Data.Finset.Card
import Mathlib.Data.List.Sort

/-!
# Segments that tile an interval

`Tiles lo hi segments` says that nonempty segments `[start, stop)` lie apart from each other and
cover exactly the addresses from `lo` to below `hi`. It does not depend on their order. A segment
can be added at the end (`Tiles.extend`), cut in two and put together again (`Tiles.cut_iff`).
-/

/-- The addresses from `start` to below `start + size`. -/
structure Segment where
  start : ℕ
  size : ℕ
deriving DecidableEq, Repr

namespace Segment

/-- The first address behind the segment. -/
def stop (s : Segment) : ℕ := s.start + s.size

def Covers (s : Segment) (a : ℕ) : Prop := s.start ≤ a ∧ a < s.stop

/-- One of the two ends before the other begins. -/
def Apart (s t : Segment) : Prop := s.stop ≤ t.start ∨ t.stop ≤ s.start

instance (s t : Segment) : Decidable (s.Apart t) := inferInstanceAs (Decidable (_ ∨ _))

theorem Apart.symm {s t : Segment} (h : s.Apart t) : t.Apart s := Or.symm h

instance : Std.Symm Apart := ⟨fun _ _ h => h.symm⟩

/-- The addresses of all segments of a list. -/
def addresses (segments : List Segment) : Finset ℕ :=
  segments.foldr (fun s acc => Finset.Ico s.start s.stop ∪ acc) ∅

theorem mem_addresses {segments : List Segment} {a : ℕ} :
    a ∈ addresses segments ↔ ∃ s ∈ segments, s.Covers a := by
  induction segments with
  | nil => simp [addresses]
  | cons s segments ih =>
    rw [addresses, List.foldr_cons, Finset.mem_union, Finset.mem_Ico, ← addresses, ih]
    simp [Covers]

theorem card_addresses {segments : List Segment} (apart : segments.Pairwise Apart) :
    (addresses segments).card = (segments.map size).sum := by
  induction segments with
  | nil => rfl
  | cons s segments ih =>
    obtain ⟨others, rest⟩ := List.pairwise_cons.1 apart
    have disjoint : Disjoint (Finset.Ico s.start s.stop) (addresses segments) := by
      rw [Finset.disjoint_left]
      intro a inside elsewhere
      obtain ⟨t, ht, lo, hi⟩ := mem_addresses.1 elsewhere
      obtain ⟨lo', hi'⟩ := Finset.mem_Ico.1 inside
      rcases others t ht with h | h <;> omega
    rw [addresses, List.foldr_cons, ← addresses, Finset.card_union_of_disjoint disjoint, ih rest,
      Nat.card_Ico, stop, List.map_cons, List.sum_cons]
    omega

end Segment

open Segment

/-- Nonempty segments, apart from each other, that cover exactly `[lo, hi)`. -/
structure Tiles (lo hi : ℕ) (segments : List Segment) : Prop where
  nonempty : ∀ s ∈ segments, 0 < s.size
  apart : segments.Pairwise Apart
  covers : ∀ a, (∃ s ∈ segments, s.Covers a) ↔ lo ≤ a ∧ a < hi

namespace Tiles

variable {lo hi : ℕ} {s t : Segment} {segments others : List Segment}

theorem nil (lo : ℕ) : Tiles lo lo [] where
  nonempty := by simp
  apart := .nil
  covers a := by
    have : ¬ (lo ≤ a ∧ a < lo) := by omega
    simp [this]

theorem perm (same : segments.Perm others) (h : Tiles lo hi segments) : Tiles lo hi others where
  nonempty s hs := h.nonempty s (same.mem_iff.2 hs)
  apart := (same.pairwise_iff Apart.symm).1 h.apart
  covers a := by
    rw [← h.covers a]
    simp only [same.mem_iff]

theorem inside (h : Tiles lo hi segments) (hs : s ∈ segments) : lo ≤ s.start ∧ s.stop ≤ hi := by
  have size := h.nonempty s hs
  have first := (h.covers s.start).1 ⟨s, hs, by unfold Covers stop; omega⟩
  have last := (h.covers (s.stop - 1)).1 ⟨s, hs, by unfold Covers stop; omega⟩
  omega

/-- A segment that begins where the tiled interval ends. -/
theorem extend {n : ℕ} (h : Tiles lo hi segments) (ordered : lo ≤ hi) (hn : 0 < n) :
    Tiles lo (hi + n) (⟨hi, n⟩ :: segments) where
  nonempty := List.forall_mem_cons.2 ⟨hn, h.nonempty⟩
  apart := List.pairwise_cons.2 ⟨fun t ht => .inr (h.inside ht).2, h.apart⟩
  covers a := by
    rw [List.exists_mem_cons_iff, h.covers a]
    simp only [Covers, stop]
    omega

theorem cut_iff {a m n : ℕ} (hm : 0 < m) (hn : 0 < n) :
    Tiles lo hi (⟨a, m + n⟩ :: segments) ↔ Tiles lo hi (⟨a, m⟩ :: ⟨a + m, n⟩ :: segments) := by
  have covered : ∀ k, (∃ s ∈ (⟨a, m⟩ :: ⟨a + m, n⟩ :: segments), s.Covers k) ↔
      ∃ s ∈ (⟨a, m + n⟩ :: segments), s.Covers k := by
    intro k
    simp only [List.mem_cons, exists_eq_or_imp, Covers, stop]
    rw [← or_assoc]
    exact or_congr_left (by omega)
  constructor
  · rintro ⟨nonempty, apart, covers⟩
    obtain ⟨whole, rest⟩ := List.pairwise_cons.1 apart
    refine ⟨?_, ?_, fun k => (covered k).trans (covers k)⟩
    · exact List.forall_mem_cons.2 ⟨hm, List.forall_mem_cons.2 ⟨hn, fun s hs =>
        nonempty s (List.mem_cons_of_mem _ hs)⟩⟩
    · refine List.pairwise_cons.2 ⟨List.forall_mem_cons.2 ⟨.inl le_rfl, fun t ht => ?_⟩,
        List.pairwise_cons.2 ⟨fun t ht => ?_, rest⟩⟩
      all_goals
        have := whole t ht
        simp only [Apart, stop] at *
        omega
  · rintro ⟨nonempty, apart, covers⟩
    obtain ⟨left, apart'⟩ := List.pairwise_cons.1 apart
    obtain ⟨right, rest⟩ := List.pairwise_cons.1 apart'
    refine ⟨?_, ?_, fun k => (covered k).symm.trans (covers k)⟩
    · exact List.forall_mem_cons.2 ⟨Nat.add_pos_left hm n, fun s hs =>
        nonempty s (List.mem_cons_of_mem _ (List.mem_cons_of_mem _ hs))⟩
    · refine List.pairwise_cons.2 ⟨fun t ht => ?_, rest⟩
      have before := left t (List.mem_cons_of_mem _ ht)
      have behind := right t ht
      have size := nonempty t (List.mem_cons_of_mem _ (List.mem_cons_of_mem _ ht))
      simp only [Apart, stop] at *
      omega

/-- The sizes add up to the length of the interval. -/
theorem sum_size (h : Tiles lo hi segments) : (segments.map size).sum = hi - lo := by
  have all : addresses segments = Finset.Ico lo hi := by
    ext a
    rw [mem_addresses, h.covers, Finset.mem_Ico]
  rw [← card_addresses h.apart, all, Nat.card_Ico]

theorem dvd_length {m : ℕ} (h : Tiles lo hi segments) (aligned : ∀ s ∈ segments, m ∣ s.size) :
    m ∣ hi - lo := by
  rw [← h.sum_size]
  exact List.dvd_sum (List.forall_mem_map.2 aligned)

/-- Segments of `m` bytes at least are at most `(hi - lo) / m`. -/
theorem length_mul_le {m : ℕ} (h : Tiles lo hi segments) (large : ∀ s ∈ segments, m ≤ s.size) :
    segments.length * m ≤ hi - lo := by
  have sum := List.card_nsmul_le_sum (segments.map size) m (List.forall_mem_map.2 large)
  rwa [List.length_map, smul_eq_mul, h.sum_size] at sum

end Tiles

/-! ## A pool of free segments -/

namespace Segment

/-- A segment cut to `need` bytes where at least `least` bytes are left over: what is taken, and
what is left. -/
def cut (least need : ℕ) (s : Segment) : Segment × List Segment :=
  if least ≤ s.size - need then (⟨s.start, need⟩, [⟨s.start + need, s.size - need⟩]) else (s, [])

/-- The order of the addresses. -/
def Before (s t : Segment) : Prop := s.start ≤ t.start

instance : DecidableRel Before := fun s t => inferInstanceAs (Decidable (s.start ≤ t.start))

/-- The segments of `pool` inserted into `sorted` one after another. -/
def insertAll (sorted pool : List Segment) : List Segment :=
  pool.foldl (fun sorted s => sorted.orderedInsert Before s) sorted

/-- Neighbours in the list that touch become one segment. -/
def coalesce : List Segment → List Segment
  | [] => []
  | [s] => [s]
  | s :: t :: pool =>
    if s.stop = t.start then coalesce (⟨s.start, s.size + t.size⟩ :: pool)
    else s :: coalesce (t :: pool)
termination_by pool => pool.length

variable {least need : ℕ} {s : Segment} {pool others : List Segment} {P : Segment → Prop}

@[simp] theorem cut_start (least need : ℕ) (s : Segment) : (cut least need s).1.start = s.start := by
  unfold cut
  split <;> rfl

theorem cut_size (least need : ℕ) (s : Segment) :
    (cut least need s).1.size = if least ≤ s.size - need then need else s.size := by
  unfold cut
  split <;> rfl

/-- First fit: the pool is too small throughout, or splits at the first segment that is large
enough. -/
theorem all_small_or_split (need : ℕ) (pool : List Segment) :
    (∀ s ∈ pool, s.size < need) ∨ ∃ skipped s rest, pool = skipped ++ s :: rest ∧
      (∀ t ∈ skipped, t.size < need) ∧ need ≤ s.size := by
  induction pool with
  | nil => exact .inl (by simp)
  | cons s pool ih =>
    by_cases large : need ≤ s.size
    · exact .inr ⟨[], s, pool, rfl, by simp, large⟩
    · rcases ih with small | ⟨skipped, t, rest, rfl, small, fits⟩
      · exact .inl (List.forall_mem_cons.2 ⟨by omega, small⟩)
      · exact .inr ⟨s :: skipped, t, rest, rfl, List.forall_mem_cons.2 ⟨by omega, small⟩, fits⟩

/-- What is taken is large enough, and is a part of the segment from its start. -/
theorem cut_taken (fits : need ≤ s.size) :
    need ≤ (cut least need s).1.size ∧ (cut least need s).1.stop ≤ s.stop := by
  unfold cut stop
  split
  · exact ⟨le_rfl, Nat.add_le_add_left fits _⟩
  · exact ⟨fits, le_rfl⟩

/-- What holds of a segment and of both parts of a cut holds of what is taken and what is left. -/
theorem forall_cut (whole : P s)
    (parts : least ≤ s.size - need → P ⟨s.start, need⟩ ∧ P ⟨s.start + need, s.size - need⟩) :
    P (cut least need s).1 ∧ ∀ t ∈ (cut least need s).2, P t := by
  unfold cut
  split_ifs with large
  · exact ⟨(parts large).1, List.forall_mem_singleton.2 (parts large).2⟩
  · exact ⟨whole, by simp⟩

theorem insertAll_perm (sorted pool : List Segment) :
    (insertAll sorted pool).Perm (sorted ++ pool) := by
  induction pool generalizing sorted with
  | nil => rw [List.append_nil]; exact .refl _
  | cons s pool ih =>
    have inserted := (List.perm_orderedInsert Before s sorted).append_right pool
    exact ((ih _).trans inserted).trans List.perm_middle.symm

/-- What holds of the segments and of two of them put together holds of the coalesced ones. -/
theorem forall_coalesce (all : ∀ s ∈ pool, P s)
    (join : ∀ s t, P s → P t → s.stop = t.start → P ⟨s.start, s.size + t.size⟩) :
    ∀ s ∈ coalesce pool, P s := by
  fun_induction coalesce pool with
  | case1 => exact all
  | case2 => exact all
  | case3 s t pool touch ih =>
    simp only [List.forall_mem_cons] at all
    exact ih (List.forall_mem_cons.2 ⟨join s t all.1 all.2.1 touch, all.2.2⟩)
  | case4 s t pool touch ih =>
    obtain ⟨first, others⟩ := List.forall_mem_cons.1 all
    exact List.forall_mem_cons.2 ⟨first, ih others⟩

/-! ### A pool in the order of its addresses -/

/-- Each segment ends where a later one begins, or before. -/
def Ordered (pool : List Segment) : Prop := pool.Pairwise fun s t => s.stop ≤ t.start

/-- Each segment ends before a later one begins: no two of them touch. -/
def Gapped (pool : List Segment) : Prop := pool.Pairwise fun s t => s.stop < t.start

instance : Std.Total Before := ⟨fun s t => Nat.le_total s.start t.start⟩

instance : IsTrans Segment Before := ⟨fun _ _ _ => Nat.le_trans⟩

theorem addresses_perm (same : pool.Perm others) : addresses pool = addresses others := by
  ext a
  rw [mem_addresses, mem_addresses]
  simp only [same.mem_iff]

theorem addresses_coalesce (pool : List Segment) : addresses (coalesce pool) = addresses pool := by
  fun_induction coalesce pool with
  | case1 => rfl
  | case2 => rfl
  | case3 s t pool touch ih =>
    rw [ih]
    ext a
    simp only [mem_addresses, List.mem_cons, exists_eq_or_imp]
    rw [← or_assoc]
    apply or_congr_left
    simp only [Covers, stop] at *
    omega
  | case4 s t pool touch ih =>
    ext a
    simp only [mem_addresses, List.mem_cons, exists_eq_or_imp]
    apply or_congr_right
    rw [← mem_addresses, ih, mem_addresses]
    simp only [List.mem_cons, exists_eq_or_imp]

/-- Nonempty segments apart from each other are in order once they are sorted. -/
theorem ordered_of_sorted (sorted : pool.Pairwise Before) (apart : pool.Pairwise Apart)
    (nonempty : ∀ s ∈ pool, 0 < s.size) : Ordered pool := by
  refine (sorted.and apart).imp_of_mem fun {s t} _ ht both => ?_
  obtain ⟨before, aside⟩ := both
  have size := nonempty t ht
  simp only [Before, Apart, stop] at *
  omega

theorem insertAll_sorted {sorted : List Segment} (h : sorted.Pairwise Before) :
    (insertAll sorted pool).Pairwise Before := by
  induction pool generalizing sorted with
  | nil => exact h
  | cons s pool ih => exact ih (h.orderedInsert s sorted)

/-- A segment that begins behind all others is inserted at the end. -/
theorem orderedInsert_of_last {sorted : List Segment} (last : ∀ t ∈ sorted, t.start < s.start) :
    sorted.orderedInsert Before s = sorted ++ [s] := by
  induction sorted with
  | nil => rfl
  | cons t sorted ih =>
    obtain ⟨first, others⟩ := List.forall_mem_cons.1 last
    have behind : ¬ Before s t := Nat.not_le.2 first
    rw [List.orderedInsert_of_not_le _ _ behind, ih others, List.cons_append]

theorem insertAll_of_increasing {sorted : List Segment}
    (increasing : (sorted ++ pool).Pairwise fun s t => s.start < t.start) :
    insertAll sorted pool = sorted ++ pool := by
  induction pool generalizing sorted with
  | nil => rw [List.append_nil]; rfl
  | cons s pool ih =>
    have last : ∀ t ∈ sorted, t.start < s.start := fun t ht =>
      (List.pairwise_append.1 increasing).2.2 t ht s List.mem_cons_self
    change insertAll (sorted.orderedInsert Before s) pool = _
    rw [orderedInsert_of_last last, ih (by rwa [List.append_assoc]), List.append_assoc]
    rfl

/-- Coalescing leaves no two segments that touch. -/
theorem coalesce_gapped (ordered : Ordered pool) : Gapped (coalesce pool) := by
  fun_induction coalesce pool with
  | case1 => exact .nil
  | case2 s => exact List.pairwise_singleton _ s
  | case3 s t pool touch ih =>
    obtain ⟨-, behind⟩ := List.pairwise_cons.1 ordered
    obtain ⟨rest, ordered'⟩ := List.pairwise_cons.1 behind
    refine ih (List.pairwise_cons.2 ⟨fun u hu => ?_, ordered'⟩)
    have := rest u hu
    simp only [stop] at *
    omega
  | case4 s t pool touch ih =>
    obtain ⟨first, behind⟩ := List.pairwise_cons.1 ordered
    have gap : s.stop < t.start := Nat.lt_of_le_of_ne (first t List.mem_cons_self) touch
    -- the segments behind begin where `t` begins, or later
    have later : ∀ u ∈ coalesce (t :: pool), t.start ≤ u.start := by
      refine forall_coalesce (List.forall_mem_cons.2 ⟨le_rfl, fun u hu => ?_⟩)
        fun _ _ hs _ _ => hs
      have := (List.pairwise_cons.1 behind).1 u hu
      unfold stop at this
      omega
    exact List.pairwise_cons.2 ⟨fun u hu => gap.trans_le (later u hu), ih behind⟩

theorem coalesce_of_gapped (gapped : Gapped pool) : coalesce pool = pool := by
  fun_induction coalesce pool with
  | case1 => rfl
  | case2 => rfl
  | case3 s t pool touch ih =>
    have gap := (List.pairwise_cons.1 gapped).1 t List.mem_cons_self
    omega
  | case4 s t pool touch ih => rw [ih (List.pairwise_cons.1 gapped).2]

theorem Gapped.increasing (gapped : Gapped pool) :
    pool.Pairwise fun s t => s.start < t.start :=
  gapped.imp fun {s t} gap => by
    unfold stop at gap
    omega

theorem Gapped.apart (gapped : Gapped pool) : pool.Pairwise Apart :=
  gapped.imp fun gap => .inl gap.le

/-- Where there are gaps, no nonempty segment ends where another one begins. -/
theorem Gapped.not_touching (gapped : Gapped pool) (nonempty : ∀ s ∈ pool, 0 < s.size) :
    ∀ s ∈ pool, ∀ t ∈ pool, s.stop ≠ t.start := by
  induction pool with
  | nil => simp
  | cons u pool ih =>
    obtain ⟨first, rest⟩ := List.pairwise_cons.1 gapped
    obtain ⟨size, nonempty'⟩ := List.forall_mem_cons.1 nonempty
    refine List.forall_mem_cons.2 ⟨List.forall_mem_cons.2 ⟨?_, fun t ht => (first t ht).ne⟩,
      fun s hs => List.forall_mem_cons.2 ⟨?_, ih rest nonempty' s hs⟩⟩
    · unfold stop
      omega
    · have := first s hs
      unfold stop at *
      omega

/-- A coalesced segment begins where one of the segments began, in the same order. -/
theorem starts_coalesce (pool : List Segment) :
    ((coalesce pool).map start).Sublist (pool.map start) := by
  fun_induction coalesce pool with
  | case1 => exact .slnil
  | case2 => exact .refl _
  | case3 s t pool touch ih => exact ih.trans (((List.sublist_cons_self _ _)).cons_cons _)
  | case4 s t pool touch ih => exact ih.cons_cons _

end Segment

namespace Tiles

variable {lo hi least need : ℕ} {s : Segment} {pool others : List Segment}

theorem cut (h : Tiles lo hi (s :: others)) (fits : need ≤ s.size) (hneed : 0 < need)
    (hleast : 0 < least) :
    Tiles lo hi ((Segment.cut least need s).1 :: ((Segment.cut least need s).2 ++ others)) := by
  unfold Segment.cut
  split_ifs with large
  · apply (cut_iff hneed (by omega)).1
    rw [Nat.add_sub_cancel' fits]
    exact h
  · exact h

theorem coalesce (h : Tiles lo hi (pool ++ others)) :
    Tiles lo hi (Segment.coalesce pool ++ others) := by
  fun_induction Segment.coalesce pool generalizing others with
  | case1 => exact h
  | case2 => exact h
  | case3 s t pool touch ih =>
    have hs := h.nonempty s (by simp)
    have ht := h.nonempty t (by simp)
    apply ih
    apply (cut_iff hs ht).2
    rw [show s.start + s.size = t.start from touch]
    exact h
  | case4 s t pool touch ih =>
    have moved : Tiles lo hi (t :: pool ++ s :: others) := h.perm List.perm_middle.symm
    exact (ih moved).perm List.perm_middle

end Tiles
