import DataBroker.Memory.Accounting

/-!
# What defragmentation makes room for

After `defragment` every gap between the live slots is one free segment, so an allocation within the
ceiling fails only if none of these gaps, nor the unused part of the arena, has room for it
(`Heap.Tidy.alloc_iff`). The unused part stays apart from the gap before it: `offset` never comes
back. Where no block is live, the whole used part is one free segment.
-/

namespace Segment

variable {pool : List Segment} {lo hi : ℕ}

/-- Where no two segments touch, an interval they cover lies in one of them. -/
theorem Gapped.covers (gapped : Gapped pool) (ordered : lo < hi)
    (covered : ∀ a, lo ≤ a → a < hi → ∃ s ∈ pool, s.Covers a) :
    ∃ s ∈ pool, s.start ≤ lo ∧ hi ≤ s.stop := by
  induction hi, ordered using Nat.le_induction with
  | base =>
    obtain ⟨s, mem, first, last⟩ := covered lo le_rfl (Nat.lt_succ_self lo)
    exact ⟨s, mem, first, last⟩
  | succ hi ordered ih =>
    obtain ⟨s, hs, first, last⟩ := ih fun a low high => covered a low (Nat.lt_succ_of_lt high)
    obtain ⟨t, ht, low, high⟩ := covered hi (Nat.le_of_lt ordered) (Nat.lt_succ_self hi)
    by_cases longer : hi < s.stop
    · exact ⟨s, hs, first, longer⟩
    -- another segment that covers the next address would touch `s`
    have symm : Std.Symm fun s t : Segment => s.stop < t.start ∨ t.stop < s.start :=
      ⟨fun _ _ => Or.symm⟩
    have spread : pool.Pairwise fun s t => s.stop < t.start ∨ t.stop < s.start := gapped.imp Or.inl
    by_cases same : s = t
    · exact absurd high (same ▸ longer)
    · have := spread.forall hs ht same
      omega

/-- Nonempty segments of which no two touch tile an interval only as one. -/
theorem Gapped.tiles (gapped : Gapped pool) (tiles : Tiles lo hi pool) :
    pool = if lo < hi then [⟨lo, hi - lo⟩] else [] := by
  split_ifs with ordered
  · obtain ⟨s, hs, first, last⟩ := gapped.covers ordered fun a low high =>
      (tiles.covers a).2 ⟨low, high⟩
    have within := tiles.inside hs
    cases pool with
    | nil => cases hs
    | cons t pool =>
      obtain ⟨behind, -⟩ := List.pairwise_cons.1 gapped
      have front := tiles.inside List.mem_cons_self
      -- nothing is behind the first segment, or `s` is and begins too late
      rcases List.mem_cons.1 hs with rfl | mem
      · cases pool with
        | nil =>
          obtain ⟨start, size⟩ := s
          simp only [stop] at *
          congr <;> omega
        | cons u pool =>
          have := behind u List.mem_cons_self
          have := tiles.inside (List.mem_cons_of_mem _ List.mem_cons_self)
          have := tiles.nonempty u (List.mem_cons_of_mem _ List.mem_cons_self)
          simp only [stop] at *
          omega
      · have := behind s mem
        simp only [stop] at *
        omega
  · refine List.eq_nil_iff_forall_not_mem.2 fun s hs => ?_
    have := tiles.inside hs
    have := tiles.nonempty s hs
    simp only [stop] at *
    omega

end Segment

namespace DataBroker

open Segment

variable {arena : Arena} {h : Heap} {free : List Segment} {layout : Layout} {needed : ℕ}
  {memory : Memory} {ops : List HeapOp}

namespace Heap.Tidy

/-- The unused part of the arena has no room for a slot. -/
theorem bump_eq_none (tidy : h.Tidy arena free) :
    h.toMemAllocator.allocFromBump arena needed layout = none ↔
      arena.capacity < h.offset + needed := by
  have fits := arena.fits
  unfold MemAllocator.allocFromBump
  simp only [tidy.alignUp_offset]
  unfold checkedAdd
  split_ifs with narrow
  · dsimp only
    split_ifs with beyond <;> simp [beyond]
  · dsimp only
    simp only [true_iff]
    unfold usizeMax at narrow
    omega

/-- Within the ceiling, an allocation succeeds if and only if a free segment has room for it, or the
unused part of the arena. -/
theorem alloc_iff (tidy : h.Tidy arena free) (nonempty : 0 < layout.size)
    (required : requiredSlotSize layout = some needed)
    (ceiling : h.used + needed + h.lockedSize ≤ arena.capacity) :
    (h.toMemAllocator.alloc arena layout).1 ≠ 0 ↔
      (∃ s ∈ free, needed ≤ s.size) ∨ h.offset + needed ≤ arena.capacity := by
  obtain ⟨needed', required', aligned, room, large⟩ := requiredSlotSize_spec layout
  obtain rfl : needed' = needed := by simpa [required'] using required
  let reserved : Heap := { h with used := h.used + needed' }
  have tidy' : reserved.Tidy arena free :=
    (tidy.transfer (a := { h.toMemAllocator with used := h.used + needed' }) rfl rfl).1
  have reserve : h.toMemAllocator.reserveUsed arena needed' = some reserved.toMemAllocator := by
    rw [reserveUsed_eq, if_pos ceiling]
  cases reused : reserved.toMemAllocator.allocFromFreeList arena needed' layout with
  | some found =>
    have alloc : h.toMemAllocator.alloc arena layout = found := by
      simp only [MemAllocator.alloc, required, reserve, reused]
    obtain ⟨slot, free', takes, -⟩ := tidy'.reuse reused nonempty aligned room large
    refine iff_of_true (alloc ▸ takes.nonnull) (.inl ?_)
    by_contra full
    have small : ∀ s ∈ free, s.size < needed' :=
      fun s hs => Nat.lt_of_not_le fun fits => full ⟨s, hs, fits⟩
    have walk : reserved.findNode needed' arena.rounds (Link.behind []) = none :=
      findNode_none tidy.linked small
    rw [Link.behind_nil] at walk
    simp only [MemAllocator.allocFromFreeList, walk] at reused
    cases reused
  | none =>
    have small : ¬ ∃ s ∈ free, needed' ≤ s.size := by
      rintro ⟨s, hs, fits⟩
      rcases all_small_or_split needed' free with small | ⟨skipped, s, rest, rfl, small, fits⟩
      · exact absurd fits (Nat.not_le_of_lt (small s hs))
      · have few := tidy'.length_lt_rounds
        have walk : reserved.findNode needed' arena.rounds (Link.behind []) =
            some (Link.behind ([] ++ skipped)) :=
          findNode_some tidy.linked small fits (by rw [List.length_append] at few; omega)
        rw [Link.behind_nil] at walk
        simp only [MemAllocator.allocFromFreeList, walk] at reused
        cases reused
    cases bump : reserved.toMemAllocator.allocFromBump arena needed' layout with
    | some found =>
      have alloc : h.toMemAllocator.alloc arena layout = found := by
        simp only [MemAllocator.alloc, required, reserve, reused, bump]
      obtain ⟨slot, takes, -⟩ := tidy'.bump bump nonempty aligned room large
      refine iff_of_true (alloc ▸ takes.nonnull) (.inr ?_)
      by_contra beyond
      rw [tidy'.bump_eq_none.2 (Nat.lt_of_not_le beyond)] at bump
      cases bump
    | none =>
      have alloc : (h.toMemAllocator.alloc arena layout).1 = 0 := by
        simp only [MemAllocator.alloc, required, reserve, reused, bump]
      have beyond := tidy'.bump_eq_none.1 bump
      exact iff_of_false (not_not.2 alloc) (not_or.2 ⟨small, Nat.not_le_of_lt beyond⟩)

/-- A segment of the used part that is apart from the live slots lies in one free segment, if no two
of these touch. -/
theorem room_iff (tidy : h.Tidy arena free) (gapped : Gapped free) (some : 0 < needed) :
    (∃ s ∈ free, needed ≤ s.size) ↔
      ∃ a, arena.base ≤ a ∧ a + needed ≤ arena.base + h.offset ∧
        ∀ slot ∈ h.slots, slot.Apart ⟨a, needed⟩ := by
  constructor
  · rintro ⟨s, hs, fits⟩
    have within := tidy.tiles.inside (List.mem_append_right _ hs)
    refine ⟨s.start, within.1, ?_, fun slot hslot => ?_⟩
    · exact (Nat.add_le_add_left fits _).trans within.2
    · have aside := tidy.crossed slot hslot s hs
      simp only [Apart, stop] at *
      omega
  · rintro ⟨a, low, high, aside⟩
    have covered : ∀ b, a ≤ b → b < a + needed → ∃ s ∈ free, s.Covers b := by
      intro b lower upper
      obtain ⟨s, mem, covers⟩ := (tidy.tiles.covers b).2 ⟨by omega, by omega⟩
      rcases List.mem_append.1 mem with hslot | hs
      · have := aside s hslot
        simp only [Apart, Covers, stop] at *
        omega
      · exact ⟨s, hs, covers⟩
    obtain ⟨s, hs, first, last⟩ := gapped.covers (by omega) covered
    refine ⟨s, hs, ?_⟩
    simp only [stop] at last
    omega

end Heap.Tidy

open Transition

/-- After any run, `defragment` makes all room that there is: an allocation within the ceiling then
succeeds if and only if somewhere in the used part, apart from the live slots, there is room for it,
or behind the used part. Where no block is live, the used part is one free segment. -/
theorem room_after_defragment
    (allowed : EveryStep (Heap.step arena) Heap.Allowed (Heap.init memory) ops) :
    let h := run (Heap.step arena) (Heap.init memory) ops
    let defragmented := h.step arena .defragment
    (h.live = [] → Linked defragmented.memory defragmented.head
        (if 0 < h.offset then [⟨arena.base, h.offset⟩] else [])) ∧
      ∀ layout needed, 0 < layout.size → requiredSlotSize layout = some needed →
        h.used + needed + h.lockedSize ≤ arena.capacity →
        ((defragmented.toMemAllocator.alloc arena layout).1 ≠ 0 ↔
          (∃ a, arena.base ≤ a ∧ a + needed ≤ arena.base + h.offset ∧
            ∀ slot ∈ h.slots, slot.Apart ⟨a, needed⟩) ∨ h.offset + needed ≤ arena.capacity) := by
  intro h defragmented
  obtain ⟨free, accounted⟩ := (accounted_run allowed).last
  have tidy : h.Tidy arena free := accounted.tidy
  obtain ⟨tidy', slots⟩ := tidy.defragment
  have order : (insertAll [] free).Perm free := insertAll_perm [] free
  have gapped : Gapped (coalesce (insertAll [] free)) := by
    apply coalesce_gapped
    apply ordered_of_sorted (insertAll_sorted .nil)
    · exact (order.pairwise_iff Apart.symm).2 tidy.apartFree
    · intro s hs
      exact tidy.tiles.nonempty s (List.mem_append_right _ (order.mem_iff.1 hs))
  constructor
  · intro nobody
    have tiles : Tiles arena.base (arena.base + h.offset) (coalesce (insertAll [] free)) := by
      have whole : Tiles arena.base (arena.base + h.offset)
          (defragmented.slots ++ coalesce (insertAll [] free)) := tidy'.tiles
      rwa [slots, Heap.slots, nobody, List.map_nil, List.nil_append] at whole
    have one := gapped.tiles tiles
    rw [Nat.add_sub_cancel_left] at one
    simp only [Nat.lt_add_right_iff_pos] at one
    exact one ▸ tidy'.linked
  · intro layout needed nonempty required ceiling
    have positive : 0 < needed := by
      obtain ⟨needed', required', -, room, -⟩ := requiredSlotSize_spec layout
      obtain rfl : needed' = needed := by simpa [required'] using required
      exact (by decide : 0 < minSlotSize).trans_le room
    rw [tidy'.alloc_iff nonempty required ceiling, tidy'.room_iff gapped positive, slots]
    rfl

/-- Two blocks side by side are given back, and make room for one that needs both slots. -/
def neighbours : List HeapOp :=
  [.alloc (bytesLayout 22 (by decide)), .alloc (bytesLayout 22 (by decide)),
    .alloc (bytesLayout (smallestArena.capacity - 110) (by decide)),
    .dealloc ⟨4112, bytesLayout 22 (by decide)⟩, .dealloc ⟨4152, bytesLayout 22 (by decide)⟩]

theorem room_after_defragment_neighbours :
    (((run (Heap.step smallestArena) (Heap.init fun _ => 0) neighbours).step smallestArena
      .defragment).toMemAllocator.alloc smallestArena (bytesLayout 60 (by decide))).1 ≠ 0 := by
  have allowed : EveryStep (Heap.step smallestArena) Heap.Allowed (Heap.init fun _ => 0) neighbours :=
    by decide +kernel
  have room := (room_after_defragment allowed).2 (bytesLayout 60 (by decide)) 80
  refine (room (by decide) (by decide) (by decide +kernel)).2 (.inl ⟨smallestArena.base, ?_⟩)
  decide +kernel

end DataBroker
