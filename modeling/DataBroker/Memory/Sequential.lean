import DataBroker.Memory.Races

/-!
# Calls that nobody races with

A call whose operations follow each other, without another call between them and without a
`compare_exchange_weak` that fails for no reason, does what the atomic call does. So every run of
atomic calls is one of the runs of the threads (`SharedHeap.run_alone`).
-/

namespace DataBroker

open Transition

namespace SharedHeap

variable {arena : Arena} {h h' h'' : Heap} {call next : Ongoing} {layout : Layout} {needed : ℕ}
  {free : List Segment}

/-- The call goes on to its end, and leaves `h'` behind. -/
inductive Ends (arena : Arena) : Heap → Ongoing → Heap → Prop where
  | last {h h' : Heap} {call : Ongoing} (advance : call.advance arena h false = (h', none)) :
      Ends arena h call h'
  | next {h h' h'' : Heap} {call next : Ongoing}
      (advance : call.advance arena h false = (h', some next)) (rest : Ends arena h' next h'') :
      Ends arena h call h''

/-- The steps of a call that is alone. -/
theorem Ends.run (ends : Ends arena h call h') :
    ∃ n, Transition.run (step arena) ⟨h, [call]⟩ (List.replicate n (.advance 0 false)) =
      ⟨h', []⟩ := by
  induction ends with
  | last advance =>
    refine ⟨1, ?_⟩
    simp [SharedHeap.step, advance]
  | next advance rest ih =>
    obtain ⟨n, ih⟩ := ih
    refine ⟨n + 1, ?_⟩
    rw [List.replicate_succ, run_cons, ← ih]
    simp [SharedHeap.step, advance]

theorem advance_reserving (current : ℕ) (weak : Bool) :
    (Ongoing.reserving layout needed current).advance arena h weak =
      if current + needed + h.lockedSize ≤ arena.capacity
        then (h, some (.claiming layout needed current (current + needed))) else (h, none) := by
  have fits := arena.fits
  rw [Ongoing.advance, checkedAdd]
  by_cases room : current + needed + h.lockedSize ≤ arena.capacity
  · rw [if_neg (by omega), if_pos (by unfold usizeMax; omega), if_pos room]
    exact if_pos (by omega)
  · rw [if_neg room]
    split_ifs
    · rfl
    · exact if_neg (by omega)
    · rfl

/-- An atomic allocation that took a slot. -/
theorem step_alloc_found {found : ℕ × MemAllocator}
    (alloc : h.toMemAllocator.alloc arena layout = found) (nonnull : found.1 ≠ 0) :
    h.step arena (.alloc layout) = { found.2 with live := ⟨found.1, layout⟩ :: h.live } := by
  unfold Heap.step
  dsimp only
  rw [alloc, if_neg nonnull]

/-- The slot comes from the free list. -/
theorem ends_searching {prev : Link} (tidy : h.Tidy arena free) (asks : Ongoing.Asks layout needed)
    (walk : h.findNode needed arena.rounds .head = some prev) :
    ∃ found, h.toMemAllocator.allocFromFreeList arena needed layout = some found ∧ found.1 ≠ 0 ∧
      Ends arena h (.searching layout needed)
        { found.2 with live := ⟨found.1, layout⟩ :: h.live } := by
  obtain ⟨aligned, room, large⟩ := asks.spec
  obtain ⟨slotSize, list, take⟩ : ∃ slotSize list, h.takeNode prev needed = (slotSize, list) :=
    ⟨_, _, rfl⟩
  obtain ⟨found, found_eq⟩ : ∃ found,
      h.toMemAllocator.allocFromFreeList arena needed layout = some found := by
    simp only [MemAllocator.allocFromFreeList, walk]
    exact ⟨_, rfl⟩
  obtain ⟨slot, free', takes, -⟩ := tidy.reuse found_eq asks.1 aligned room large
  refine ⟨found, found_eq, takes.nonnull, ?_⟩
  simp only [MemAllocator.allocFromFreeList, walk, take, Option.some.injEq] at found_eq
  subst found_eq
  by_cases excess : slotSize - needed > 0
  · have searching : (Ongoing.searching layout needed).advance arena h false =
        ({ h with toFreeList := list },
          some (.charging layout ⟨h.deref prev, slotSize⟩ (slotSize - needed))) := by
      simp only [Ongoing.advance, walk, take, if_pos excess]
    refine .next searching (.next rfl (.last ?_))
    rw [if_pos excess]
    rfl
  · have searching : (Ongoing.searching layout needed).advance arena h false =
        ({ h with toFreeList := list }, some (.placing layout ⟨h.deref prev, slotSize⟩)) := by
      simp only [Ongoing.advance, walk, take, if_neg excess]
    refine .next searching (.last ?_)
    rw [if_neg excess]
    rfl

/-- The slot comes from the unused part of the arena. -/
theorem ends_missing {found : ℕ × MemAllocator}
    (bump : h.toMemAllocator.allocFromBump arena needed layout = some found) :
    Ends arena h (.missing layout needed)
      { found.2 with live := ⟨found.1, layout⟩ :: h.live } := by
  unfold MemAllocator.allocFromBump at bump
  dsimp only at bump
  split at bump
  · cases bump
  rename_i next sum
  split_ifs at bump with beyond
  have bumping : (Ongoing.bumping layout needed h.offset).advance arena h false =
      ({ h with offset := next },
        some (.placing layout ⟨arena.base + alignUp h.offset slotAlign, needed⟩)) := by
    rw [Ongoing.advance, sum]
    dsimp only
    rw [if_neg beyond, if_pos ⟨rfl, rfl⟩]
  cases bump
  exact .next rfl (.next bumping (.last rfl))

/-- There is no slot, and the reserved bytes are given back. -/
theorem ends_returning (bump : h.toMemAllocator.allocFromBump arena needed layout = none) :
    Ends arena h (.missing layout needed) { h with used := wrappingSub h.used needed } := by
  have bumping : (Ongoing.bumping layout needed h.offset).advance arena h false =
      (h, some (.returning needed)) := by
    unfold MemAllocator.allocFromBump at bump
    rw [Ongoing.advance]
    cases sum : checkedAdd (alignUp h.offset slotAlign) needed with
    | none => rfl
    | some next =>
      simp only [sum] at bump
      split_ifs at bump with beyond
      exact if_pos beyond
  exact .next rfl (.next bumping (.last rfl))

/-- An allocation that is alone does what an atomic one does. -/
theorem ends_alloc (tidy : h.Tidy arena free) (asks : Ongoing.Asks layout needed) :
    Ends arena h (.reserving layout needed h.used) (h.step arena (.alloc layout)) := by
  obtain ⟨aligned, enough, large⟩ := asks.spec
  by_cases room : h.used + needed + h.lockedSize ≤ arena.capacity
  · let reserved : Heap := { h with used := h.used + needed }
    have tidy' : reserved.Tidy arena free :=
      (tidy.transfer (a := { h.toMemAllocator with used := h.used + needed }) rfl rfl).1
    have reserve : h.toMemAllocator.reserveUsed arena needed = some reserved.toMemAllocator := by
      rw [Heap.Tidy.reserveUsed_eq, if_pos room]
    have claiming : (Ongoing.claiming layout needed h.used (h.used + needed)).advance arena h false =
        (reserved, some (.searching layout needed)) := by
      rw [Ongoing.advance, if_pos ⟨rfl, rfl⟩]
    refine .next (by rw [advance_reserving, if_pos room]) (.next claiming ?_)
    cases walk : reserved.findNode needed arena.rounds .head with
    | some prev =>
      obtain ⟨found, reused, nonnull, ends⟩ := ends_searching tidy' asks walk
      have alloc : h.toMemAllocator.alloc arena layout = found := by
        simp only [MemAllocator.alloc, asks.2, reserve, reused]
      rw [step_alloc_found alloc nonnull]
      exact ends
    | none =>
      have missed : reserved.toMemAllocator.allocFromFreeList arena needed layout = none := by
        simp only [MemAllocator.allocFromFreeList, walk]
      have searching : (Ongoing.searching layout needed).advance arena reserved false =
          (reserved, some (.missing layout needed)) := by
        simp only [Ongoing.advance, walk]
      refine .next searching ?_
      cases bump : reserved.toMemAllocator.allocFromBump arena needed layout with
      | some found =>
        obtain ⟨slot, takes, -⟩ := tidy'.bump bump asks.1 aligned enough large
        have alloc : h.toMemAllocator.alloc arena layout = found := by
          simp only [MemAllocator.alloc, asks.2, reserve, missed, bump]
        rw [step_alloc_found alloc takes.nonnull]
        exact ends_missing bump
      | none =>
        have same : h.step arena (.alloc layout) =
            { reserved with used := wrappingSub reserved.used needed } := by
          simp only [Heap.step, MemAllocator.alloc, asks.2, reserve, missed, bump]
          rfl
        rw [same]
        exact ends_returning bump
  · have reserve : h.toMemAllocator.reserveUsed arena needed = none := by
      rw [Heap.Tidy.reserveUsed_eq, if_neg room]
    have same : h.step arena (.alloc layout) = h := by
      simp only [Heap.step, MemAllocator.alloc, asks.2, reserve]
      rfl
    rw [same]
    exact .last (by rw [advance_reserving, if_neg room])

/-- What `dealloc` does after the header has been read. -/
theorem ends_pushing {h : Heap} (slot : Segment) :
    Ends arena h (.pushing slot) { h with
      toFreeList := h.push slot.start slot.size
      used := wrappingSub h.used slot.size
      deallocCount := wrappingAdd h.deallocCount 1
      defragRequested := h.defragRequested || h.deallocCount &&& 31 == 31 } := by
  refine .next rfl (.next rfl ?_)
  cases full : h.deallocCount &&& 31 == 31 with
  | true =>
    refine .next (by rw [Ongoing.advance, if_pos full]) (.last ?_)
    rw [Bool.or_true]
    rfl
  | false =>
    refine .last ?_
    rw [Ongoing.advance, if_neg (by rw [full]; decide), Bool.or_false]

/-- The slot of a live block passes the range checks. -/
theorem slot_in_range {b : Block} (tidy : h.Tidy arena free) (hb : b ∈ h.live) :
    ¬ (b.ptr < arena.base ∨ b.ptr ≥ arena.base + arena.capacity) ∧
      ¬ ((slotOf h.memory b.ptr).start < arena.base ∨
        (slotOf h.memory b.ptr).stop > arena.base + arena.capacity) := by
  have bounded := tidy.bounded
  obtain ⟨nonempty, -, header, region⟩ := tidy.placed b hb
  obtain ⟨first, last⟩ := tidy.tiles.inside (List.mem_append_left _ (Heap.Tidy.slot_mem hb))
  omega

theorem step_dealloc {b : Block} (tidy : h.Tidy arena free) (hb : b ∈ h.live) :
    h.step arena (.dealloc b) = { h with
      toFreeList := h.push (slotOf h.memory b.ptr).start (slotOf h.memory b.ptr).size
      used := wrappingSub h.used (slotOf h.memory b.ptr).size
      deallocCount := wrappingAdd h.deallocCount 1
      defragRequested := h.defragRequested || h.deallocCount &&& 31 == 31
      live := h.live.erase b } := by
  obtain ⟨ptr, slot⟩ := slot_in_range tidy hb
  simp only [Heap.step, MemAllocator.dealloc, if_neg ptr, if_neg slot]

theorem begins_dealloc {b : Block} (tidy : h.Tidy arena free) (hb : b ∈ h.live) :
    step arena ⟨h, []⟩ (.dealloc b) =
      ⟨{ h with live := h.live.erase b }, [.pushing (slotOf h.memory b.ptr)]⟩ := by
  obtain ⟨ptr, slot⟩ := slot_in_range tidy hb
  simp only [step, Ongoing.release, if_neg ptr, if_neg slot, Option.toList_some, List.append_nil]

theorem step_setLockedSize (size : ℕ) :
    h.step arena (.setLockedSize size) =
      if h.used + size ≤ arena.capacity then { h with lockedSize := size } else h := by
  have fits := arena.fits
  by_cases word : h.used + size ≤ usizeMax
  · simp only [Heap.step, MemAllocator.setLockedSize, checkedAdd, if_pos word]
    split_ifs <;> first | omega | rfl
  · have beyond : ¬ h.used + size ≤ arena.capacity := by
      unfold usizeMax at word
      omega
    simp only [Heap.step, MemAllocator.setLockedSize, checkedAdd, if_neg word, if_neg beyond]

theorem begins_setLockedSize (size : ℕ) :
    step arena ⟨h, []⟩ (.setLockedSize size) =
      ⟨h, if h.used + size ≤ arena.capacity then [.storing size] else []⟩ := by
  have fits := arena.fits
  by_cases word : h.used + size ≤ usizeMax
  · simp only [step, Ongoing.lockSize, checkedAdd, if_pos word]
    split_ifs <;> first | omega | rfl
  · have beyond : ¬ h.used + size ≤ arena.capacity := by
      unfold usizeMax at word
      omega
    simp only [step, Ongoing.lockSize, checkedAdd, if_neg word, if_neg beyond]
    rfl

/-- The beginning of a call. -/
def begins : HeapOp → SharedOp
  | .alloc layout => .alloc layout
  | .dealloc block => .dealloc block
  | .defragment => .defragment
  | .setLockedSize size => .setLockedSize size
  | .write address byte => .write address byte

/-- The thread that defragments has been asked to. -/
def Woken (h : Heap) (op : HeapOp) : Prop := op = .defragment → h.defragRequested = true

instance (h : Heap) : (op : HeapOp) → Decidable (Woken h op)
  | .defragment => decidable_of_iff (h.defragRequested = true) ⟨fun woken _ => woken, fun h => h rfl⟩
  | .alloc _ | .dealloc _ | .setLockedSize _ | .write .. => .isTrue nofun

/-- A call of which nothing is left but its operations, one after the other. -/
theorem run_of_ends {op : SharedOp} {start : Heap}
    (first : step arena ⟨h, []⟩ op = ⟨start, [call]⟩) (ends : Ends arena start call h') :
    ∃ n, Transition.run (step arena) ⟨h, []⟩ (op :: List.replicate n (.advance 0 false)) =
      ⟨h', []⟩ := by
  obtain ⟨n, run⟩ := ends.run
  exact ⟨n, by rw [run_cons, first, run]⟩

/-- A call that is alone does what the atomic call does. -/
theorem run_call (tidy : h.Tidy arena free) {op : HeapOp} (allowed : h.Allowed op)
    (woken : Woken h op) :
    ∃ n, Transition.run (step arena) ⟨h, []⟩ (begins op :: List.replicate n (.advance 0 false)) =
      ⟨h.step arena op, []⟩ := by
  cases op with
  | alloc layout =>
    obtain ⟨needed, required, -⟩ := requiredSlotSize_spec layout
    refine run_of_ends ?_ (ends_alloc tidy ⟨allowed, required⟩)
    simp only [step, begins, required]
  | dealloc block =>
    rw [step_dealloc tidy allowed]
    exact run_of_ends (begins_dealloc tidy allowed) (ends_pushing _)
  | defragment =>
    have ends : Ends arena { h with defragRequested := false } .defragmenting
      (h.step arena .defragment) := .last rfl
    exact run_of_ends (if_pos (woken rfl)) ends
  | setLockedSize size =>
    rw [step_setLockedSize]
    by_cases room : h.used + size ≤ arena.capacity
    · rw [if_pos room]
      exact run_of_ends (by rw [begins, begins_setLockedSize, if_pos room]) (.last rfl)
    · rw [if_neg room]
      refine ⟨0, ?_⟩
      rw [begins, List.replicate_zero, run_cons, begins_setLockedSize, if_neg room, run_nil]
  | write address byte => exact ⟨0, rfl⟩

theorem allowed_begins {op : HeapOp} (allowed : h.Allowed op) :
    SharedHeap.Allowed ⟨h, []⟩ (begins op) := by
  cases op <;> exact allowed

theorem allowed_advance (s : SharedHeap) (n : ℕ) :
    EveryStep (step arena) Allowed s (List.replicate n (.advance 0 false)) := by
  induction n generalizing s with
  | zero => trivial
  | succ n ih => exact ⟨trivial, ih _⟩

/-- No call is going on, and the heap is the one of the atomic calls. -/
def Quiet (arena : Arena) (h : Heap) (s : SharedHeap) : Prop :=
  s = ⟨h, []⟩ ∧ ∃ free, h.Tidy arena free

theorem Quiet.step (h : Heap) (s : SharedHeap) (op : HeapOp) (quiet : Quiet arena h s)
    (allowed : h.Allowed op ∧ Woken h op) :
    ∃ ops, EveryStep (step arena) Allowed s ops ∧
      Quiet arena (h.step arena op) (Transition.run (step arena) s ops) := by
  obtain ⟨rfl, free, tidy⟩ := quiet
  obtain ⟨n, run⟩ := run_call tidy allowed.1 allowed.2
  have met : EveryStep (SharedHeap.step arena) Allowed ⟨h, []⟩
      (begins op :: List.replicate n (.advance 0 false)) :=
    ⟨allowed_begins allowed.1, allowed_advance _ n⟩
  exact ⟨_, met, run, tidy.step allowed.1⟩

end SharedHeap

/-- What a run of atomic calls leaves behind, a run of the threads leaves behind. -/
theorem threads_run_calls {arena : Arena} {memory : Memory} {ops : List HeapOp}
    (allowed : EveryStep (Heap.step arena) (fun h op => h.Allowed op ∧ SharedHeap.Woken h op)
      (Heap.init memory) ops) :
    ∃ ops', EveryStep (SharedHeap.step arena) SharedHeap.Allowed (SharedHeap.init memory) ops' ∧
      Transition.run (SharedHeap.step arena) (SharedHeap.init memory) ops' =
        ⟨Transition.run (Heap.step arena) (Heap.init memory) ops, []⟩ := by
  have first : SharedHeap.Quiet arena (Heap.init memory) (SharedHeap.init memory) :=
    ⟨rfl, [], tidy_init arena memory⟩
  obtain ⟨ops', met, run, -⟩ := EveryStep.simulated SharedHeap.Quiet.step first allowed
  exact ⟨ops', met, run⟩

/-- A block is given back, and taken again as a part of its slot. -/
def reusing : List HeapOp :=
  [.alloc cacheLineLayout, .dealloc ⟨4160, cacheLineLayout⟩, .alloc (bytesLayout 30 (by decide))]

/-- Blocks are given back until the thread that defragments is asked to. -/
def waking : List HeapOp :=
  (List.replicate 32 [.alloc cacheLineLayout, .dealloc ⟨4160, cacheLineLayout⟩]).flatten ++
    [.defragment]

theorem threads_run_calls_waking :
    (∃ ops', EveryStep (SharedHeap.step smallestArena) SharedHeap.Allowed
        (SharedHeap.init fun _ => 0) ops' ∧
      Transition.run (SharedHeap.step smallestArena) (SharedHeap.init fun _ => 0) ops' =
        ⟨Transition.run (Heap.step smallestArena) (Heap.init fun _ => 0) reusing, []⟩) ∧
    ∃ ops', EveryStep (SharedHeap.step smallestArena) SharedHeap.Allowed
        (SharedHeap.init fun _ => 0) ops' ∧
      Transition.run (SharedHeap.step smallestArena) (SharedHeap.init fun _ => 0) ops' =
        ⟨Transition.run (Heap.step smallestArena) (Heap.init fun _ => 0) waking, []⟩ :=
  ⟨threads_run_calls (by decide +kernel), threads_run_calls (by decide +kernel)⟩

end DataBroker
