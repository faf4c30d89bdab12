import DataBroker.Memory.Allocator

/-!
# Accounting

`alloc` charges `used` with the size of a slot before it knows which slot it takes, and corrects the
charge when a free slot is taken whole. `dealloc` gives back the size that it finds in the header.
In every state of every run the charge is the sum of the slots of the live blocks
(`accounting_exact`). The correction is made without a look at `LOCKED_SIZE`: the reserved tail of
the arena stays untouched exactly as long as every correction fits (`reserved_iff_surplusFits`).
-/

namespace DataBroker

/-- `get_free_mem_size`; there is no result where the subtraction would underflow. -/
def MemAllocator.getFreeMemSize (arena : Arena) (s : MemAllocator) : Option ℕ :=
  if arena.capacity = 0 then some usizeMax
  else if s.used ≤ arena.capacity then some (arena.capacity - s.used)
  else none

namespace Heap

/-- The bytes in the slots of the live blocks, as their headers record them. -/
def liveBytes (h : Heap) : ℕ := (h.slots.map Segment.size).sum

/-- A tidy heap that has charged the slots of its live blocks. -/
structure Accounted (arena : Arena) (h : Heap) (free : List Segment) : Prop where
  tidy : h.Tidy arena free
  charged : h.used = h.liveBytes

/-- What `used` and the functions that go by it say about the live blocks. -/
structure Exact (arena : Arena) (h : Heap) : Prop where
  used : h.used = h.liveBytes
  bounded : h.used ≤ arena.capacity
  release : ∀ b ∈ h.live, (slotOf h.memory b.ptr).size ≤ h.used ∧
    (h.toMemAllocator.dealloc arena b.ptr).2.used = h.used - (slotOf h.memory b.ptr).size
  free : h.toMemAllocator.getFreeMemSize arena = some (arena.capacity - h.liveBytes)
  null : ∀ layout, 0 < layout.size → (h.toMemAllocator.alloc arena layout).1 = 0 →
    (h.toMemAllocator.alloc arena layout).2 = h.toMemAllocator

/-- The reserved tail of the arena is not in use. -/
def Reserved (arena : Arena) (h : Heap) : Prop := h.used + h.lockedSize ≤ arena.capacity

/-- Where an allocation may go ahead and takes a free slot whole, the reserved tail leaves room for
the surplus as well. -/
def SurplusFits (arena : Arena) (h : Heap) : HeapOp → Prop
  | .alloc layout => ∀ needed ∈ requiredSlotSize layout,
      h.used + needed + h.lockedSize ≤ arena.capacity →
        h.used + needed + h.surplus needed arena.rounds + h.lockedSize ≤ arena.capacity
  | _ => True

instance (arena : Arena) (h : Heap) : (op : HeapOp) → Decidable (h.SurplusFits arena op)
  | .alloc layout => inferInstanceAs (Decidable (∀ needed ∈ requiredSlotSize layout, _))
  | .dealloc _ | .defragment | .setLockedSize _ | .write .. => .isTrue trivial

variable {arena : Arena} {h h' : Heap} {free : List Segment} {layout : Layout} {b : Block}
  {needed : ℕ}

/-! ## The charge -/

theorem Tidy.liveBytes_le (tidy : h.Tidy arena free) : h.liveBytes ≤ arena.capacity := by
  have total := tidy.tiles.sum_size
  have bounded := tidy.bounded
  rw [List.map_append, List.sum_append] at total
  unfold liveBytes
  omega

theorem liveBytes_congr (same : h'.slots = h.slots) : h'.liveBytes = h.liveBytes := by
  rw [liveBytes, liveBytes, same]

theorem liveBytes_cons {slot : Segment} (more : h'.slots = slot :: h.slots) :
    h'.liveBytes = slot.size + h.liveBytes := by
  rw [liveBytes, liveBytes, more, List.map_cons, List.sum_cons]

/-- The slot of a live block apart from the others. -/
theorem liveBytes_erase (hb : b ∈ h.live)
    (less : h'.slots = (h.live.erase b).map fun b => slotOf h.memory b.ptr) :
    h.liveBytes = (slotOf h.memory b.ptr).size + h'.liveBytes := by
  have sizes := ((Tidy.perm_slots hb).map Segment.size).sum_eq
  rw [liveBytes, sizes, liveBytes, less, List.map_cons, List.sum_cons]

theorem wrappingSub_of_le {a b : ℕ} (enough : b ≤ a) (fits : a < 2 ^ 64) :
    wrappingSub a b = a - b := by
  unfold wrappingSub
  rw [show a + (2 ^ 64 - b) = a - b + 2 ^ 64 by omega, Nat.add_mod_right]
  exact Nat.mod_eq_of_lt (by omega)

namespace Accounted

theorem used_lt (accounted : h.Accounted arena free) : h.used < 2 ^ 64 := by
  have := accounted.charged
  have := accounted.tidy.liveBytes_le
  have := arena.fits
  omega

/-- An allocation leaves everything as it was, or charges the slot it took: the size it asked for
and the surplus. -/
theorem alloc_charge (accounted : h.Accounted arena free) (nonempty : 0 < layout.size)
    (required : requiredSlotSize layout = some needed) :
    (h.toMemAllocator.alloc arena layout = (0, h.toMemAllocator) ∧
      (h.used + needed + h.lockedSize ≤ arena.capacity → h.surplus needed arena.rounds = 0)) ∨
      (h.toMemAllocator.alloc arena layout).1 ≠ 0 ∧
        h.used + needed + h.lockedSize ≤ arena.capacity ∧
        (h.step arena (.alloc layout)).used = h.used + needed + h.surplus needed arena.rounds ∧
        (h.step arena (.alloc layout)).lockedSize = h.lockedSize ∧
        ∃ free', (h.step arena (.alloc layout)).Accounted arena free' := by
  rcases accounted.tidy.alloc_takes nonempty required with
    null | ⟨slot, free', takes, size, room, used⟩
  · exact .inl null
  refine .inr ⟨takes.nonnull, room, ?_⟩
  have live := liveBytes_cons takes.slots
  have bounded := takes.tidy.liveBytes_le
  have fits := arena.fits
  have charged := accounted.charged
  -- the new slot lies in the arena with the others, so that nothing wraps
  have total : h.used + needed + h.surplus needed arena.rounds < 2 ^ 64 := by omega
  have exact : (h.toMemAllocator.alloc arena layout).2.used =
      h.used + needed + h.surplus needed arena.rounds := by
    rw [used]
    split_ifs
    · exact Nat.mod_eq_of_lt total
    · omega
  unfold step
  dsimp only
  rw [if_neg takes.nonnull]
  refine ⟨exact, takes.lockedSize, free', takes.tidy, ?_⟩
  rw [live]
  dsimp only
  omega

theorem dealloc_used (accounted : h.Accounted arena free) (hb : b ∈ h.live) :
    (slotOf h.memory b.ptr).size ≤ h.used ∧
      (h.toMemAllocator.dealloc arena b.ptr).2.used = h.used - (slotOf h.memory b.ptr).size ∧
      (h.toMemAllocator.dealloc arena b.ptr).2.lockedSize = h.lockedSize := by
  obtain ⟨a, outcome, -, -, used, locked⟩ := accounted.tidy.dealloc_eq hb
  have less := liveBytes_erase hb (accounted.tidy.dealloc hb).2
  have charged := accounted.charged
  have enough : (slotOf h.memory b.ptr).size ≤ h.used := by omega
  rw [outcome]
  exact ⟨enough, by rw [used, wrappingSub_of_le enough accounted.used_lt], locked⟩

theorem dealloc (accounted : h.Accounted arena free) (hb : b ∈ h.live) :
    (h.step arena (.dealloc b)).Accounted arena (slotOf h.memory b.ptr :: free) := by
  obtain ⟨tidy, slots⟩ := accounted.tidy.dealloc hb
  have less := liveBytes_erase hb slots
  have charged := accounted.charged
  refine ⟨tidy, ?_⟩
  have used : (h.step arena (.dealloc b)).used = _ := (accounted.dealloc_used hb).2.1
  rw [used]
  omega

theorem setLockedSize_used (a : MemAllocator) (size : ℕ) :
    (a.setLockedSize arena size).2.used = a.used := by
  unfold MemAllocator.setLockedSize
  split
  · rfl
  · split_ifs <;> rfl

theorem step (accounted : h.Accounted arena free) {op : HeapOp} (allowed : h.Allowed op) :
    ∃ free', (h.step arena op).Accounted arena free' := by
  have charged := accounted.charged
  cases op with
  | alloc layout =>
    obtain ⟨needed, required, -⟩ := requiredSlotSize_spec layout
    rcases accounted.alloc_charge allowed required with ⟨null, -⟩ | ⟨-, -, -, -, free', next⟩
    · refine ⟨free, ?_⟩
      unfold Heap.step
      dsimp only
      rw [null, if_pos rfl]
      exact accounted
    · exact ⟨free', next⟩
  | dealloc block => exact ⟨_, accounted.dealloc allowed⟩
  | defragment =>
    obtain ⟨tidy, slots⟩ := accounted.tidy.defragment
    exact ⟨_, tidy, by rw [liveBytes_congr slots]; exact charged⟩
  | setLockedSize size =>
    obtain ⟨tidy, slots⟩ := accounted.tidy.setLockedSize size
    exact ⟨_, tidy, by
      rw [liveBytes_congr slots]; exact (setLockedSize_used _ size).trans charged⟩
  | write address byte =>
    obtain ⟨b, hb, inside⟩ := allowed
    obtain ⟨tidy, slots⟩ := accounted.tidy.write byte hb inside
    exact ⟨_, tidy, by rw [liveBytes_congr slots]; exact charged⟩

theorem exact (accounted : h.Accounted arena free) (initialised : 0 < arena.capacity) :
    h.Exact arena := by
  have charged := accounted.charged
  have bounded : h.used ≤ arena.capacity := charged ▸ accounted.tidy.liveBytes_le
  refine ⟨charged, bounded, fun b hb => ?_, ?_, fun layout nonempty null => ?_⟩
  · exact ⟨(accounted.dealloc_used hb).1, (accounted.dealloc_used hb).2.1⟩
  · rw [MemAllocator.getFreeMemSize, if_neg (by omega), if_pos bounded, charged]
  · obtain ⟨needed, required, -⟩ := requiredSlotSize_spec layout
    rcases accounted.alloc_charge nonempty required with ⟨same, -⟩ | ⟨nonnull, -⟩
    · rw [same]
    · exact absurd null nonnull

end Accounted

/-! ## The reserved tail -/

theorem setLockedSize_reserved (reserved : h.Reserved arena) (size : ℕ) :
    (h.step arena (.setLockedSize size)).Reserved arena := by
  have fits := arena.fits
  unfold Heap.step MemAllocator.setLockedSize Reserved checkedAdd usizeMax at *
  dsimp only
  split
  · exact reserved
  · next result result_eq =>
    obtain ⟨-, rfl⟩ : _ ∧ h.used + size = result := by simpa using result_eq
    split_ifs with beyond
    · exact reserved
    · exact not_lt.1 beyond

/-- A step leaves the reserved tail alone if and only if the surplus fits. -/
theorem reserved_step (accounted : h.Accounted arena free) (reserved : h.Reserved arena)
    {op : HeapOp} (allowed : h.Allowed op) :
    (h.step arena op).Reserved arena ↔ h.SurplusFits arena op := by
  cases op with
  | alloc layout =>
    obtain ⟨needed, required, -⟩ := requiredSlotSize_spec layout
    have only : h.SurplusFits arena (.alloc layout) ↔
        (h.used + needed + h.lockedSize ≤ arena.capacity →
          h.used + needed + h.surplus needed arena.rounds + h.lockedSize ≤ arena.capacity) := by
      simp only [SurplusFits, required, Option.mem_some_iff, forall_eq']
    rw [only]
    rcases accounted.alloc_charge allowed required with
      ⟨null, whole⟩ | ⟨-, room, used, locked, -⟩
    · have same : h.step arena (.alloc layout) = h := by
        unfold Heap.step
        dsimp only
        rw [null, if_pos rfl]
      rw [same]
      apply iff_of_true reserved
      intro room
      rw [whole room]
      exact room
    · rw [Reserved, used, locked]
      exact ⟨fun fits _ => fits, fun fits => fits room⟩
  | dealloc block =>
    refine iff_of_true ?_ trivial
    obtain ⟨-, used, locked⟩ := accounted.dealloc_used allowed
    change (h.toMemAllocator.dealloc arena block.ptr).2.used +
      (h.toMemAllocator.dealloc arena block.ptr).2.lockedSize ≤ arena.capacity
    unfold Reserved at reserved
    omega
  | defragment => exact iff_of_true reserved trivial
  | setLockedSize size => exact iff_of_true (setLockedSize_reserved reserved size) trivial
  | write address byte => exact iff_of_true reserved trivial

end Heap

/-! ## Every run -/

open Transition

variable {arena : Arena} {memory : Memory} {ops : List HeapOp}

theorem accounted_init (arena : Arena) (memory : Memory) : (Heap.init memory).Accounted arena [] :=
  ⟨tidy_init arena memory, rfl⟩

theorem accounted_run (allowed : EveryStep (Heap.step arena) Heap.Allowed (Heap.init memory) ops) :
    EveryState (Heap.step arena) (fun h => ∃ free, h.Accounted arena free) (Heap.init memory) ops :=
  allowed.invariant ⟨[], accounted_init arena memory⟩
    fun _ _ ⟨_, accounted⟩ allowed => accounted.step allowed

/-- In every state of every run `used` is the sum of the slots of the live blocks and within the
arena, so that giving back a block and asking for the free memory do not underflow, and an
allocation that fails leaves everything as it was. -/
theorem accounting_exact (initialised : 0 < arena.capacity)
    (allowed : EveryStep (Heap.step arena) Heap.Allowed (Heap.init memory) ops) :
    EveryState (Heap.step arena) (fun h => h.Exact arena) (Heap.init memory) ops :=
  (accounted_run allowed).mono fun _ ⟨_, accounted⟩ => accounted.exact initialised

/-- The free slot of 40 bytes is taken whole by a block that asks for 32. -/
def surplusRun (locked : ℕ) : List HeapOp :=
  [.alloc (bytesLayout 24 (by decide)), .alloc (bytesLayout 8 (by decide)),
    .dealloc ⟨4112, bytesLayout 24 (by decide)⟩, .setLockedSize locked,
    .alloc (bytesLayout 16 (by decide))]

theorem accounting_exact_surplus :
    EveryState (Heap.step smallestArena) (fun h => h.Exact smallestArena) (Heap.init fun _ => 0)
      (surplusRun 0) :=
  accounting_exact (by decide) (by decide +kernel)

/-- The reserved tail stays out of use in every state of a run if and only if in every step of it
the surplus fits. -/
theorem reserved_iff_surplusFits
    (allowed : EveryStep (Heap.step arena) Heap.Allowed (Heap.init memory) ops) :
    EveryState (Heap.step arena) (fun h => h.Reserved arena) (Heap.init memory) ops ↔
      EveryStep (Heap.step arena) (fun h op => h.SurplusFits arena op) (Heap.init memory) ops := by
  apply allowed.everyState_iff (accounted_run allowed) (Nat.zero_le arena.capacity)
  rintro h op ⟨free, accounted⟩ allowed reserved
  exact Heap.reserved_step accounted reserved allowed

theorem reserved_surplus_fits :
    EveryState (Heap.step smallestArena) (fun h => h.Reserved smallestArena) (Heap.init fun _ => 0)
      (surplusRun (smallestArena.capacity - 64)) :=
  (reserved_iff_surplusFits (by decide +kernel)).2 (by decide +kernel)

/-- With 32 bytes left before the reserved tail, the free slot of 40 bytes is taken whole. -/
theorem surplus_eats_into_reserve :
    ¬ ∀ (arena : Arena) (memory : Memory) (ops : List HeapOp),
      EveryStep (Heap.step arena) Heap.Allowed (Heap.init memory) ops →
        EveryState (Heap.step arena) (fun h => h.Reserved arena) (Heap.init memory) ops := by
  intro reserved
  have last := (reserved smallestArena (fun _ => 0)
    (surplusRun (smallestArena.capacity - 56)) (by decide +kernel)).last
  exact absurd last (by unfold Heap.Reserved; decide +kernel)

end DataBroker
