import DataBroker.Memory.Accounting
import DataBroker.Server.Request

/-!
# Admission

`read_buffer` lets a payload in if a multiple of its size fits into the free memory. The allocator
takes its slot from what `LOCKED_SIZE` leaves of the free memory. `admission_agrees_iff` says in
which states of the allocator every payload that is let in can be allocated.
-/

namespace DataBroker

/-- The guard of `read_buffer`. -/
def Admits (freeMemSize size : ℕ) : Prop := ¬ (size > maxPayloadSize ∨ scaled size ≥ freeMemSize)

instance (freeMemSize size : ℕ) : Decidable (Admits freeMemSize size) :=
  inferInstanceAs (Decidable (¬ _))

/-- A frame with a known command is turned away if and only if the guard does not let it in. -/
theorem readFrame_tooLarge {freeMemSize : ℕ} {buffer : Bytes} {command : Request}
    (header : prefixSize ≤ buffer.length) (known : Request.fromU8 (buffer.headD 0) = some command) :
    readFrame freeMemSize buffer = .reject .payloadTooLarge ↔ ¬ Admits freeMemSize
      (BigEndian.toBitVec 8 (slice buffer (commandSize + clientIdSize) payloadSizeSize)).toNat := by
  unfold readFrame Admits
  rw [if_neg (by omega), known]
  dsimp only
  rw [not_not]
  split_ifs with large incomplete
  · exact iff_of_true rfl large
  · exact iff_of_false (by simp) large
  · exact iff_of_false (by simp) large

/-- `size` bytes, wherever they start. -/
def payloadLayout (size : ℕ) (small : size ≤ maxPayloadSize) : Layout where
  size := size
  align := 1
  powerOfTwo := one_powerOfTwo
  fits := Nat.le_trans small (by decide)

/-- The slot for a payload: the header and the payload, rounded up. -/
def payloadSlot (size : ℕ) : ℕ := (size + 23) / 8 * 8

theorem requiredSlotSize_payload {size : ℕ} (small : size ≤ maxPayloadSize) :
    requiredSlotSize (payloadLayout size small) = some (payloadSlot size) := by
  have bounded : size ≤ 2 ^ 62 := small.trans (by decide)
  have positive : max (16 + 0 + size) 16 = 16 + size := by omega
  obtain ⟨aligned, above, below⟩ :=
    alignUp_spec slotAlign_powerOfTwo (show 16 + size + slotAlign ≤ 2 ^ 64 by unfold slotAlign; omega)
  have header : checkedAdd allocHeaderSize (1 - 1) = some (16 + 0) := rfl
  have worst : checkedAdd (16 + 0) size = some (16 + 0 + size) :=
    checkedAdd_of_le (by unfold usizeMax; omega)
  rw [requiredSlotSize, payloadLayout, header, Option.bind_eq_bind, Option.bind_some, worst,
    Option.bind_some, minSlotSize, positive, payloadSlot]
  unfold slotAlign at *
  congr 1
  omega

namespace MemAllocator

/-- Every payload that the guard lets in can be allocated. -/
def AdmissionAgrees (arena : Arena) (s : MemAllocator) : Prop :=
  ∀ free ∈ s.getFreeMemSize arena, ∀ size, (small : size ≤ maxPayloadSize) → Admits free size →
    ∀ needed ∈ requiredSlotSize (payloadLayout size small),
      (s.reserveUsed arena needed).isSome = true

/-- The largest payload that the guard lets in when some memory is free. -/
def largestAdmitted (free : ℕ) : ℕ := min maxPayloadSize ((4 * free - 1) / 9)

theorem admits_iff {free size : ℕ} (some_free : 0 < free) :
    Admits free size ↔ size ≤ largestAdmitted free := by
  unfold Admits largestAdmitted scaled
  omega

theorem not_admits_zero (size : ℕ) : ¬ Admits 0 size := fun admits => admits (.inr (Nat.zero_le _))

theorem payloadSlot_mono {size size' : ℕ} (le : size ≤ size') :
    payloadSlot size ≤ payloadSlot size' := by
  unfold payloadSlot
  omega

variable {arena : Arena} {s : MemAllocator}

/-- A payload can be allocated if the reserved tail leaves room for its slot. -/
theorem reserveUsed_payload (counted : s.used ≤ arena.capacity) (size : ℕ) :
    (s.reserveUsed arena (payloadSlot size)).isSome = true ↔
      s.lockedSize + payloadSlot size ≤ arena.capacity - s.used := by
  rw [Heap.Tidy.reserveUsed_eq]
  split_ifs with room
  · exact iff_of_true rfl (by omega)
  · exact iff_of_false (by simp) (by omega)

theorem admissionAgrees_iff (initialised : 0 < arena.capacity) (counted : s.used ≤ arena.capacity) :
    s.AdmissionAgrees arena ↔ arena.capacity - s.used = 0 ∨
      s.lockedSize + payloadSlot (largestAdmitted (arena.capacity - s.used)) ≤
        arena.capacity - s.used := by
  have free : s.getFreeMemSize arena = some (arena.capacity - s.used) := by
    rw [getFreeMemSize, if_neg (by omega), if_pos counted]
  unfold AdmissionAgrees
  simp only [free, Option.mem_some_iff, forall_eq']
  rcases Nat.eq_zero_or_pos (arena.capacity - s.used) with full | some_free
  · rw [full]
    exact iff_of_true (fun size _ admits => absurd admits (not_admits_zero size)) (.inl rfl)
  rw [or_iff_right (Nat.pos_iff_ne_zero.1 some_free)]
  constructor
  · intro agrees
    have small : largestAdmitted (arena.capacity - s.used) ≤ maxPayloadSize := Nat.min_le_left _ _
    have largest := agrees _ small ((admits_iff some_free).2 le_rfl)
    exact (reserveUsed_payload counted _).1 (largest _ (requiredSlotSize_payload small))
  · intro room size small admits needed required
    rw [requiredSlotSize_payload small, Option.mem_some_iff] at required
    subst required
    have le := payloadSlot_mono ((admits_iff some_free).1 admits)
    exact (reserveUsed_payload counted size).2 (by omega)

/-! ## The states of the counters -/

/-- What moves the counters: a reservation, the release of a slot by `dealloc`, and a new size of
the reserved tail. -/
inductive Move where
  | reserveUsed (needed : ℕ)
  | release (slotSize : ℕ)
  | setLockedSize (size : ℕ)

def move (arena : Arena) (s : MemAllocator) : Move → MemAllocator
  | .reserveUsed needed => (s.reserveUsed arena needed).getD s
  | .release slotSize => { s with used := wrappingSub s.used slotSize }
  | .setLockedSize size => (s.setLockedSize arena size).2

/-- A slot that is given back has been reserved. -/
def Releases (s : MemAllocator) : Move → Prop
  | .release slotSize => slotSize ≤ s.used
  | _ => True

instance (s : MemAllocator) : (m : Move) → Decidable (s.Releases m)
  | .release slotSize => inferInstanceAs (Decidable (slotSize ≤ s.used))
  | .reserveUsed _ | .setLockedSize _ => .isTrue trivial

theorem counted_move (counted : s.used ≤ arena.capacity) {m : Move} (releases : s.Releases m) :
    (s.move arena m).used ≤ arena.capacity := by
  have fits := arena.fits
  cases m with
  | reserveUsed needed =>
    show ((s.reserveUsed arena needed).getD s).used ≤ arena.capacity
    rw [Heap.Tidy.reserveUsed_eq]
    split_ifs with room
    · show s.used + needed ≤ arena.capacity
      omega
    · exact counted
  | release slotSize =>
    show wrappingSub s.used slotSize ≤ arena.capacity
    rw [Heap.wrappingSub_of_le releases (by omega)]
    omega
  | setLockedSize size =>
    show (s.setLockedSize arena size).2.used ≤ arena.capacity
    rw [Heap.Accounted.setLockedSize_used]
    exact counted

end MemAllocator

open Transition MemAllocator

variable {arena : Arena} {memory : Memory} {moves : List Move}

/-- In every state of the counters, a payload that is let in can be allocated if and only if the
reserved tail leaves room for its slot; and so it is for all of them if and only if nothing is free
or the largest that is let in has room. -/
theorem admission_agrees_iff (initialised : 0 < arena.capacity)
    (releases : EveryStep (move arena) Releases (Heap.init memory).toMemAllocator moves) :
    EveryState (move arena) (fun s =>
      (∀ size, (s.reserveUsed arena (payloadSlot size)).isSome = true ↔
        s.lockedSize + payloadSlot size ≤ arena.capacity - s.used) ∧
      (s.AdmissionAgrees arena ↔ arena.capacity - s.used = 0 ∨
        s.lockedSize + payloadSlot (largestAdmitted (arena.capacity - s.used)) ≤
          arena.capacity - s.used)) (Heap.init memory).toMemAllocator moves := by
  have counted := releases.invariant (I := fun s => s.used ≤ arena.capacity)
    (Nat.zero_le arena.capacity) fun _ _ counted releases => counted_move counted releases
  exact counted.mono fun s counted =>
    ⟨reserveUsed_payload counted, admissionAgrees_iff initialised counted⟩

/-- The same for the states of the heap as its programs use it. -/
theorem admission_agrees_heap {ops : List HeapOp} (initialised : 0 < arena.capacity)
    (allowed : EveryStep (Heap.step arena) Heap.Allowed (Heap.init memory) ops) :
    EveryState (Heap.step arena) (fun h =>
      h.toMemAllocator.AdmissionAgrees arena ↔ arena.capacity - h.used = 0 ∨
        h.lockedSize + payloadSlot (largestAdmitted (arena.capacity - h.used)) ≤
          arena.capacity - h.used) (Heap.init memory) ops :=
  (accounting_exact initialised allowed).mono fun _ exact =>
    admissionAgrees_iff initialised exact.bounded

/-- A message of 2 GiB is stored, and room for the next one of its size is reserved. -/
def afterLargeMessage : List Move :=
  [.reserveUsed (payloadSlot (2 * 1024 * 1024 * 1024)),
    .setLockedSize (scaled (2 * 1024 * 1024 * 1024))]

theorem admission_agrees_after_release :
    (run (move smallestArena) (Heap.init fun _ => 0).toMemAllocator
      [.reserveUsed 40, .release 40]).AdmissionAgrees smallestArena :=
  (admission_agrees_iff (by decide) (by decide)).last.2.2 (.inr (by decide))

/-- A message of 1.5 GiB is let in while the reserved tail has not left enough for it. -/
theorem admitted_but_refused :
    ¬ ∀ (arena : Arena) (memory : Memory) (moves : List Move), 0 < arena.capacity →
      EveryStep (move arena) Releases (Heap.init memory).toMemAllocator moves →
      EveryState (move arena) (fun s => s.AdmissionAgrees arena)
        (Heap.init memory).toMemAllocator moves := by
  intro agrees
  have last := (agrees smallestArena (fun _ => 0) afterLargeMessage (by decide) (by decide)).last
  have small : 1536 * 1024 * 1024 ≤ maxPayloadSize := by decide
  have accepted := last (smallestArena.capacity - payloadSlot (2 * 1024 * 1024 * 1024)) (by decide)
    (1536 * 1024 * 1024) small (by decide) _ (requiredSlotSize_payload small)
  exact absurd accepted (by decide)

end DataBroker
