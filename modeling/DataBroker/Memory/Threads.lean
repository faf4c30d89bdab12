import DataBroker.Memory.Accounting

/-!
# Threads in the arena

On several threads the calls of the allocator are not atomic: a call loads and changes the counters
one after the other, and holds `FREE_LIST` for a part of its way only. A `SharedHeap` is a heap
together with the calls that are going on, each before its next atomic operation. What a call does
under `FREE_LIST` is one step, and so is the header that it writes into a slot of its own.

Between its operations a call holds a slot that is neither live nor free, and has charged `used`
with bytes that it gives back or turns into a slot later. With these the used part of the arena is
tiled in every state (`Heap.Shared`), and `used` is exact.
-/

namespace DataBroker

/-- A call that is going on, by what it does next. -/
inductive Ongoing where
  /-- `reserve_used` loads `LOCKED_SIZE`. -/
  | reserving (layout : Layout) (needed current : ℕ)
  /-- `reserve_used` compares and exchanges `used`. -/
  | claiming (layout : Layout) (needed current newUsed : ℕ)
  /-- `alloc_from_free_list` locks `FREE_LIST`. -/
  | searching (layout : Layout) (needed : ℕ)
  /-- `alloc_from_free_list` adds the excess of a node taken whole to `used`. -/
  | charging (layout : Layout) (slot : Segment) (excess : ℕ)
  /-- `alloc_from_bump` loads `offset`. -/
  | missing (layout : Layout) (needed : ℕ)
  /-- `alloc_from_bump` compares and exchanges `offset`. -/
  | bumping (layout : Layout) (needed current : ℕ)
  /-- `place_header` -/
  | placing (layout : Layout) (slot : Segment)
  /-- `alloc` gives the reserved bytes back. -/
  | returning (needed : ℕ)
  /-- `dealloc` locks `FREE_LIST`. -/
  | pushing (slot : Segment)
  /-- `dealloc` subtracts the slot from `used`. -/
  | subtracting (slotSize : ℕ)
  /-- `dealloc` counts itself. -/
  | counting
  /-- `dealloc` locks `DEFRAG_MUTEX`. -/
  | signalling
  /-- `set_locked_size` stores `LOCKED_SIZE`. -/
  | storing (size : ℕ)
  /-- `defragment` locks `FREE_LIST`. -/
  | defragmenting

/-- A heap with the calls that are going on. -/
structure SharedHeap extends Heap where
  calls : List Ongoing

namespace Ongoing

/-- The next atomic operation of a call, and what the call does then; `weak` is a
`compare_exchange_weak` that fails without a reason. -/
def advance (arena : Arena) (h : Heap) (weak : Bool) : Ongoing → Heap × Option Ongoing
  | reserving layout needed current =>
    if arena.capacity < h.lockedSize then (h, none)
    else
      let ceiling := arena.capacity - h.lockedSize
      match checkedAdd current needed with
      | some newUsed =>
        if newUsed ≤ ceiling then (h, some (claiming layout needed current newUsed)) else (h, none)
      | none => (h, none)
  | claiming layout needed current newUsed =>
    if h.used = current ∧ weak = false then
      ({ h with used := newUsed }, some (searching layout needed))
    else (h, some (reserving layout needed h.used))
  | searching layout needed =>
    match h.findNode needed arena.rounds .head with
    | none => (h, some (missing layout needed))
    | some prev =>
      let start := h.deref prev
      let (slotSize, list) := h.takeNode prev needed
      let excess := slotSize - needed
      ({ h with toFreeList := list },
        if excess > 0 then some (charging layout ⟨start, slotSize⟩ excess)
        else some (placing layout ⟨start, slotSize⟩))
  | charging layout slot excess =>
    ({ h with used := wrappingAdd h.used excess }, some (placing layout slot))
  | missing layout needed => (h, some (bumping layout needed h.offset))
  | bumping layout needed current =>
    let slotStart := alignUp current slotAlign
    match checkedAdd slotStart needed with
    | none => (h, some (returning needed))
    | some next =>
      if next > arena.capacity then (h, some (returning needed))
      else if h.offset = current ∧ weak = false then
        ({ h with offset := next }, some (placing layout ⟨arena.base + slotStart, needed⟩))
      else (h, some (bumping layout needed h.offset))
  | placing layout slot =>
    let (user, memory) := placeHeader h.memory slot.start slot.size layout
    ({ h with memory := memory, live := ⟨user, layout⟩ :: h.live }, none)
  | returning needed => ({ h with used := wrappingSub h.used needed }, none)
  | pushing slot =>
    ({ h with toFreeList := h.push slot.start slot.size }, some (subtracting slot.size))
  | subtracting slotSize => ({ h with used := wrappingSub h.used slotSize }, some counting)
  | counting =>
    ({ h with deallocCount := wrappingAdd h.deallocCount 1 },
      if h.deallocCount &&& 31 == 31 then some signalling else none)
  | signalling => ({ h with defragRequested := true }, none)
  | storing size => ({ h with lockedSize := size }, none)
  | defragmenting => ({ h with toFreeList := h.toFreeList.defragment arena.rounds }, none)

/-- What `dealloc` goes on with after it has read the header. -/
def release (arena : Arena) (h : Heap) (ptr : ℕ) : Option Ongoing :=
  let arenaEnd := arena.base + arena.capacity
  if ptr < arena.base ∨ ptr ≥ arenaEnd then none
  else
    let slot := slotOf h.memory ptr
    if slot.start < arena.base ∨ slot.stop > arenaEnd then none else some (pushing slot)

/-- What `set_locked_size` goes on with after it has loaded `used`. -/
def lockSize (arena : Arena) (h : Heap) (size : ℕ) : Option Ongoing :=
  match checkedAdd h.used size with
  | none => none
  | some result => if result > arena.capacity then none else some (storing size)

/-- The slot that a call holds. -/
def slots : Ongoing → List Segment
  | charging _ slot _ | placing _ slot | pushing slot => [slot]
  | _ => []

/-- The bytes that a call has charged to `used`, and not given back. -/
def charge : Ongoing → ℕ
  | searching _ needed | missing _ needed | bumping _ needed _ | returning needed => needed
  | charging _ slot excess => slot.size - excess
  | placing _ slot | pushing slot => slot.size
  | subtracting slotSize => slotSize
  | _ => 0

/-- A bound on what a call may yet charge for a node taken whole. -/
def surcharge : Ongoing → ℕ
  | searching .. => minSlotSize
  | charging _ _ excess => excess
  | _ => 0

end Ongoing

/-- What a thread begins, or a call that goes on by one operation. -/
inductive SharedOp where
  | alloc (layout : Layout)
  | dealloc (block : Block)
  /-- The thread of `defrag_thread` looks at its flag. -/
  | defragment
  | setLockedSize (size : ℕ)
  | write (address : ℕ) (byte : UInt8)
  | advance (i : ℕ) (weak : Bool)

namespace SharedHeap

def step (arena : Arena) (s : SharedHeap) : SharedOp → SharedHeap
  | .alloc layout =>
    match requiredSlotSize layout with
    | none => s
    | some needed => { s with calls := .reserving layout needed s.used :: s.calls }
  | .dealloc block =>
    { s with
      live := s.live.erase block
      calls := (Ongoing.release arena s.toHeap block.ptr).toList ++ s.calls }
  | .defragment =>
    if s.defragRequested then
      { s with defragRequested := false, calls := .defragmenting :: s.calls }
    else s
  | .setLockedSize size =>
    { s with calls := (Ongoing.lockSize arena s.toHeap size).toList ++ s.calls }
  | .write address byte =>
    { s with memory := fun k => if k = address then byte else s.memory k }
  | .advance i weak =>
    match s.calls[i]? with
    | none => s
    | some call =>
      let (h, next) := call.advance arena s.toHeap weak
      { toHeap := h, calls := next.toList ++ s.calls.eraseIdx i }

/-- The contract of a global allocator, as for calls that are atomic. -/
def Allowed (s : SharedHeap) : SharedOp → Prop
  | .alloc layout => 0 < layout.size
  | .dealloc block => block ∈ s.live
  | .write address _ => ∃ b ∈ s.live, b.ptr ≤ address ∧ address < b.ptr + b.layout.size
  | _ => True

instance (s : SharedHeap) : (op : SharedOp) → Decidable (s.Allowed op)
  | .alloc layout => inferInstanceAs (Decidable (0 < layout.size))
  | .dealloc block => inferInstanceAs (Decidable (block ∈ s.live))
  | .defragment => .isTrue trivial
  | .setLockedSize _ => .isTrue trivial
  | .write address _ =>
    inferInstanceAs (Decidable (∃ b ∈ s.live, b.ptr ≤ address ∧ address < b.ptr + b.layout.size))
  | .advance .. => .isTrue trivial

/-- The slots that the calls hold. -/
def held (s : SharedHeap) : List Segment := s.calls.flatMap Ongoing.slots

end SharedHeap

/-- The free list holds the segments `free`, which together with the slots of the live blocks and
the slots that calls hold tile the used part of the arena. -/
structure Heap.Shared (arena : Arena) (h : Heap) (held free : List Segment) : Prop where
  linked : Linked h.memory h.head free
  tiles : Tiles arena.base (arena.base + h.offset) (h.slots ++ (held ++ free))
  bounded : h.offset ≤ arena.capacity
  slot : ∀ s ∈ h.slots ++ (held ++ free), IsSlot s
  placed : ∀ b ∈ h.live, b.Placed h.memory

/-! ## What the threads do to the heap -/

open Segment

section Shared

variable {arena : Arena} {h h' : Heap} {held held' free free' changed : List Segment}
  {m m' : Memory} {s t : Segment} {b : Block} {layout : Layout} {needed : ℕ}

/-- As long as the headers of some blocks stay, their slots do. -/
theorem Block.placed_congr {live : List Block} (placed : ∀ b ∈ live, b.Placed m)
    (same : ∀ b ∈ live, m.AgreeOn m' (b.ptr - allocHeaderSize) b.ptr) :
    live.map (fun b => slotOf m' b.ptr) = live.map (fun b => slotOf m b.ptr) ∧
      ∀ b ∈ live, b.Placed m' := by
  have slot : ∀ b ∈ live, slotOf m' b.ptr = slotOf m b.ptr := by
    intro b hb
    have := (placed b hb).header
    exact (slotOf_congr (by omega) (same b hb)).symm
  refine ⟨List.map_congr_left slot, fun b hb => ?_⟩
  obtain ⟨nonempty, aligned, header, region⟩ := placed b hb
  rw [← slot b hb] at header region
  exact ⟨nonempty, aligned, header, region⟩

namespace Heap.Shared

theorem roomy (shared : h.Shared arena held free) : ∀ s ∈ h.slots ++ (held ++ free), Roomy s :=
  arena.roomy shared.tiles shared.bounded shared.slot

theorem roomyFree (shared : h.Shared arena held free) : ∀ s ∈ free, Roomy s :=
  fun s hs => shared.roomy s (by simp [hs])

theorem apartFree (shared : h.Shared arena held free) : free.Pairwise Apart :=
  (List.pairwise_append.1 (List.pairwise_append.1 shared.tiles.apart).2.1).2.1

theorem besideFree (shared : h.Shared arena held free) (hs : s ∈ h.slots ++ held) :
    ∀ t ∈ free, s.Apart t := by
  have tiles := shared.tiles
  rw [← List.append_assoc] at tiles
  exact (List.pairwise_append.1 tiles.apart).2.2 s hs

theorem besideSlots (shared : h.Shared arena held free) (hs : s ∈ held ++ free) :
    ∀ t ∈ h.slots, s.Apart t :=
  fun t ht => ((List.pairwise_append.1 shared.tiles.apart).2.2 t ht s hs).symm

theorem start_ne_zero (shared : h.Shared arena held free) (hs : s ∈ h.slots ++ (held ++ free)) :
    s.start ≠ 0 := by
  have := (shared.tiles.inside hs).1
  have := arena.nonnull
  omega

theorem length_lt_rounds (shared : h.Shared arena held free) : free.length < arena.rounds := by
  have count := shared.tiles.length_mul_le fun s hs => (shared.slot s hs).room
  have := shared.bounded
  simp only [List.length_append] at count
  unfold Arena.rounds minSlotSize at *
  omega

theorem aligned_offset (shared : h.Shared arena held free) : slotAlign ∣ h.offset := by
  have length := shared.tiles.dvd_length fun s hs => (shared.slot s hs).size
  rwa [Nat.add_sub_cancel_left] at length

theorem alignUp_offset (shared : h.Shared arena held free) :
    alignUp h.offset slotAlign = h.offset := by
  refine alignUp_of_dvd slotAlign_powerOfTwo ?_ shared.aligned_offset
  have := shared.bounded
  have := arena.fits
  have := Nat.le_of_dvd (Nat.pos_of_ne_zero arena.nonnull) arena.aligned
  omega

/-- A change apart from the slots of the live blocks keeps them. -/
theorem keepBlocks (shared : h.Shared arena held free) (same : SameOutside changed h.memory m')
    (apart : ∀ s ∈ changed, ∀ t ∈ h.slots, s.Apart t) :
    h.live.map (fun b => slotOf m' b.ptr) = h.slots ∧ ∀ b ∈ h.live, b.Placed m' := by
  refine Block.placed_congr shared.placed fun b hb => ?_
  obtain ⟨-, -, header, region⟩ := shared.placed b hb
  have slot := same.agree fun s hs => apart s hs _ (Heap.Tidy.slot_mem hb)
  exact slot.mono (by omega) (by omega)

/-- A step that leaves the live blocks alone. -/
theorem change (shared : h.Shared arena held free) (live : h'.live = h.live)
    (same : SameOutside changed h.memory h'.memory)
    (apart : ∀ s ∈ changed, ∀ t ∈ h.slots, s.Apart t)
    (linked : Linked h'.memory h'.head free')
    (tiles : Tiles arena.base (arena.base + h'.offset) (h.slots ++ (held' ++ free')))
    (bounded : h'.offset ≤ arena.capacity)
    (slot : ∀ s ∈ h.slots ++ (held' ++ free'), IsSlot s) :
    h'.Shared arena held' free' ∧ h'.slots = h.slots := by
  obtain ⟨kept, placed⟩ := shared.keepBlocks same apart
  have slots : h'.slots = h.slots := by rw [Heap.slots, live, kept]
  rw [← slots] at tiles slot
  exact ⟨⟨linked, tiles, bounded, slot, live ▸ placed⟩, slots⟩

/-- Only the counters change. -/
theorem counters (shared : h.Shared arena held free) (list : h'.toFreeList = h.toFreeList)
    (live : h'.live = h.live) (offset : h'.offset = h.offset) :
    h'.Shared arena held free ∧ h'.slots = h.slots := by
  have same : SameOutside [] h.memory h'.memory := by
    rw [list]
    exact .refl _ _
  refine shared.change live same (by simp) ?_ ?_ ?_ shared.slot
  · rw [list]
    exact shared.linked
  · rw [offset]
    exact shared.tiles
  · rw [offset]
    exact shared.bounded

theorem perm (same : held.Perm held') (shared : h.Shared arena held free) :
    h.Shared arena held' free := by
  have order : (h.slots ++ (held ++ free)).Perm (h.slots ++ (held' ++ free)) :=
    (same.append_right free).append_left h.slots
  exact { shared with
    tiles := shared.tiles.perm order
    slot := fun s hs => shared.slot s (order.mem_iff.2 hs) }

/-- A call finds no node that is large enough, or takes the first one, whole or cut. -/
theorem take (shared : h.Shared arena held free) (aligned : slotAlign ∣ needed)
    (room : minSlotSize ≤ needed) : h.findNode needed arena.rounds .head = none ∨
      ∃ prev slot list free', h.findNode needed arena.rounds .head = some prev ∧
        h.deref prev = slot.start ∧ h.takeNode prev needed = (slot.size, list) ∧
        needed ≤ slot.size ∧ slot.size < needed + minSlotSize ∧
        Heap.Shared arena { h with toFreeList := list } (slot :: held) free' ∧
        Heap.slots { h with toFreeList := list } = h.slots := by
  rcases all_small_or_split needed free with small | ⟨skipped, s, rest, rfl, small, fits⟩
  · have list : Linked h.memory h.head ([] ++ free) := shared.linked
    exact .inl (findNode_none list small)
  have few := shared.length_lt_rounds
  have walk : h.findNode needed arena.rounds (Link.behind []) = some (Link.behind ([] ++ skipped)) :=
    findNode_some shared.linked small fits (by rw [List.length_append] at few; omega)
  rw [Link.behind_nil, List.nil_append] at walk
  obtain ⟨size, linked, same⟩ := takeNode_spec shared.linked shared.roomyFree shared.apartFree fits
  -- the free slot in front, then cut
  have front : (h.slots ++ (held ++ (skipped ++ s :: rest))).Perm
      (s :: (h.slots ++ (held ++ (skipped ++ rest)))) :=
    List.perm_iff_count.2 fun t => by simp only [List.count_append, List.count_cons]; omega
  have cutTiles := (shared.tiles.perm front).cut fits
    ((by decide : 0 < minSlotSize).trans_le room) (by decide : 0 < minSlotSize)
  obtain ⟨whole, others⟩ := List.forall_mem_cons.1 fun t ht => shared.slot t (front.mem_iff.2 ht)
  have parts : IsSlot (cut minSlotSize needed s).1 ∧ ∀ t ∈ (cut minSlotSize needed s).2, IsSlot t :=
    forall_cut whole fun enough => ⟨⟨whole.start, aligned, room⟩,
      Nat.dvd_add whole.start aligned, Nat.dvd_sub whole.size aligned, enough⟩
  have back : ((cut minSlotSize needed s).1 ::
      ((cut minSlotSize needed s).2 ++ (h.slots ++ (held ++ (skipped ++ rest))))).Perm
      (h.slots ++ ((cut minSlotSize needed s).1 :: held ++
        (skipped ++ ((cut minSlotSize needed s).2 ++ rest)))) :=
    List.perm_iff_count.2 fun t => by simp only [List.count_append, List.count_cons]; omega
  refine .inr ⟨_, (cut minSlotSize needed s).1, _, _, walk, ?_, Prod.ext size rfl,
    (cut_taken fits).1, ?_, shared.change rfl same ?_ linked (cutTiles.perm back) shared.bounded ?_⟩
  · rw [cut_start]
    exact shared.linked.deref_cons.1
  · rw [cut_size]
    unfold minSlotSize
    split_ifs <;> omega
  · exact fun t ht => shared.besideSlots (by simp at ht ⊢; tauto)
  · intro t ht
    rcases List.mem_cons.1 (back.mem_iff.2 ht) with rfl | ht
    · exact parts.1
    · exact (List.mem_append.1 ht).elim (parts.2 t) (others t)

/-- A call moves the end of the used part. -/
theorem bump (shared : h.Shared arena held free) (aligned : slotAlign ∣ needed)
    (room : minSlotSize ≤ needed) (within : h.offset + needed ≤ arena.capacity) :
    Heap.Shared arena { h with offset := h.offset + needed }
        (⟨arena.base + h.offset, needed⟩ :: held) free ∧
      Heap.slots { h with offset := h.offset + needed } = h.slots := by
  let slot : Segment := ⟨arena.base + h.offset, needed⟩
  have order : (slot :: (h.slots ++ (held ++ free))).Perm (h.slots ++ (slot :: held ++ free)) :=
    List.perm_middle.symm
  have positive : 0 < needed := (by decide : 0 < minSlotSize).trans_le room
  have tiles := shared.tiles.extend (Nat.le_add_right _ _) positive
  rw [Nat.add_assoc] at tiles
  refine shared.change rfl (.refl [] _) (by simp) shared.linked (tiles.perm order) within ?_
  intro t ht
  rcases List.mem_cons.1 (order.mem_iff.2 ht) with rfl | ht
  · exact ⟨Nat.dvd_add arena.aligned shared.aligned_offset, aligned, room⟩
  · exact shared.slot t ht

/-- A call puts the slot that it holds on the free list. -/
theorem push (shared : h.Shared arena (s :: held) free) :
    Heap.Shared arena { h with toFreeList := h.push s.start s.size } held (s :: free) ∧
      Heap.slots { h with toFreeList := h.push s.start s.size } = h.slots := by
  have own : s ∈ h.slots ++ (s :: held ++ free) := by simp
  obtain ⟨linked, same⟩ := push_spec shared.linked shared.roomyFree shared.apartFree
    (shared.roomy s own) (shared.start_ne_zero own) (shared.besideFree (by simp))
  have order : (h.slots ++ (s :: held ++ free)).Perm (h.slots ++ (held ++ s :: free)) :=
    (List.perm_middle.symm).append_left h.slots
  refine shared.change rfl same ?_ linked (shared.tiles.perm order) shared.bounded
    fun t ht => shared.slot t (order.mem_iff.2 ht)
  exact List.forall_mem_singleton.2 (shared.besideSlots (by simp))

theorem defragment (shared : h.Shared arena held free) :
    Heap.Shared arena { h with toFreeList := h.toFreeList.defragment arena.rounds } held
        (coalesce (insertAll [] free)) ∧
      Heap.slots { h with toFreeList := h.toFreeList.defragment arena.rounds } = h.slots := by
  obtain ⟨linked, same⟩ := defragment_spec shared.linked shared.roomyFree shared.apartFree
    shared.length_lt_rounds
  have sorted : (insertAll [] free).Perm free := insertAll_perm [] free
  have front : (h.slots ++ (held ++ free)).Perm (insertAll [] free ++ (h.slots ++ held)) := by
    rw [← List.append_assoc]
    exact List.perm_append_comm.trans (sorted.symm.append_right _)
  have back : (coalesce (insertAll [] free) ++ (h.slots ++ held)).Perm
      (h.slots ++ (held ++ coalesce (insertAll [] free))) := by
    rw [← List.append_assoc h.slots]
    exact List.perm_append_comm
  refine shared.change rfl same ?_ linked ((shared.tiles.perm front).coalesce.perm back)
    shared.bounded ?_
  · exact fun t ht => shared.besideSlots (by simp [ht])
  · intro t ht
    rcases List.mem_append.1 (back.mem_iff.2 ht) with ht | ht
    · refine forall_coalesce (P := IsSlot) (fun s hs => ?_) (fun s t hs ht _ => ?_) t ht
      · exact shared.slot s (front.mem_iff.2 (List.mem_append_left _ hs))
      · exact ⟨hs.start, Nat.dvd_add hs.size ht.size, hs.room.trans (Nat.le_add_right _ _)⟩
    · exact shared.slot t (front.mem_iff.2 (List.mem_append_right _ ht))

/-- The header is written into a slot that the call holds, and the block is live. -/
theorem place (shared : h.Shared arena (s :: held) free) (nonempty : 0 < layout.size)
    (large : allocHeaderSize + (layout.align - 1) + layout.size ≤ s.size) :
    let placed := placeHeader h.memory s.start s.size layout
    let h' : Heap := { h with memory := placed.2, live := ⟨placed.1, layout⟩ :: h.live }
    h'.Shared arena held free ∧ h'.slots = s :: h.slots := by
  intro placed h'
  obtain ⟨-, own, block, same⟩ : _ ∧ _ ∧ _ ∧ SameOutside [s] h.memory _ :=
    Heap.Tidy.placed_placeHeader (m := h.memory) nonempty large
      (shared.roomy s (by simp)).fits
  obtain ⟨kept, blocks⟩ := shared.keepBlocks same
    (List.forall_mem_singleton.2 (shared.besideSlots (by simp)))
  have slots : h'.slots = s :: h.slots := by
    rw [Heap.slots, List.map_cons, kept, own]
  have order : (h.slots ++ (s :: held ++ free)).Perm (s :: h.slots ++ (held ++ free)) :=
    List.perm_middle
  refine ⟨⟨?_, ?_, shared.bounded, ?_, List.forall_mem_cons.2 ⟨block, blocks⟩⟩, slots⟩
  · exact shared.linked.outside shared.roomyFree same
      (List.forall_mem_singleton.2 (shared.besideFree (by simp)))
  · rw [slots]
    exact shared.tiles.perm order
  · rw [slots]
    exact fun t ht => shared.slot t (order.mem_iff.2 ht)

/-- A block that is given back leaves its slot to the call. -/
theorem release (shared : h.Shared arena held free) (hb : b ∈ h.live) :
    Ongoing.release arena h b.ptr = some (.pushing (slotOf h.memory b.ptr)) ∧
      Heap.Shared arena { h with live := h.live.erase b } (slotOf h.memory b.ptr :: held) free := by
  obtain ⟨nonempty, -, header, region⟩ := shared.placed b hb
  have own := Heap.Tidy.slot_mem hb
  obtain ⟨first, last⟩ := shared.tiles.inside (List.mem_append_left _ own)
  have := shared.bounded
  constructor
  · unfold Ongoing.release
    dsimp only
    rw [if_neg (by omega), if_neg (by omega)]
  · have order : (h.slots ++ (held ++ free)).Perm
        ((h.live.erase b).map (fun b => slotOf h.memory b.ptr) ++
          (slotOf h.memory b.ptr :: held ++ free)) :=
      ((Heap.Tidy.perm_slots hb).append_right _).trans List.perm_middle.symm
    exact ⟨shared.linked, shared.tiles.perm order, shared.bounded,
      fun t ht => shared.slot t (order.mem_iff.2 ht),
      fun c hc => shared.placed c (List.mem_of_mem_erase hc)⟩

/-- What a program writes into a live block changes no header, no free node and no held slot. -/
theorem write (shared : h.Shared arena held free) {address : ℕ} {byte : UInt8} (hb : b ∈ h.live)
    (inside : b.ptr ≤ address ∧ address < b.ptr + b.layout.size)
    (writes : m' = fun k => if k = address then byte else h.memory k) :
    Heap.Shared arena { h with memory := m' } held free ∧
      Heap.slots { h with memory := m' } = h.slots := by
  obtain ⟨-, -, header, region⟩ := shared.placed b hb
  have elsewhere : ∀ k, k ≠ address → h.memory k = m' k := fun k away => by simp [writes, away]
  have same : SameOutside [⟨address, 1⟩] h.memory m' := by
    intro k hk
    have := List.forall_mem_singleton.1 hk
    simp only [Covers, stop] at this
    exact elsewhere k (by omega)
  have beside : ∀ t, (slotOf h.memory b.ptr).Apart t → (⟨address, 1⟩ : Segment).Apart t := by
    intro t ht
    simp only [Apart, stop] at *
    omega
  have others : ∀ c ∈ h.live.erase b, (slotOf h.memory b.ptr).Apart (slotOf h.memory c.ptr) := by
    have apart := (shared.tiles.perm ((Heap.Tidy.perm_slots hb).append_right _)).apart
    intro c hc
    refine (List.pairwise_cons.1 apart).1 _ (List.mem_append_left _ ?_)
    exact List.mem_map_of_mem hc
  have headers : ∀ c ∈ h.live, h.memory.AgreeOn m' (c.ptr - allocHeaderSize) c.ptr := by
    intro c hc
    by_cases own : c = b
    · subst own
      exact fun k _ below => elsewhere k (by omega)
    · obtain ⟨-, -, header', region'⟩ := shared.placed c hc
      have away := beside _ (others c ((List.mem_erase_of_ne own).2 hc))
      have slot := same.agree (List.forall_mem_singleton.2 away)
      exact slot.mono (by omega) (by omega)
  obtain ⟨kept, blocks⟩ := Block.placed_congr shared.placed headers
  have slots : Heap.slots { h with memory := m' } = h.slots := kept
  refine ⟨⟨?_, ?_, shared.bounded, ?_, blocks⟩, slots⟩
  · exact shared.linked.outside shared.roomyFree same (List.forall_mem_singleton.2 fun t ht =>
      beside t (shared.besideFree (List.mem_append_left _ (Heap.Tidy.slot_mem hb)) t ht))
  · rw [slots]
    exact shared.tiles
  · rw [slots]
    exact shared.slot

end Heap.Shared

end Shared

end DataBroker
