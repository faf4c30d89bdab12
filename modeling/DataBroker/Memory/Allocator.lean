import DataBroker.Lib.Transition
import DataBroker.Memory.FreeList

/-!
# The arena allocator

`alloc` reserves the size of a slot, and takes the slot from the free list or else from the unused
end of the arena. `dealloc` finds the slot through its header and puts it on the free list.
`defragment` sorts the free list and merges slots that touch. Each call is one atomic step, and
programs write into the bytes they were given between the calls.
-/

namespace DataBroker

/-- The address range that `init` got from the system: `ARENA_BASE` and `allocated`. -/
structure Arena where
  base : ℕ
  capacity : ℕ
  nonnull : base ≠ 0
  aligned : slotAlign ∣ base
  fits : base + capacity < 2 ^ 64

/-- A bound on the rounds of a loop over the free list: more than the arena has room for slots. -/
def Arena.rounds (arena : Arena) : ℕ := arena.capacity / minSlotSize + 1

/-- `fetch_add` leaves the wrapped sum behind. -/
def wrappingAdd (a b : ℕ) : ℕ := (a + b) % 2 ^ 64

/-- `fetch_sub` leaves the wrapped difference behind. -/
def wrappingSub (a b : ℕ) : ℕ := (a + (2 ^ 64 - b)) % 2 ^ 64

/-- The counters of `MemAllocator` and the statics it works on: the free list, `LOCKED_SIZE`,
`DEALLOC_COUNT`, and the flag that wakes up the defragmentation thread. -/
structure MemAllocator extends FreeList where
  used : ℕ
  offset : ℕ
  lockedSize : ℕ
  deallocCount : ℕ
  defragRequested : Bool

/-- What `dealloc` did: passed the pointer on to the system, returned early, or put the slot on the
free list. -/
inductive Release where
  | toSystem
  | refused
  | toFreeList
deriving DecidableEq, Repr

namespace MemAllocator

variable (arena : Arena) (s : MemAllocator)

def reserveUsed (needed : ℕ) : Option MemAllocator :=
  if arena.capacity < s.lockedSize then none
  else
    let ceiling := arena.capacity - s.lockedSize
    match checkedAdd s.used needed with
    | some value => if value ≤ ceiling then some { s with used := value } else none
    | none => none

def allocFromFreeList (needed : ℕ) (layout : Layout) : Option (ℕ × MemAllocator) :=
  match s.findNode needed arena.rounds .head with
  | none => none
  | some prev =>
    let slot := s.deref prev
    let (slotSize, list) := s.takeNode prev needed
    let excess := slotSize - needed
    let used := if excess > 0 then wrappingAdd s.used excess else s.used
    let (user, memory) := placeHeader list.memory slot slotSize layout
    some (user, { s with head := list.head, memory := memory, used := used })

def allocFromBump (needed : ℕ) (layout : Layout) : Option (ℕ × MemAllocator) :=
  let slotStart := alignUp s.offset slotAlign
  match checkedAdd slotStart needed with
  | none => none
  | some next =>
    if next > arena.capacity then none
    else
      let (user, memory) := placeHeader s.memory (arena.base + slotStart) needed layout
      some (user, { s with offset := next, memory := memory })

/-- The address given to the caller, zero for a null pointer. -/
def alloc (layout : Layout) : ℕ × MemAllocator :=
  match requiredSlotSize layout with
  | none => (0, s)
  | some needed =>
    match s.reserveUsed arena needed with
    | none => (0, s)
    | some s =>
      match s.allocFromFreeList arena needed layout with
      | some found => found
      | none =>
        match s.allocFromBump arena needed layout with
        | some found => found
        | none => (0, { s with used := wrappingSub s.used needed })

/-- Only the system's `dealloc` would look at the layout. -/
def dealloc (ptr : ℕ) : Release × MemAllocator :=
  let arenaEnd := arena.base + arena.capacity
  if ptr < arena.base ∨ ptr ≥ arenaEnd then (.toSystem, s)
  else
    let slot := slotOf s.memory ptr
    if slot.start < arena.base ∨ slot.stop > arenaEnd then (.refused, s)
    else
      (.toFreeList, { s with
        toFreeList := s.push slot.start slot.size
        used := wrappingSub s.used slot.size
        deallocCount := wrappingAdd s.deallocCount 1
        defragRequested := s.defragRequested || s.deallocCount &&& 31 == 31 })

/-- A round of `defrag_thread`. -/
def defragment : MemAllocator :=
  { s with
    toFreeList := s.toFreeList.defragment arena.rounds
    defragRequested := false }

def setLockedSize (size : ℕ) : Bool × MemAllocator :=
  match checkedAdd s.used size with
  | none => (false, s)
  | some result =>
    if result > arena.capacity then (false, s) else (true, { s with lockedSize := size })

end MemAllocator

/-! ## Runs -/

/-- What a caller of `alloc` holds. -/
structure Block where
  ptr : ℕ
  layout : Layout
deriving DecidableEq

/-- The allocator, and the blocks that were handed out and not given back. -/
structure Heap extends MemAllocator where
  live : List Block

inductive HeapOp where
  | alloc (layout : Layout)
  | dealloc (block : Block)
  | defragment
  | setLockedSize (size : ℕ)
  | write (address : ℕ) (byte : UInt8)

namespace Heap

/-- The arena as `init` leaves it; the bytes may be anything. -/
def init (memory : Memory) : Heap where
  head := 0
  memory := memory
  used := 0
  offset := 0
  lockedSize := 0
  deallocCount := 0
  defragRequested := false
  live := []

def step (arena : Arena) (h : Heap) : HeapOp → Heap
  | .alloc layout =>
    let (ptr, s) := h.toMemAllocator.alloc arena layout
    { s with live := if ptr = 0 then h.live else ⟨ptr, layout⟩ :: h.live }
  | .dealloc block =>
    { (h.toMemAllocator.dealloc arena block.ptr).2 with live := h.live.erase block }
  | .defragment => { h.toMemAllocator.defragment arena with live := h.live }
  | .setLockedSize size => { (h.toMemAllocator.setLockedSize arena size).2 with live := h.live }
  | .write address byte =>
    { h with memory := fun k => if k = address then byte else h.memory k }

/-- The contract of a global allocator: a layout has a size, only live blocks are given back, with
their layout, and a program writes into its live blocks only. -/
def Allowed (h : Heap) : HeapOp → Prop
  | .alloc layout => 0 < layout.size
  | .dealloc block => block ∈ h.live
  | .write address _ => ∃ b ∈ h.live, b.ptr ≤ address ∧ address < b.ptr + b.layout.size
  | _ => True

instance (h : Heap) : (op : HeapOp) → Decidable (h.Allowed op)
  | .alloc layout => inferInstanceAs (Decidable (0 < layout.size))
  | .dealloc block => inferInstanceAs (Decidable (block ∈ h.live))
  | .defragment => .isTrue trivial
  | .setLockedSize _ => .isTrue trivial
  | .write address _ =>
    inferInstanceAs (Decidable (∃ b ∈ h.live, b.ptr ≤ address ∧ address < b.ptr + b.layout.size))

/-- The slots of the live blocks, as their headers describe them. -/
def slots (h : Heap) : List Segment := h.live.map fun b => slotOf h.memory b.ptr

end Heap

/-- The block is aligned as its layout asks, and its slot has room for the header before the user's
address and for the user's bytes behind it. -/
structure Block.Placed (m : Memory) (b : Block) : Prop where
  nonempty : 0 < b.layout.size
  aligned : b.layout.align ∣ b.ptr
  header : (slotOf m b.ptr).start + allocHeaderSize ≤ b.ptr
  region : b.ptr + b.layout.size ≤ (slotOf m b.ptr).stop

/-- A slot begins and ends at multiples of the slot alignment, and has room for a free node. -/
structure IsSlot (s : Segment) : Prop where
  start : slotAlign ∣ s.start
  size : slotAlign ∣ s.size
  room : minSlotSize ≤ s.size

/-- The free list holds the segments `free`, which together with the slots of the live blocks tile
the used part of the arena. -/
structure Heap.Tidy (arena : Arena) (h : Heap) (free : List Segment) : Prop where
  linked : Linked h.memory h.head free
  tiles : Tiles arena.base (arena.base + h.offset) (h.slots ++ free)
  bounded : h.offset ≤ arena.capacity
  slot : ∀ s ∈ h.slots ++ free, IsSlot s
  placed : ∀ b ∈ h.live, b.Placed h.memory

/-- What an allocation leaves behind that took `slot`: an address in it, and the block among the
live ones. -/
structure Heap.Takes (arena : Arena) (h : Heap) (found : ℕ × MemAllocator) (layout : Layout)
    (slot : Segment) (free : List Segment) : Prop where
  nonnull : found.1 ≠ 0
  tidy : Heap.Tidy arena { found.2 with live := ⟨found.1, layout⟩ :: h.live } free
  slots : Heap.slots { found.2 with live := ⟨found.1, layout⟩ :: h.live } = slot :: h.slots
  lockedSize : found.2.lockedSize = h.lockedSize

/-- `dealloc` takes the block, and puts its slot in front of the free segments. -/
def Heap.Frees (arena : Arena) (h : Heap) (free : List Segment) (b : Block) : Prop :=
  let (release, s) := h.toMemAllocator.dealloc arena b.ptr
  release = .toFreeList ∧ Linked s.memory s.head (slotOf h.memory b.ptr :: free)

/-! ## What a tidy heap looks like -/

open Segment

section Tidy

variable {arena : Arena} {h : Heap} {free changed : List Segment} {m' : Memory} {s t : Segment}
  {b : Block} {layout : Layout} {needed : ℕ}

theorem slotOf_congr {m : Memory} {user : ℕ} (header : allocHeaderSize ≤ user)
    (same : m.AgreeOn m' (user - allocHeaderSize) user) : slotOf m user = slotOf m' user := by
  unfold allocHeaderSize at header same
  have offset : AllocHeader.slotOffset m (user - 16) = AllocHeader.slotOffset m' (user - 16) :=
    Memory.load_congr (same.mono le_rfl (by omega))
  have size : AllocHeader.slotSize m (user - 16) = AllocHeader.slotSize m' (user - 16) :=
    Memory.load_congr (same.mono (by omega) (by omega))
  rw [slotOf, slotOf, allocHeaderSize, offset, size]

theorem Arena.roomy (arena : Arena) {offset : ℕ} {segments : List Segment}
    (tiles : Tiles arena.base (arena.base + offset) segments) (bounded : offset ≤ arena.capacity)
    (slot : ∀ s ∈ segments, IsSlot s) : ∀ s ∈ segments, Roomy s := by
  intro s hs
  have := (tiles.inside hs).2
  have := arena.fits
  exact ⟨(slot s hs).room, by omega⟩

namespace Heap.Tidy

theorem roomyFree (tidy : h.Tidy arena free) : ∀ s ∈ free, Roomy s :=
  fun s hs => arena.roomy tidy.tiles tidy.bounded tidy.slot s (List.mem_append_right _ hs)

theorem start_ne_zero (tidy : h.Tidy arena free) (hs : s ∈ h.slots ++ free) : s.start ≠ 0 := by
  have := (tidy.tiles.inside hs).1
  have := arena.nonnull
  omega

theorem apartFree (tidy : h.Tidy arena free) : free.Pairwise Apart :=
  (List.pairwise_append.1 tidy.tiles.apart).2.1

theorem crossed (tidy : h.Tidy arena free) : ∀ s ∈ h.slots, ∀ t ∈ free, s.Apart t :=
  (List.pairwise_append.1 tidy.tiles.apart).2.2

theorem slot_mem (hb : b ∈ h.live) : slotOf h.memory b.ptr ∈ h.slots :=
  List.mem_map_of_mem hb

/-- The loops over the free list end within their bound. -/
theorem length_lt_rounds (tidy : h.Tidy arena free) : free.length < arena.rounds := by
  have count := tidy.tiles.length_mul_le fun s hs => (tidy.slot s hs).room
  have := tidy.bounded
  rw [List.length_append] at count
  unfold Arena.rounds minSlotSize at *
  omega

/-- The unused part of the arena begins at a multiple of the slot alignment. -/
theorem aligned_offset (tidy : h.Tidy arena free) : slotAlign ∣ h.offset := by
  have length := tidy.tiles.dvd_length fun s hs => (tidy.slot s hs).size
  rwa [Nat.add_sub_cancel_left] at length

/-- A change apart from the slot of a live block keeps its header. -/
theorem header_agree (tidy : h.Tidy arena free) (same : SameOutside changed h.memory m')
    (hb : b ∈ h.live) (apart : ∀ s ∈ changed, s.Apart (slotOf h.memory b.ptr)) :
    h.memory.AgreeOn m' (b.ptr - allocHeaderSize) b.ptr := by
  obtain ⟨-, -, header, region⟩ := tidy.placed b hb
  exact (same.agree apart).mono (by omega) (by omega)

/-- As long as the headers of some live blocks stay, their slots do. -/
theorem keepBlocks (tidy : h.Tidy arena free) {live : List Block} (some : live ⊆ h.live)
    (same : ∀ b ∈ live, h.memory.AgreeOn m' (b.ptr - allocHeaderSize) b.ptr) :
    live.map (fun b => slotOf m' b.ptr) = live.map (fun b => slotOf h.memory b.ptr) ∧
      ∀ b ∈ live, b.Placed m' := by
  have slot : ∀ b ∈ live, slotOf m' b.ptr = slotOf h.memory b.ptr := by
    intro b hb
    have := (tidy.placed b (some hb)).header
    exact (slotOf_congr (by omega) (same b hb)).symm
  refine ⟨List.map_congr_left slot, fun b hb => ?_⟩
  obtain ⟨nonempty, aligned, header, region⟩ := tidy.placed b (some hb)
  rw [← slot b hb] at header region
  exact ⟨nonempty, aligned, header, region⟩

/-- A new live block: the slots of the others stay, and its own joins them. -/
theorem addBlock {found : ℕ × MemAllocator} {free' : List Segment}
    (tidy : h.Tidy arena free) (nonnull : found.1 ≠ 0) (lockedSize : found.2.lockedSize = h.lockedSize)
    (same : SameOutside changed h.memory found.2.memory)
    (apart : ∀ s ∈ changed, ∀ t ∈ h.slots, s.Apart t)
    (placed : Block.Placed found.2.memory ⟨found.1, layout⟩)
    (own : slotOf found.2.memory found.1 = s)
    (linked : Linked found.2.memory found.2.head free')
    (tiles : Tiles arena.base (arena.base + found.2.offset) (s :: (h.slots ++ free')))
    (bounded : found.2.offset ≤ arena.capacity)
    (slot : ∀ t ∈ s :: (h.slots ++ free'), IsSlot t) : h.Takes arena found layout s free' := by
  obtain ⟨kept, blocks⟩ := tidy.keepBlocks (List.Subset.refl h.live) fun b hb =>
    tidy.header_agree same hb fun s hs => apart s hs _ (slot_mem hb)
  have slots : Heap.slots { found.2 with live := ⟨found.1, layout⟩ :: h.live } = s :: h.slots := by
    rw [Heap.slots, List.map_cons, kept, own, Heap.slots]
  exact {
    nonnull := nonnull
    tidy := {
      linked := linked
      tiles := by rw [slots]; exact tiles
      bounded := bounded
      slot := by rw [slots]; exact slot
      placed := List.forall_mem_cons.2 ⟨placed, blocks⟩ }
    slots := slots
    lockedSize := lockedSize }

end Heap.Tidy

end Tidy

/-! ## Every operation keeps the heap tidy -/

section Operations

variable {arena : Arena} {h : Heap} {free : List Segment} {s : Segment} {b : Block}
  {layout : Layout} {needed : ℕ}

namespace Heap.Tidy

theorem alignUp_offset (tidy : h.Tidy arena free) : alignUp h.offset slotAlign = h.offset := by
  have inside : h.offset + slotAlign ≤ 2 ^ 64 := by
    have := tidy.bounded
    have := arena.fits
    have := Nat.le_of_dvd (Nat.pos_of_ne_zero arena.nonnull) arena.aligned
    omega
  obtain ⟨down, above, below⟩ := alignUp_spec slotAlign_powerOfTwo inside
  have := tidy.aligned_offset
  unfold slotAlign at *
  omega

/-- A slot that placed its header for a layout. -/
theorem placed_placeHeader {m : Memory} {slot : Segment} (nonempty : 0 < layout.size)
    (large : allocHeaderSize + (layout.align - 1) + layout.size ≤ slot.size)
    (fits : slot.stop < 2 ^ 64) :
    let placed := placeHeader m slot.start slot.size layout
    placed.1 ≠ 0 ∧ slotOf placed.2 placed.1 = slot ∧ Block.Placed placed.2 ⟨placed.1, layout⟩ ∧
      SameOutside [slot] m placed.2 := by
  obtain ⟨aligned, header, region, slotOf_user, same⟩ := placeHeader_spec (m := m) large fits
  refine ⟨?_, slotOf_user, ⟨nonempty, aligned, ?_, ?_⟩, same⟩
  · have positive : 0 < slot.start + allocHeaderSize := Nat.add_pos_right _ (by decide)
    exact (positive.trans_le header).ne'
  · rwa [slotOf_user]
  · rwa [slotOf_user]

/-- The bump allocation extends the tiled part of the arena by one slot. -/
theorem bump (tidy : h.Tidy arena free) {found : ℕ × MemAllocator}
    (alloc : h.toMemAllocator.allocFromBump arena needed layout = some found)
    (nonempty : 0 < layout.size)
    (aligned : slotAlign ∣ needed) (room : minSlotSize ≤ needed)
    (large : allocHeaderSize + (layout.align - 1) + layout.size ≤ needed) :
    ∃ slot, h.Takes arena found layout slot free ∧ slot.size = needed ∧
      found.2.used = h.used := by
  unfold MemAllocator.allocFromBump at alloc
  simp only [tidy.alignUp_offset] at alloc
  unfold checkedAdd at alloc
  split at alloc
  · cases alloc
  rename_i next next_eq
  obtain ⟨-, rfl⟩ : _ ∧ h.offset + needed = next := by simpa using next_eq
  split_ifs at alloc with beyond
  · let slot : Segment := ⟨arena.base + h.offset, needed⟩
    have fits := arena.fits
    have stop : slot.stop = arena.base + (h.offset + needed) := Nat.add_assoc _ _ _
    obtain ⟨nonnull, own, placed, same⟩ : _ ∧ _ ∧ _ ∧ SameOutside [slot] h.memory _ :=
      placed_placeHeader nonempty large (by omega)
    cases alloc
    have beside : ∀ t ∈ h.slots ++ free, slot.Apart t := fun t ht => .inr (tidy.tiles.inside ht).2
    obtain ⟨besideSlots, besideFree⟩ := List.forall_mem_append.1 beside
    refine ⟨slot, tidy.addBlock nonnull rfl same (List.forall_mem_singleton.2 besideSlots) placed own
      ?_ ?_ (Nat.not_lt.1 beyond) ?_, rfl, rfl⟩
    · exact tidy.linked.outside tidy.roomyFree same (List.forall_mem_singleton.2 besideFree)
    · show Tiles arena.base (arena.base + (h.offset + needed)) _
      rw [← Nat.add_assoc]
      exact tidy.tiles.extend (Nat.le_add_right _ _) ((by decide : 0 < minSlotSize).trans_le room)
    · exact List.forall_mem_cons.2
        ⟨⟨Nat.dvd_add arena.aligned tidy.aligned_offset, aligned, room⟩, tidy.slot⟩

/-- A free slot cut into a slot of `needed` bytes and what is left of it. -/
theorem cutFree {skipped rest : List Segment} (tidy : h.Tidy arena (skipped ++ s :: rest))
    (aligned : slotAlign ∣ needed) (room : minSlotSize ≤ needed) (fits : needed ≤ s.size) :
    let parts := cut minSlotSize needed s
    let segments := parts.1 :: (h.slots ++ (skipped ++ (parts.2 ++ rest)))
    Tiles arena.base (arena.base + h.offset) segments ∧ ∀ t ∈ segments, IsSlot t := by
  have positive : 0 < minSlotSize := by decide
  have front : (h.slots ++ (skipped ++ s :: rest)).Perm (s :: (h.slots ++ (skipped ++ rest))) := by
    rw [← List.append_assoc, ← List.append_assoc h.slots]
    exact List.perm_middle
  have back : ((cut minSlotSize needed s).2 ++ (h.slots ++ (skipped ++ rest))).Perm
      (h.slots ++ (skipped ++ ((cut minSlotSize needed s).2 ++ rest))) := by
    apply List.perm_append_comm_assoc _ _ _ |>.trans
    exact (List.perm_append_comm_assoc _ _ _).append_left _
  refine ⟨((tidy.tiles.perm front).cut fits (positive.trans_le room) positive).perm (back.cons _), ?_⟩
  obtain ⟨whole, others⟩ := List.forall_mem_cons.1
    fun t ht => tidy.slot t (front.mem_iff.2 ht)
  have parts : IsSlot (cut minSlotSize needed s).1 ∧ ∀ t ∈ (cut minSlotSize needed s).2, IsSlot t :=
    forall_cut whole fun enough => ⟨⟨whole.start, aligned, room⟩,
      Nat.dvd_add whole.start aligned, Nat.dvd_sub whole.size aligned, enough⟩
  refine List.forall_mem_cons.2 ⟨parts.1, fun t ht => ?_⟩
  rcases List.mem_append.1 (back.mem_iff.2 ht) with ht | ht
  · exact parts.2 t ht
  · exact others t ht

/-- The allocation from the free list cuts a free slot, or takes it whole. -/
theorem reuse (tidy : h.Tidy arena free) {found : ℕ × MemAllocator}
    (alloc : h.toMemAllocator.allocFromFreeList arena needed layout = some found)
    (nonempty : 0 < layout.size)
    (aligned : slotAlign ∣ needed) (room : minSlotSize ≤ needed)
    (large : allocHeaderSize + (layout.align - 1) + layout.size ≤ needed) :
    ∃ slot free', h.Takes arena found layout slot free' ∧
      slot.size = needed + h.surplus needed arena.rounds ∧
      found.2.used = if 0 < h.surplus needed arena.rounds
        then wrappingAdd h.used (h.surplus needed arena.rounds) else h.used := by
  unfold MemAllocator.allocFromFreeList at alloc
  rcases all_small_or_split needed free with small | ⟨skipped, s, rest, rfl, small, fits⟩
  · have walk : h.findNode needed arena.rounds (Link.behind []) = none :=
      findNode_none tidy.linked small
    rw [Link.behind_nil] at walk
    rw [walk] at alloc
    cases alloc
  have few := tidy.length_lt_rounds
  have walk : h.findNode needed arena.rounds (Link.behind []) = some (Link.behind ([] ++ skipped)) :=
    findNode_some tidy.linked small fits (by rw [List.length_append] at few; omega)
  rw [Link.behind_nil, List.nil_append] at walk
  obtain ⟨size, linked, same⟩ := takeNode_spec tidy.linked tidy.roomyFree tidy.apartFree fits
  obtain ⟨list, hlist⟩ : ∃ list, (h.takeNode (Link.behind skipped) needed).2 = list := ⟨_, rfl⟩
  have take : h.takeNode (Link.behind skipped) needed =
    ((cut minSlotSize needed s).1.size, list) := Prod.ext size hlist
  rw [hlist] at linked same
  have here : h.deref (Link.behind skipped) = (cut minSlotSize needed s).1.start := by
    rw [cut_start]
    exact tidy.linked.deref_cons.1
  simp only [walk, take, here] at alloc
  obtain ⟨enough, within⟩ : needed ≤ (cut minSlotSize needed s).1.size ∧ _ := cut_taken fits
  obtain ⟨tiles, slot⟩ := tidy.cutFree aligned room fits
  have surplus : h.surplus needed arena.rounds = (cut minSlotSize needed s).1.size - needed := by
    unfold FreeList.surplus
    rw [walk]
    dsimp only
    rw [tidy.linked.deref_cons.1, tidy.linked.deref_cons.2.2, cut_size]
    split_ifs <;> omega
  have start := cut_start minSlotSize needed s
  generalize cut minSlotSize needed s = parts at *
  obtain ⟨taken, left⟩ := parts
  dsimp only at *
  have roomy := arena.roomy tiles tidy.bounded slot
  obtain ⟨roomyTaken, roomy⟩ := List.forall_mem_cons.1 roomy
  obtain ⟨-, roomyFree⟩ := List.forall_mem_append.1 roomy
  obtain ⟨nonnull, own, placed, same'⟩ : _ ∧ _ ∧ _ ∧ SameOutside ([] ++ [taken]) list.memory _ :=
    placed_placeHeader nonempty (large.trans enough) roomyTaken.fits
  have part : SameOutside ([] ++ [s]) list.memory _ := same'.widen ⟨start.ge, within⟩
  cases alloc
  have beside := (List.pairwise_cons.1 tiles.apart).1
  obtain ⟨-, besideFree⟩ := List.forall_mem_append.1 beside
  have changed : SameOutside (skipped ++ s :: rest) h.memory _ :=
    (same.mono (by simp)).trans (part.mono (by simp))
  refine ⟨taken, _, tidy.addBlock nonnull rfl changed
    (fun t ht u hu => (tidy.crossed u hu t ht).symm) placed own ?_ tiles tidy.bounded slot, ?_, ?_⟩
  · exact linked.outside roomyFree same' (List.forall_mem_singleton.2 besideFree)
  · rw [surplus]
    omega
  · rw [surplus]

/-- The counters do not matter. -/
theorem transfer {a : MemAllocator} (tidy : h.Tidy arena free)
    (list : a.toFreeList = h.toFreeList) (offset : a.offset = h.offset) :
    Heap.Tidy arena { a with live := h.live } free ∧
      Heap.slots { a with live := h.live } = h.slots := by
  obtain ⟨list', used, offset', locked, count, requested⟩ := a
  cases list
  cases offset
  exact ⟨{ tidy with }, rfl⟩

theorem reserveUsed_eq (a : MemAllocator) (needed : ℕ) : a.reserveUsed arena needed =
    if a.used + needed + a.lockedSize ≤ arena.capacity
      then some { a with used := a.used + needed } else none := by
  have fits := arena.fits
  unfold MemAllocator.reserveUsed checkedAdd usizeMax
  by_cases room : a.used + needed + a.lockedSize ≤ arena.capacity
  · rw [if_neg (by omega), if_pos (by omega), if_pos room]
    exact if_pos (by omega)
  · rw [if_neg room]
    split_ifs
    · rfl
    · exact if_neg (by omega)
    · rfl

theorem wrappingSub_add {a b : ℕ} (fits : a + b < 2 ^ 64) : wrappingSub (a + b) b = a := by
  unfold wrappingSub
  rw [show a + b + (2 ^ 64 - b) = a + 2 ^ 64 by omega, Nat.add_mod_right]
  exact Nat.mod_eq_of_lt (by omega)

theorem surplus_of_none {a : MemAllocator}
    (missing : a.allocFromFreeList arena needed layout = none) :
    a.surplus needed arena.rounds = 0 := by
  unfold MemAllocator.allocFromFreeList at missing
  unfold FreeList.surplus
  cases walk : a.findNode needed arena.rounds Link.head with
  | none => rfl
  | some prev =>
    rw [walk] at missing
    cases missing

/-- The three ways an allocation ends: a null pointer, which leaves everything as it was, a slot
from the free list, and a slot from the unused part of the arena. -/
theorem alloc_cases (a : MemAllocator) (required : requiredSlotSize layout = some needed) :
    (a.alloc arena layout = (0, a) ∧
      (a.used + needed + a.lockedSize ≤ arena.capacity → a.surplus needed arena.rounds = 0)) ∨
      a.used + needed + a.lockedSize ≤ arena.capacity ∧
        let reserved := { a with used := a.used + needed }
        reserved.allocFromFreeList arena needed layout = some (a.alloc arena layout) ∨
          reserved.surplus needed arena.rounds = 0 ∧
          reserved.allocFromBump arena needed layout = some (a.alloc arena layout) := by
  unfold MemAllocator.alloc
  simp only [required, reserveUsed_eq]
  split_ifs with room
  · dsimp only
    cases reused : MemAllocator.allocFromFreeList arena { a with used := a.used + needed } needed
      layout with
    | some found => exact .inr ⟨room, .inl rfl⟩
    | none =>
      dsimp only
      cases bumped : MemAllocator.allocFromBump arena { a with used := a.used + needed } needed
        layout with
      | some found =>
        exact .inr ⟨room, .inr ⟨surplus_of_none (a := { a with used := a.used + needed }) reused, rfl⟩⟩
      | none =>
        have fits := arena.fits
        refine .inl ⟨?_, fun _ => surplus_of_none (a := { a with used := a.used + needed }) reused⟩
        dsimp only
        rw [wrappingSub_add (by omega)]
  · exact .inl ⟨rfl, fun fits => absurd fits room⟩

/-- An allocation gives a null pointer and leaves everything as it was, or takes a slot. -/
theorem alloc_takes (tidy : h.Tidy arena free) (nonempty : 0 < layout.size)
    (required : requiredSlotSize layout = some needed) :
    (h.toMemAllocator.alloc arena layout = (0, h.toMemAllocator) ∧
      (h.used + needed + h.lockedSize ≤ arena.capacity → h.surplus needed arena.rounds = 0)) ∨
      ∃ slot free', h.Takes arena (h.toMemAllocator.alloc arena layout) layout slot free' ∧
        slot.size = needed + h.surplus needed arena.rounds ∧
        h.used + needed + h.lockedSize ≤ arena.capacity ∧
        (h.toMemAllocator.alloc arena layout).2.used =
          if 0 < h.surplus needed arena.rounds
            then wrappingAdd (h.used + needed) (h.surplus needed arena.rounds)
            else h.used + needed := by
  obtain ⟨needed', required', aligned, room, large⟩ := requiredSlotSize_spec layout
  obtain rfl : needed' = needed := by simpa [required'] using required
  rcases alloc_cases h.toMemAllocator required with null | ⟨ceiling, reused | ⟨surplus, bumped⟩⟩
  · exact .inl null
  · have reserved := (tidy.transfer (a := { h.toMemAllocator with used := h.used + needed' }) rfl rfl).1
    obtain ⟨slot, free', takes, size, used⟩ := reserved.reuse reused nonempty aligned room large
    exact .inr ⟨slot, free', ⟨takes.nonnull, takes.tidy, takes.slots, takes.lockedSize⟩, size,
      ceiling, used⟩
  · have reserved := (tidy.transfer (a := { h.toMemAllocator with used := h.used + needed' }) rfl rfl).1
    obtain ⟨slot, takes, size, used⟩ := reserved.bump bumped nonempty aligned room large
    refine .inr ⟨slot, free, ⟨takes.nonnull, takes.tidy, takes.slots, takes.lockedSize⟩, ?_,
      ceiling, ?_⟩
    · rw [size, show h.surplus needed' arena.rounds = 0 from surplus, Nat.add_zero]
    · rw [used, if_neg (by rw [show h.surplus needed' arena.rounds = 0 from surplus]; omega)]

theorem alloc (tidy : h.Tidy arena free) (nonempty : 0 < layout.size) :
    ∃ free', Heap.Tidy arena (h.step arena (.alloc layout)) free' := by
  obtain ⟨needed, required, -⟩ := requiredSlotSize_spec layout
  unfold Heap.step
  dsimp only
  rcases tidy.alloc_takes nonempty required with ⟨null, -⟩ | ⟨slot, free', takes, -⟩
  · rw [null, if_pos rfl]
    exact ⟨free, tidy⟩
  · rw [if_neg takes.nonnull]
    exact ⟨free', takes.tidy⟩

/-- `dealloc` of a live block passes the range checks. -/
theorem dealloc_eq (tidy : h.Tidy arena free) (hb : b ∈ h.live) :
    ∃ a, h.toMemAllocator.dealloc arena b.ptr = (.toFreeList, a) ∧ a.offset = h.offset ∧
      a.toFreeList = h.push (slotOf h.memory b.ptr).start (slotOf h.memory b.ptr).size ∧
      a.used = wrappingSub h.used (slotOf h.memory b.ptr).size ∧ a.lockedSize = h.lockedSize := by
  have bounded := tidy.bounded
  obtain ⟨nonempty, -, header, region⟩ := tidy.placed b hb
  obtain ⟨first, last⟩ := tidy.tiles.inside (List.mem_append_left _ (slot_mem hb))
  unfold MemAllocator.dealloc
  dsimp only
  rw [if_neg (by omega), if_neg (by omega)]
  exact ⟨_, rfl, rfl, rfl, rfl, rfl⟩

/-- The slot of a live block apart from the other slots. -/
theorem perm_slots (hb : b ∈ h.live) : h.slots.Perm
    (slotOf h.memory b.ptr :: (h.live.erase b).map fun b => slotOf h.memory b.ptr) :=
  (List.perm_cons_erase hb).map _

theorem besideSlot (tidy : h.Tidy arena free) (hb : b ∈ h.live) :
    ∀ t ∈ (h.live.erase b).map (fun b => slotOf h.memory b.ptr) ++ free,
      (slotOf h.memory b.ptr).Apart t :=
  (List.pairwise_cons.1 (tidy.tiles.perm ((perm_slots hb).append_right free)).apart).1

/-- `push` returns the slot of a live block to the free list. -/
theorem push (tidy : h.Tidy arena free) (hb : b ∈ h.live) :
    let l := h.push (slotOf h.memory b.ptr).start (slotOf h.memory b.ptr).size
    Linked l.memory l.head (slotOf h.memory b.ptr :: free) ∧
      SameOutside [slotOf h.memory b.ptr] h.memory l.memory := by
  have own := List.mem_append_left free (slot_mem hb)
  exact push_spec tidy.linked tidy.roomyFree tidy.apartFree
    (arena.roomy tidy.tiles tidy.bounded tidy.slot _ own) (tidy.start_ne_zero own)
    fun t ht => tidy.crossed _ (slot_mem hb) t ht

theorem frees (tidy : h.Tidy arena free) (hb : b ∈ h.live) : h.Frees arena free b := by
  obtain ⟨a, outcome, -, list, -⟩ := tidy.dealloc_eq hb
  unfold Heap.Frees
  rw [outcome]
  refine ⟨rfl, ?_⟩
  rw [list]
  exact (tidy.push hb).1

theorem dealloc (tidy : h.Tidy arena free) (hb : b ∈ h.live) :
    Heap.Tidy arena (h.step arena (.dealloc b)) (slotOf h.memory b.ptr :: free) ∧
      (h.step arena (.dealloc b)).slots = (h.live.erase b).map fun b => slotOf h.memory b.ptr := by
  obtain ⟨a, outcome, offset, list, -⟩ := tidy.dealloc_eq hb
  obtain ⟨linked, same⟩ := tidy.push hb
  obtain ⟨besideSlots, -⟩ := List.forall_mem_append.1 (tidy.besideSlot hb)
  rw [← list] at linked same
  obtain ⟨kept, blocks⟩ := tidy.keepBlocks List.erase_subset fun c hc =>
    tidy.header_agree same (List.mem_of_mem_erase hc)
      (List.forall_mem_singleton.2 (besideSlots _ (List.mem_map_of_mem hc)))
  have order : (h.slots ++ free).Perm
      ((h.live.erase b).map (fun b => slotOf h.memory b.ptr) ++ slotOf h.memory b.ptr :: free) :=
    ((perm_slots hb).append_right free).trans List.perm_middle.symm
  have slots : Heap.slots { a with live := h.live.erase b } =
    (h.live.erase b).map fun b => slotOf h.memory b.ptr := kept
  unfold Heap.step
  dsimp only
  rw [outcome]
  refine ⟨?_, slots⟩
  exact {
    linked := linked
    tiles := by rw [slots, offset]; exact tidy.tiles.perm order
    bounded := by rw [offset]; exact tidy.bounded
    slot := by rw [slots]; exact fun s hs => tidy.slot s (order.mem_iff.2 hs)
    placed := blocks }

/-- Changes apart from the headers of the live blocks and a new form of the free list. -/
theorem refree {l : FreeList} {free' : List Segment} (tidy : h.Tidy arena free)
    (same : ∀ b ∈ h.live, h.memory.AgreeOn l.memory (b.ptr - allocHeaderSize) b.ptr)
    (linked : Linked l.memory l.head free')
    (tiles : Tiles arena.base (arena.base + h.offset) (h.slots ++ free'))
    (slot : ∀ s ∈ h.slots ++ free', IsSlot s) {a : MemAllocator} (list : a.toFreeList = l)
    (offset : a.offset = h.offset) : Heap.Tidy arena { a with live := h.live } free' ∧
      Heap.slots { a with live := h.live } = h.slots := by
  obtain ⟨kept, blocks⟩ := tidy.keepBlocks (List.Subset.refl h.live) same
  subst list
  have slots : Heap.slots { a with live := h.live } = h.slots := kept
  refine ⟨?_, slots⟩
  exact {
    linked := linked
    tiles := by rw [slots, offset]; exact tiles
    bounded := by rw [offset]; exact tidy.bounded
    slot := by rw [slots]; exact slot
    placed := blocks }

theorem defragment (tidy : h.Tidy arena free) :
    Heap.Tidy arena (h.step arena .defragment) (coalesce (insertAll [] free)) ∧
      (h.step arena .defragment).slots = h.slots := by
  obtain ⟨linked, same⟩ := defragment_spec tidy.linked tidy.roomyFree tidy.apartFree
    tidy.length_lt_rounds
  have order : (insertAll [] free).Perm free := insertAll_perm [] free
  refine tidy.refree (fun b hb => tidy.header_agree same hb fun s hs =>
    (tidy.crossed _ (slot_mem hb) s hs).symm) linked ?_ ?_ rfl rfl
  · have sorted : Tiles arena.base (arena.base + h.offset) (insertAll [] free ++ h.slots) :=
      tidy.tiles.perm (List.perm_append_comm.trans (order.symm.append_right _))
    exact sorted.coalesce.perm List.perm_append_comm
  · obtain ⟨live, freed⟩ := List.forall_mem_append.1 tidy.slot
    refine List.forall_mem_append.2 ⟨live, forall_coalesce
      (fun s hs => freed s (order.mem_iff.1 hs)) fun s t hs ht _ => ?_⟩
    exact ⟨hs.start, Nat.dvd_add hs.size ht.size, hs.room.trans (Nat.le_add_right _ _)⟩

theorem setLockedSize (tidy : h.Tidy arena free) (size : ℕ) :
    Heap.Tidy arena (h.step arena (.setLockedSize size)) free ∧
      (h.step arena (.setLockedSize size)).slots = h.slots := by
  have kept : (h.toMemAllocator.setLockedSize arena size).2.toFreeList = h.toFreeList ∧
      (h.toMemAllocator.setLockedSize arena size).2.offset = h.offset := by
    unfold MemAllocator.setLockedSize
    split
    · exact ⟨rfl, rfl⟩
    · split_ifs <;> exact ⟨rfl, rfl⟩
  exact tidy.transfer kept.1 kept.2

theorem write (tidy : h.Tidy arena free) {address : ℕ} (byte : UInt8) (hb : b ∈ h.live)
    (inside : b.ptr ≤ address ∧ address < b.ptr + b.layout.size) :
    Heap.Tidy arena (h.step arena (.write address byte)) free ∧
      (h.step arena (.write address byte)).slots = h.slots := by
  let m' : Memory := fun k => if k = address then byte else h.memory k
  obtain ⟨-, -, header, region⟩ := tidy.placed b hb
  let own : Segment := slotOf h.memory b.ptr
  have same : SameOutside [⟨address, 1⟩] h.memory m' := by
    intro k hk
    have := List.forall_mem_singleton.1 hk
    simp only [Covers, stop] at this
    exact (if_neg (by omega)).symm
  have beside : ∀ t, own.Apart t → (⟨address, 1⟩ : Segment).Apart t := by
    intro t ht
    simp only [Apart, stop, own] at *
    omega
  refine tidy.refree (l := ⟨h.head, m'⟩) (fun c hc => ?_) ?_ tidy.tiles tidy.slot rfl rfl
  · by_cases same_block : c = b
    · subst same_block
      intro k _ below
      exact (if_neg (by omega)).symm
    · have others : c ∈ h.live.erase b := (List.mem_erase_of_ne same_block).2 hc
      exact tidy.header_agree same hc (List.forall_mem_singleton.2 (beside _ (tidy.besideSlot hb _
        (List.mem_append_left _ (List.mem_map_of_mem others)))))
  · exact tidy.linked.outside tidy.roomyFree same (List.forall_mem_singleton.2 fun t ht =>
      beside t (tidy.crossed _ (slot_mem hb) t ht))

/-- A step of a program that keeps to the contract leaves a tidy heap behind. -/
theorem step (tidy : h.Tidy arena free) {op : HeapOp} (allowed : h.Allowed op) :
    ∃ free', Heap.Tidy arena (h.step arena op) free' := by
  cases op with
  | alloc layout => exact tidy.alloc allowed
  | dealloc block => exact ⟨_, (tidy.dealloc allowed).1⟩
  | defragment => exact ⟨_, tidy.defragment.1⟩
  | setLockedSize size => exact ⟨_, (tidy.setLockedSize size).1⟩
  | write address byte =>
    obtain ⟨b, hb, inside⟩ := allowed
    exact ⟨_, (tidy.write byte hb inside).1⟩

end Heap.Tidy

end Operations

/-! ## Every run -/

open Transition

variable {arena : Arena} {memory : Memory} {ops : List HeapOp}

theorem tidy_init (arena : Arena) (memory : Memory) : (Heap.init memory).Tidy arena [] where
  linked := rfl
  tiles := .nil arena.base
  bounded := Nat.zero_le _
  slot := by simp [Heap.init, Heap.slots]
  placed := by simp [Heap.init]

/-- In every state of every run the slots of the live blocks and the free segments tile the used
part of the arena, every live block is aligned and lies in its slot behind its header, and freeing
it returns exactly its slot. -/
theorem arena_tidy (allowed : EveryStep (Heap.step arena) Heap.Allowed (Heap.init memory) ops) :
    EveryState (Heap.step arena)
      (fun h => ∃ free, h.Tidy arena free ∧ ∀ b ∈ h.live, h.Frees arena free b)
      (Heap.init memory) ops := by
  have tidy := allowed.invariant (I := fun h : Heap => ∃ free, h.Tidy arena free)
    ⟨[], tidy_init arena memory⟩ fun _ _ ⟨_, tidy⟩ allowed => tidy.step allowed
  exact tidy.mono fun h ⟨free, tidy⟩ => ⟨free, tidy, fun b hb => tidy.frees hb⟩

/-- An arena of 8 GiB, the smallest that `init` accepts on Unix. -/
def smallestArena : Arena where
  base := 4096
  capacity := 8 * 1024 * 1024 * 1024
  nonnull := by decide
  aligned := by decide
  fits := by decide

def bytesLayout (size : ℕ) (fits : size + (1 - 1) ≤ isizeMax) : Layout :=
  ⟨size, 1, one_powerOfTwo, fits⟩

def cacheLineLayout : Layout := ⟨100, 64, ⟨6, rfl⟩, by decide⟩

/-- A slot is split, given back in two parts, and put together again. -/
theorem arena_tidy_split_and_merge :
    EveryState (Heap.step smallestArena)
      (fun h => ∃ free, h.Tidy smallestArena free ∧ ∀ b ∈ h.live, h.Frees smallestArena free b)
      (Heap.init fun _ => 0)
      [.alloc cacheLineLayout, .alloc (bytesLayout 8 (by decide)), .write 4160 255,
        .dealloc ⟨4160, cacheLineLayout⟩, .alloc (bytesLayout 24 (by decide)), .defragment,
        .dealloc ⟨4112, bytesLayout 24 (by decide)⟩, .setLockedSize 1000, .defragment] :=
  arena_tidy (by decide +kernel)

end DataBroker
