import DataBroker.Memory.Threads

/-!
# Races in the arena

What the calls on any number of threads do to the counters, in every order of their atomic
operations. `used` is what the live slots and the calls that are going on have charged
(`SharedHeap.Sound`), whatever `compare_exchange_weak` makes of it.
-/

namespace DataBroker

namespace Ongoing

/-- The slot size was computed for the layout, which has a size. -/
def Asks (layout : Layout) (needed : ℕ) : Prop :=
  0 < layout.size ∧ requiredSlotSize layout = some needed

/-- The slot has room for the header, the padding and the bytes of the layout, which has a size. -/
def Suits (layout : Layout) (slot : Segment) : Prop :=
  0 < layout.size ∧ allocHeaderSize + (layout.align - 1) + layout.size ≤ slot.size

/-- What a call relies on from its earlier operations. -/
def Knows (arena : Arena) : Ongoing → Prop
  | reserving layout needed _ | searching layout needed | missing layout needed
  | bumping layout needed _ => Asks layout needed
  | claiming layout needed current newUsed =>
    Asks layout needed ∧ newUsed = current + needed ∧ newUsed ≤ arena.capacity
  | charging layout slot excess =>
    Suits layout slot ∧ excess < minSlotSize ∧ excess + minSlotSize ≤ slot.size
  | placing layout slot => Suits layout slot
  | _ => True

def charges (calls : List Ongoing) : ℕ := (calls.map charge).sum

def surcharges (calls : List Ongoing) : ℕ := (calls.map surcharge).sum

/-- What a step of the calls `calls` charges to `used`, compared with the slots of the live blocks
and the charges of the calls: nothing, a reservation within the arena, a surcharge, or a charge that
is given back. -/
inductive Settles (arena : Arena) (h : Heap) (calls : List Ongoing) (h' : Heap)
    (calls' : List Ongoing) : Prop where
  | keeps (used : h'.used = h.used)
      (total : h'.liveBytes + charges calls' = h.liveBytes + charges calls)
      (owed : surcharges calls' ≤ surcharges calls)
  | claims (n : ℕ) (used : h'.used = h.used + n) (within : h'.used ≤ arena.capacity)
      (total : h'.liveBytes + charges calls' = h.liveBytes + charges calls + n)
      (owed : surcharges calls' ≤ n)
  | adds (n : ℕ) (used : h'.used = wrappingAdd h.used n)
      (total : h'.liveBytes + charges calls' = h.liveBytes + charges calls + n)
      (owed : surcharges calls' + n ≤ surcharges calls)
  | gives (n : ℕ) (used : h'.used = wrappingSub h.used n)
      (total : h'.liveBytes + charges calls' + n = h.liveBytes + charges calls)
      (owed : surcharges calls' ≤ surcharges calls)

end Ongoing

/-- A heap and its calls in a state that they reach together: the slots are accounted for, each
call is where its earlier operations led it, and `used` is what the live slots and the calls have
charged. -/
structure SharedHeap.Sound (arena : Arena) (s : SharedHeap) (free : List Segment) : Prop where
  shared : s.toHeap.Shared arena s.held free
  knows : ∀ call ∈ s.calls, call.Knows arena
  charged : s.used = s.liveBytes + Ongoing.charges s.calls
  within : s.used + Ongoing.surcharges s.calls ≤ 2 * arena.capacity

/-! ## What one operation does -/

section Operations

variable {arena : Arena} {h h' : Heap} {held free : List Segment} {call : Ongoing}
  {calls calls' rest : List Ongoing} {layout : Layout} {needed : ℕ} {weak : Bool}

namespace Ongoing

theorem Asks.spec (asks : Asks layout needed) : slotAlign ∣ needed ∧ minSlotSize ≤ needed ∧
    allocHeaderSize + (layout.align - 1) + layout.size ≤ needed := by
  obtain ⟨needed', required, spec⟩ := requiredSlotSize_spec layout
  obtain rfl : needed' = needed := by simpa [required] using asks.2
  exact spec

theorem charges_append : charges (calls ++ rest) = charges calls + charges rest := by
  simp [charges]

theorem surcharges_append : surcharges (calls ++ rest) = surcharges calls + surcharges rest := by
  simp [surcharges]

theorem surcharge_le (knows : call.Knows arena) : call.surcharge ≤ call.charge := by
  cases call with
  | searching layout needed => exact (Asks.spec knows).2.1
  | charging layout slot excess =>
    obtain ⟨-, small, large⟩ := knows
    simp only [surcharge, charge]
    omega
  | _ => exact Nat.zero_le _

/-- What is owed is covered by what is charged already. -/
theorem surcharges_le (knows : ∀ call ∈ calls, call.Knows arena) :
    surcharges calls ≤ charges calls :=
  List.sum_le_sum fun call mem => surcharge_le (knows call mem)

/-- What an operation does to the heap and to its call, beside the slots that other calls hold. -/
structure Goes (arena : Arena) (h : Heap) (held : List Segment) (calls : List Ongoing) (h' : Heap)
    (calls' : List Ongoing) : Prop where
  shared : ∃ free, h'.Shared arena (calls'.flatMap slots ++ held) free
  knows : ∀ next ∈ calls', next.Knows arena
  settles : Settles arena h calls h' calls'

/-- An operation that only reads, and leads to a call with the slots and the charge of before. -/
theorem goes_reads (shared : h.Shared arena (calls.flatMap slots ++ held) free)
    (knows : ∀ next ∈ calls', next.Knows arena) (slots : calls'.flatMap slots = calls.flatMap slots)
    (total : charges calls' = charges calls) (owed : surcharges calls' ≤ surcharges calls) :
    Goes arena h held calls h calls' :=
  ⟨⟨free, slots ▸ shared⟩, knows, .keeps rfl (by rw [total]) owed⟩

theorem goes_reserving {current : ℕ} (shared : h.Shared arena held free)
    (asks : Asks layout needed) :
    Goes arena h held [reserving layout needed current]
      ((reserving layout needed current).advance arena h weak).1
      ((reserving layout needed current).advance arena h weak).2.toList := by
  have null : Goes arena h held [reserving layout needed current] h [] :=
    goes_reads shared (by simp) rfl rfl le_rfl
  rw [advance]
  split_ifs with beyond
  · exact null
  · unfold checkedAdd
    dsimp only
    split
    · rename_i newUsed sum
      obtain ⟨-, rfl⟩ : _ ∧ current + needed = newUsed := by simpa using sum
      split_ifs with within
      · refine goes_reads shared ?_ rfl rfl le_rfl
        simpa [Knows] using ⟨asks, within.trans (Nat.sub_le _ _)⟩
      · exact null
    · exact null

theorem goes_claiming {current newUsed : ℕ} (shared : h.Shared arena held free)
    (knows : (claiming layout needed current newUsed).Knows arena) :
    Goes arena h held [claiming layout needed current newUsed]
      ((claiming layout needed current newUsed).advance arena h weak).1
      ((claiming layout needed current newUsed).advance arena h weak).2.toList := by
  obtain ⟨asks, rfl, within⟩ := knows
  rw [advance]
  split_ifs with exchanged
  · obtain ⟨rfl, -⟩ := exchanged
    obtain ⟨kept, slots⟩ : Heap.Shared arena { h with used := h.used + needed } held free ∧ _ :=
      shared.counters rfl rfl rfl
    refine ⟨⟨free, kept⟩, by simpa [Knows] using asks, .claims needed rfl within ?_ ?_⟩
    · simp [Heap.liveBytes_congr slots, charges, charge]
    · simpa [surcharges, surcharge] using asks.spec.2.1
  · exact goes_reads shared (by simpa [Knows] using asks) rfl rfl le_rfl

theorem goes_searching (shared : h.Shared arena held free) (asks : Asks layout needed) :
    Goes arena h held [searching layout needed]
      ((searching layout needed).advance arena h weak).1
      ((searching layout needed).advance arena h weak).2.toList := by
  obtain ⟨aligned, room, large⟩ := asks.spec
  rw [advance]
  rcases shared.take aligned room with
    none | ⟨prev, slot, list, free', walk, start, take, enough, close, kept, slots⟩
  · rw [none]
    exact goes_reads shared (by simpa [Knows] using asks) rfl rfl (Nat.zero_le _)
  · simp only [walk, take, start]
    have live : Heap.liveBytes { h with toFreeList := list } = h.liveBytes :=
      Heap.liveBytes_congr slots
    split_ifs with excess
    · refine ⟨⟨free', kept⟩, ?_, .keeps rfl ?_ ?_⟩
      · simp only [Option.toList_some, List.forall_mem_singleton, Knows, Suits]
        exact ⟨⟨asks.1, large.trans enough⟩, by omega, by omega⟩
      · simp [live, charges, charge]
        omega
      · simp [surcharges, surcharge]
        omega
    · refine ⟨⟨free', kept⟩, ?_, .keeps rfl ?_ ?_⟩
      · simpa [Knows] using ⟨asks.1, large.trans enough⟩
      · simp [live, charges, charge]
        omega
      · exact Nat.zero_le _

theorem goes_bumping {current : ℕ} (shared : h.Shared arena held free) (asks : Asks layout needed) :
    Goes arena h held [bumping layout needed current]
      ((bumping layout needed current).advance arena h weak).1
      ((bumping layout needed current).advance arena h weak).2.toList := by
  obtain ⟨aligned, room, large⟩ := asks.spec
  have back : Goes arena h held [bumping layout needed current] h [returning needed] :=
    goes_reads shared (by simp [Knows]) rfl rfl le_rfl
  rw [advance]
  split
  · exact back
  rename_i next sum
  split_ifs with beyond exchanged
  · exact back
  · obtain ⟨rfl, -⟩ := exchanged
    rw [shared.alignUp_offset] at sum ⊢
    obtain ⟨-, rfl⟩ : _ ∧ h.offset + needed = next := by simpa [checkedAdd] using sum
    obtain ⟨kept, slots⟩ := shared.bump aligned room (Nat.not_lt.1 beyond)
    refine ⟨⟨free, kept⟩, by simpa [Knows, Suits] using ⟨asks.1, large⟩, .keeps rfl ?_ le_rfl⟩
    rw [Heap.liveBytes_congr slots]
    rfl
  · exact goes_reads shared (by simpa [Knows] using asks) rfl rfl le_rfl

theorem goes_placing {slot : Segment} (shared : h.Shared arena (slot :: held) free)
    (suits : Suits layout slot) :
    Goes arena h held [placing layout slot] ((placing layout slot).advance arena h weak).1
      ((placing layout slot).advance arena h weak).2.toList := by
  obtain ⟨kept, slots⟩ := shared.place suits.1 suits.2
  rw [advance]
  refine ⟨⟨free, kept⟩, by simp, .keeps rfl ?_ le_rfl⟩
  have live := Heap.liveBytes_cons slots
  simp only [charges, charge, List.map_cons, List.sum_cons, Option.toList_none, List.map_nil,
    List.sum_nil]
  omega

theorem goes_pushing {slot : Segment} (shared : h.Shared arena (slot :: held) free) :
    Goes arena h held [pushing slot] ((pushing slot).advance arena h weak).1
      ((pushing slot).advance arena h weak).2.toList := by
  obtain ⟨kept, slots⟩ := shared.push
  rw [advance]
  refine ⟨⟨_, kept⟩, by simp [Knows], .keeps rfl ?_ le_rfl⟩
  rw [Heap.liveBytes_congr slots]
  rfl

/-- The operations that change no more than a counter. -/
theorem goes_counters (shared : h.Shared arena (calls.flatMap slots ++ held) free)
    (list : h'.toFreeList = h.toFreeList) (live : h'.live = h.live) (offset : h'.offset = h.offset)
    (knows : ∀ next ∈ calls', next.Knows arena) (slots : calls'.flatMap slots = calls.flatMap slots)
    (settles : h'.liveBytes = h.liveBytes → Settles arena h calls h' calls') :
    Goes arena h held calls h' calls' := by
  obtain ⟨kept, same⟩ := shared.counters list live offset
  exact ⟨⟨free, slots ▸ kept⟩, knows, settles (Heap.liveBytes_congr same)⟩

/-- The next operation of a call keeps the slots accounted for, leads the call to where it may go
on, and settles its charge. -/
theorem advance_spec (shared : h.Shared arena (call.slots ++ held) free)
    (knows : call.Knows arena) :
    Goes arena h held [call] (call.advance arena h weak).1
      (call.advance arena h weak).2.toList := by
  have single : h.Shared arena ([call].flatMap slots ++ held) free := by simpa using shared
  cases call with
  | reserving layout needed current => exact goes_reserving shared knows
  | claiming layout needed current newUsed => exact goes_claiming shared knows
  | searching layout needed => exact goes_searching shared knows
  | charging layout slot excess =>
    obtain ⟨suits, small, large⟩ := knows
    rw [advance]
    refine goes_counters single rfl rfl rfl (List.forall_mem_singleton.2 suits) rfl fun live =>
      .adds excess rfl ?_ ?_
    · simp [charges, charge] at live ⊢
      omega
    · simp [surcharges, surcharge]
  | missing layout needed =>
    exact goes_reads single (by simpa [advance, Knows] using knows) rfl rfl le_rfl
  | bumping layout needed current => exact goes_bumping shared knows
  | placing layout slot => exact goes_placing shared knows
  | returning needed =>
    refine goes_counters single rfl rfl rfl (by simp [advance]) rfl fun live =>
      .gives needed rfl ?_ le_rfl
    simp [advance, charges, charge] at live ⊢
    omega
  | pushing slot => exact goes_pushing shared
  | subtracting slotSize =>
    refine goes_counters single rfl rfl rfl (by simp [advance, Knows]) rfl fun live =>
      .gives slotSize rfl ?_ le_rfl
    simp [advance, charges, charge] at live ⊢
    omega
  | counting =>
    rw [advance]
    split_ifs <;>
      exact goes_counters single rfl rfl rfl (by simp [Knows]) rfl fun live =>
        .keeps rfl (by rw [live]; rfl) le_rfl
  | signalling | storing size =>
    exact goes_counters single rfl rfl rfl (by simp [advance]) rfl fun live =>
      .keeps rfl (by rw [live]; rfl) le_rfl
  | defragmenting =>
    obtain ⟨kept, slots⟩ := shared.defragment
    refine ⟨⟨_, kept⟩, by simp [advance], .keeps rfl ?_ le_rfl⟩
    exact congrArg (· + 0) (Heap.liveBytes_congr slots)

/-- A charge that is settled leaves the sums right, whatever the other calls have charged. -/
theorem Settles.frame (settles : Settles arena h calls h' calls')
    (narrow : arena.capacity ≤ isizeMax) (knows : ∀ call ∈ rest, call.Knows arena)
    (charged : h.used = h.liveBytes + charges (calls ++ rest))
    (within : h.used + surcharges (calls ++ rest) ≤ 2 * arena.capacity) :
    h'.used = h'.liveBytes + charges (calls' ++ rest) ∧
      h'.used + surcharges (calls' ++ rest) ≤ 2 * arena.capacity := by
  have covered := surcharges_le knows
  unfold isizeMax at narrow
  rw [charges_append] at charged ⊢
  rw [surcharges_append] at within ⊢
  cases settles with
  | keeps used total owed => omega
  | claims n used inside total owed => omega
  | adds n used total owed =>
    have fits : h.used + n < 2 ^ 64 := by omega
    rw [wrappingAdd, Nat.mod_eq_of_lt fits] at used
    omega
  | gives n used total owed =>
    rw [Heap.wrappingSub_of_le (by omega) (by omega)] at used
    omega

end Ongoing

open Ongoing

namespace SharedHeap.Sound

variable {s : SharedHeap}

theorem perm (sound : s.Sound arena free) (same : s.calls.Perm calls) :
    SharedHeap.Sound arena { s with calls := calls } free where
  shared := sound.shared.perm (same.flatMap_right _)
  knows call mem := sound.knows call (same.mem_iff.2 mem)
  charged := by
    rw [sound.charged, charges, (same.map charge).sum_eq]
    rfl
  within := by
    have within := sound.within
    rwa [surcharges, (same.map surcharge).sum_eq] at within

/-- What holds of an operation beside the slots and the charges of the other calls. -/
theorem goes (sound : SharedHeap.Sound arena ⟨h, calls ++ rest⟩ free)
    (narrow : arena.capacity ≤ isizeMax)
    (goes : Goes arena h (rest.flatMap slots) calls h' calls') :
    ∃ free', SharedHeap.Sound arena ⟨h', calls' ++ rest⟩ free' := by
  obtain ⟨⟨free', shared⟩, knows, settles⟩ := goes
  have others : ∀ call ∈ rest, call.Knows arena := fun call mem =>
    sound.knows call (List.mem_append_right _ mem)
  obtain ⟨charged, within⟩ := settles.frame narrow others sound.charged sound.within
  refine ⟨free', ?_, List.forall_mem_append.2 ⟨knows, others⟩, charged, within⟩
  rwa [SharedHeap.held, List.flatMap_append]

/-- A call that begins. -/
theorem begins (sound : s.Sound arena free) (narrow : arena.capacity ≤ isizeMax) (h' : Heap)
    (calls' : List Ongoing) (goes : Goes arena s.toHeap s.held [] h' calls') :
    ∃ free', SharedHeap.Sound arena ⟨h', calls' ++ s.calls⟩ free' :=
  have alone : SharedHeap.Sound arena ⟨s.toHeap, [] ++ s.calls⟩ free := sound
  alone.goes narrow goes

theorem dealloc (sound : s.Sound arena free) {b : Block} (hb : b ∈ s.live) :
    Goes arena s.toHeap s.held [] { s.toHeap with live := s.live.erase b }
      (release arena s.toHeap b.ptr).toList := by
  obtain ⟨released, shared⟩ := sound.shared.release hb
  rw [released]
  refine ⟨⟨free, shared⟩, by simp [Knows], .keeps rfl ?_ le_rfl⟩
  have live : s.liveBytes = _ + Heap.liveBytes { s.toHeap with live := s.live.erase b } :=
    Heap.liveBytes_erase hb rfl
  simp [charges, charge] at live ⊢
  omega

/-- A step of threads that keep to the contract. -/
theorem step (sound : s.Sound arena free) (narrow : arena.capacity ≤ isizeMax) {op : SharedOp}
    (allowed : s.Allowed op) : ∃ free', (s.step arena op).Sound arena free' := by
  have shared := sound.shared
  cases op with
  | alloc layout =>
    obtain ⟨needed, required, -⟩ := requiredSlotSize_spec layout
    simp only [SharedHeap.step, required]
    refine sound.begins narrow s.toHeap [.reserving layout needed s.used]
      (goes_reads shared (List.forall_mem_singleton.2 ⟨allowed, required⟩) rfl rfl le_rfl)
  | dealloc block => exact sound.begins narrow _ _ (sound.dealloc allowed)
  | defragment =>
    rw [SharedHeap.step]
    split_ifs
    · refine sound.begins narrow { s.toHeap with defragRequested := false } [.defragmenting] ?_
      exact goes_counters shared rfl rfl rfl (by simp [Knows]) rfl fun live =>
        .keeps rfl (by rw [live]; rfl) le_rfl
    · exact ⟨free, sound⟩
  | setLockedSize size =>
    refine sound.begins narrow s.toHeap _ ?_
    unfold lockSize
    split
    · exact goes_reads shared (by simp) rfl rfl le_rfl
    · split_ifs
      · exact goes_reads shared (by simp) rfl rfl le_rfl
      · exact goes_reads shared (by simp [Knows]) rfl rfl le_rfl
  | write address byte =>
    obtain ⟨b, hb, inside⟩ := allowed
    obtain ⟨kept, slots⟩ := shared.write hb inside
      (show _ = fun k => if k = address then byte else s.memory k from rfl)
    refine sound.begins narrow _ [] ⟨⟨free, kept⟩, by simp, .keeps rfl ?_ le_rfl⟩
    exact congrArg (· + 0) (Heap.liveBytes_congr slots)
  | advance i weak =>
    rw [SharedHeap.step]
    cases found : s.calls[i]? with
    | none => exact ⟨free, sound⟩
    | some call =>
      obtain ⟨bound, rfl⟩ := List.getElem?_eq_some_iff.1 found
      have front : s.calls.Perm ([s.calls[i]] ++ s.calls.eraseIdx i) :=
        (List.getElem_cons_eraseIdx_perm bound).symm
      have sound' := sound.perm front
      have shared' : s.toHeap.Shared arena
          (s.calls[i].slots ++ (s.calls.eraseIdx i).flatMap slots) free := by
        simpa [held] using sound'.shared
      exact sound'.goes narrow (advance_spec shared' (sound.knows _ (List.getElem_mem bound)))

end SharedHeap.Sound

end Operations

/-! ## Every run -/

open Transition

section Runs

variable {arena : Arena} {memory : Memory} {ops : List SharedOp} {free : List Segment}
  {s : SharedHeap}

namespace SharedHeap

/-- The arena as `init` leaves it, before any call. -/
def init (memory : Memory) : SharedHeap := ⟨Heap.init memory, []⟩

theorem sound_init (arena : Arena) (memory : Memory) : (init memory).Sound arena [] where
  shared := by
    obtain ⟨linked, tiles, bounded, slot, placed⟩ := tidy_init arena memory
    exact ⟨linked, tiles, bounded, slot, placed⟩
  knows := by simp [init]
  charged := rfl
  within := Nat.zero_le _

/-- `base.add(capacity)` stays within one allocation, so the capacity is at most `isize::MAX`. -/
theorem sound_run (narrow : arena.capacity ≤ isizeMax)
    (allowed : EveryStep (step arena) Allowed (init memory) ops) :
    EveryState (step arena) (fun s => ∃ free, s.Sound arena free) (init memory) ops :=
  allowed.invariant ⟨[], sound_init arena memory⟩
    fun _ _ ⟨_, sound⟩ allowed => sound.step narrow allowed

namespace Sound

/-- Where no call is going on, the heap is one that atomic calls could have left. -/
theorem accounted (sound : s.Sound arena free) (quiet : s.calls = []) :
    s.toHeap.Accounted arena free := by
  obtain ⟨⟨linked, tiles, bounded, slot, placed⟩, -, charged, -⟩ := sound
  rw [held, quiet] at tiles slot
  refine ⟨⟨linked, tiles, bounded, slot, placed⟩, ?_⟩
  rw [charged, quiet]
  rfl

theorem charge_le (sound : s.Sound arena free) {call : Ongoing} (mem : call ∈ s.calls) :
    call.charge ≤ s.used := by
  have part : call.charge ≤ Ongoing.charges s.calls :=
    List.single_le_sum (fun _ _ => Nat.zero_le _) _ (List.mem_map_of_mem mem)
  have := sound.charged
  omega

end Sound

end SharedHeap

/-- However the atomic operations of the threads interleave, the slots of the live blocks, the slots
that calls hold and the free segments tile the used part of the arena, every live block is aligned
and lies in its slot behind its header, and a block that is given back gives back exactly its slot. -/
theorem threads_tile (narrow : arena.capacity ≤ isizeMax)
    (allowed : EveryStep (SharedHeap.step arena) SharedHeap.Allowed (SharedHeap.init memory) ops) :
    EveryState (SharedHeap.step arena)
      (fun s => ∃ free, s.toHeap.Shared arena s.held free ∧ ∀ b ∈ s.live,
        Ongoing.release arena s.toHeap b.ptr = some (.pushing (slotOf s.memory b.ptr)))
      (SharedHeap.init memory) ops :=
  (SharedHeap.sound_run narrow allowed).mono fun _ ⟨free, sound⟩ =>
    ⟨free, sound.shared, fun _ hb => (sound.shared.release hb).1⟩

/-- Two allocations race for `used`, and the block of the winner is given back before the other one
looks at the free list. -/
def racingRun : List SharedOp :=
  [.alloc cacheLineLayout, .alloc (bytesLayout 6 (by decide)), .advance 1 false, .advance 1 false,
    .advance 0 false, .advance 1 false, .advance 0 false, .advance 0 true, .advance 0 false,
    .advance 0 false, .advance 1 false, .advance 0 false, .advance 0 false, .advance 0 false,
    .write 4112 255, .dealloc ⟨4112, bytesLayout 6 (by decide)⟩, .advance 0 false, .advance 1 false]

theorem threads_tile_racing :
    EveryState (SharedHeap.step smallestArena)
      (fun s => ∃ free, s.toHeap.Shared smallestArena s.held free ∧ ∀ b ∈ s.live,
        Ongoing.release smallestArena s.toHeap b.ptr = some (.pushing (slotOf s.memory b.ptr)))
      (SharedHeap.init fun _ => 0) racingRun :=
  threads_tile (by decide) (by decide +kernel)

/-- However the atomic operations of the threads interleave, `used` is the sum of the slots of the
live blocks and of what the calls that are going on have charged, so that no call gives back more
than `used`; and whenever no call is going on, the accounting is that of calls that are atomic. -/
theorem threads_charge (initialised : 0 < arena.capacity) (narrow : arena.capacity ≤ isizeMax)
    (allowed : EveryStep (SharedHeap.step arena) SharedHeap.Allowed (SharedHeap.init memory) ops) :
    EveryState (SharedHeap.step arena)
      (fun s => s.used = s.liveBytes + Ongoing.charges s.calls ∧
        (∀ call ∈ s.calls, call.charge ≤ s.used) ∧ (s.calls = [] → s.toHeap.Exact arena))
      (SharedHeap.init memory) ops :=
  (SharedHeap.sound_run narrow allowed).mono fun _ ⟨_, sound⟩ =>
    ⟨sound.charged, fun _ mem => sound.charge_le mem,
      fun quiet => (sound.accounted quiet).exact initialised⟩

theorem threads_charge_racing :
    EveryState (SharedHeap.step smallestArena)
      (fun s => s.used = s.liveBytes + Ongoing.charges s.calls ∧
        (∀ call ∈ s.calls, call.charge ≤ s.used) ∧
        (s.calls = [] → s.toHeap.Exact smallestArena))
      (SharedHeap.init fun _ => 0) racingRun :=
  threads_charge (by decide) (by decide) (by decide +kernel)

/-! ## The surcharge of a node taken whole -/

/-- What a call is about to add to `used` without a look at the capacity. -/
def Ongoing.excess : Ongoing → ℕ
  | charging _ _ excess => excess
  | _ => 0

/-- Only a surcharge brings `used` above the capacity. -/
theorem Ongoing.advance_used_le {call : Ongoing} {h : Heap} {weak : Bool}
    (narrow : arena.capacity ≤ isizeMax) (knows : call.Knows arena)
    (covered : call.charge ≤ h.used) (bounded : h.used ≤ arena.capacity) :
    (call.advance arena h weak).1.used ≤ arena.capacity ↔
      h.used + call.excess ≤ arena.capacity := by
  unfold isizeMax at narrow
  cases call with
  | claiming layout needed current newUsed =>
    refine iff_of_true ?_ bounded
    rw [advance]
    split_ifs
    · exact knows.2.2
    · exact bounded
  | charging layout slot excess =>
    have small : excess < minSlotSize := knows.2.1
    have sum : wrappingAdd h.used excess = h.used + excess := by
      unfold minSlotSize at small
      exact Nat.mod_eq_of_lt (by omega)
    rw [advance, sum, Ongoing.excess]
  | returning needed =>
    have given : ((returning needed).advance arena h weak).1.used = h.used - needed :=
      Heap.wrappingSub_of_le covered (by omega)
    exact iff_of_true (by omega) bounded
  | subtracting slotSize =>
    have given : ((subtracting slotSize).advance arena h weak).1.used = h.used - slotSize :=
      Heap.wrappingSub_of_le covered (by omega)
    exact iff_of_true (by omega) bounded
  | reserving | searching | missing | bumping | placing | pushing | counting | signalling | storing
  | defragmenting =>
    refine iff_of_true ?_ bounded
    simp only [advance]
    repeat' split
    all_goals exact bounded

namespace SharedHeap

/-- Where a surcharge is added, `used` stays within the arena. -/
def SurchargeFits (arena : Arena) (s : SharedHeap) : SharedOp → Prop
  | .advance i _ => ∀ call ∈ s.calls[i]?, s.used + call.excess ≤ arena.capacity
  | _ => True

instance (arena : Arena) (s : SharedHeap) : (op : SharedOp) → Decidable (s.SurchargeFits arena op)
  | .advance i _ =>
    inferInstanceAs (Decidable (∀ call ∈ s.calls[i]?, s.used + call.excess ≤ arena.capacity))
  | .alloc _ | .dealloc _ | .defragment | .setLockedSize _ | .write .. => .isTrue trivial

theorem Sound.used_step (sound : s.Sound arena free) (narrow : arena.capacity ≤ isizeMax)
    (bounded : s.used ≤ arena.capacity) (op : SharedOp) :
    (s.step arena op).used ≤ arena.capacity ↔ s.SurchargeFits arena op := by
  cases op with
  | alloc layout =>
    refine iff_of_true ?_ trivial
    rw [SharedHeap.step]
    split <;> exact bounded
  | dealloc | setLockedSize | write => exact iff_of_true bounded trivial
  | defragment =>
    refine iff_of_true ?_ trivial
    rw [SharedHeap.step]
    split_ifs <;> exact bounded
  | advance i weak =>
    rw [SharedHeap.step, SurchargeFits]
    cases found : s.calls[i]? with
    | none => simp [bounded]
    | some call =>
      have mem : call ∈ s.calls := List.mem_of_getElem? found
      simpa using Ongoing.advance_used_le narrow (sound.knows _ mem) (sound.charge_le mem) bounded

end SharedHeap

/-- The free memory can be told in every state of a run if and only if no surcharge in it brings
`used` above the capacity. -/
theorem freeMem_iff_surchargeFits (initialised : 0 < arena.capacity)
    (narrow : arena.capacity ≤ isizeMax)
    (allowed : EveryStep (SharedHeap.step arena) SharedHeap.Allowed (SharedHeap.init memory) ops) :
    EveryState (SharedHeap.step arena) (fun s => s.getFreeMemSize arena ≠ none)
        (SharedHeap.init memory) ops ↔
      EveryStep (SharedHeap.step arena) (fun s op => s.SurchargeFits arena op)
        (SharedHeap.init memory) ops := by
  have told : ∀ s : SharedHeap, s.getFreeMemSize arena ≠ none ↔ s.used ≤ arena.capacity := by
    intro s
    rw [MemAllocator.getFreeMemSize, if_neg initialised.ne']
    split_ifs with bounded <;> simp [bounded]
  simp only [told]
  apply allowed.everyState_iff (SharedHeap.sound_run narrow allowed) (Nat.zero_le _)
  rintro s op ⟨_, sound⟩ - bounded
  exact sound.used_step narrow bounded op

/-- A block of 40 bytes is on the free list, and its bytes are still charged, when the slot is taken
whole for 32 bytes, the last ones that `used` has room for. -/
def overshootingRun : List SharedOp :=
  .alloc (bytesLayout 20 (by decide)) :: List.replicate 6 (.advance 0 false) ++
    .alloc (bytesLayout (smallestArena.capacity - 88) (by decide)) ::
      List.replicate 6 (.advance 0 false) ++
    [.dealloc ⟨4112, bytesLayout 20 (by decide)⟩, .advance 0 false,
      .alloc (bytesLayout 12 (by decide))] ++ List.replicate 4 (.advance 0 false)

theorem freeMem_underflows :
    ¬ EveryState (SharedHeap.step smallestArena) (fun s => s.getFreeMemSize smallestArena ≠ none)
      (SharedHeap.init fun _ => 0) overshootingRun := by
  intro told
  exact absurd told.last (by decide +kernel)

theorem freeMem_racing :
    EveryState (SharedHeap.step smallestArena) (fun s => s.getFreeMemSize smallestArena ≠ none)
      (SharedHeap.init fun _ => 0) racingRun :=
  (freeMem_iff_surchargeFits (by decide) (by decide) (by decide +kernel)).2 (by decide +kernel)

end Runs

end DataBroker
