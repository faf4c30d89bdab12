import DataBroker.Lib.Memory
import Mathlib.Data.Nat.Bitwise

/-!
# Layouts and slots

A slot holds an `AllocHeader` of two words right before the user's bytes, so that `dealloc` can find
the slot again. Its size has room for the header, the user's bytes, and the worst padding between
the start of the slot and an aligned user address.
-/

namespace DataBroker

/-- `usize::MAX` on a 64-bit target. -/
def usizeMax : ℕ := 2 ^ 64 - 1

/-- `isize::MAX` on a 64-bit target. -/
def isizeMax : ℕ := 2 ^ 63 - 1

/-- `size_of::<FreeNode>()` on a 64-bit target. -/
def minSlotSize : ℕ := 16

/-- `align_of::<FreeNode>()` on a 64-bit target. -/
def slotAlign : ℕ := 8

/-- `size_of::<AllocHeader>()` on a 64-bit target. -/
def allocHeaderSize : ℕ := 16

/-- `usize::checked_add` -/
def checkedAdd (a b : ℕ) : Option ℕ := if a + b ≤ usizeMax then some (a + b) else none

/-- A size and an alignment, as `Layout::from_size_align` accepts them: the size, rounded up to the
alignment, does not exceed `isize::MAX`. -/
structure Layout where
  size : ℕ
  align : ℕ
  powerOfTwo : ∃ k, align = 2 ^ k
  fits : size + (align - 1) ≤ isizeMax
deriving DecidableEq

/-- Bytes may start anywhere. -/
theorem one_powerOfTwo : ∃ k, 1 = 2 ^ k := ⟨0, rfl⟩

/-- `(value + align - 1) & !(align - 1)` on words. -/
def alignUp (value align : ℕ) : ℕ := (value + align - 1) % 2 ^ 64 &&& (usizeMax - (align - 1))

def requiredSlotSize (layout : Layout) : Option ℕ := do
  let padded ← checkedAdd allocHeaderSize (layout.align - 1)
  let worst ← checkedAdd padded layout.size
  some (alignUp (max worst minSlotSize) slotAlign)

namespace AllocHeader

def slotOffset (m : Memory) (header : ℕ) : ℕ := m.load 8 header

def slotSize (m : Memory) (header : ℕ) : ℕ := m.load 8 (header + 8)

def setSlotOffset (m : Memory) (header value : ℕ) : Memory := m.store 8 header value

def setSlotSize (m : Memory) (header value : ℕ) : Memory := m.store 8 (header + 8) value

end AllocHeader

/-- The user's address in a slot, and the memory with the header before it. -/
def placeHeader (m : Memory) (slot slotSize : ℕ) (layout : Layout) : ℕ × Memory :=
  let minUser := slot + allocHeaderSize
  let userAddr := alignUp minUser layout.align
  let header := userAddr - allocHeaderSize
  let m := AllocHeader.setSlotOffset m header (userAddr - slot)
  (userAddr, AllocHeader.setSlotSize m header slotSize)

/-- The slot that the header before a user address describes. -/
def slotOf (m : Memory) (user : ℕ) : Segment where
  start := user - AllocHeader.slotOffset m (user - allocHeaderSize)
  size := AllocHeader.slotSize m (user - allocHeaderSize)

/-! ## Rounding up -/

theorem land_complement {x k : ℕ} (hx : x < 2 ^ 64) (hk : k ≤ 64) :
    x &&& (usizeMax - (2 ^ k - 1)) = x / 2 ^ k * 2 ^ k := by
  have small : 2 ^ k - 1 < 2 ^ 64 := by
    have := Nat.pow_le_pow_right (show 0 < 2 by decide) hk
    have := Nat.two_pow_pos k
    omega
  have mask : usizeMax - (2 ^ k - 1) = 2 ^ 64 - ((2 ^ k - 1) + 1) := by
    unfold usizeMax
    omega
  apply Nat.eq_of_testBit_eq
  intro i
  rw [mask, Nat.testBit_and, Nat.testBit_two_pow_sub_succ small, Nat.testBit_two_pow_sub_one,
    Nat.testBit_mul_two_pow, Nat.testBit_div_two_pow]
  by_cases hi : k ≤ i
  · have back : i - k + k = i := Nat.sub_add_cancel hi
    rw [back]
    by_cases hi' : i < 64
    · simp [hi, hi', Nat.not_lt.2 hi]
    · have high : x < 2 ^ i := hx.trans_le (Nat.pow_le_pow_right (by decide) (by omega))
      simp [Nat.testBit_lt_two_pow high]
  · simp [hi, Nat.lt_of_not_le hi]

/-- Without overflow `align_up` is the next multiple of the alignment. -/
theorem alignUp_spec {value align : ℕ} (powerOfTwo : ∃ k, align = 2 ^ k)
    (fits : value + align ≤ 2 ^ 64) :
    align ∣ alignUp value align ∧ value ≤ alignUp value align ∧
      alignUp value align < value + align := by
  obtain ⟨k, rfl⟩ := powerOfTwo
  have positive := Nat.two_pow_pos k
  have hk : k ≤ 64 := (Nat.pow_le_pow_iff_right (by decide)).1 (show 2 ^ k ≤ 2 ^ 64 by omega)
  have small : value + 2 ^ k - 1 < 2 ^ 64 := by omega
  have rounded : alignUp value (2 ^ k) = (value + 2 ^ k - 1) / 2 ^ k * 2 ^ k := by
    rw [alignUp, Nat.mod_eq_of_lt small, land_complement small hk]
  have parts := Nat.div_add_mod (value + 2 ^ k - 1) (2 ^ k)
  have remainder := Nat.mod_lt (value + 2 ^ k - 1) positive
  rw [rounded, Nat.mul_comm]
  exact ⟨Nat.dvd_mul_right _ _, by omega, by omega⟩

theorem slotAlign_powerOfTwo : ∃ k, slotAlign = 2 ^ k := ⟨3, rfl⟩

/-! ## Slots -/

variable {layout : Layout}

theorem Layout.align_pos (layout : Layout) : 0 < layout.align := by
  obtain ⟨k, hk⟩ := layout.powerOfTwo
  rw [hk]
  exact Nat.two_pow_pos k

theorem checkedAdd_of_le {a b : ℕ} (fits : a + b ≤ usizeMax) : checkedAdd a b = some (a + b) :=
  if_pos fits

/-- A slot has room for the header, the worst padding and the user's bytes. -/
theorem requiredSlotSize_spec (layout : Layout) : ∃ needed, requiredSlotSize layout = some needed ∧
    slotAlign ∣ needed ∧ minSlotSize ≤ needed ∧
    allocHeaderSize + (layout.align - 1) + layout.size ≤ needed := by
  have fits := layout.fits
  have noWrap : allocHeaderSize + (layout.align - 1) + layout.size + slotAlign ≤ 2 ^ 64 := by
    unfold isizeMax at fits
    unfold allocHeaderSize slotAlign
    omega
  have header : allocHeaderSize + (layout.align - 1) ≤ usizeMax := by
    unfold usizeMax
    unfold slotAlign at noWrap
    omega
  have worst : allocHeaderSize + (layout.align - 1) + layout.size ≤ usizeMax := by
    unfold usizeMax
    unfold slotAlign at noWrap
    omega
  have large : max (allocHeaderSize + (layout.align - 1) + layout.size) minSlotSize =
      allocHeaderSize + (layout.align - 1) + layout.size := by
    apply Nat.max_eq_left
    unfold minSlotSize allocHeaderSize
    omega
  obtain ⟨aligned, above, -⟩ := alignUp_spec slotAlign_powerOfTwo noWrap
  refine ⟨alignUp (allocHeaderSize + (layout.align - 1) + layout.size) slotAlign, ?_, aligned, ?_,
    above⟩
  · rw [requiredSlotSize, checkedAdd_of_le header, Option.bind_eq_bind, Option.bind_some,
      checkedAdd_of_le worst, Option.bind_some, large]
  · refine le_trans ?_ above
    unfold minSlotSize allocHeaderSize
    omega

/-- The header before the user's address tells where the slot is and how large. -/
theorem slotOf_placeHeader {m : Memory} {slot given : ℕ}
    (noWrap : slot + allocHeaderSize + layout.align ≤ 2 ^ 64) (word : given < 2 ^ 64) :
    let placed := placeHeader m slot given layout
    slotOf placed.2 placed.1 = ⟨slot, given⟩ := by
  obtain ⟨-, above, below⟩ := alignUp_spec layout.powerOfTwo noWrap
  unfold placeHeader
  dsimp only
  generalize alignUp (slot + allocHeaderSize) layout.align = user at *
  have offset : user - slot < 256 ^ 8 := by omega
  have size : given < 256 ^ 8 := by omega
  have apart : user - allocHeaderSize + 8 ≤ user - allocHeaderSize + 8 := le_rfl
  unfold slotOf AllocHeader.slotOffset AllocHeader.slotSize AllocHeader.setSlotOffset
    AllocHeader.setSlotSize
  rw [Memory.load_store_of_lt size, Memory.load_store_other (.inl apart),
    Memory.load_store_of_lt offset, Nat.sub_sub_self (by omega)]

/-- The user's address and the header fit into a slot that is large enough, and the header tells
where the slot is. -/
theorem placeHeader_spec {m : Memory} {slot : Segment}
    (large : allocHeaderSize + (layout.align - 1) + layout.size ≤ slot.size)
    (fits : slot.stop < 2 ^ 64) :
    let placed := placeHeader m slot.start slot.size layout
    layout.align ∣ placed.1 ∧ slot.start + allocHeaderSize ≤ placed.1 ∧
      placed.1 + layout.size ≤ slot.stop ∧ slotOf placed.2 placed.1 = slot ∧
      SameOutside [slot] m placed.2 := by
  have positive := layout.align_pos
  unfold Segment.stop at fits
  have noWrap : slot.start + allocHeaderSize + layout.align ≤ 2 ^ 64 := by omega
  have word : slot.size < 2 ^ 64 := by omega
  have header := slotOf_placeHeader (m := m) noWrap word
  obtain ⟨aligned, above, below⟩ := alignUp_spec layout.powerOfTwo noWrap
  unfold placeHeader at header ⊢
  dsimp only at header ⊢
  generalize alignUp (slot.start + allocHeaderSize) layout.align = user at *
  unfold Segment.stop at *
  refine ⟨aligned, above, by omega, header, ?_⟩
  intro k outside
  have := List.forall_mem_singleton.1 outside
  unfold Segment.Covers Segment.stop at this
  unfold AllocHeader.setSlotOffset AllocHeader.setSlotSize Memory.store allocHeaderSize at *
  rw [if_neg (by omega), if_neg (by omega)]

/-! ## The arithmetic of slots stays in the words -/

/-- No addition or subtraction of `align_up` leaves the words. -/
def NoWrap (value align : ℕ) : Prop := 0 < align ∧ value + align < 2 ^ 64

/-- An alignment is a word, so it divides the number of all words. -/
theorem dvd_words {align : ℕ} (powerOfTwo : ∃ k, align = 2 ^ k) (word : align < 2 ^ 64) :
    align ∣ 2 ^ 63 := by
  obtain ⟨k, rfl⟩ := powerOfTwo
  have := (Nat.pow_lt_pow_iff_right (by decide : 1 < 2)).1 word
  exact Nat.pow_dvd_pow 2 (by omega)

/-- A layout is valid when its size, rounded up to the alignment, is at most `isize::MAX`. -/
theorem fits_iff_rounded {size align : ℕ} (powerOfTwo : ∃ k, align = 2 ^ k)
    (word : align < 2 ^ 64) :
    size + (align - 1) ≤ isizeMax ↔ (size + (align - 1)) / align * align ≤ isizeMax := by
  have positive : 0 < align := by
    obtain ⟨k, rfl⟩ := powerOfTwo
    exact Nat.two_pow_pos k
  have parts := Nat.div_add_mod (size + (align - 1)) align
  rw [Nat.mul_comm] at parts
  have remainder := Nat.mod_lt (size + (align - 1)) positive
  constructor
  · omega
  · intro rounded
    -- the rounded size and the bound are multiples of the alignment, so they are one apart
    obtain ⟨count, multiple⟩ := dvd_words powerOfTwo word
    have below : (size + (align - 1)) / align * align < align * count := by
      unfold isizeMax at rounded
      omega
    rw [Nat.mul_comm align] at below
    have next : (size + (align - 1)) / align + 1 ≤ count := Nat.lt_of_mul_lt_mul_right below
    have := Nat.mul_le_mul_right align next
    rw [Nat.succ_mul, Nat.mul_comm count, ← multiple] at this
    unfold isizeMax
    omega

/-- Of two powers of two one divides the other. -/
theorem dvd_or_dvd {a b : ℕ} (ha : ∃ k, a = 2 ^ k) (hb : ∃ k, b = 2 ^ k) : a ∣ b ∨ b ∣ a := by
  obtain ⟨i, rfl⟩ := ha
  obtain ⟨j, rfl⟩ := hb
  exact (Nat.le_total i j).imp (Nat.pow_dvd_pow 2) (Nat.pow_dvd_pow 2)

/-- A multiple of the alignment is not moved. -/
theorem alignUp_of_dvd {value align : ℕ} (powerOfTwo : ∃ k, align = 2 ^ k)
    (fits : value + align ≤ 2 ^ 64) (aligned : align ∣ value) : alignUp value align = value := by
  obtain ⟨aligned', above, below⟩ := alignUp_spec powerOfTwo fits
  by_contra moved
  have gap : align ∣ alignUp value align - value := Nat.dvd_sub aligned' aligned
  have := Nat.le_of_dvd (by omega) gap
  omega

/-- The user's address has the alignment of headers, whatever the layout asks for. -/
theorem slotAlign_dvd_alignUp {value align : ℕ} (powerOfTwo : ∃ k, align = 2 ^ k)
    (fits : value + align ≤ 2 ^ 64) (aligned : slotAlign ∣ value) :
    slotAlign ∣ alignUp value align := by
  cases dvd_or_dvd slotAlign_powerOfTwo powerOfTwo with
  | inl coarse => exact coarse.trans (alignUp_spec powerOfTwo fits).1
  | inr fine =>
    rw [alignUp_of_dvd powerOfTwo fits (fine.trans aligned)]
    exact aligned

/-- A slot that starts at a multiple of `SLOT_ALIGN` leaves room to round the user's address up. -/
theorem place_noWrap {slot needed : ℕ} (slotAligned : slotAlign ∣ slot)
    (neededAligned : slotAlign ∣ needed) (fits : slot + needed < 2 ^ 64)
    (room : allocHeaderSize + (layout.align - 1) + layout.size ≤ needed) :
    NoWrap (slot + allocHeaderSize) layout.align := by
  have positive := layout.align_pos
  refine ⟨positive, ?_⟩
  unfold slotAlign at slotAligned neededAligned
  omega

/-- The layout of a valid size and alignment. -/
def Layout.ofRounded {size align : ℕ} (powerOfTwo : ∃ k, align = 2 ^ k) (word : align < 2 ^ 64)
    (rounded : (size + (align - 1)) / align * align ≤ isizeMax) : Layout :=
  ⟨size, align, powerOfTwo, (fits_iff_rounded powerOfTwo word).2 rounded⟩

/-- The size computed beforehand has room for the header, the padding and the payload at every slot
address, and no step of the arithmetic leaves the words. -/
theorem slots_suffice {size align : ℕ} (powerOfTwo : ∃ k, align = 2 ^ k) (word : align < 2 ^ 64)
    (rounded : (size + (align - 1)) / align * align ≤ isizeMax) :
    let layout := Layout.ofRounded powerOfTwo word rounded
    NoWrap (max (allocHeaderSize + (layout.align - 1) + layout.size) minSlotSize) slotAlign ∧
    ∃ needed, requiredSlotSize layout = some needed ∧ slotAlign ∣ needed ∧ minSlotSize ≤ needed ∧
      ∀ m slot given, slotAlign ∣ slot → slot + needed < 2 ^ 64 → given < 2 ^ 64 →
        let placed := placeHeader m slot given layout
        NoWrap (slot + allocHeaderSize) layout.align ∧
        layout.align ∣ placed.1 ∧
        slot ≤ placed.1 - allocHeaderSize ∧ allocHeaderSize ≤ placed.1 ∧
        8 ∣ placed.1 - allocHeaderSize ∧
        placed.1 + layout.size ≤ slot + needed ∧
        slotOf placed.2 placed.1 = ⟨slot, given⟩ := by
  intro layout
  obtain ⟨needed, required, aligned, large, room⟩ := requiredSlotSize_spec layout
  constructor
  · have fits := layout.fits
    unfold isizeMax at fits
    unfold NoWrap allocHeaderSize minSlotSize slotAlign
    omega
  refine ⟨needed, required, aligned, large, ?_⟩
  intro m slot given slotAligned fits word
  dsimp only
  have noWrap := place_noWrap slotAligned aligned fits room
  have within := noWrap.2.le
  obtain ⟨userAligned, above, below⟩ := alignUp_spec layout.powerOfTwo within
  have first : slotAlign ∣ slot + allocHeaderSize := Nat.dvd_add slotAligned ⟨2, rfl⟩
  have headerAligned : slotAlign ∣ alignUp (slot + allocHeaderSize) layout.align - allocHeaderSize :=
    Nat.dvd_sub (slotAlign_dvd_alignUp layout.powerOfTwo within first) ⟨2, rfl⟩
  refine ⟨noWrap, userAligned, Nat.le_sub_of_add_le above, ?_, headerAligned, ?_,
    slotOf_placeHeader within word⟩
  · exact le_trans (Nat.le_add_left _ _) above
  · change alignUp (slot + allocHeaderSize) layout.align + layout.size ≤ slot + needed
    omega

/-- Three words at the start of a cache line. -/
theorem slots_suffice_cacheLine :
    let layout := @Layout.ofRounded 24 64 ⟨6, rfl⟩ (by decide) (by decide)
    let placed := placeHeader (fun _ => 0) 4104 104 layout
    requiredSlotSize layout = some 104 ∧ 64 ∣ placed.1 ∧ 8 ∣ placed.1 - allocHeaderSize ∧
      placed.1 + 24 ≤ 4208 ∧ slotOf placed.2 placed.1 = ⟨4104, 104⟩ := by
  intro layout placed
  obtain ⟨-, needed, required, -, -, sufficient⟩ :=
    @slots_suffice 24 64 ⟨6, rfl⟩ (by decide) (by decide)
  have known : requiredSlotSize layout = some 104 := by decide +kernel
  obtain rfl : 104 = needed := Option.some.inj (known.symm.trans required)
  obtain ⟨-, userAligned, -, -, headerAligned, within, header⟩ :=
    sufficient (fun _ => 0) 4104 104 (by decide) (by decide) (by decide)
  exact ⟨known, userAligned, headerAligned, within, header⟩

end DataBroker
