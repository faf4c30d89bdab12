import DataBroker.Lib.Tiling
import Mathlib.Data.UInt
import Mathlib.Tactic.Ring

/-!
# Byte-addressed memory

A memory gives a byte to every address. `load` and `store` move a little-endian number in and out
of `n` consecutive bytes; a number that does not fit is cut off. `SameOutside` confines a change to
some segments.
-/

/-- The byte at every address. -/
abbrev Memory := ℕ → UInt8

namespace Memory

/-- The number in the `n` bytes from `a`, low byte first. -/
def load (m : Memory) : ℕ → ℕ → ℕ
  | 0, _ => 0
  | n + 1, a => (m a).toNat + 256 * load m n (a + 1)

/-- The memory with `v` in the `n` bytes from `a`. -/
def store (m : Memory) (n a v : ℕ) : Memory :=
  fun k => if a ≤ k ∧ k < a + n then UInt8.ofNat (v / 256 ^ (k - a)) else m k

/-- `m` and `m'` have the same bytes in `[lo, hi)`. -/
def AgreeOn (m m' : Memory) (lo hi : ℕ) : Prop := ∀ k, lo ≤ k → k < hi → m k = m' k

variable {m m' m'' : Memory} {n a b v lo hi : ℕ}

theorem AgreeOn.mono {lo' hi' : ℕ} (h : m.AgreeOn m' lo hi) (hlo : lo ≤ lo') (hhi : hi' ≤ hi) :
    m.AgreeOn m' lo' hi' :=
  fun k hk hk' => h k (by omega) (by omega)

theorem load_congr (h : m.AgreeOn m' a (a + n)) : load m n a = load m' n a := by
  induction n generalizing a with
  | zero => rfl
  | succ n ih =>
    have tail : load m n (a + 1) = load m' n (a + 1) := ih (h.mono (by omega) (by omega))
    rw [load, load, h a (by omega) (by omega), tail]

theorem load_lt (m : Memory) (n a : ℕ) : load m n a < 256 ^ n := by
  induction n generalizing a with
  | zero => simp [load]
  | succ n ih =>
    have byte := (m a).toNat_lt
    have tail := ih (a + 1)
    rw [load, pow_succ]
    omega

/-- A store reaches only its own bytes. -/
theorem store_agree (outside : hi ≤ a ∨ a + n ≤ lo) : (store m n a v).AgreeOn m lo hi := by
  intro k hlo hhi
  exact if_neg (by omega)

theorem load_store_other {w : ℕ} (outside : b + w ≤ a ∨ a + n ≤ b) :
    load (store m n a v) w b = load m w b :=
  load_congr (store_agree outside)

theorem load_store (m : Memory) (n a v : ℕ) : load (store m n a v) n a = v % 256 ^ n := by
  induction n generalizing a v with
  | zero => simp [load, Nat.mod_one]
  | succ n ih =>
    have low : store m (n + 1) a v a = UInt8.ofNat v := by
      rw [store, if_pos (by omega), Nat.sub_self, pow_zero, Nat.div_one]
    have high : (store m (n + 1) a v).AgreeOn (store m n (a + 1) (v / 256)) (a + 1) (a + 1 + n) := by
      intro k hlo hhi
      rw [store, store, if_pos (by omega), if_pos (by omega), Nat.div_div_eq_div_mul, ← pow_succ',
        show k - (a + 1) + 1 = k - a by omega]
    rw [load, low, load_congr high, ih, UInt8.toNat_ofNat', pow_succ' 256 n, Nat.mod_mul]

theorem load_store_of_lt (fits : v < 256 ^ n) : load (store m n a v) n a = v := by
  rw [load_store, Nat.mod_eq_of_lt fits]

/-- Equal numbers have equal bytes. -/
theorem agree_of_load_eq (same : load m n a = load m' n a) : m.AgreeOn m' a (a + n) := by
  induction n generalizing a with
  | zero =>
    intro k hlo hhi
    omega
  | succ n ih =>
    rw [load, load] at same
    have byte := (m a).toNat_lt
    have byte' := (m' a).toNat_lt
    have first : m a = m' a := UInt8.toNat_inj.1 (by omega)
    have rest : m.AgreeOn m' (a + 1) (a + 1 + n) := ih (by omega)
    intro k hlo hhi
    rcases hlo.eq_or_lt with rfl | later
    · exact first
    · exact rest k later (by omega)

end Memory

open Segment

/-- The memories differ in the bytes of these segments only. -/
def SameOutside (segments : List Segment) (m m' : Memory) : Prop :=
  ∀ k, (∀ s ∈ segments, ¬ s.Covers k) → m k = m' k

section SameOutside

variable {m m' m'' : Memory} {s t : Segment} {free pre rest others : List Segment}

theorem SameOutside.refl (segments : List Segment) (m : Memory) : SameOutside segments m m :=
  fun _ _ => rfl

theorem SameOutside.symm (h : SameOutside free m m') : SameOutside free m' m :=
  fun k hk => (h k hk).symm

theorem SameOutside.trans (h : SameOutside free m m') (h' : SameOutside free m' m'') :
    SameOutside free m m'' :=
  fun k hk => (h k hk).trans (h' k hk)

theorem SameOutside.mono (more : free ⊆ others) (h : SameOutside free m m') :
    SameOutside others m m' :=
  fun k hk => h k fun s hs => hk s (more hs)

/-- Changes within a part of a segment are changes within the segment. -/
theorem SameOutside.widen (h : SameOutside (pre ++ s :: rest) m m')
    (part : t.start ≤ s.start ∧ s.stop ≤ t.stop) : SameOutside (pre ++ t :: rest) m m' := by
  intro k hk
  apply h k
  intro u hu inside
  rcases List.mem_append.1 hu with hu | hu
  · exact hk u (List.mem_append_left _ hu) inside
  · rcases List.mem_cons.1 hu with rfl | hu
    · apply hk t (by simp)
      unfold Covers at *
      omega
    · exact hk u (List.mem_append_right _ (List.mem_cons_of_mem _ hu)) inside

/-- A segment apart from the changed ones keeps its bytes. -/
theorem SameOutside.agree (h : SameOutside free m m') (apart : ∀ s ∈ free, s.Apart t) :
    m.AgreeOn m' t.start t.stop := by
  intro k lo hi
  apply h k
  intro s hs inside
  have := apart s hs
  simp only [Apart, Covers] at this inside
  omega

end SameOutside
