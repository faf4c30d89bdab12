import Mathlib.Data.UInt
import Mathlib.Data.List.Basic
import Mathlib.Tactic.Ring

/-!
# Fixed-width big-endian numbers

`toBytes n v` is the `n`-byte big-endian form of `v`, and `ofBytes` reads any byte string as a
big-endian number. A number below `256 ^ n` is read back from its form, and the bytes are the form of
what is read from them.
-/

namespace BigEndian

/-- The `n` big-endian bytes of `v`. -/
def toBytes : ℕ → ℕ → List UInt8
  | 0, _ => []
  | n + 1, v => toBytes n (v / 256) ++ [UInt8.ofNat v]

/-- The number whose big-endian bytes are `bytes`. -/
def ofBytes (bytes : List UInt8) : ℕ :=
  bytes.foldl (fun acc b => 256 * acc + b.toNat) 0

@[simp] theorem length_toBytes (n v : ℕ) : (toBytes n v).length = n := by
  induction n generalizing v with
  | zero => rfl
  | succ n ih => simp [toBytes, ih]

@[simp] theorem ofBytes_nil : ofBytes [] = 0 := rfl

@[simp] theorem ofBytes_concat (bytes : List UInt8) (b : UInt8) :
    ofBytes (bytes ++ [b]) = 256 * ofBytes bytes + b.toNat := by
  simp [ofBytes, List.foldl_append]

theorem ofBytes_toBytes (n v : ℕ) (small : v < 256 ^ n) : ofBytes (toBytes n v) = v := by
  induction n generalizing v with
  | zero => simp_all [toBytes]
  | succ n ih =>
    have high : v / 256 < 256 ^ n := by
      rw [Nat.div_lt_iff_lt_mul (by decide), ← pow_succ]
      exact small
    rw [toBytes, ofBytes_concat, ih _ high, UInt8.toNat_ofNat']
    omega

theorem ofBytes_lt (bytes : List UInt8) : ofBytes bytes < 256 ^ bytes.length := by
  induction bytes using List.reverseRecOn with
  | nil => decide
  | append_singleton bytes b ih =>
    have small : b.toNat < 256 := b.toNat_lt
    rw [ofBytes_concat, List.length_append, List.length_singleton, pow_succ]
    omega

/-- A byte string is the form of the number read from it. -/
theorem toBytes_ofBytes (bytes : List UInt8) : toBytes bytes.length (ofBytes bytes) = bytes := by
  induction bytes using List.reverseRecOn with
  | nil => rfl
  | append_singleton bytes b ih =>
    have small : b.toNat < 256 := b.toNat_lt
    have high : (256 * ofBytes bytes + b.toNat) / 256 = ofBytes bytes := by omega
    have low : UInt8.ofNat (256 * ofBytes bytes + b.toNat) = b := by
      apply UInt8.toNat_inj.1
      rw [UInt8.toNat_ofNat']
      omega
    rw [ofBytes_concat, List.length_append, List.length_singleton, toBytes, high, low, ih]

/-- The big-endian bytes of a bit vector of `8 * n` bits. -/
def ofBitVec (n : ℕ) (v : BitVec (8 * n)) : List UInt8 := toBytes n v.toNat

/-- `from_be_bytes`: the bit vector read from `n` bytes. -/
def toBitVec (n : ℕ) (bytes : List UInt8) : BitVec (8 * n) := BitVec.ofNat (8 * n) (ofBytes bytes)

@[simp] theorem length_ofBitVec (n : ℕ) (v : BitVec (8 * n)) : (ofBitVec n v).length = n :=
  length_toBytes n _

theorem toBitVec_ofBitVec (n : ℕ) (v : BitVec (8 * n)) : toBitVec n (ofBitVec n v) = v := by
  have small : v.toNat < 256 ^ n := by
    have := v.isLt
    rwa [pow_mul] at this
  rw [toBitVec, ofBitVec, ofBytes_toBytes n _ small, BitVec.ofNat_toNat, BitVec.setWidth_eq]

theorem ofBitVec_toBitVec {n : ℕ} {bytes : List UInt8} (length : bytes.length = n) :
    ofBitVec n (toBitVec n bytes) = bytes := by
  subst length
  have small : ofBytes bytes < 2 ^ (8 * bytes.length) := by
    have := ofBytes_lt bytes
    rwa [pow_mul]
  rw [ofBitVec, toBitVec, BitVec.toNat_ofNat, Nat.mod_eq_of_lt small, toBytes_ofBytes]

end BigEndian
