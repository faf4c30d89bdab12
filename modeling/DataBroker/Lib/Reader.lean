import DataBroker.Lib.BigEndian

/-!
# Reading a record

A `Reader` takes a value off the front of a byte string, or refuses it. `Reads r bytes a` says that
`r` finds `a` in `bytes`, whatever follows them; the rules below put the readings of the parts of a
record together. Where every value is read from its encoding, no two values share one
(`Reads.injective`).
-/

/-- A value off the front of a byte string, and the rest of it. -/
abbrev Reader (α : Type) := StateT (List UInt8) Option α

namespace Reader

variable {α β : Type}

def bytes (n : ℕ) : Reader (List UInt8) := fun input =>
  if input.length < n then none else some (input.take n, input.drop n)

/-- A big-endian number of `n` bytes. -/
def number (n : ℕ) : Reader ℕ := do return BigEndian.ofBytes (← bytes n)

def require (a : Option α) : Reader α := fun input => a.map fun a => (a, input)

/-- The value that takes up the whole input. -/
def whole (r : Reader α) (input : List UInt8) : Option α :=
  match r.run input with
  | some (a, []) => some a
  | _ => none

/-- A value behind its length in `n` bytes, which has to be the right one. -/
def block (n : ℕ) (r : Reader α) : Reader α := do
  let length ← number n
  require (r.whole (← bytes length))

def times (r : Reader α) : ℕ → Reader (List α)
  | 0 => pure []
  | n + 1 => do
    let a ← r
    let as ← r.times n
    return a :: as

/-- The reader finds `a` in these bytes, whatever follows them. -/
def Reads (r : Reader α) (encoded : List UInt8) (a : α) : Prop :=
  ∀ rest, r.run (encoded ++ rest) = some (a, rest)

namespace Reads

variable {r : Reader α} {f : α → Reader β} {encoded encoded' : List UInt8} {a : α} {b : β}

theorem pure (a : α) : Reads (Pure.pure a) [] a := fun _ => rfl

theorem bind (h : r.Reads encoded a) (h' : (f a).Reads encoded' b) :
    (r >>= f).Reads (encoded ++ encoded') b := by
  intro rest
  rw [StateT.run_bind, List.append_assoc, h]
  exact h' rest

theorem map (h : r.Reads encoded a) (g : α → β) :
    (r >>= fun a => Pure.pure (g a)).Reads encoded (g a) := by
  have read := h.bind (f := fun a => Pure.pure (g a)) (pure (g a))
  rwa [List.append_nil] at read

theorem bytes (encoded : List UInt8) : (Reader.bytes encoded.length).Reads encoded encoded := by
  intro rest
  show (if (encoded ++ rest).length < encoded.length then none else _) = _
  rw [if_neg (by rw [List.length_append]; omega), List.take_left, List.drop_left]

theorem number {n v : ℕ} (small : v < 256 ^ n) :
    (Reader.number n).Reads (BigEndian.toBytes n v) v := by
  have field := bytes (BigEndian.toBytes n v)
  rw [BigEndian.length_toBytes] at field
  have read := field.map BigEndian.ofBytes
  rwa [BigEndian.ofBytes_toBytes n v small] at read

theorem require {o : Option α} (h : o = some a) : (Reader.require o).Reads [] a := by
  intro rest
  rw [h]
  rfl

theorem whole (h : r.Reads encoded a) : r.whole encoded = some a := by
  have read := h []
  rw [List.append_nil] at read
  rw [Reader.whole, read]

theorem block {n : ℕ} (h : r.Reads encoded a) (short : encoded.length < 256 ^ n) :
    (r.block n).Reads (BigEndian.toBytes n encoded.length ++ encoded) a := by
  have content := (bytes encoded).bind (f := fun content => Reader.require (r.whole content))
    (require h.whole)
  rw [List.append_nil] at content
  exact (number short).bind content

theorem times {encode : α → List UInt8} {as : List α} (h : ∀ a ∈ as, r.Reads (encode a) a) :
    (r.times as.length).Reads (as.flatMap encode) as := by
  induction as with
  | nil => exact pure []
  | cons a as ih =>
    have rest := ih fun b mem => h b (List.mem_cons_of_mem _ mem)
    exact (h a List.mem_cons_self).bind (rest.map (a :: ·))

/-- Bytes in which two values are found hold one value. -/
theorem injective (h : r.Reads encoded a) {a' : α} (h' : r.Reads encoded a') : a = a' :=
  Option.some.inj (h.whole.symm.trans h'.whole)

end Reads

end Reader
