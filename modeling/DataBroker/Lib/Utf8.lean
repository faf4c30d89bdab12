import Mathlib.Data.List.DropRight

/-!
# Strings on the wire

The UTF-8 bytes of a string, reading them back, and the padding with NUL bytes that a fixed-width
field needs.
-/

namespace Utf8

/-- The bytes of a string. -/
def encode (s : String) : List UInt8 := s.toByteArray.data.toList

/-- `String::from_utf8`: the string with these bytes, if there is one. -/
def decode (bytes : List UInt8) : Option String := String.fromUTF8? ⟨bytes.toArray⟩

/-- `trim_end_matches('\0')`. -/
def trimEndNul (s : String) : String := String.ofList (s.toList.rdropWhile (· = '\x00'))

/-- A field without the NUL bytes at its end. -/
def trimNul (bytes : List UInt8) : List UInt8 := bytes.rdropWhile (· = 0)

theorem decode_encode (s : String) : decode (encode s) = some s := by
  have same : (⟨s.toByteArray.data.toList.toArray⟩ : ByteArray) = s.toByteArray := by
    rw [Array.toArray_toList]
  rw [decode, encode, same, String.fromUTF8?, dif_pos s.isValidUTF8]
  rfl

theorem length_encode (s : String) : (encode s).length = s.utf8ByteSize := by
  rw [← String.size_toByteArray]
  rfl

theorem encode_append (s t : String) : encode (s ++ t) = encode s ++ encode t := by
  rw [encode, String.toByteArray_append, ByteArray.data_append, Array.toList_append]
  rfl

theorem encode_nul (n : ℕ) : encode (String.ofList (List.replicate n '\x00')) = List.replicate n 0 := by
  rw [encode, String.toByteArray_ofList, List.utf8Encode, List.data_toByteArray]
  have nul : String.utf8EncodeChar '\x00' = [0] := by decide
  simp [List.flatMap_replicate, nul, List.flatten_replicate_singleton]

/-- Elements that are dropped make no difference at the end. -/
theorem rdropWhile_append_replicate {α : Type*} {p : α → Bool} {a : α} (dropped : p a = true)
    (as : List α) (n : ℕ) : (as ++ List.replicate n a).rdropWhile p = as.rdropWhile p := by
  induction n with
  | zero => rw [List.replicate_zero, List.append_nil]
  | succ n ih =>
    rw [List.replicate_succ', ← List.append_assoc, List.rdropWhile_concat_pos _ _ _ dropped, ih]

/-- Padding is trimmed off again. -/
theorem trimEndNul_append {s : String} (trimmed : s.toList.getLast? ≠ some '\x00') (n : ℕ) :
    trimEndNul (s ++ String.ofList (List.replicate n '\x00')) = s := by
  have kept : s.toList.rdropWhile (· = '\x00') = s.toList := by
    refine List.rdropWhile_eq_self_iff.2 fun nonempty nul => trimmed ?_
    rw [List.getLast?_eq_some_getLast nonempty]
    simpa using nul
  rw [trimEndNul, String.toList_append, String.toList_ofList, rdropWhile_append_replicate (by simp),
    kept, String.ofList_toList]

/-- A padded field reads back as the string that was put there. -/
theorem decode_padded {s : String} (trimmed : s.toList.getLast? ≠ some '\x00') (n : ℕ) :
    (decode (encode s ++ List.replicate n 0)).map trimEndNul = some s := by
  rw [← encode_nul, ← encode_append, decode_encode, Option.map_some, trimEndNul_append trimmed]

/-! ## What trimming loses -/

theorem encode_of_decode {bytes : List UInt8} {s : String} (read : decode bytes = some s) :
    encode s = bytes := by
  rw [decode, String.fromUTF8?] at read
  split_ifs at read
  obtain rfl := Option.some.inj read
  rfl

/-- A string is the trimmed string and NUL characters behind it. -/
theorem trimEndNul_padded (s : String) :
    ∃ n, trimEndNul s ++ String.ofList (List.replicate n '\x00') = s := by
  have cut := List.rdropWhile_append_rtakeWhile (p := (· = '\x00')) (l := s.toList)
  have tail : s.toList.rtakeWhile (· = '\x00') =
      List.replicate (s.toList.rtakeWhile (· = '\x00')).length '\x00' :=
    List.eq_replicate_of_mem fun c mem => by simpa using List.mem_rtakeWhile_imp mem
  refine ⟨(s.toList.rtakeWhile (· = '\x00')).length, ?_⟩
  rw [trimEndNul, ← String.ofList_append, ← tail, cut, String.ofList_toList]

/-- Fields that read as one string are the same up to NUL bytes at their ends. -/
theorem trimNul_eq_of_trimEndNul {bytes bytes' : List UInt8} {s t : String}
    (read : decode bytes = some s) (read' : decode bytes' = some t)
    (same : trimEndNul s = trimEndNul t) : trimNul bytes = trimNul bytes' := by
  have padded : ∀ {bytes : List UInt8} {s : String}, decode bytes = some s →
      trimNul bytes = trimNul (encode (trimEndNul s)) := by
    intro bytes s read
    obtain ⟨n, eq⟩ := trimEndNul_padded s
    rw [← encode_of_decode read]
    nth_rewrite 1 [← eq]
    rw [encode_append, encode_nul]
    exact rdropWhile_append_replicate (by simp) _ n
  rw [padded read, padded read', same]

end Utf8
