import DataBroker.Lib.Method
import DataBroker.Lib.Reader
import DataBroker.Server.Payloads

/-!
# Reading payloads back

The bytes of a queue configuration and of the statistics are read back as what was written.

* `NetQueueConfig.codec`: `fromBeBytes` takes back exactly what `toBeBytes` writes, is never out of
  range, and depends only on the bytes that it says it has read.
* `StatWatcher.decodable`: the payload of `NetStats` holds the list of entries.
-/

namespace DataBroker

namespace NetQueueConfig

/-- `NetQueueConfig::to_be_bytes` -/
def toBeBytes (c : NetQueueConfig) : Bytes :=
  let flags : UInt8 := 0
  let flags := if c.autoFail.isSome then flags ||| 1 else flags
  let flags := if c.failTimeout.isSome then flags ||| 2 else flags
  let bytes := [flags]
  let bytes := match c.autoFail with
    | some autoFail => bytes ++ [if autoFail then 1 else 0]
    | none => bytes
  match c.failTimeout with
  | some failTimeout => bytes ++ BigEndian.ofBitVec 8 failTimeout
  | none => bytes

/-- `bytes[lo..hi]`, which panics where the range is not inside. -/
def slice (bytes : Bytes) (lo hi : ℕ) : Method Unit IoError Bytes :=
  Method.unwrap (if lo ≤ hi ∧ hi ≤ bytes.length then some ((bytes.take hi).drop lo) else none)

/-- `fromBeBytes` with the indexing of the source, which panics out of range. -/
def fromBeBytesIndexed (bytes : Bytes) : Method Unit IoError (NetQueueConfig × ℕ) := do
  if bytes.isEmpty then
    Method.fail (invalidData "empty bytes")
  else do
    let flags ← Method.unwrap bytes[0]?
    let offset := 1
    let (autoFail, offset) ←
      if flags &&& 1 ≠ 0 then
        if bytes.length < 1 + offset then
          Method.fail (invalidData "invalid bytes auto_success")
        else do
          let byte ← Method.unwrap bytes[offset]?
          pure (some (byte != 0), offset + 1)
      else pure (none, offset)
    let (failTimeout, offset) ←
      if flags &&& 2 ≠ 0 then
        if bytes.length < 8 + offset then
          Method.fail (invalidData "invalid bytes success_timeout")
        else do
          let word ← slice bytes offset (offset + 8)
          -- `try_into` to an array of eight bytes
          let word ← Method.unwrap (if word.length = 8 then some word else none)
          pure (some (BigEndian.toBitVec 8 word), offset + 8)
      else pure (none, offset)
    return (⟨autoFail, failTimeout⟩, offset)

/-- The bytes of the first field, which the first flag announces. -/
def AutoFailField (flags : UInt8) (bytes : Bytes) : Option Bool → Prop
  | none => flags &&& 1 = 0 ∧ bytes = []
  | some autoFail => flags &&& 1 ≠ 0 ∧ ∃ byte, bytes = [byte] ∧ autoFail = (byte != 0)

/-- The bytes of the second field, which the second flag announces. -/
def FailTimeoutField (flags : UInt8) (bytes : Bytes) : Option U64 → Prop
  | none => flags &&& 2 = 0 ∧ bytes = []
  | some failTimeout =>
    flags &&& 2 ≠ 0 ∧ bytes.length = 8 ∧ failTimeout = BigEndian.toBitVec 8 bytes

variable {flags : UInt8} {bytes auto timeout : Bytes} {c : NetQueueConfig} {k : ℕ}

theorem ok_bind {ε α β : Type} (a : α) (f : α → Except ε β) : (Except.ok a >>= f) = f a := rfl

theorem error_bind {ε α β : Type} (e : ε) (f : α → Except ε β) :
    (Except.error e >>= f) = Except.error e := rfl

/-! ### One equation for each shape -/

section Shapes

variable {byte : UInt8} {rest : Bytes}

theorem fromBeBytes_neither (no_auto : flags &&& 1 = 0) (no_timeout : flags &&& 2 = 0) :
    fromBeBytes (flags :: rest) = .ok (⟨none, none⟩, 1) := by
  simp [fromBeBytes, no_auto, no_timeout, ok_bind]

theorem fromBeBytes_timeout (no_auto : flags &&& 1 = 0) (has_timeout : flags &&& 2 ≠ 0) :
    fromBeBytes (flags :: rest) =
      if rest.length < 8 then .error (invalidData "invalid bytes success_timeout")
      else .ok (⟨none, some (BigEndian.toBitVec 8 (rest.take 8))⟩, 9) := by
  by_cases short : rest.length < 8
  · have short' : rest.length + 1 < 9 := by omega
    simp [fromBeBytes, no_auto, has_timeout, ok_bind, short, short']
  · have long : ¬ rest.length + 1 < 9 := by omega
    simp [fromBeBytes, no_auto, has_timeout, ok_bind, short, long]

theorem fromBeBytes_short (has_auto : flags &&& 1 ≠ 0) :
    fromBeBytes [flags] = .error (invalidData "invalid bytes auto_success") := by
  simp [fromBeBytes, has_auto, error_bind]

theorem fromBeBytes_auto (has_auto : flags &&& 1 ≠ 0) (no_timeout : flags &&& 2 = 0) :
    fromBeBytes (flags :: byte :: rest) = .ok (⟨some (byte != 0), none⟩, 2) := by
  have inside : ¬ rest.length + 1 + 1 < 2 := by omega
  simp [fromBeBytes, has_auto, no_timeout, ok_bind, inside]

theorem fromBeBytes_both (has_auto : flags &&& 1 ≠ 0) (has_timeout : flags &&& 2 ≠ 0) :
    fromBeBytes (flags :: byte :: rest) =
      if rest.length < 8 then .error (invalidData "invalid bytes success_timeout")
      else .ok (⟨some (byte != 0), some (BigEndian.toBitVec 8 (rest.take 8))⟩, 10) := by
  have inside : ¬ rest.length + 1 + 1 < 2 := by omega
  by_cases short : rest.length < 8
  · have short' : rest.length + 1 + 1 < 10 := by omega
    simp [fromBeBytes, has_auto, has_timeout, ok_bind, inside, short, short']
  · have long : ¬ rest.length + 1 + 1 < 10 := by omega
    simp [fromBeBytes, has_auto, has_timeout, ok_bind, inside, short, long]

end Shapes

theorem fromBeBytes_fields (first : AutoFailField flags auto c.autoFail)
    (second : FailTimeoutField flags timeout c.failTimeout) (rest : Bytes) :
    fromBeBytes (flags :: (auto ++ timeout) ++ rest) =
      .ok (c, (flags :: (auto ++ timeout)).length) := by
  obtain ⟨_ | autoFail, _ | failTimeout⟩ := c
  · obtain ⟨no_auto, rfl⟩ := first
    obtain ⟨no_timeout, rfl⟩ := second
    exact fromBeBytes_neither no_auto no_timeout
  · obtain ⟨no_auto, rfl⟩ := first
    obtain ⟨has_timeout, length, rfl⟩ := second
    rw [List.nil_append, List.cons_append, fromBeBytes_timeout no_auto has_timeout, if_neg,
      List.take_left' length, List.length_cons, length]
    rw [List.length_append]
    omega
  · obtain ⟨has_auto, byte, rfl, rfl⟩ := first
    obtain ⟨no_timeout, rfl⟩ := second
    exact fromBeBytes_auto has_auto no_timeout
  · obtain ⟨has_auto, byte, rfl, rfl⟩ := first
    obtain ⟨has_timeout, length, rfl⟩ := second
    rw [List.singleton_append, List.cons_append, List.cons_append,
      fromBeBytes_both has_auto has_timeout, if_neg, List.take_left' length, List.length_cons,
      List.length_cons, length]
    rw [List.length_append]
    omega

/-- What is accepted begins with a byte of flags and the fields that these announce. -/
theorem fields_of_fromBeBytes (accepted : fromBeBytes bytes = .ok (c, k)) :
    ∃ flags auto timeout rest, bytes = flags :: (auto ++ timeout) ++ rest ∧
      k = (flags :: (auto ++ timeout)).length ∧ AutoFailField flags auto c.autoFail ∧
      FailTimeoutField flags timeout c.failTimeout := by
  cases bytes with
  | nil => cases accepted
  | cons flags rest =>
    by_cases has_auto : flags &&& 1 = 0
    · by_cases has_timeout : flags &&& 2 = 0
      · rw [fromBeBytes_neither has_auto has_timeout] at accepted
        obtain ⟨rfl, rfl⟩ := Prod.mk.inj (Except.ok.inj accepted)
        exact ⟨flags, [], [], rest, rfl, rfl, ⟨has_auto, rfl⟩, ⟨has_timeout, rfl⟩⟩
      · rw [fromBeBytes_timeout has_auto has_timeout] at accepted
        split_ifs at accepted with short
        obtain ⟨rfl, rfl⟩ := Prod.mk.inj (Except.ok.inj accepted)
        have length : (rest.take 8).length = 8 := List.length_take_of_le (by omega)
        refine ⟨flags, [], rest.take 8, rest.drop 8, ?_, ?_, ⟨has_auto, rfl⟩, has_timeout, length,
          rfl⟩
        · simp
        · simp [length]
    · cases rest with
      | nil =>
        rw [fromBeBytes_short has_auto] at accepted
        cases accepted
      | cons byte rest =>
        by_cases has_timeout : flags &&& 2 = 0
        · rw [fromBeBytes_auto has_auto has_timeout] at accepted
          obtain ⟨rfl, rfl⟩ := Prod.mk.inj (Except.ok.inj accepted)
          exact ⟨flags, [byte], [], rest, rfl, rfl, ⟨has_auto, byte, rfl, rfl⟩, ⟨has_timeout, rfl⟩⟩
        · rw [fromBeBytes_both has_auto has_timeout] at accepted
          split_ifs at accepted with short
          obtain ⟨rfl, rfl⟩ := Prod.mk.inj (Except.ok.inj accepted)
          have length : (rest.take 8).length = 8 := List.length_take_of_le (by omega)
          refine ⟨flags, [byte], rest.take 8, rest.drop 8, ?_, ?_, ⟨has_auto, byte, rfl, rfl⟩,
            has_timeout, length, rfl⟩
          · simp
          · simp [length]

theorem fields_toBeBytes (c : NetQueueConfig) : ∃ flags auto timeout,
    c.toBeBytes = flags :: (auto ++ timeout) ∧ AutoFailField flags auto c.autoFail ∧
      FailTimeoutField flags timeout c.failTimeout := by
  obtain ⟨_ | autoFail, _ | failTimeout⟩ := c
  · exact ⟨0, [], [], rfl, ⟨by decide, rfl⟩, ⟨by decide, rfl⟩⟩
  · exact ⟨0 ||| 2, [], BigEndian.ofBitVec 8 failTimeout, rfl, ⟨by decide, rfl⟩, by decide,
      BigEndian.length_ofBitVec 8 _, (BigEndian.toBitVec_ofBitVec 8 _).symm⟩
  · exact ⟨0 ||| 1, [if autoFail then 1 else 0], [], rfl,
      ⟨by decide, _, rfl, by cases autoFail <;> rfl⟩, ⟨by decide, rfl⟩⟩
  · exact ⟨0 ||| 1 ||| 2, [if autoFail then 1 else 0], BigEndian.ofBitVec 8 failTimeout, rfl,
      ⟨by decide, _, rfl, by cases autoFail <;> rfl⟩, by decide, BigEndian.length_ofBitVec 8 _,
      (BigEndian.toBitVec_ofBitVec 8 _).symm⟩

theorem fromBeBytes_toBeBytes (c : NetQueueConfig) (rest : Bytes) :
    fromBeBytes (c.toBeBytes ++ rest) = .ok (c, c.toBeBytes.length) := by
  obtain ⟨flags, auto, timeout, bytes, first, second⟩ := c.fields_toBeBytes
  rw [bytes]
  exact fromBeBytes_fields first second rest

/-- The bytes that were read decide the result. -/
theorem fromBeBytes_front (accepted : fromBeBytes bytes = .ok (c, k)) :
    k ≤ bytes.length ∧ ∀ rest, fromBeBytes (bytes.take k ++ rest) = .ok (c, k) := by
  obtain ⟨flags, auto, timeout, more, rfl, rfl, first, second⟩ := fields_of_fromBeBytes accepted
  rw [List.take_left]
  exact ⟨by simp, fromBeBytes_fields first second⟩

/-- A part of what `toBeBytes` writes is not accepted. -/
theorem fromBeBytes_truncated {n : ℕ} (short : n < c.toBeBytes.length) :
    ∃ error, fromBeBytes (c.toBeBytes.take n) = .error error := by
  cases result : fromBeBytes (c.toBeBytes.take n) with
  | error error => exact ⟨error, rfl⟩
  | ok accepted =>
    obtain ⟨c', k⟩ := accepted
    obtain ⟨inside, decided⟩ := fromBeBytes_front result
    have below : k ≤ n := inside.trans (List.length_take_le _ _)
    have all := decided (c.toBeBytes.drop k)
    rw [List.take_take, Nat.min_eq_left below, List.take_append_drop] at all
    have whole := fromBeBytes_toBeBytes c []
    rw [List.append_nil, all] at whole
    have := congrArg Prod.snd (Except.ok.inj whole)
    dsimp only at this
    omega

/-- The indexing never gets out of range. -/
theorem run_fromBeBytesIndexed (bytes : Bytes) : (fromBeBytesIndexed bytes).run () =
    match fromBeBytes bytes with
    | .ok result => (.ok result, ())
    | .error error => (.err error, ()) := by
  cases bytes with
  | nil => rfl
  | cons flags rest =>
    by_cases has_auto : flags &&& 1 = 0
    · by_cases has_timeout : flags &&& 2 = 0
      · rw [fromBeBytes_neither has_auto has_timeout]
        simp [fromBeBytesIndexed, has_auto, has_timeout, Method.run_bind]
      · rw [fromBeBytes_timeout has_auto has_timeout]
        by_cases long : 8 ≤ rest.length
        · have enough : ¬ rest.length + 1 < 9 := by omega
          rw [if_neg (Nat.not_lt_of_le long)]
          simp [fromBeBytesIndexed, has_auto, has_timeout, Method.run_bind, slice, long, enough]
        · have short : rest.length + 1 < 9 := by omega
          rw [if_pos (Nat.lt_of_not_le long)]
          simp [fromBeBytesIndexed, has_auto, has_timeout, Method.run_bind, short]
    · cases rest with
      | nil =>
        rw [fromBeBytes_short has_auto]
        simp [fromBeBytesIndexed, has_auto, Method.run_bind]
      | cons byte rest =>
        have inside : ¬ rest.length + 1 + 1 < 2 := by omega
        by_cases has_timeout : flags &&& 2 = 0
        · rw [fromBeBytes_auto has_auto has_timeout]
          simp [fromBeBytesIndexed, has_auto, has_timeout, Method.run_bind, inside]
        · rw [fromBeBytes_both has_auto has_timeout]
          by_cases long : 8 ≤ rest.length
          · have enough : ¬ rest.length + 1 + 1 < 10 := by omega
            rw [if_neg (Nat.not_lt_of_le long)]
            simp [fromBeBytesIndexed, has_auto, has_timeout, Method.run_bind, slice, inside, long,
              enough]
          · have short : rest.length + 1 + 1 < 10 := by omega
            rw [if_pos (Nat.lt_of_not_le long)]
            simp [fromBeBytesIndexed, has_auto, has_timeout, Method.run_bind, inside, short]

/-- The codec of the queue configuration, read byte by byte or by index. -/
theorem codec (c : NetQueueConfig) (bytes : Bytes) :
    (∀ rest, fromBeBytes (c.toBeBytes ++ rest) = .ok (c, c.toBeBytes.length)) ∧
      (∀ n < c.toBeBytes.length, ∃ error, fromBeBytes (c.toBeBytes.take n) = .error error) ∧
      ((fromBeBytesIndexed bytes).run ()).1 ≠ .panic ∧
      (∀ result, fromBeBytes bytes = .ok result →
        (fromBeBytesIndexed bytes).run () = (.ok result, ())) ∧
      (∀ error, fromBeBytes bytes = .error error →
        (fromBeBytesIndexed bytes).run () = (.err error, ())) ∧
      ∀ c' k, fromBeBytes bytes = .ok (c', k) → k ≤ bytes.length ∧
        (∀ rest, fromBeBytes (bytes.take k ++ rest) = .ok (c', k)) ∧
        fromBeBytes c'.toBeBytes = .ok (c', c'.toBeBytes.length) := by
  refine ⟨fromBeBytes_toBeBytes c, fun n => fromBeBytes_truncated, ?_, fun result decoded => ?_,
    fun error refused => ?_, fun c' k accepted => ?_⟩
  · rw [run_fromBeBytesIndexed]
    cases fromBeBytes bytes <;> nofun
  · rw [run_fromBeBytesIndexed, decoded]
  · rw [run_fromBeBytesIndexed, refused]
  · obtain ⟨inside, decided⟩ := fromBeBytes_front accepted
    have again := fromBeBytes_toBeBytes c' []
    rw [List.append_nil] at again
    exact ⟨inside, decided, again⟩

end NetQueueConfig

/-! ## The statistics -/

/-- The fields fit where the payload has room for them: 64-bit counts, and a name whose length fits
in two bytes. -/
structure StatMessage.Fits (s : StatMessage) : Prop where
  queueName : (Utf8.encode s.queueName).length < 2 ^ 16
  totalMessages : s.totalMessages < 2 ^ 64
  totalBytes : s.totalBytes < 2 ^ 64
  totalMessagesLocked : s.totalMessagesLocked < 2 ^ 64
  totalBytesLocked : s.totalBytesLocked < 2 ^ 64

/-- How a client reads an entry. -/
def StatMessage.read : Reader StatMessage := do
  let nameLength ← Reader.number 2
  let name ← Reader.bytes nameLength
  let queueName ← Reader.require (Utf8.decode name)
  let totalMessages ← Reader.number 8
  let totalBytes ← Reader.number 8
  let totalMessagesLocked ← Reader.number 8
  let totalBytesLocked ← Reader.number 8
  return ⟨queueName, totalMessages, totalBytes, totalMessagesLocked, totalBytesLocked⟩

/-- How a client reads the payload: the number of entries, and each behind its length, which has to
be the length of the entry. -/
def StatWatcher.read : Reader StatWatcher := do
  let count ← Reader.number 4
  (StatMessage.read.block 4).times count

theorem StatMessage.Fits.reads {s : StatMessage} (fits : s.Fits) :
    StatMessage.read.Reads s.toBytes s := by
  have name := Reader.Reads.bytes (Utf8.encode s.queueName)
  have queueName := Reader.Reads.require (Utf8.decode_encode s.queueName)
  unfold StatMessage.toBytes StatMessage.read
  simp only [List.append_assoc]
  apply (Reader.Reads.number fits.queueName).bind
  apply name.bind
  rw [← List.nil_append (BigEndian.toBytes 8 s.totalMessages ++ _)]
  apply queueName.bind
  apply (Reader.Reads.number fits.totalMessages).bind
  apply (Reader.Reads.number fits.totalBytes).bind
  apply (Reader.Reads.number fits.totalMessagesLocked).bind
  exact (Reader.Reads.number fits.totalBytesLocked).map _

theorem StatMessage.length_toBytes (s : StatMessage) :
    s.toBytes.length = 2 + (Utf8.encode s.queueName).length + 32 := by
  simp [StatMessage.toBytes]
  omega

theorem StatWatcher.reads {watcher : StatWatcher} (few : watcher.length < 2 ^ 32)
    (fits : ∀ s ∈ watcher, s.Fits) : StatWatcher.read.Reads watcher.toBytes watcher := by
  apply (Reader.Reads.number few).bind
  refine Reader.Reads.times fun s mem => (fits s mem).reads.block ?_
  have := (fits s mem).queueName
  rw [StatMessage.length_toBytes]
  omega

/-- The payload of `NetStats` is read back as the list it was written from, with every length the
right one and nothing left over, and no other list has the same payload. -/
theorem StatWatcher.decodable (watcher : StatWatcher) (few : watcher.length < 2 ^ 32)
    (fits : ∀ s ∈ watcher, s.Fits) :
    StatWatcher.read.whole watcher.toBytes = some watcher ∧
      ∀ other : StatWatcher, other.length < 2 ^ 32 → (∀ s ∈ other, s.Fits) →
        other.toBytes = watcher.toBytes → other = watcher := by
  have reads := StatWatcher.reads few fits
  refine ⟨reads.whole, fun other few' fits' same => ?_⟩
  exact (same ▸ StatWatcher.reads few' fits').injective reads

/-- Two queues. -/
theorem StatWatcher.decodable_two :
    let watcher : StatWatcher := [⟨"statq", 1, 300, 0, 64⟩, ⟨"", 0, 0, 0, 0⟩]
    StatWatcher.read.whole watcher.toBytes = some watcher :=
  (StatWatcher.decodable [⟨"statq", 1, 300, 0, 64⟩, ⟨"", 0, 0, 0, 0⟩] (by decide)
    (List.forall_mem_cons.2 ⟨⟨by decide, by decide, by decide, by decide, by decide⟩,
      List.forall_mem_singleton.2 ⟨by decide, by decide, by decide, by decide, by decide⟩⟩)).1

end DataBroker
