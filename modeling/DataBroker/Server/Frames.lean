import DataBroker.Lib.Grammar
import DataBroker.Server.Admission

/-!
# What `read_buffer` takes for a frame

A peer can send any bytes. `Frame` has what a frame consists of, with any 64 bytes for the name of
the queue, and `frameGrammar` says that `read_buffer` dispatches these and nothing else. The free
memory, which it asks for anew in each round of its loop, decides whether it refuses a payload, and
never what is taken for one.
-/

namespace DataBroker

/-- A frame with a known command and a payload that is not too large. -/
structure Frame where
  command : Request
  clientId : U128
  nameField : Bytes
  payload : Bytes
  nameFits : nameField.length = queueNameSize
  payloadFits : payload.length ≤ maxPayloadSize

namespace Frame

def encode (f : Frame) : Bytes :=
  f.command.asU8 :: (BigEndian.ofBitVec 16 f.clientId ++ (BigEndian.toBytes 8 f.payload.length ++
    (f.nameField ++ f.payload)))

/-- What the handler of the frame gets. -/
def dispatch (f : Frame) : Dispatch :=
  ⟨f.clientId, readQueueName f.nameField, f.command, BitVec.ofNat 64 f.payload.length, f.payload⟩

theorem length_encode (f : Frame) : f.encode.length = headerSize + f.payload.length := by
  have name := f.nameFits
  simp only [encode, List.length_cons, List.length_append, BigEndian.length_ofBitVec,
    BigEndian.length_toBytes, name, headerSize, prefixSize, commandSize, clientIdSize,
    payloadSizeSize]
  omega

theorem toNat_payloadSize (f : Frame) (more : Bytes) :
    (BigEndian.toBitVec 8 (slice (f.encode ++ more) (commandSize + clientIdSize)
      payloadSizeSize) : U64).toNat = f.payload.length := by
  have fits := f.payloadFits
  unfold maxPayloadSize at fits
  have field : slice (f.encode ++ more) (commandSize + clientIdSize) payloadSizeSize =
      BigEndian.toBytes 8 f.payload.length :=
    slice_field (f.command.asU8 :: BigEndian.ofBitVec 16 f.clientId)
      (f.nameField ++ f.payload ++ more) (by simp [encode])
      (by simp [commandSize, clientIdSize]) (BigEndian.length_toBytes 8 _)
  rw [field, BigEndian.toBitVec, BigEndian.ofBytes_toBytes 8 _ (by omega), BitVec.toNat_ofNat,
    Nat.mod_eq_of_lt (by omega)]

/-- No frame begins another. -/
theorem apart {f f' : Frame} {more more' : Bytes} (same : f.encode ++ more = f'.encode ++ more') :
    f = f' := by
  have size := f.toNat_payloadSize more
  rw [same, f'.toNat_payloadSize more'] at size
  have whole : f.encode.length = f'.encode.length := by rw [length_encode, length_encode, size]
  obtain ⟨command, clientId, nameField, payload, nameFits, payloadFits⟩ := f
  obtain ⟨command', clientId', nameField', payload', nameFits', payloadFits'⟩ := f'
  obtain ⟨first, rest⟩ := List.cons.inj (List.append_inj_left same whole)
  obtain ⟨id, rest⟩ := List.append_inj rest (by simp)
  obtain ⟨-, rest⟩ := List.append_inj rest (by simp)
  obtain ⟨rfl, rfl⟩ := List.append_inj rest (nameFits.trans nameFits'.symm)
  have known := congrArg Request.fromU8 first
  rw [Request.fromU8_asU8, Request.fromU8_asU8] at known
  obtain rfl := Option.some.inj known
  have read := congrArg (BigEndian.toBitVec 16) id
  rw [BigEndian.toBitVec_ofBitVec, BigEndian.toBitVec_ofBitVec] at read
  dsimp only at read
  rw [read]

end Frame

theorem Request.asU8_fromU8 {value : UInt8} {command : Request}
    (known : fromU8 value = some command) : command.asU8 = value := by
  apply UInt8.toNat_inj.1
  unfold fromU8 at known
  split at known <;> cases known <;> next code => exact code.symm

/-- What `read_buffer` has checked of a frame. -/
theorem checked_of_item {freeMemSize : ℕ} {buffer : Bytes} {d : Dispatch} {rest : Bytes}
    (found : readFrame freeMemSize buffer = .item d rest) :
    Request.fromU8 (buffer.headD 0) = some d.message.command ∧ Admits freeMemSize
      (BigEndian.toBitVec 8 (slice buffer (commandSize + clientIdSize) payloadSizeSize)).toNat := by
  unfold readFrame at found
  split at found
  · cases found
  · split at found
    · cases found
    next command known =>
      dsimp only at found
      split_ifs at found with large incomplete
      obtain ⟨rfl, -⟩ := Scan.item.inj found
      exact ⟨known, large⟩

/-- Bytes are their fields one after the other. -/
theorem fields_append {bytes : Bytes} (header : headerSize ≤ bytes.length) :
    bytes.headD 0 :: (slice bytes commandSize clientIdSize ++
      (slice bytes (commandSize + clientIdSize) payloadSizeSize ++
        (slice bytes prefixSize queueNameSize ++ bytes.drop headerSize))) = bytes := by
  have next (start length : ℕ) : slice bytes start length ++ bytes.drop (start + length) =
      bytes.drop start := by
    rw [slice, ← List.drop_drop, List.take_append_drop]
  have size : slice bytes (commandSize + clientIdSize) payloadSizeSize ++ bytes.drop prefixSize =
      bytes.drop (commandSize + clientIdSize) := next _ _
  have first : bytes.headD 0 :: bytes.drop commandSize = bytes := by
    cases bytes with
    | nil => exact absurd header (by decide)
    | cons b bytes => rfl
  rw [headerSize, next, size, next, first]

theorem length_slice {bytes : Bytes} {start length : ℕ} (inside : start + length ≤ bytes.length) :
    (slice bytes start length).length = length := by
  rw [slice, List.length_take, List.length_drop]
  omega

/-- What is dispatched is a frame at the front of the buffer. -/
theorem frame_of_item {freeMemSize : ℕ} {buffer : Bytes} {d : Dispatch} {rest : Bytes}
    (found : readFrame freeMemSize buffer = .item d rest) :
    ∃ f : Frame, d = f.dispatch ∧ buffer = f.encode ++ rest := by
  obtain ⟨known, admitted⟩ := checked_of_item found
  obtain ⟨command, payloadSize, field, complete, rfl, rfl⟩ := readFrame_item found
  change _ = some command at known
  rw [← field] at admitted
  obtain ⟨front, rest, rfl, whole⟩ : ∃ front rest, buffer = front ++ rest ∧
      front.length = headerSize + payloadSize.toNat := by
    refine ⟨_, _, (List.take_append_drop (headerSize + payloadSize.toNat) buffer).symm, ?_⟩
    rw [List.length_take]
    omega
  have header : headerSize ≤ front.length := by omega
  have inside : prefixSize ≤ front.length := (Nat.le_add_right _ _).trans header
  have idInside : commandSize + clientIdSize ≤ front.length := (Nat.le_add_right _ _).trans inside
  rw [List.take_left' whole, List.drop_left' whole] at *
  rw [headD_append (by unfold headerSize prefixSize commandSize at header; omega)] at known
  rw [slice_append inside] at field
  rw [slice_append idInside, slice_append header]
  have named : (slice front prefixSize queueNameSize).length = queueNameSize := length_slice header
  have length : payloadSize.toNat = (front.drop headerSize).length := by
    rw [List.length_drop]
    omega
  have small : (front.drop headerSize).length ≤ maxPayloadSize := by
    unfold Admits at admitted
    omega
  refine ⟨⟨command, BigEndian.toBitVec 16 (slice front commandSize clientIdSize),
    slice front prefixSize queueNameSize, front.drop headerSize, named, small⟩, ?_, ?_⟩
  · rw [Frame.dispatch, RequestMessage.new, ← field, ← length, BitVec.ofNat_toNat,
      BitVec.setWidth_eq]
  · have number : BigEndian.toBytes 8 payloadSize.toNat =
        slice front (commandSize + clientIdSize) payloadSizeSize := by
      rw [field]
      exact BigEndian.ofBitVec_toBitVec (length_slice inside)
    have id : BigEndian.ofBitVec 16 (BigEndian.toBitVec 16 (slice front commandSize clientIdSize)) =
        slice front commandSize clientIdSize :=
      BigEndian.ofBitVec_toBitVec (length_slice idInside)
    rw [Frame.encode, ← length, number, Request.asU8_fromU8 known, id, fields_append header]

/-- While `read_buffer` waits for more, no frame is complete. -/
theorem stuck_of_wait {freeMemSize : ℕ} {buffer : Bytes}
    (waiting : readFrame freeMemSize buffer = .wait) (f : Frame) : ¬ f.encode <+: buffer := by
  rintro ⟨more, rfl⟩
  have length := f.length_encode
  have size := f.toNat_payloadSize more
  have ordered : prefixSize ≤ headerSize := Nat.le_add_right _ _
  rcases incomplete_of_wait waiting with short | short
  · rw [List.length_append] at short
    omega
  · rw [size, List.length_append] at short
    omega

/-- The frames as `read_buffer` finds them, with the free memory that it sees. -/
def frameGrammar : Grammar UInt8 Dispatch Frame ErrorCode ℕ where
  encode := Frame.encode
  decode := Frame.dispatch
  scan := readFrame
  nonempty _ := List.cons_ne_nil _ _
  apart _ _ _ _ := Frame.apart
  scan_item _ _ _ _ := frame_of_item
  scan_wait _ _ := stuck_of_wait

/-! ## Why a connection ends -/

/-- Why `read_buffer` turns a buffer away. -/
def TurnsAway (freeMemSize : ℕ) (buffer : Bytes) (error : ErrorCode) : Prop :=
  prefixSize ≤ buffer.length ∧
    (Request.fromU8 (buffer.headD 0) = none ∧ error = .unknownRequestType ∨
      (Request.fromU8 (buffer.headD 0)).isSome ∧ error = .payloadTooLarge ∧ ¬ Admits freeMemSize
        (BigEndian.toBitVec 8 (slice buffer (commandSize + clientIdSize) payloadSizeSize)).toNat)

theorem turnsAway_of_reject {freeMemSize : ℕ} {buffer : Bytes} {error : ErrorCode}
    (rejected : readFrame freeMemSize buffer = .reject error) :
    TurnsAway freeMemSize buffer error := by
  unfold readFrame at rejected
  split at rejected
  · cases rejected
  next long =>
    refine ⟨not_lt.1 long, ?_⟩
    split at rejected
    next unknown =>
      cases rejected
      exact .inl ⟨unknown, rfl⟩
    next command known =>
      dsimp only at rejected
      split_ifs at rejected with large incomplete
      cases rejected
      exact .inr ⟨Option.isSome_of_eq_some known, rfl, not_not.2 large⟩

/-- A buffer with the beginning of a frame in it is not refused for its command. -/
theorem not_unknown {freeMemSize : ℕ} {buffer : Bytes} {frames : List Frame}
    (within : buffer <+: frameGrammar.encodeAll frames) :
    ¬ TurnsAway freeMemSize buffer .unknownRequestType := by
  rintro ⟨long, ⟨refused, -⟩ | ⟨-, other, -⟩⟩
  · cases frames with
    | nil =>
      rw [List.prefix_nil.1 within] at long
      exact absurd long (by decide)
    | cons f frames =>
      obtain ⟨more, whole⟩ := within
      have positive : 0 < buffer.length := Nat.lt_of_lt_of_le (by decide) long
      have first : buffer.headD 0 = f.command.asU8 := by
        rw [← headD_append positive more, whole]
        rfl
      rw [first, Request.fromU8_asU8] at refused
      cases refused
  · cases other

/-! ## Runs of the loop -/

/-- `read_buffer` on what its reads bring and what `get_free_mem_size` is at each look at the
buffer. -/
def readFrames (turns : List (Receiver.Turn UInt8 ℕ)) : Receiver UInt8 Dispatch ErrorCode ℕ :=
  Transition.run (Receiver.step readFrame) .start turns

theorem readFrames_sound (turns : List (Receiver.Turn UInt8 ℕ)) :
    (readFrames turns).Sound frameGrammar := Receiver.sound_run turns

/-- Whatever a peer sends, in whatever pieces and with whatever memory free at each look: the bytes
received are those of the frames dispatched, one after the other, and of the buffer; the connection
waits only where no frame is complete, and is refused only for what is in the buffer at that moment;
a connection that has received more and waits has dispatched the same frames first; and one to which
only frames were sent dispatches the first ones of them, and is never refused for its command. -/
theorem readFrames_parses (turns : List (Receiver.Turn UInt8 ℕ)) :
    (∃ frames : List Frame, (readFrames turns).items = frames.map Frame.dispatch ∧
      (readFrames turns).received = frames.flatMap Frame.encode ++ (readFrames turns).buffer) ∧
    ((readFrames turns).stance = .reading →
      ∀ f : Frame, ¬ f.encode <+: (readFrames turns).buffer) ∧
    (∀ freeMemSize error, (readFrames turns).stance = .refused freeMemSize error →
      TurnsAway freeMemSize (readFrames turns).buffer error) ∧
    (∀ turns', (readFrames turns).received <+: (readFrames turns').received →
      (readFrames turns').stance = .reading → (readFrames turns).items <+: (readFrames turns').items) ∧
    ∀ sent : List Frame, (readFrames turns).received <+: sent.flatMap Frame.encode →
      (readFrames turns).items <+: sent.map Frame.dispatch ∧
      ∀ freeMemSize, (readFrames turns).stance ≠ .refused freeMemSize .unknownRequestType := by
  have sound := readFrames_sound turns
  obtain ⟨frames, parsed⟩ := sound.parsed
  refine ⟨⟨frames, parsed.items, parsed.stream⟩, sound.stuck, fun freeMemSize error refused => ?_,
    fun turns' further waiting => ?_, fun sent within => ⟨?_, fun freeMemSize refused => ?_⟩⟩
  · exact turnsAway_of_reject (sound.refused freeMemSize error refused)
  · exact Receiver.items_prefix sound (readFrames_sound turns') further waiting
  · rw [parsed.items]
    exact (parsed.prefix_sent within).map Frame.dispatch
  · obtain ⟨rest, rfl⟩ := parsed.prefix_sent within
    have left : (readFrames turns).buffer <+: frameGrammar.encodeAll rest := by
      rw [parsed.stream, List.flatMap_append] at within
      exact (List.prefix_append_right_inj _).1 within
    exact not_unknown left (turnsAway_of_reject (sound.refused _ _ refused))

/-- Memory is taken by others while a frame of two bytes comes in: the frame was let in at the first
look, and is refused when it is complete. -/
theorem readFrames_parses_memory_taken :
    TurnsAway 4 sampleRequest.encode .payloadTooLarge := by
  have refused := (readFrames_parses [.read (sampleRequest.encode.take 30), .look usizeMax,
    .read (sampleRequest.encode.drop 30), .look 4]).2.2.1 4 .payloadTooLarge (by decide +kernel)
  exact refused

end DataBroker
