import DataBroker.Lib.Framing
import DataBroker.Lib.Utf8
import DataBroker.Memory.Layout
import DataBroker.Server.Response

/-!
# Requests

A request frame is a command byte, the client's id, the length of the payload, the name of the
queue in a field of 64 bytes, and the payload. `read_buffer` appends what it reads to its buffer
and dispatches every complete frame at the front. It looks at the first 25 bytes before the frame
is complete, and ends the connection on an unknown command or a payload that is too large.

`readBuffer_encoded` and `readBuffer_flatten` say that requests come out as they were sent and that
it makes no difference how the stream was cut into reads.
-/

namespace DataBroker

def commandSize : ℕ := 1
def payloadSizeSize : ℕ := 8
def clientIdSize : ℕ := 16
def queueNameSize : ℕ := 64
def maxPayloadSize : ℕ := 4 * 1024 * 1024 * 1024

/-- The bytes before the queue name. -/
def prefixSize : ℕ := commandSize + clientIdSize + payloadSizeSize

/-- The bytes before the payload. -/
def headerSize : ℕ := prefixSize + queueNameSize

/-- `(size as f64 * SIZE_FACTOR) as usize` with the factor 2.25. The product is exact for the sizes
that occur, all far below `2 ^ 50`, and the cast drops its fraction. -/
def scaled (size : ℕ) : ℕ := 9 * size / 4

inductive Request where
  | enqueue
  | dequeue
  | createQ
  | deleteQ
  | listM
  | deleteM
  | succeeded
  | failed
  | requeue
  | updateM
  | updateQ
  | netStats
deriving DecidableEq, Repr

namespace Request

def asU8 : Request → UInt8
  | enqueue => 1
  | dequeue => 2
  | createQ => 3
  | deleteQ => 4
  | listM => 5
  | deleteM => 6
  | succeeded => 7
  | failed => 8
  | requeue => 9
  | updateM => 10
  | updateQ => 11
  | netStats => 12

def fromU8 (value : UInt8) : Option Request :=
  match value.toNat with
  | 1 => some enqueue
  | 2 => some dequeue
  | 3 => some createQ
  | 4 => some deleteQ
  | 5 => some listM
  | 6 => some deleteM
  | 7 => some succeeded
  | 8 => some failed
  | 9 => some requeue
  | 10 => some updateM
  | 11 => some updateQ
  | 12 => some netStats
  | _ => none

theorem fromU8_asU8 (command : Request) : fromU8 command.asU8 = some command := by
  cases command <;> rfl

end Request

structure RequestMessage where
  command : Request
  payloadSize : U64
  payload : Bytes
deriving DecidableEq, Repr

/-- `bytes[start..start + length]`. -/
def slice (bytes : Bytes) (start length : ℕ) : Bytes := (bytes.drop start).take length

/-- `RequestMessage::new`, called with the bytes of one frame. -/
def RequestMessage.new (command : Request) (bytes : Bytes) : RequestMessage where
  command := command
  payloadSize := BigEndian.toBitVec 8 (slice bytes (commandSize + clientIdSize) payloadSizeSize)
  payload := bytes.drop headerSize

/-- A request on its way to its handler. -/
structure Dispatch where
  clientId : U128
  queueName : String
  message : RequestMessage
deriving DecidableEq, Repr

/-- The name in its field; one that is not UTF-8 becomes the empty name. -/
def readQueueName (field : Bytes) : String := ((Utf8.decode field).map Utf8.trimEndNul).getD ""

/-- One round of the loop over the buffer. -/
def readFrame (freeMemSize : ℕ) (buffer : Bytes) : Scan UInt8 Dispatch ErrorCode :=
  if buffer.length < prefixSize then .wait
  else
    match Request.fromU8 (buffer.headD 0) with
    | none => .reject .unknownRequestType
    | some command =>
      let clientId : U128 := BigEndian.toBitVec 16 (slice buffer commandSize clientIdSize)
      let payloadSize : U64 :=
        BigEndian.toBitVec 8 (slice buffer (commandSize + clientIdSize) payloadSizeSize)
      if payloadSize.toNat > maxPayloadSize ∨ scaled payloadSize.toNat ≥ freeMemSize then
        .reject .payloadTooLarge
      else if buffer.length < payloadSize.toNat + headerSize then .wait
      else
        let queueName := readQueueName (slice buffer prefixSize queueNameSize)
        let frame := buffer.take (headerSize + payloadSize.toNat)
        .item ⟨clientId, queueName, .new command frame⟩
          (buffer.drop (headerSize + payloadSize.toNat))

/-! ## Taking frames off the buffer -/

theorem slice_append {bytes : Bytes} {start length : ℕ} (inside : start + length ≤ bytes.length)
    (more : Bytes) : slice (bytes ++ more) start length = slice bytes start length := by
  unfold slice
  rw [List.drop_append_of_le_length (by omega)]
  exact List.take_append_of_le_length (by rw [List.length_drop]; omega)

theorem headD_append {bytes : Bytes} (nonempty : 0 < bytes.length) (more : Bytes) :
    (bytes ++ more).headD 0 = bytes.headD 0 := by
  cases bytes with
  | nil => cases nonempty
  | cons b bytes => rfl

/-- What the first 25 bytes decide: whether the frame is rejected, and its size. -/
theorem readFrame_append {freeMemSize : ℕ} {buffer : Bytes} (more : Bytes)
    (known : prefixSize ≤ buffer.length) :
    (∀ error, readFrame freeMemSize buffer = .reject error →
      readFrame freeMemSize (buffer ++ more) = .reject error) ∧
    ∀ value rest, readFrame freeMemSize buffer = .item value rest →
      readFrame freeMemSize (buffer ++ more) = .item value (rest ++ more) ∧
        rest.length < buffer.length := by
  have long : ¬ (buffer ++ more).length < prefixSize := by rw [List.length_append]; omega
  have short : ¬ buffer.length < prefixSize := by omega
  unfold prefixSize commandSize clientIdSize payloadSizeSize at known
  unfold readFrame
  rw [if_neg long, if_neg short, headD_append (by omega),
    slice_append (by unfold commandSize clientIdSize; omega),
    slice_append (by unfold commandSize clientIdSize payloadSizeSize; omega)]
  cases Request.fromU8 (buffer.headD 0) with
  | none => simp
  | some command =>
    dsimp only
    generalize BigEndian.toBitVec 8 (slice buffer _ _) = payloadSize
    split_ifs with large incomplete incomplete' incomplete'
    · simp
    · simp
    · simp
    · rw [List.length_append] at incomplete'
      omega
    · have size : headerSize + payloadSize.toNat ≤ buffer.length := by omega
      have positive : 0 < headerSize := by decide
      have named : prefixSize + queueNameSize ≤ buffer.length := by
        unfold headerSize at size
        omega
      rw [slice_append named, List.take_append_of_le_length size,
        List.drop_append_of_le_length size]
      refine ⟨by simp, fun value rest found => ?_⟩
      obtain ⟨rfl, rfl⟩ := Scan.item.inj found
      refine ⟨rfl, ?_⟩
      rw [List.length_drop]
      omega

theorem readFrame_short {freeMemSize : ℕ} {buffer : Bytes} (short : buffer.length < prefixSize) :
    readFrame freeMemSize buffer = .wait := if_pos short

/-- The frames of a byte stream. -/
def requestFraming (freeMemSize : ℕ) : Framing UInt8 Dispatch ErrorCode where
  scan := readFrame freeMemSize
  scan_nil := readFrame_short (by decide)
  shorter buffer value rest found := by
    by_cases short : buffer.length < prefixSize
    · rw [readFrame_short short] at found
      cases found
    · exact ((readFrame_append [] (not_lt.1 short)).2 value rest found).2
  item_append buffer more value rest found := by
    by_cases short : buffer.length < prefixSize
    · rw [readFrame_short short] at found
      cases found
    · exact ((readFrame_append more (not_lt.1 short)).2 value rest found).1
  reject_append buffer more error rejected := by
    by_cases short : buffer.length < prefixSize
    · rw [readFrame_short short] at rejected
      cases rejected
    · exact (readFrame_append more (not_lt.1 short)).1 error rejected

theorem scan_requestFraming (freeMemSize : ℕ) :
    (requestFraming freeMemSize).scan = readFrame freeMemSize := rfl

/-- `read_buffer` on the results of its reads: what it dispatches, the bytes that were, what is left
in the buffer and the error code with which it ended the connection. An empty read is the end of
the stream. -/
def readBuffer (freeMemSize : ℕ) (reads : List Bytes) : Framing.Progress UInt8 Dispatch ErrorCode :=
  (requestFraming freeMemSize).receiveAll .start (reads.takeWhile (· ≠ []))

theorem readBuffer_nonempty {freeMemSize : ℕ} {reads : List Bytes}
    (nonempty : ∀ chunk ∈ reads, chunk ≠ []) :
    readBuffer freeMemSize reads = (requestFraming freeMemSize).receiveAll .start reads := by
  rw [readBuffer, List.takeWhile_eq_self_iff.2 (by simpa using nonempty)]

/-! ## Requests as a client sends them -/

/-- A request with a name and a payload that fit their fields. -/
structure ClientRequest where
  command : Request
  clientId : U128
  queueName : String
  payload : Bytes
  nameFits : queueName.utf8ByteSize ≤ queueNameSize
  nameTrimmed : queueName.toList.getLast? ≠ some '\x00'
  payloadFits : payload.length ≤ maxPayloadSize

namespace ClientRequest

def encodeName (name : String) : Bytes :=
  Utf8.encode name ++ List.replicate (queueNameSize - name.utf8ByteSize) 0

/-- The bytes of a request on the wire. -/
def encode (r : ClientRequest) : Bytes :=
  r.command.asU8 :: BigEndian.ofBitVec 16 r.clientId ++ BigEndian.toBytes 8 r.payload.length ++
    encodeName r.queueName ++ r.payload

/-- What the handler of the request gets. -/
def dispatch (r : ClientRequest) : Dispatch :=
  ⟨r.clientId, r.queueName, ⟨r.command, BitVec.ofNat 64 r.payload.length, r.payload⟩⟩

theorem length_encodeName (r : ClientRequest) : (encodeName r.queueName).length = queueNameSize := by
  have := r.nameFits
  rw [encodeName, List.length_append, Utf8.length_encode, List.length_replicate]
  omega

theorem readQueueName_encodeName (r : ClientRequest) :
    readQueueName (encodeName r.queueName) = r.queueName := by
  rw [readQueueName, encodeName, Utf8.decode_padded r.nameTrimmed, Option.getD_some]

end ClientRequest

/-- Reading a field that stands between known bytes. -/
theorem slice_field {bytes field : Bytes} {start length : ℕ} (before after : Bytes)
    (layout : bytes = before ++ (field ++ after)) (begins : before.length = start)
    (ends : field.length = length) : slice bytes start length = field := by
  rw [slice, layout, ← begins, ← ends, List.drop_left, List.take_left]

namespace ClientRequest

variable (r : ClientRequest) (more : Bytes)

/-- The length field of a request reads back. -/
theorem toBitVec_payloadSize :
    BigEndian.toBitVec 8 (BigEndian.toBytes 8 r.payload.length) =
      BitVec.ofNat 64 r.payload.length := by
  have fits := r.payloadFits
  unfold maxPayloadSize at fits
  rw [BigEndian.toBitVec, BigEndian.ofBytes_toBytes 8 _ (by omega)]

theorem toNat_payloadSize : (BitVec.ofNat 64 r.payload.length).toNat = r.payload.length := by
  have fits := r.payloadFits
  unfold maxPayloadSize at fits
  rw [BitVec.toNat_ofNat, Nat.mod_eq_of_lt (by omega)]

theorem length_encode : r.encode.length = headerSize + r.payload.length := by
  have name := r.length_encodeName
  simp only [encode, List.length_cons, List.length_append, BigEndian.length_ofBitVec,
    BigEndian.length_toBytes, name, headerSize, prefixSize, commandSize, clientIdSize,
    payloadSizeSize]

theorem slice_clientId : slice (r.encode ++ more) commandSize clientIdSize =
    BigEndian.ofBitVec 16 r.clientId :=
  slice_field [r.command.asU8]
    (BigEndian.toBytes 8 r.payload.length ++ encodeName r.queueName ++ r.payload ++ more)
    (by simp [encode]) rfl (BigEndian.length_ofBitVec 16 _)

theorem slice_payloadSize : slice (r.encode ++ more) (commandSize + clientIdSize) payloadSizeSize =
    BigEndian.toBytes 8 r.payload.length :=
  slice_field (r.command.asU8 :: BigEndian.ofBitVec 16 r.clientId)
    (encodeName r.queueName ++ r.payload ++ more) (by simp [encode])
    (by simp [commandSize, clientIdSize]) (BigEndian.length_toBytes 8 _)

theorem slice_queueName : slice (r.encode ++ more) prefixSize queueNameSize =
    encodeName r.queueName :=
  slice_field (r.command.asU8 :: BigEndian.ofBitVec 16 r.clientId ++
      BigEndian.toBytes 8 r.payload.length) (r.payload ++ more) (by simp [encode])
    (by simp [prefixSize, commandSize, clientIdSize, payloadSizeSize]) r.length_encodeName

theorem drop_encode : r.encode.drop headerSize = r.payload := by
  have length := r.length_encode
  have layout : r.encode = (r.command.asU8 :: BigEndian.ofBitVec 16 r.clientId ++
      BigEndian.toBytes 8 r.payload.length ++ encodeName r.queueName) ++ r.payload := by
    simp [encode]
  rw [layout, List.length_append] at length
  rw [layout, List.drop_left' (by omega)]

theorem new_encode : RequestMessage.new r.command r.encode = r.dispatch.message := by
  have size := r.slice_payloadSize []
  rw [List.append_nil] at size
  rw [RequestMessage.new, size, r.toBitVec_payloadSize, r.drop_encode]
  rfl

/-- A complete request at the front of the buffer is found, whatever follows it. -/
theorem readFrame_encode : readFrame usizeMax (r.encode ++ more) = .item r.dispatch more := by
  have length := r.length_encode
  have fits := r.payloadFits
  have ordered : prefixSize ≤ headerSize := Nat.le_add_right _ _
  have first : (r.encode ++ more).headD 0 = r.command.asU8 := rfl
  have accepted : ¬ ((BitVec.ofNat 64 r.payload.length).toNat > maxPayloadSize ∨
      scaled (BitVec.ofNat 64 r.payload.length).toNat ≥ usizeMax) := by
    rw [r.toNat_payloadSize]
    unfold maxPayloadSize at *
    unfold scaled usizeMax
    omega
  unfold readFrame
  rw [if_neg (by rw [List.length_append]; omega), first, Request.fromU8_asU8]
  dsimp only
  rw [r.slice_clientId, r.slice_payloadSize, r.slice_queueName, r.toBitVec_payloadSize,
    if_neg accepted, r.toNat_payloadSize, if_neg (by rw [List.length_append]; omega),
    ← length, List.take_left, List.drop_left, r.new_encode, r.readQueueName_encodeName,
    BigEndian.toBitVec_ofBitVec]
  rfl

end ClientRequest

/-! ## The stream of requests -/

theorem readBuffer_encoded {requests : List ClientRequest} {reads : List Bytes}
    (nonempty : ∀ chunk ∈ reads, chunk ≠ [])
    (stream : reads.flatten = requests.flatMap ClientRequest.encode) :
    readBuffer usizeMax reads =
      ⟨requests.map ClientRequest.dispatch, reads.flatten.length, [], none⟩ := by
  have found : ∀ r ∈ requests, ∀ more, (requestFraming usizeMax).scan (r.encode ++ more) =
      .item r.dispatch more := by
    intro r _ more
    rw [scan_requestFraming, r.readFrame_encode more]
  rw [readBuffer_nonempty nonempty]
  exact Framing.receiveAll_encoded found stream

/-- The buffer does not begin with a complete frame. -/
def Incomplete (buffer : Bytes) : Prop :=
  buffer.length < prefixSize ∨
    buffer.length < headerSize + (BigEndian.toBitVec 8
      (slice buffer (commandSize + clientIdSize) payloadSizeSize)).toNat

theorem incomplete_of_wait {freeMemSize : ℕ} {buffer : Bytes}
    (waiting : readFrame freeMemSize buffer = .wait) : Incomplete buffer := by
  unfold readFrame at waiting
  split at waiting
  · next short => exact .inl short
  · split at waiting
    · cases waiting
    · dsimp only at waiting
      split_ifs at waiting with large incomplete
      exact .inr (by omega)

/-- What is known of a frame that was found. -/
theorem readFrame_item {freeMemSize : ℕ} {buffer : Bytes} {d : Dispatch} {rest : Bytes}
    (found : readFrame freeMemSize buffer = .item d rest) :
    ∃ (command : Request) (payloadSize : U64),
      payloadSize =
        BigEndian.toBitVec 8 (slice buffer (commandSize + clientIdSize) payloadSizeSize) ∧
      payloadSize.toNat + headerSize ≤ buffer.length ∧
      d = ⟨BigEndian.toBitVec 16 (slice buffer commandSize clientIdSize),
        readQueueName (slice buffer prefixSize queueNameSize),
        .new command (buffer.take (headerSize + payloadSize.toNat))⟩ ∧
      rest = buffer.drop (headerSize + payloadSize.toNat) := by
  unfold readFrame at found
  split at found
  · cases found
  · split at found
    · cases found
    next command _ =>
      dsimp only at found
      split_ifs at found with large incomplete
      obtain ⟨value, remaining⟩ := Scan.item.inj found
      exact ⟨command, _, rfl, by omega, value.symm, remaining.symm⟩

theorem header_le_item {freeMemSize : ℕ} {buffer : Bytes} {value : Dispatch} {rest : Bytes}
    (found : readFrame freeMemSize buffer = .item value rest) :
    rest.length + headerSize ≤ buffer.length := by
  obtain ⟨command, payloadSize, -, complete, -, rfl⟩ := readFrame_item found
  rw [List.length_drop]
  omega

/-- The length field of a frame that was found is the length of its payload. -/
theorem payloadSize_item {freeMemSize : ℕ} {buffer : Bytes} {d : Dispatch} {rest : Bytes}
    (found : readFrame freeMemSize buffer = .item d rest) :
    d.message.payloadSize.toNat = d.message.payload.length := by
  obtain ⟨command, payloadSize, field, complete, rfl, -⟩ := readFrame_item found
  have inside : slice (buffer.take (headerSize + payloadSize.toNat)) (commandSize + clientIdSize)
      payloadSizeSize = slice buffer (commandSize + clientIdSize) payloadSizeSize := by
    have enough : commandSize + clientIdSize + payloadSizeSize ≤
        (buffer.take (headerSize + payloadSize.toNat)).length := by
      rw [List.length_take]
      unfold headerSize prefixSize at *
      omega
    have := slice_append enough (buffer.drop (headerSize + payloadSize.toNat))
    rw [List.take_append_drop] at this
    exact this.symm
  show (BigEndian.toBitVec 8 (slice (buffer.take (headerSize + payloadSize.toNat)) _ _) : U64).toNat =
    ((buffer.take (headerSize + payloadSize.toNat)).drop headerSize).length
  rw [inside, ← field, List.length_drop, List.length_take]
  omega

/-- Requests are dispatched as they were sent, in whatever pieces the stream arrives, and nothing
is left; what a stream dispatches, and where it is ended by an error, depends on its bytes alone;
the loop over the buffer goes round at most once for every 89 bytes; and it leaves no complete
frame behind. -/
theorem readBuffer_exact :
    (∀ (requests : List ClientRequest) (reads : List Bytes), (∀ chunk ∈ reads, chunk ≠ []) →
      reads.flatten = requests.flatMap ClientRequest.encode →
      readBuffer usizeMax reads =
        ⟨requests.map ClientRequest.dispatch, reads.flatten.length, [], none⟩) ∧
    (∀ reads reads' : List Bytes, (∀ chunk ∈ reads, chunk ≠ []) → (∀ chunk ∈ reads', chunk ≠ []) →
      reads.flatten = reads'.flatten →
      (readBuffer usizeMax reads).Same (readBuffer usizeMax reads')) ∧
    ∀ reads : List Bytes, (∀ chunk ∈ reads, chunk ≠ []) →
      (readBuffer usizeMax reads).items.length * headerSize ≤ reads.flatten.length ∧
      ((readBuffer usizeMax reads).ended = none → Incomplete (readBuffer usizeMax reads).buffer) := by
  refine ⟨fun requests reads nonempty stream => readBuffer_encoded nonempty stream,
    fun reads reads' nonempty nonempty' same => ?_, fun reads nonempty => ⟨?_, fun running => ?_⟩⟩
  · rw [readBuffer_nonempty nonempty, readBuffer_nonempty nonempty']
    exact Framing.receiveAll_flatten same
  · rw [readBuffer_nonempty nonempty]
    obtain ⟨rounds, consumed⟩ := Framing.length_receiveAll (F := requestFraming usizeMax)
      (fun _ _ _ found => header_le_item found) reads
    exact rounds.trans consumed
  · rw [readBuffer_nonempty nonempty] at running ⊢
    exact incomplete_of_wait (Framing.scan_receiveAll reads running)

/-- An `Enqueue` of two bytes to the queue `q`. -/
def sampleRequest : ClientRequest :=
  ⟨.enqueue, 1, "q", [1, 2], by decide, by decide, by decide⟩

/-- The sample sent twice, cut within the header of the first and the name of the second. -/
theorem readBuffer_exact_three_reads :
    readBuffer usizeMax [sampleRequest.encode.take 20,
        sampleRequest.encode.drop 20 ++ sampleRequest.encode.take 30, sampleRequest.encode.drop 30] =
      ⟨[sampleRequest.dispatch, sampleRequest.dispatch], 182, [], none⟩ := by
  have length : sampleRequest.encode.length = 91 := sampleRequest.length_encode
  have front : ∀ n, sampleRequest.encode.take (n + 1) ≠ [] := fun n e => by cases e
  have back : sampleRequest.encode.drop 30 ≠ [] := by
    intro e
    have := congrArg List.length e
    rw [List.length_drop, length] at this
    cases this
  have stream := readBuffer_exact.1 [sampleRequest, sampleRequest]
    [sampleRequest.encode.take 20, sampleRequest.encode.drop 20 ++ sampleRequest.encode.take 30,
      sampleRequest.encode.drop 30]
    (by simp only [List.forall_mem_cons, List.append_ne_nil_of_right_ne_nil _ (front 29), front 19,
      back, ne_eq, not_false_eq_true, List.not_mem_nil, false_imp_iff, implies_true, and_self])
    (by simp only [List.flatten_cons, List.flatten_nil, List.flatMap_cons, List.flatMap_nil,
      List.append_nil, List.append_assoc, List.take_append_drop]
        rw [← List.append_assoc, List.take_append_drop])
  rw [stream]
  simp [length]

end DataBroker
