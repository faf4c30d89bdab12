import DataBroker.Lib.Alone
import DataBroker.Queue.Contents
import DataBroker.Server.Handlers

/-!
# What a client reads

A client takes responses off its stream by their length, and cuts the answer to `ListM` into records
of 56 bytes. What `lockToRead` returns reaches it byte for byte (`deliversStored_of_fits`). A record
reads back as what was stored but for one owner, whose number stands for "not locked"
(`listsTruly_iff`).
-/

namespace DataBroker

/-- A response as a client gets it: its status byte and its payload. -/
structure ClientResponse where
  status : UInt8
  payload : Bytes
deriving DecidableEq, Repr

def statusSize : ℕ := 1

/-- The bytes of a response before its payload. -/
def responseHeaderSize : ℕ := statusSize + payloadSizeSize

/-- The response at the front of the bytes received. -/
def readResponse (buffer : Bytes) : Scan UInt8 ClientResponse Empty :=
  if buffer.length < responseHeaderSize then .wait
  else
    let payloadSize : U64 := BigEndian.toBitVec 8 (slice buffer statusSize payloadSizeSize)
    if buffer.length < responseHeaderSize + payloadSize.toNat then .wait
    else .item ⟨buffer.headD 0, slice buffer responseHeaderSize payloadSize.toNat⟩
      (buffer.drop (responseHeaderSize + payloadSize.toNat))

theorem readResponse_append {buffer more rest : Bytes} {response : ClientResponse}
    (found : readResponse buffer = .item response rest) :
    readResponse (buffer ++ more) = .item response (rest ++ more) ∧ rest.length < buffer.length := by
  unfold readResponse at found ⊢
  have positive : 0 < responseHeaderSize := by decide
  have layout : responseHeaderSize = statusSize + payloadSizeSize := rfl
  dsimp only at found ⊢
  split_ifs at found with short incomplete
  obtain ⟨rfl, rfl⟩ := Scan.item.inj found
  rw [slice_append (by omega), headD_append (by omega), slice_append (by omega),
    List.drop_append_of_le_length (by omega), if_neg (by rw [List.length_append]; omega),
    if_neg (by rw [List.length_append]; omega), List.length_drop]
  exact ⟨rfl, by omega⟩

/-- The responses of a byte stream. -/
def responseFraming : Framing UInt8 ClientResponse Empty where
  scan := readResponse
  scan_nil := if_pos (by decide)
  shorter _ _ _ found := (@readResponse_append _ [] _ _ found).2
  item_append _ _ _ _ found := (readResponse_append found).1
  reject_append _ _ error _ := error.elim

theorem scan_responseFraming : responseFraming.scan = readResponse := rfl

/-- What a client makes of the bytes it has received. -/
def readResponses (reads : List Bytes) : Framing.Progress UInt8 ClientResponse Empty :=
  responseFraming.receiveAll .start reads

theorem readResponse_toU8 (status : Response) {payload : Bytes} (fits : payload.length < 2 ^ 64)
    (more : Bytes) : readResponse ((ResponseMessage.new status payload).toU8 ++ more) =
      .item ⟨status.asU8, payload⟩ more := by
  have size : (BitVec.ofNat 64 payload.length).toNat = payload.length := by
    rw [BitVec.toNat_ofNat, Nat.mod_eq_of_lt fits]
  generalize bytes : (ResponseMessage.new status payload).toU8 = frame
  have layout : frame = status.asU8 :: BigEndian.ofBitVec 8 (BitVec.ofNat 64 payload.length) ++
      payload := bytes.symm
  have length : frame.length = responseHeaderSize + payload.length := by
    rw [layout]
    simp only [List.length_cons, List.length_append, BigEndian.length_ofBitVec]
    unfold responseHeaderSize statusSize payloadSizeSize
    omega
  have sizeField : slice (frame ++ more) statusSize payloadSizeSize =
      BigEndian.ofBitVec 8 (BitVec.ofNat 64 payload.length) :=
    slice_field [status.asU8] (payload ++ more) (by simp [layout]) rfl
      (BigEndian.length_ofBitVec 8 _)
  have payloadField : slice (frame ++ more) responseHeaderSize payload.length = payload :=
    slice_field (status.asU8 :: BigEndian.ofBitVec 8 (BitVec.ofNat 64 payload.length)) more
      (by simp [layout]) (by simp [responseHeaderSize, statusSize, payloadSizeSize]) rfl
  have first : (frame ++ more).headD 0 = status.asU8 := by rw [layout]; rfl
  unfold readResponse
  rw [if_neg (by rw [List.length_append]; omega), sizeField, BigEndian.toBitVec_ofBitVec]
  dsimp only
  rw [size, if_neg (by rw [List.length_append]; omega), payloadField, first, ← length,
    List.drop_left]

/-- A response arrives as it was sent, in whatever pieces. -/
theorem readResponses_toU8 (status : Response) {payload : Bytes} (fits : payload.length < 2 ^ 64)
    {reads : List Bytes} (stream : reads.flatten = (ResponseMessage.new status payload).toU8) :
    readResponses reads = ⟨[⟨status.asU8, payload⟩], reads.flatten.length, [], none⟩ := by
  have found : ∀ r ∈ [ResponseMessage.new status payload], ∀ more,
      responseFraming.scan (r.toU8 ++ more) = .item ⟨r.status.asU8, r.payload⟩ more := by
    intro r mem more
    rw [List.mem_singleton.1 mem, scan_responseFraming, readResponse_toU8 status fits more]
    rfl
  exact Framing.receiveAll_encoded found (by rw [stream]; simp)

/-! ## A message handed out -/

/-- What `lockToRead` returned for `c` is the message `m` as it was stored, with `c` for its owner;
behind the call `c` has `m` locked, and nothing else is different but tombstones in front of `order`
and the cursor. -/
structure Written.Delivers (s : Written) (c : U128) (bytes : Bytes) (m : U128) (t : Queue) :
    Prop where
  stored : ∃ message, s.queue.lookup m = some message ∧ message.lockedBy = none ∧
    message.payload = s.written m ∧
    bytes = BigEndian.ofBitVec 16 m ++ BigEndian.ofBitVec 16 message.publisherId ++
      BigEndian.ofBitVec 8 message.timestamp ++ BigEndian.ofBitVec 16 c ++ message.payload ∧
    t.queue.lookup m = some { message with lockedBy := some c }
  listed : t.lockedIds c = s.lockedIds c ++ [m]
  messages : ∀ k ≠ m, t.queue.lookup k = s.queue.lookup k
  lists : ∀ d ≠ c, t.locked.lookup d = s.locked.lookup d
  keys : t.queue.keys = s.queue.keys
  order : ∃ n, s.order = List.replicate n 0 ++ t.order
  config : t.config = s.config
  read : ∀ reads : List Bytes, reads.flatten = (ResponseMessage.new .succeeded bytes).toU8 →
    readResponses reads = ⟨[⟨1, bytes⟩], reads.flatten.length, [], none⟩

theorem Written.Contents.delivers {s : Written} (h : s.Contents) {c : U128} {bytes : Bytes}
    {m : U128} {t : Queue}
    (returned : (Queue.lockToRead c).run s.toQueue = (.ok (bytes, some m), t)) :
    s.Delivers c bytes m t := by
  rcases Queue.lockToRead_cases s.toQueue c with
    ⟨⟨e, refused⟩, -⟩ | ⟨id, message, nonempty, cursor, stored, free⟩
  · rw [refused] at returned
    cases returned
  rw [Queue.run_lockToRead c nonempty cursor stored free] at returned
  obtain ⟨outcome, rfl⟩ := Prod.mk.inj returned
  obtain ⟨rfl, same⟩ := Prod.mk.inj (Outcome.ok.inj outcome)
  obtain rfl := Option.some.inj same
  have fits := h.fits id message stored
  constructor
  · refine ⟨message, stored, free, h.payload id message stored, rfl, ?_⟩
    rw [Queue.lookup_delivered, if_pos rfl]
    rfl
  · rw [Queue.lockedIds_delivered, if_pos rfl]
  · intro k ne
    rw [Queue.lookup_delivered, if_neg ne]
  · exact fun d ne => Finmap.lookup_insert_of_ne _ ne
  · ext k
    rw [Finmap.mem_keys, Finmap.mem_keys]
    exact HashMap.mem_insert_of_lookup stored k
  · rcases Queue.order_delivered s.toQueue c id message with order | order <;> rw [order]
    · exact ⟨0, rfl⟩
    · exact Queue.eq_append_drain s.order
  · rfl
  · intro reads stream
    refine readResponses_toU8 .succeeded ?_ stream
    simp only [getMetaAsVec, MessageMeta.toBeBytes, List.length_append, BigEndian.length_ofBitVec]
    omega

/-- A client that is handed out a message reads what was stored, in every state of every run. -/
theorem deliversStored_of_fits (ops : List Queue.Op) (fits : ∀ op ∈ ops, op.Fits) :
    Transition.EveryState Written.step (fun s => ∀ c bytes m t,
      (Queue.lockToRead c).run s.toQueue = (.ok (bytes, some m), t) → s.Delivers c bytes m t)
      Written.new ops :=
  (Written.contents_run (Transition.everyStep_of_forall fits)).mono
    fun _ (h : Written.Contents _) _ _ _ _ returned => h.delivers returned

/-- A message updated while it waits. -/
theorem deliversStored_updated : Transition.EveryState Written.step (fun s => ∀ c bytes m t,
      (Queue.lockToRead c).run s.toQueue = (.ok (bytes, some m), t) → s.Delivers c bytes m t)
      Written.new [.enqueue [1] 7 0, .updateMessage 1 [2, 3]] :=
  deliversStored_of_fits _ (by simp [Queue.Op.Fits])

/-! ## The answer to `ListM` -/

def metaSize : ℕ := 56

/-- A record read back; the owner `u128::MAX` is taken for "not locked". -/
def MessageMeta.ofBytes (record : Bytes) : MessageMeta where
  id := BigEndian.toBitVec 16 (slice record 0 16)
  publisherId := BigEndian.toBitVec 16 (slice record 16 16)
  timestamp := BigEndian.toBitVec 8 (slice record 32 8)
  lockedBy :=
    let owner : U128 := BigEndian.toBitVec 16 (slice record 40 16)
    if owner = BitVec.allOnes 128 then none else some owner

def recordFraming : Framing UInt8 MessageMeta Empty := .fixed metaSize (by decide) MessageMeta.ofBytes

/-- The payload cut into records. -/
def readRecords (payload : Bytes) : Framing.Progress UInt8 MessageMeta Empty :=
  recordFraming.receiveAll .start [payload]

theorem length_toBeBytes (m : MessageMeta) : m.toBeBytes.length = metaSize := by
  simp [MessageMeta.toBeBytes, metaSize]

/-- A record reads back but for an owner that stands for none. -/
theorem ofBytes_toBeBytes (m : MessageMeta) :
    MessageMeta.ofBytes m.toBeBytes =
      { m with lockedBy := m.lockedBy.filter (· ≠ BitVec.allOnes 128) } := by
  generalize bytes : m.toBeBytes = record
  have layout : record = BigEndian.ofBitVec 16 m.id ++ (BigEndian.ofBitVec 16 m.publisherId ++
      (BigEndian.ofBitVec 8 m.timestamp ++
        BigEndian.ofBitVec 16 (m.lockedBy.getD (BitVec.allOnes 128)))) := by
    simp only [← bytes, MessageMeta.toBeBytes, List.append_assoc]
  have id : slice record 0 16 = BigEndian.ofBitVec 16 m.id := by
    rw [slice, List.drop_zero, layout, List.take_left' (BigEndian.length_ofBitVec 16 _)]
  have publisherId : slice record 16 16 = BigEndian.ofBitVec 16 m.publisherId :=
    slice_field (BigEndian.ofBitVec 16 m.id) _ layout
      (BigEndian.length_ofBitVec 16 _) (BigEndian.length_ofBitVec 16 _)
  have timestamp : slice record 32 8 = BigEndian.ofBitVec 8 m.timestamp :=
    slice_field (BigEndian.ofBitVec 16 m.id ++ BigEndian.ofBitVec 16 m.publisherId)
      (BigEndian.ofBitVec 16 (m.lockedBy.getD (BitVec.allOnes 128)))
      (by simp only [layout, List.append_assoc]) (by simp) (BigEndian.length_ofBitVec 8 _)
  have owner : slice record 40 16 =
      BigEndian.ofBitVec 16 (m.lockedBy.getD (BitVec.allOnes 128)) :=
    slice_field (BigEndian.ofBitVec 16 m.id ++ BigEndian.ofBitVec 16 m.publisherId ++
      BigEndian.ofBitVec 8 m.timestamp) []
      (by simp only [layout, List.append_assoc, List.append_nil]) (by simp)
      (BigEndian.length_ofBitVec 16 _)
  have lockedBy : (if m.lockedBy.getD (BitVec.allOnes 128) = BitVec.allOnes 128 then none
      else some (m.lockedBy.getD (BitVec.allOnes 128))) =
        m.lockedBy.filter (· ≠ BitVec.allOnes 128) := by
    generalize BitVec.allOnes 128 = last
    cases m.lockedBy with
    | none => simp
    | some c => by_cases same : c = last <;> simp [same, Option.filter]
  rw [MessageMeta.ofBytes, id, publisherId, timestamp, owner, ← lockedBy]
  simp only [BigEndian.toBitVec_ofBitVec]

theorem readRecords_flatMap (list : List MessageMeta) :
    (readRecords (list.flatMap MessageMeta.toBeBytes)).items =
      list.map fun m => { m with lockedBy := m.lockedBy.filter (· ≠ BitVec.allOnes 128) } := by
  have found : ∀ m ∈ list, ∀ more, recordFraming.scan (m.toBeBytes ++ more) =
      .item { m with lockedBy := m.lockedBy.filter (· ≠ BitVec.allOnes 128) } more := by
    intro m _ more
    rw [recordFraming, Framing.scan_fixed (length_toBeBytes m), ofBytes_toBeBytes]
  rw [readRecords, Framing.receiveAll_encoded found (by simp)]

/-- The record of a stored message. -/
def metaOf (e : Σ _ : U128, QueueMessage) : MessageMeta :=
  ⟨e.1, e.2.publisherId, e.2.timestamp, e.2.lockedBy⟩

/-- The answer to `ListM` about the queue `q` has one record for each stored message, which reads
back as its id, publisher, timestamp and owner. -/
def ListsTruly (s : Server) (env : Env) (d : Dispatch) (q : ℕ) : Prop :=
  ∃ payload : Bytes,
    ((Handler.listM env d).alone Server.act s).events = [.respond (.new .succeeded payload)] ∧
    payload.length = metaSize * (s.queues q).queue.keys.card ∧
    ((readRecords payload).items : Multiset MessageMeta) = (s.queues q).queue.entries.map metaOf

variable {s : Server} {d : Dispatch} {q : ℕ}

theorem events_listM (env : Env) (named : s.resolve d.queueName = some q) :
    ((Handler.listM env d).alone Server.act s).events = [.respond (.new .succeeded
      (((env.messages.entries (s.queues q).queue).map metaOf).flatMap MessageMeta.toBeBytes))] := by
  obtain ⟨hash, found, stored⟩ := Option.bind_eq_some_iff.1 named
  simp only [Handler.listM, Program.alone, Server.act, found, stored, Handler.sendResponse]
  rfl

/-- No record reads back with the owner `u128::MAX`. -/
theorem unlocked_of_listsTruly {env : Env} (named : s.resolve d.queueName = some q)
    (truly : ListsTruly s env d q) {id : U128} {m : QueueMessage}
    (stored : (s.queues q).queue.lookup id = some m) : m.lockedBy ≠ some (BitVec.allOnes 128) := by
  intro locked
  obtain ⟨payload, answer, -, records⟩ := truly
  have sent := Event.respond.inj (List.cons.inj (answer.symm.trans (events_listM env named))).1
  have same : payload = _ := congrArg ResponseMessage.payload sent
  subst same
  have mem : metaOf ⟨id, m⟩ ∈ (s.queues q).queue.entries.map metaOf :=
    Multiset.mem_map_of_mem _ (Finmap.lookup_eq_some_iff.1 stored)
  rw [← records, Multiset.mem_coe, ResponseMessage.new, readRecords_flatMap] at mem
  obtain ⟨other, -, same⟩ := List.mem_map.1 mem
  have owner := congrArg MessageMeta.lockedBy same
  simp only [metaOf, locked, Option.filter_eq_some_iff] at owner
  simp at owner

theorem listsTruly_of_unlocked (env : Env) (named : s.resolve d.queueName = some q)
    (unlocked : ∀ id m, (s.queues q).queue.lookup id = some m →
      m.lockedBy ≠ some (BitVec.allOnes 128)) : ListsTruly s env d q := by
  have complete := env.messages.complete (s.queues q).queue
  refine ⟨_, events_listM env named, ?_, ?_⟩
  · have size := congrArg Multiset.card complete
    rw [Multiset.coe_card] at size
    have keys : (s.queues q).queue.keys.card = (s.queues q).queue.entries.card :=
      Multiset.card_map _ _
    rw [keys, ← size]
    simp [List.length_flatMap, Function.comp_def, length_toBeBytes, Nat.mul_comm]
  · rw [readRecords_flatMap, List.map_map, ← complete, Multiset.map_coe]
    refine congrArg _ (List.map_congr_left fun e mem => ?_)
    have stored : e ∈ (s.queues q).queue.entries := by
      rw [← complete]
      exact mem
    have owner := unlocked e.1 e.2 (Finmap.lookup_eq_some_iff.2 stored)
    have kept : e.2.lockedBy.filter (· ≠ BitVec.allOnes 128) = e.2.lockedBy := by
      generalize BitVec.allOnes 128 = last at owner
      generalize e.2.lockedBy = lockedBy at owner
      cases lockedBy with
      | none => rfl
      | some c => simpa [Option.filter] using owner
    simp only [Function.comp_apply, metaOf, kept]

/-- Every message reads back as it was stored if and only if none is locked by the client
`u128::MAX`. -/
theorem listsTruly_iff (s : Server) (env : Env) (d : Dispatch) (q : ℕ)
    (named : s.resolve d.queueName = some q) :
    ListsTruly s env d q ↔ ∀ id m, (s.queues q).queue.lookup id = some m →
      m.lockedBy ≠ some (BitVec.allOnes 128) :=
  ⟨fun truly _ _ => unlocked_of_listsTruly named truly, listsTruly_of_unlocked env named⟩

/-- A server whose queues are behind the given calls. -/
def Server.behind (ops : List Queue.Op) : Server :=
  { Server.sample with queues := fun _ => Transition.run Queue.step Queue.new ops }

/-- A message that client 1 has locked. -/
theorem listsTruly_locked :
    ListsTruly (.behind [.enqueue [1] 7 0, .lockToRead 1]) (.sample 1) (.sample .listM []) 0 := by
  apply (listsTruly_iff _ _ _ 0 (by decide)).2
  intro id m stored
  have owners : ∀ e ∈ (Transition.run Queue.step Queue.new
      [.enqueue [1] 7 0, .lockToRead 1]).queue.entries, e.2.lockedBy = some 1 := by decide
  rw [owners ⟨id, m⟩ (Finmap.lookup_eq_some_iff.1 stored)]
  decide

/-- The client `u128::MAX` locks the only message, which is listed as not locked. -/
theorem last_client_unlisted : ¬ ∀ (s : Server) (env : Env) (d : Dispatch) (q : ℕ),
    s.resolve d.queueName = some q →
    (∃ ops, s.queues q = Transition.run Queue.step Queue.new ops) → ListsTruly s env d q := by
  intro truly
  have named : (Server.behind [.enqueue [1] 7 0, .lockToRead (BitVec.allOnes 128)]).resolve
    (Dispatch.sample .listM []).queueName = some 0 := by decide
  have stored : ((Server.behind [.enqueue [1] 7 0, .lockToRead (BitVec.allOnes 128)]).queues
    0).queue.lookup 1 = some ((QueueMessage.new [1] 7 0).lock (BitVec.allOnes 128)) := by decide
  have lists := truly (.behind [.enqueue [1] 7 0, .lockToRead (BitVec.allOnes 128)]) (.sample 1)
    (.sample .listM []) 0 named ⟨_, rfl⟩
  exact unlocked_of_listsTruly named lists stored rfl

end DataBroker
