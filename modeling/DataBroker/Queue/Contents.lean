import DataBroker.Queue.Calls

/-!
# What is stored

The payload that a client gave for an id, by its `enqueue` or its last `updateMessage`, is recorded
beside the queue; a requeued message takes it along. The stored message has this payload.
-/

namespace DataBroker

/-- A queue with the payload last given for each id. -/
structure Written extends Queue where
  written : U128 → Bytes

namespace Written

open Queue

def new : Written := ⟨Queue.new, fun _ => []⟩

/-- What a call gives for which id. -/
def gives (s : Written) : Op → Option (U128 × Bytes)
  | .enqueue payload _ _ => some (newId s.order, payload)
  | .requeue _ id _ => if id ∈ s.queue then some (newId s.order, s.written id) else none
  | .updateMessage id payload => if id ∈ s.queue then some (id, payload) else none
  | _ => none

def step (s : Written) (op : Op) : Written where
  toQueue := s.toQueue.step op
  written := (s.gives op).elim s.written fun given => Function.update s.written given.1 given.2

end Written

/-- A `BytesMut` has fewer than `2 ^ 63` bytes. -/
def Queue.Op.Fits : Queue.Op → Prop
  | .enqueue payload _ _ => payload.length < 2 ^ 63
  | .updateMessage _ payload => payload.length < 2 ^ 63
  | _ => True

namespace Written

open Queue

/-- A stored message has the payload last given for its id. -/
structure Contents (s : Written) : Prop where
  rooted : s.toQueue.Rooted
  payload : ∀ id m, s.queue.lookup id = some m → m.payload = s.written id
  fits : ∀ id m, s.queue.lookup id = some m → m.payload.length < 2 ^ 63

variable {s : Written}

theorem Contents.new : Contents new where
  rooted := .new
  payload _ _ stored := by cases stored
  fits _ _ stored := by cases stored

/-- Calls that give no payload leave every message with the one it had. -/
theorem Contents.congr (h : s.Contents) {t : Written} (rooted : t.Rooted)
    (written : t.written = s.written)
    (old : ∀ id m, t.queue.lookup id = some m →
      ∃ m', s.queue.lookup id = some m' ∧ m'.payload = m.payload) : t.Contents where
  rooted := rooted
  payload id m stored := by
    obtain ⟨m', stored', same⟩ := old id m stored
    rw [written, ← same]
    exact h.payload id m' stored'
  fits id m stored := by
    obtain ⟨m', stored', same⟩ := old id m stored
    rw [← same]
    exact h.fits id m' stored'

/-- A message stored, or given a new payload, under an id. -/
theorem Contents.update (h : s.Contents) {t : Written} (rooted : t.Rooted) {given : U128}
    {payload : Bytes} (written : t.written = Function.update s.written given payload)
    (small : payload.length < 2 ^ 63)
    (new : ∀ m, t.queue.lookup given = some m → m.payload = payload)
    (old : ∀ id m, id ≠ given → t.queue.lookup id = some m → s.queue.lookup id = some m) :
    t.Contents where
  rooted := rooted
  payload id m stored := by
    rw [written]
    by_cases same : id = given
    · subst same
      rw [Function.update_self]
      exact new m stored
    · rw [Function.update_of_ne same]
      exact h.payload id m (old id m same stored)
  fits id m stored := by
    by_cases same : id = given
    · subst same
      rw [new m stored]
      exact small
    · exact h.fits id m (old id m same stored)

theorem Contents.enqueue (h : s.Contents) {payload : Bytes} (small : payload.length < 2 ^ 63)
    (publisherId : U128) (now : U64) : (s.step (.enqueue payload publisherId now)).Contents := by
  refine h.update (h.rooted.step _) rfl small (fun m stored => ?_) fun id m ne stored => ?_
  · rw [step, step_enqueue, lookup_enqueued, if_pos rfl] at stored
    rw [← Option.some.inj stored]
    rfl
  · rwa [step, step_enqueue, lookup_enqueued, if_neg ne] at stored

theorem Contents.updateMessage (h : s.Contents) {payload : Bytes} (small : payload.length < 2 ^ 63)
    (id : U128) : (s.step (.updateMessage id payload)).Contents := by
  have rooted := h.rooted.step (.updateMessage id payload)
  cases stored : s.queue.lookup id with
  | none =>
    have absent := Finmap.lookup_eq_none.1 stored
    obtain ⟨e, he⟩ := updateMessage_absent payload absent
    have next : s.toQueue.step (.updateMessage id payload) = s.toQueue := by
      rw [Queue.step, Op.call, he]
    refine h.congr rooted ?_ fun k m old => ⟨m, ?_, rfl⟩
    · simp [step, gives, absent]
    · rwa [step, next] at old
  | some m =>
    have mem := HashMap.mem_of_lookup stored
    have next : s.toQueue.step (.updateMessage id payload) = s.updated id m payload := by
      rw [Queue.step, Op.call, run_updateMessage payload (h.rooted.nonempty stored) stored]
    refine @Contents.update _ h _ rooted id payload ?_ small (fun m' new => ?_) fun k m' ne old => ?_
    · simp [step, gives, mem]
    · rw [step, next, lookup_updated, if_pos rfl] at new
      rw [← Option.some.inj new]
    · rwa [step, next, lookup_updated, if_neg ne] at old

theorem Contents.requeue (h : s.Contents) (clientId id : U128) (now : U64) :
    (s.step (.requeue clientId id now)).Contents := by
  have rooted := h.rooted.step (.requeue clientId id now)
  have effect := step_effect h.rooted (.requeue clientId id now)
  generalize next : s.toQueue.step (.requeue clientId id now) = t at effect
  cases effect with
  | idle _ absent =>
    refine h.congr rooted ?_ fun k m old => ⟨m, ?_, rfl⟩
    · have absent : id ∉ s.queue := absent
      simp [step, gives, absent]
    · rwa [step, next] at old
  | requeued clientId id now m stored =>
    have mem := HashMap.mem_of_lookup stored
    have same := h.payload id m stored
    refine @Contents.update _ h _ rooted (newId s.order) (s.written id) ?_ ?_ ?_ ?_
    · simp [step, gives, mem]
    · rw [← same]
      exact h.fits id m stored
    · intro m' new
      rw [step, next, lookup_requeued, if_pos (rfl : newId s.order = newId s.order)] at new
      split_ifs at new
      rw [← Option.some.inj new]
      exact same
    · intro k m' ne old
      rw [step, next, lookup_requeued] at old
      split_ifs at old
      exact old

/-- The other calls give no payload. -/
theorem Contents.keeps (h : s.Contents) {op : Op} (none_given : s.gives op = none)
    (other : ∀ id payload, op ≠ .updateMessage id payload) : (s.step op).Contents := by
  have written : (s.step op).written = s.written := by rw [step, none_given, Option.elim_none]
  apply h.congr (h.rooted.step op) written
  intro k m stored
  have effect := step_effect h.rooted op
  rw [step] at stored
  generalize s.toQueue.step op = t at effect stored
  cases effect with
  | idle => exact ⟨m, stored, rfl⟩
  | measured => exact ⟨m, stored, rfl⟩
  | enqueued => cases none_given
  | delivered clientId id m' cursor held =>
    rw [lookup_delivered] at stored
    split_ifs at stored with same
    · exact ⟨m', same ▸ held, by rw [← Option.some.inj stored]; rfl⟩
    · exact ⟨m, stored, rfl⟩
  | removed =>
    rw [lookup_removed] at stored
    split_ifs at stored
    exact ⟨m, stored, rfl⟩
  | acked =>
    rw [lookup_acked] at stored
    split_ifs at stored
    exact ⟨m, stored, rfl⟩
  | released =>
    rw [lookup_released] at stored
    split_ifs at stored
    · obtain ⟨m', held, rfl⟩ := Option.map_eq_some_iff.1 stored
      exact ⟨m', held, rfl⟩
    · exact ⟨m, stored, rfl⟩
  | requeued clientId id now m' held =>
    rw [gives, if_pos (HashMap.mem_of_lookup held)] at none_given
    cases none_given
  | updated id _ payload => exact absurd rfl (other id payload)

theorem Contents.step (h : s.Contents) {op : Op} (fits : op.Fits) : (s.step op).Contents := by
  cases op with
  | enqueue payload publisherId now => exact h.enqueue fits publisherId now
  | updateMessage id payload => exact h.updateMessage fits id
  | requeue clientId id now => exact h.requeue clientId id now
  | _ => exact h.keeps rfl nofun

/-- In every state of every run the stored messages have the payloads last given for them. -/
theorem contents_run {ops : List Op} (fits : Transition.EveryStep step (fun _ op => op.Fits) new ops) :
    Transition.EveryState step Contents new ops :=
  fits.invariant .new fun _ _ (h : Contents _) fits => h.step fits

end Written

end DataBroker
