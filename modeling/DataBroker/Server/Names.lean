import DataBroker.Server.Registry
import DataBroker.Server.Request

/-!
# Queue names

Every request carries the name of its queue in a field of 64 bytes, and `read_buffer` makes a
string of it before it looks at the command. Fields that are UTF-8 and differ by more than NUL
bytes at their ends read as different names, and different names lead to different queues. A field
that is not UTF-8 is logged as an error and then handled under the empty name, like a field of NUL
bytes alone.
-/

namespace DataBroker

/-- The field of the queue name in a frame. -/
def nameField (buffer : Bytes) : Bytes := slice buffer prefixSize queueNameSize

theorem queueName_readFrame {freeMemSize : ℕ} {buffer rest : Bytes} {d : Dispatch}
    (found : readFrame freeMemSize buffer = .item d rest) :
    d.queueName = readQueueName (nameField buffer) := by
  obtain ⟨command, payloadSize, -, -, rfl, -⟩ := readFrame_item found
  rfl

theorem readQueueName_of_decode {field : Bytes} {s : String} (read : Utf8.decode field = some s) :
    readQueueName field = Utf8.trimEndNul s := by
  rw [readQueueName, read]
  rfl

/-- A field that is not UTF-8 is handled under the empty name. -/
theorem readQueueName_invalid {field : Bytes} (invalid : Utf8.decode field = none) :
    readQueueName field = "" := by
  rw [readQueueName, invalid]
  rfl

theorem readQueueName_injective {field field' : Bytes} (valid : (Utf8.decode field).isSome)
    (valid' : (Utf8.decode field').isSome) (same : readQueueName field = readQueueName field') :
    Utf8.trimNul field = Utf8.trimNul field' := by
  obtain ⟨s, read⟩ := Option.isSome_iff_exists.1 valid
  obtain ⟨t, read'⟩ := Option.isSome_iff_exists.1 valid'
  rw [readQueueName_of_decode read, readQueueName_of_decode read'] at same
  exact Utf8.trimNul_eq_of_trimEndNul read read' same

namespace Registry

variable {r : Registry} {hash : Uuid} {n m : String}

/-! ## Names and queues -/

/-- No queue stands under two `Uuid`s. -/
def Separate (r : Registry) : Prop :=
  ∀ hash hash' q, r.queue.lookup hash = some q → r.queue.lookup hash' = some q → hash = hash'

namespace Separate

theorem insert (h : r.Separate) (queueName : String) (hash : Uuid) :
    (r.insert queueName hash).Separate := by
  have old : ∀ {hash' q}, r.queue.lookup hash' = some q → q ≠ r.created := by
    rintro hash' q stored rfl
    exact Nat.lt_irrefl _ (r.numbered hash' _ stored)
  intro a b q first second
  change (r.queue.insert hash r.created).lookup a = some q at first
  change (r.queue.insert hash r.created).lookup b = some q at second
  rw [HashMap.lookup_insert_eq] at first second
  split_ifs at first second with new new' new'
  · rw [new, new']
  · exact absurd (Option.some.inj first).symm (old second)
  · exact absurd (Option.some.inj second).symm (old first)
  · exact h a b q first second

theorem remove (h : r.Separate) (queueName : String) (hash : Uuid) :
    (r.remove queueName hash).Separate := by
  intro a b q first second
  change (r.queue.erase hash).lookup a = some q at first
  change (r.queue.erase hash).lookup b = some q at second
  rw [HashMap.lookup_erase_eq] at first second
  split_ifs at first second
  exact h a b q first second

end Separate

/-- Every name leads to a queue of its own. -/
structure OneToOne (r : Registry) : Prop extends Consistent r where
  separate : Separate r

namespace OneToOne

theorem insert (h : r.OneToOne) (unused : hash ∉ r.queue) : (r.insert n hash).OneToOne :=
  ⟨h.toConsistent.insert unused, h.separate.insert n hash⟩

theorem step (h : r.OneToOne) {change : Change} (fresh : r.Fresh change) :
    (r.step change).OneToOne := by
  cases change with
  | createQ queueName hash =>
    change (r.createQ queueName hash).OneToOne
    by_cases named : queueName ∈ r.queueNames
    · rwa [createQ_of_mem named]
    · rw [createQ_of_notMem named]
      exact h.insert fresh
  | deleteQ queueName =>
    refine ⟨h.toConsistent.deleteQ queueName, ?_⟩
    change (r.deleteQ queueName).Separate
    cases named : r.queueNames.lookup queueName with
    | none =>
      rw [deleteQ_of_notMem (Finmap.lookup_eq_none.1 named)]
      exact h.separate
    | some hash =>
      rw [deleteQ_of_lookup named]
      exact h.separate.remove queueName hash

theorem foldl {config : List (String × Uuid)} (h : r.OneToOne)
    (hashes : (config.map Prod.snd).Nodup) (new : ∀ entry ∈ config, entry.2 ∉ r.queue) :
    (config.foldl (fun r entry => r.insert entry.1 entry.2) r).OneToOne := by
  induction config generalizing r with
  | nil => exact h
  | cons entry config ih =>
    obtain ⟨hash, hashes⟩ := List.nodup_cons.1 hashes
    apply ih (h.insert (new entry List.mem_cons_self)) hashes
    intro other inside mem
    rcases Finmap.mem_insert.1 mem with same | old
    · exact hash (same ▸ List.mem_map_of_mem inside)
    · exact new other (List.mem_cons_of_mem _ inside) old

/-- The names lead to queues of their own in every state of every run, also when a name is
configured twice. -/
theorem run {config : List (String × Uuid)} {changes : List Change}
    (distinct : (config.map Prod.snd ++ changes.filterMap Change.hash?).Nodup) :
    (Transition.run Registry.step (startup config) changes).OneToOne := by
  have known : ∀ hash ∈ (startup config).queue, hash ∈ config.map Prod.snd := by
    intro hash inside
    exact ((mem_queue_foldl config empty).1 inside).resolve_left Finmap.notMem_empty
  have start : (startup config).OneToOne := by
    refine foldl ⟨Bijective.empty.toConsistent, ?_⟩ distinct.of_append_left fun _ _ => ?_
    · intro a b q stored
      cases stored
    · exact Finmap.notMem_empty
  exact ((everyStep_fresh known distinct).invariant start
    fun _ _ (h : OneToOne _) fresh => h.step fresh).last

theorem resolve_injective (h : r.OneToOne) {q : ℕ} (first : r.resolve n = some q)
    (second : r.resolve m = some q) : n = m := by
  obtain ⟨hash, named, stored⟩ := Option.bind_eq_some_iff.1 first
  obtain ⟨hash', named', stored'⟩ := Option.bind_eq_some_iff.1 second
  obtain rfl := h.separate hash hash' q stored stored'
  exact h.injective n m hash named named'

end OneToOne

/-! ## Requests by name -/

/-- What a request with this name field does to the registry: the registry after it, and the queue
that its handler works on or removes. A `CreateQ` works on no queue that is there, and `NetStats`
looks at all of them, whatever the name. -/
def request (r : Registry) (command : Request) (field : Bytes) (hash : Uuid) :
    Registry × Option ℕ :=
  match command with
  | .createQ => (r.createQ (readQueueName field) hash, none)
  | .deleteQ => (r.deleteQ (readQueueName field), r.resolve (readQueueName field))
  | .netStats => (r, none)
  | _ => (r, r.resolve (readQueueName field))

/-- Requests with these name fields reach different queues, and one whose field is not UTF-8
reaches and changes nothing. -/
structure KeepsApart (r : Registry) (field field' : Bytes) : Prop where
  apart : ∀ command command' hash hash' q, (r.request command field hash).2 = some q →
    (r.request command' field' hash').2 ≠ some q
  refused : ∀ f ∈ [field, field'], Utf8.decode f = none →
    ∀ command hash, r.request command f hash = (r, none)

/-- A field that is not UTF-8 does what the field of NUL bytes does. -/
theorem request_invalid {field : Bytes} (invalid : Utf8.decode field = none) (command : Request) :
    r.request command field hash = r.request command (List.replicate queueNameSize 0) hash := by
  have nul : readQueueName (List.replicate queueNameSize 0) = "" := by decide
  unfold request
  rw [readQueueName_invalid invalid, nul]

theorem request_resolves {command : Request} {field : Bytes} {q : ℕ}
    (reached : (r.request command field hash).2 = some q) :
    r.resolve (readQueueName field) = some q := by
  cases command <;> first | exact reached | cases reached

/-- Two different name fields are kept apart in every state of every run if and only if both are
UTF-8. -/
theorem keepsApart_iff {field field' : Bytes} (differ : Utf8.trimNul field ≠ Utf8.trimNul field') :
    (∀ (config : List (String × Uuid)) (changes : List Change),
      (config.map Prod.snd ++ changes.filterMap Change.hash?).Nodup →
      (Transition.run step (startup config) changes).KeepsApart field field') ↔
    (Utf8.decode field).isSome ∧ (Utf8.decode field').isSome := by
  constructor
  · intro h
    -- A `CreateQ` at the empty registry already tells.
    have first := h [] [] List.nodup_nil
    have valid : ∀ f ∈ [field, field'], (Utf8.decode f).isSome := by
      intro f inside
      rw [← Option.ne_none_iff_isSome]
      intro invalid
      have refused := congrArg Prod.fst (first.refused f inside invalid .createQ 0)
      change Registry.empty.createQ (readQueueName f) 0 = Registry.empty at refused
      rw [createQ_of_notMem Finmap.notMem_empty] at refused
      exact absurd (congrArg Registry.created refused) (Nat.succ_ne_self 0)
    exact ⟨valid field (by simp), valid field' (by simp)⟩
  · rintro ⟨valid, valid'⟩ config changes distinct
    constructor
    · intro command command' hash hash' q reached reached'
      have same := (OneToOne.run distinct).resolve_injective (request_resolves reached)
        (request_resolves reached')
      exact differ (readQueueName_injective valid valid' same)
    · intro f inside invalid
      rcases List.mem_pair.1 inside with rfl | rfl
      · rw [invalid] at valid
        cases valid
      · rw [invalid] at valid'
        cases valid'

/-- The names `a` and `b` in fields of 64 bytes. -/
theorem keepsApart_a_b :
    (Transition.run step (startup [("a", 1)]) [.createQ "b" 2]).KeepsApart
      (97 :: List.replicate 63 0) (98 :: List.replicate 63 0) :=
  (keepsApart_iff (by decide)).2 (by decide) [("a", 1)] [.createQ "b" 2] (by decide)

/-- After a `CreateQ` of the empty name, a field of bytes `0xff` reaches the same queue as a field
of NUL bytes. -/
theorem invalid_name_reaches_queue :
    ¬ ∀ field field' : Bytes, Utf8.trimNul field ≠ Utf8.trimNul field' →
      ∀ (config : List (String × Uuid)) (changes : List Change),
        (config.map Prod.snd ++ changes.filterMap Change.hash?).Nodup →
        (Transition.run step (startup config) changes).KeepsApart field field' := by
  intro kept
  have apart := (kept (List.replicate 64 0xff) (List.replicate queueNameSize 0) (by decide) []
    [.createQ "" 1] (by decide)).apart
  refine apart .dequeue .dequeue 0 0 0 ?_ (by decide)
  rw [request_invalid (by decide)]
  decide

end Registry

end DataBroker
