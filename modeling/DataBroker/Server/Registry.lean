import DataBroker.Lib.HashMap
import DataBroker.Lib.Transition
import DataBroker.Queue.Basic
import Mathlib.Data.Finset.Card
import Mathlib.Data.Finset.Dedup

/-!
# The registry of queues

A queue is found in two maps: `queueNames` has the `Uuid` of a name, and `queue` the queue of a
`Uuid`. Three writers keep the maps in step: the startup loop of `Server::run`, which enters the
configured names without looking, `CreateQ` and `DeleteQ`. The queues themselves stand behind
mutexes, and here for their numbers.
-/

namespace DataBroker

abbrev Uuid := U128

/-- The two maps, and how many queues have been created. -/
structure Registry where
  queueNames : HashMap String Uuid
  queue : HashMap Uuid ℕ
  created : ℕ
  numbered : ∀ hash q, queue.lookup hash = some q → q < created
deriving DecidableEq

namespace Registry

def empty : Registry where
  queueNames := ∅
  queue := ∅
  created := 0
  numbered _ _ stored := by cases stored

/-- A new queue entered under a name. -/
def insert (r : Registry) (queueName : String) (hash : Uuid) : Registry where
  queueNames := r.queueNames.insert queueName hash
  queue := r.queue.insert hash r.created
  created := r.created + 1
  numbered hash' q stored := by
    rw [HashMap.lookup_insert_eq] at stored
    split_ifs at stored
    · obtain rfl := Option.some.inj stored
      exact Nat.lt_succ_self _
    · exact Nat.lt_succ_of_lt (r.numbered hash' q stored)

/-- The name and its queue taken out of the maps. -/
def remove (r : Registry) (queueName : String) (hash : Uuid) : Registry where
  queueNames := r.queueNames.erase queueName
  queue := r.queue.erase hash
  created := r.created
  numbered hash' q stored := by
    rw [HashMap.lookup_erase_eq] at stored
    split_ifs at stored
    exact r.numbered hash' q stored

/-- What `Server::run` does with `Config::queue_names`; each name comes with its `Uuid::new_v4`. -/
def startup (config : List (String × Uuid)) : Registry :=
  config.foldl (fun r entry => r.insert entry.1 entry.2) empty

/-- `CreateQ` with `hash` for the `Uuid::new_v4`. -/
def createQ (r : Registry) (queueName : String) (hash : Uuid) : Registry :=
  if queueName ∈ r.queueNames then r else r.insert queueName hash

def deleteQ (r : Registry) (queueName : String) : Registry :=
  match r.queueNames.lookup queueName with
  | some hash => r.remove queueName hash
  | none => r

/-- The queue that a name leads to. -/
def resolve (r : Registry) (queueName : String) : Option ℕ :=
  (r.queueNames.lookup queueName).bind r.queue.lookup

/-- Every name leads to a queue of its own. -/
structure Consistent (r : Registry) : Prop where
  injective : ∀ n m hash, r.queueNames.lookup n = some hash → r.queueNames.lookup m = some hash →
    n = m
  found : ∀ n hash, r.queueNames.lookup n = some hash → hash ∈ r.queue

/-- Every name leads to a queue of its own, and every queue has a name. -/
structure Bijective (r : Registry) : Prop extends Consistent r where
  named : ∀ hash ∈ r.queue, ∃ n, r.queueNames.lookup n = some hash

/-- The number of queues. -/
def size (r : Registry) : ℕ := r.queue.keys.card

/-- A request that changes the registry. -/
inductive Change where
  | createQ (queueName : String) (hash : Uuid)
  | deleteQ (queueName : String)

def step (r : Registry) : Change → Registry
  | .createQ queueName hash => r.createQ queueName hash
  | .deleteQ queueName => r.deleteQ queueName

/-- The `Uuid` that the request may enter. -/
def Change.hash? : Change → Option Uuid
  | .createQ _ hash => some hash
  | .deleteQ _ => none

/-- The `Uuid` of a new queue is not in use. -/
def Fresh (r : Registry) : Change → Prop
  | .createQ _ hash => hash ∉ r.queue
  | .deleteQ _ => True

/-- A `DeleteQ` of a name takes away one queue, and the other names lead where they did. -/
def DeletesOne (r : Registry) : Change → Prop
  | .createQ _ _ => True
  | .deleteQ queueName => queueName ∈ r.queueNames →
      (r.deleteQ queueName).size + 1 = r.size ∧
        ∀ n ≠ queueName, (r.deleteQ queueName).resolve n = r.resolve n

/-! ## One change -/

variable {r : Registry} {n m queueName : String} {hash : Uuid}

theorem lookup_insert (r : Registry) (queueName : String) (hash : Uuid) (n : String) :
    (r.insert queueName hash).queueNames.lookup n =
      if n = queueName then some hash else r.queueNames.lookup n :=
  HashMap.lookup_insert_eq _ _ _ _

theorem mem_insert : m ∈ (r.insert queueName hash).queueNames ↔ m = queueName ∨ m ∈ r.queueNames :=
  Finmap.mem_insert

theorem lookup_remove (r : Registry) (queueName : String) (hash : Uuid) (n : String) :
    (r.remove queueName hash).queueNames.lookup n =
      if n = queueName then none else r.queueNames.lookup n :=
  HashMap.lookup_erase_eq _ _ _

theorem mem_remove {hash' : Uuid} :
    hash' ∈ (r.remove queueName hash).queue ↔ hash' ≠ hash ∧ hash' ∈ r.queue := Finmap.mem_erase

theorem createQ_of_mem (mem : queueName ∈ r.queueNames) : r.createQ queueName hash = r := if_pos mem

theorem createQ_of_notMem (new : queueName ∉ r.queueNames) :
    r.createQ queueName hash = r.insert queueName hash := if_neg new

theorem deleteQ_of_lookup (named : r.queueNames.lookup queueName = some hash) :
    r.deleteQ queueName = r.remove queueName hash := by
  rw [deleteQ, named]

theorem deleteQ_of_notMem (unnamed : queueName ∉ r.queueNames) : r.deleteQ queueName = r := by
  rw [deleteQ, Finmap.lookup_eq_none.2 unnamed]

/-- A new queue leaves the others where they are. -/
theorem resolve_insert {q : ℕ} (resolved : r.resolve n = some q) (other : n ≠ queueName)
    (unused : hash ∉ r.queue) : (r.insert queueName hash).resolve n = some q := by
  unfold resolve at *
  rw [lookup_insert, if_neg other]
  cases named : r.queueNames.lookup n with
  | none =>
    rw [named] at resolved
    cases resolved
  | some hash' =>
    rw [named, Option.bind_some] at resolved
    have ne : hash' ≠ hash := by
      rintro rfl
      exact unused (HashMap.mem_of_lookup resolved)
    show (r.queue.insert hash r.created).lookup hash' = some q
    rw [HashMap.lookup_insert_eq, if_neg ne, resolved]

theorem mem_of_resolve {q : ℕ} (resolved : r.resolve n = some q) : n ∈ r.queueNames := by
  obtain ⟨hash, named, -⟩ := Option.bind_eq_some_iff.1 resolved
  exact HashMap.mem_of_lookup named

theorem resolve_createQ {q : ℕ} (resolved : r.resolve n = some q) (unused : hash ∉ r.queue) :
    (r.createQ queueName hash).resolve n = some q := by
  by_cases named : queueName ∈ r.queueNames
  · rw [createQ_of_mem named]
    exact resolved
  · rw [createQ_of_notMem named]
    refine resolve_insert resolved ?_ unused
    rintro rfl
    exact named (mem_of_resolve resolved)

namespace Consistent

/-- The `Uuid` of a queue outside the map is not the `Uuid` of a name. -/
theorem lookup_ne (h : r.Consistent) (unused : hash ∉ r.queue) (n : String) :
    r.queueNames.lookup n ≠ some hash := fun named => unused (h.found n hash named)

theorem insert (h : r.Consistent) (unused : hash ∉ r.queue) :
    (r.insert queueName hash).Consistent where
  injective n m hash' named named' := by
    rw [lookup_insert] at named named'
    split_ifs at named named' with first second second
    · rw [first, second]
    · exact absurd (named'.trans named.symm) (h.lookup_ne unused m)
    · exact absurd (named.trans named'.symm) (h.lookup_ne unused n)
    · exact h.injective n m hash' named named'
  found n hash' named := by
    apply Finmap.mem_insert.2
    rw [lookup_insert] at named
    split_ifs at named with same
    · exact .inl (Option.some.inj named).symm
    · exact .inr (h.found n hash' named)

theorem createQ (h : r.Consistent) (unused : hash ∉ r.queue) :
    (r.createQ queueName hash).Consistent := by
  by_cases named : queueName ∈ r.queueNames
  · rw [createQ_of_mem named]
    exact h
  · rw [createQ_of_notMem named]
    exact h.insert unused

theorem deleteQ (h : r.Consistent) (queueName : String) : (r.deleteQ queueName).Consistent := by
  cases named : r.queueNames.lookup queueName with
  | none =>
    rw [deleteQ_of_notMem (Finmap.lookup_eq_none.1 named)]
    exact h
  | some hash =>
    rw [deleteQ_of_lookup named]
    constructor
    · intro n m hash' found found'
      rw [lookup_remove] at found found'
      split_ifs at found found'
      exact h.injective n m hash' found found'
    · intro n hash' found
      rw [lookup_remove] at found
      split_ifs at found with same
      refine mem_remove.2 ⟨?_, h.found n hash' found⟩
      rintro rfl
      exact same (h.injective n queueName hash' found named)

/-- The other names lead where they did. -/
theorem resolve_deleteQ (h : r.Consistent) (other : n ≠ queueName) :
    (r.deleteQ queueName).resolve n = r.resolve n := by
  cases named : r.queueNames.lookup queueName with
  | none => rw [deleteQ_of_notMem (Finmap.lookup_eq_none.1 named)]
  | some hash =>
    rw [deleteQ_of_lookup named]
    rw [resolve, resolve, lookup_remove, if_neg other]
    cases found : r.queueNames.lookup n with
    | none => rfl
    | some hash' =>
      have ne : hash' ≠ hash := by
        rintro rfl
        exact other (h.injective n queueName hash' found named)
      exact (HashMap.lookup_erase_eq ..).trans (if_neg ne)

end Consistent

namespace Bijective

theorem empty : Registry.empty.Bijective where
  injective n m hash named := by cases named
  found n hash named := by cases named
  named hash mem := absurd mem Finmap.notMem_empty

theorem insert (h : r.Bijective) (new : queueName ∉ r.queueNames) (unused : hash ∉ r.queue) :
    (r.insert queueName hash).Bijective where
  toConsistent := h.toConsistent.insert unused
  named hash' mem := by
    rcases Finmap.mem_insert.1 mem with rfl | old
    · exact ⟨queueName, by rw [lookup_insert, if_pos rfl]⟩
    · obtain ⟨n, named⟩ := h.named hash' old
      have ne : n ≠ queueName := by
        rintro rfl
        exact new (HashMap.mem_of_lookup named)
      exact ⟨n, by rw [lookup_insert, if_neg ne, named]⟩

theorem createQ (h : r.Bijective) (unused : hash ∉ r.queue) :
    (r.createQ queueName hash).Bijective := by
  by_cases named : queueName ∈ r.queueNames
  · rw [createQ_of_mem named]
    exact h
  · rw [createQ_of_notMem named]
    exact h.insert named unused

theorem deleteQ (h : r.Bijective) (queueName : String) : (r.deleteQ queueName).Bijective where
  toConsistent := h.toConsistent.deleteQ queueName
  named hash' mem := by
    cases named : r.queueNames.lookup queueName with
    | none =>
      rw [deleteQ_of_notMem (Finmap.lookup_eq_none.1 named)] at mem ⊢
      exact h.named hash' mem
    | some hash =>
      rw [deleteQ_of_lookup named] at mem ⊢
      obtain ⟨other, mem⟩ := mem_remove.1 mem
      obtain ⟨n, found⟩ := h.named hash' mem
      have ne : n ≠ queueName := by
        rintro rfl
        exact other (Option.some.inj (found.symm.trans named))
      exact ⟨n, by rw [lookup_remove, if_neg ne, found]⟩

/-- Every change with a fresh `Uuid` keeps the bijection. -/
theorem step (h : r.Bijective) {change : Change} (fresh : r.Fresh change) :
    (r.step change).Bijective := by
  cases change with
  | createQ queueName hash => exact h.createQ fresh
  | deleteQ queueName => exact h.deleteQ queueName

theorem size_deleteQ (h : r.Bijective) (named : queueName ∈ r.queueNames) :
    (r.deleteQ queueName).size + 1 = r.size := by
  obtain ⟨hash, named⟩ := Finmap.mem_iff.1 named
  rw [deleteQ_of_lookup named, size, size, show (r.remove queueName hash).queue.keys = _ from
    Finmap.keys_erase hash r.queue]
  exact Finset.card_erase_add_one (Finmap.mem_keys.2 (h.found queueName hash named))

theorem deletesOne (h : r.Bijective) (change : Change) : r.DeletesOne change := by
  cases change with
  | createQ queueName hash => trivial
  | deleteQ queueName =>
    exact fun named => ⟨h.size_deleteQ named, fun _ other => h.toConsistent.resolve_deleteQ other⟩

/-- There are at most as many queues as names. -/
theorem size_le (h : r.Bijective) : r.size ≤ r.queueNames.keys.card := by
  have image : r.queue.keys ⊆ r.queueNames.keys.image fun n => (r.queueNames.lookup n).getD 0 := by
    intro hash inside
    obtain ⟨n, named⟩ := h.named hash (Finmap.mem_keys.1 inside)
    refine Finset.mem_image.2 ⟨n, Finmap.mem_keys.2 (HashMap.mem_of_lookup named), ?_⟩
    rw [named, Option.getD_some]
  exact (Finset.card_le_card image).trans Finset.card_image_le

end Bijective

/-! ## Startup -/

theorem mem_queue_foldl (config : List (String × Uuid)) (r : Registry) :
    hash ∈ (config.foldl (fun r entry => r.insert entry.1 entry.2) r).queue ↔
      hash ∈ r.queue ∨ hash ∈ config.map Prod.snd := by
  induction config generalizing r with
  | nil => simp
  | cons entry config ih =>
    rw [List.foldl_cons, ih, List.map_cons, List.mem_cons]
    rw [show hash ∈ (r.insert entry.1 entry.2).queue ↔ hash = entry.2 ∨ hash ∈ r.queue from
      Finmap.mem_insert]
    tauto

theorem mem_queueNames_foldl (config : List (String × Uuid)) (r : Registry) :
    n ∈ (config.foldl (fun r entry => r.insert entry.1 entry.2) r).queueNames ↔
      n ∈ r.queueNames ∨ n ∈ config.map Prod.fst := by
  induction config generalizing r with
  | nil => simp
  | cons entry config ih =>
    rw [List.foldl_cons, ih, List.map_cons, List.mem_cons, mem_insert]
    tauto

/-- Entering new names one after the other. -/
theorem Bijective.foldl {config : List (String × Uuid)} (h : r.Bijective)
    (names : (config.map Prod.fst).Nodup) (hashes : (config.map Prod.snd).Nodup)
    (new : ∀ entry ∈ config, entry.1 ∉ r.queueNames ∧ entry.2 ∉ r.queue) :
    (config.foldl (fun r entry => r.insert entry.1 entry.2) r).Bijective := by
  induction config generalizing r with
  | nil => exact h
  | cons entry config ih =>
    obtain ⟨name, names⟩ := List.nodup_cons.1 names
    obtain ⟨hash, hashes⟩ := List.nodup_cons.1 hashes
    obtain ⟨unnamed, fresh⟩ := new entry (List.mem_cons_self ..)
    apply ih (h.insert unnamed fresh) names hashes
    intro other inside
    obtain ⟨unnamed', fresh'⟩ := new other (List.mem_cons_of_mem _ inside)
    constructor
    · rw [mem_insert]
      rintro (same | old)
      · exact name (same ▸ List.mem_map_of_mem inside)
      · exact unnamed' old
    · intro mem
      rcases Finmap.mem_insert.1 mem with same | old
      · exact hash (same ▸ List.mem_map_of_mem inside)
      · exact fresh' old

/-- The configured names decide whether the registry starts as a bijection. -/
theorem bijective_startup {config : List (String × Uuid)} (hashes : (config.map Prod.snd).Nodup) :
    (startup config).Bijective ↔ (config.map Prod.fst).Nodup := by
  constructor
  · intro h
    have queues : (startup config).queue.keys = (config.map Prod.snd).toFinset := by
      ext hash
      rw [Finmap.mem_keys, startup, mem_queue_foldl, List.mem_toFinset]
      exact or_iff_right Finmap.notMem_empty
    have names : (startup config).queueNames.keys = (config.map Prod.fst).toFinset := by
      ext n
      rw [Finmap.mem_keys, startup, mem_queueNames_foldl, List.mem_toFinset]
      exact or_iff_right Finmap.notMem_empty
    have enough : config.length ≤ (config.map Prod.fst).dedup.length := by
      have le := h.size_le
      rw [size, queues, names, List.toFinset_card_of_nodup hashes, List.length_map,
        List.card_toFinset] at le
      exact le
    have same : (config.map Prod.fst).dedup = config.map Prod.fst :=
      (List.dedup_sublist _).eq_of_length_le (by rwa [List.length_map])
    exact List.dedup_eq_self.1 same
  · intro names
    exact Bijective.empty.foldl names hashes fun _ _ => ⟨Finmap.notMem_empty, Finmap.notMem_empty⟩

/-! ## Runs -/

/-- A `Uuid` that differs from all earlier ones is not in use. -/
theorem everyStep_fresh {changes : List Change} {used : List Uuid}
    (known : ∀ hash ∈ r.queue, hash ∈ used) (distinct : (used ++ changes.filterMap Change.hash?).Nodup) :
    Transition.EveryStep step Fresh r changes := by
  induction changes generalizing r used with
  | nil => trivial
  | cons change changes ih =>
    cases change with
    | createQ queueName hash =>
      change (used ++ hash :: changes.filterMap Change.hash?).Nodup at distinct
      have unused : hash ∉ used := fun old =>
        List.disjoint_of_nodup_append distinct old (List.mem_cons_self ..)
      refine ⟨fun old => unused (known hash old), @ih _ (used ++ [hash]) ?_ ?_⟩
      · intro hash' inside
        change hash' ∈ (r.createQ queueName hash).queue at inside
        rw [List.mem_append, List.mem_singleton]
        by_cases named : queueName ∈ r.queueNames
        · rw [createQ_of_mem named] at inside
          exact .inl (known hash' inside)
        · rw [createQ_of_notMem named] at inside
          exact (Finmap.mem_insert.1 inside).symm.imp_left (known hash')
      · rwa [List.append_assoc, List.singleton_append]
    | deleteQ queueName =>
      change (used ++ changes.filterMap Change.hash?).Nodup at distinct
      refine ⟨trivial, ih (fun hash inside => known hash ?_) distinct⟩
      change hash ∈ (r.deleteQ queueName).queue at inside
      cases named : r.queueNames.lookup queueName with
      | none => rwa [deleteQ_of_notMem (Finmap.lookup_eq_none.1 named)] at inside
      | some hash' =>
        rw [deleteQ_of_lookup named] at inside
        exact (Finmap.mem_erase.1 inside).2

/-- The registry is a bijection in every state of every run, and every `DeleteQ` takes away one
queue, if and only if no name is configured twice. -/
theorem bijective_iff_nodup (config : List (String × Uuid)) (changes : List Change)
    (distinct : (config.map Prod.snd ++ changes.filterMap Change.hash?).Nodup) :
    Transition.EveryState step Bijective (startup config) changes ∧
        Transition.EveryStep step DeletesOne (startup config) changes ↔
      (config.map Prod.fst).Nodup := by
  rw [← bijective_startup distinct.of_append_left]
  refine ⟨fun h => h.1.first, fun h => ?_⟩
  have known : ∀ hash ∈ (startup config).queue, hash ∈ config.map Prod.snd := by
    intro hash inside
    exact ((mem_queue_foldl config empty).1 inside).resolve_left Finmap.notMem_empty
  have fresh := everyStep_fresh known distinct
  have states : Transition.EveryState step Bijective (startup config) changes :=
    fresh.invariant h fun _ _ (h : Bijective _) fresh => h.step fresh
  exact ⟨states, fresh.mono_of states fun r change (h : r.Bijective) _ => h.deletesOne change⟩

/-- Two configured names; one is deleted and created again. -/
theorem bijective_two_names :
    Transition.EveryState step Bijective (startup [("a", 1), ("b", 2)])
        [.deleteQ "a", .createQ "a" 3] ∧
      Transition.EveryStep step DeletesOne (startup [("a", 1), ("b", 2)])
        [.deleteQ "a", .createQ "a" 3] :=
  (bijective_iff_nodup _ _ (by decide)).2 (by decide)

/-- A name configured twice leaves a queue that no name leads to. -/
theorem configured_twice :
    ¬ ∀ (config : List (String × Uuid)) (changes : List Change),
      (config.map Prod.snd ++ changes.filterMap Change.hash?).Nodup →
      Transition.EveryState step Bijective (startup config) changes ∧
        Transition.EveryStep step DeletesOne (startup config) changes := by
  intro bijective
  have first := (bijective [("a", 1), ("a", 2)] [] (by decide)).1.first
  obtain ⟨n, named⟩ := first.named 1 (by decide)
  by_cases same : n = "a"
  · subst same
    exact absurd named (by decide)
  · have unnamed : (startup [("a", 1), ("a", 2)]).queueNames.lookup n = none := by
      rw [Finmap.lookup_eq_none, startup, mem_queueNames_foldl]
      simp [same, empty, Finmap.notMem_empty]
    rw [unnamed] at named
    cases named

end Registry

end DataBroker
