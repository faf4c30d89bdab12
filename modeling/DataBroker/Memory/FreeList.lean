import DataBroker.Memory.Layout

/-!
# The free list

A free slot holds a `FreeNode`: its size and the address of the next node, zero at the end. The
list is walked and rewritten through links, the places that hold the address of a node: the head
of the list or the `next` field of a node.

`Linked m a free` reads the list from address `a` as the segments `free`. The loops get a bound on
their rounds; any bound above the length of the list is enough.
-/

namespace DataBroker

namespace FreeNode

def size (m : Memory) (node : ℕ) : ℕ := m.load 8 node

def next (m : Memory) (node : ℕ) : ℕ := m.load 8 (node + 8)

def setSize (m : Memory) (node value : ℕ) : Memory := m.store 8 node value

def setNext (m : Memory) (node value : ℕ) : Memory := m.store 8 (node + 8) value

end FreeNode

/-- A `*mut *mut FreeNode`: the head of the list, or the `next` field of a node. -/
inductive Link where
  | head
  | next (node : ℕ)
deriving DecidableEq, Repr

/-- A head pointer, and the memory that holds the nodes. -/
structure FreeList where
  head : ℕ
  memory : Memory

namespace FreeList

/-- `*link` -/
def deref (l : FreeList) : Link → ℕ
  | .head => l.head
  | .next node => FreeNode.next l.memory node

/-- `*link = value` -/
def assign (l : FreeList) (link : Link) (value : ℕ) : FreeList :=
  match link with
  | .head => { l with head := value }
  | .next node => { l with memory := FreeNode.setNext l.memory node value }

/-- The walk of `alloc_from_free_list`: the link to the first node of at least `needed` bytes. -/
def findNode (l : FreeList) (needed : ℕ) : ℕ → Link → Option Link
  | 0, _ => none
  | rounds + 1, prev =>
    let node := l.deref prev
    if node = 0 then none
    else if FreeNode.size l.memory node ≥ needed then some prev
    else l.findNode needed rounds (.next node)

/-- What `alloc_from_free_list` does with the node it found: the list without it, or with what is
left over of it, and the size of the slot. -/
def takeNode (l : FreeList) (prev : Link) (needed : ℕ) : ℕ × FreeList :=
  let node := l.deref prev
  let nodeSize := FreeNode.size l.memory node
  let l := l.assign prev (FreeNode.next l.memory node)
  let leftover := nodeSize - needed
  if leftover ≥ minSlotSize then
    let remainder := node + needed
    let l := { l with memory := FreeNode.setSize l.memory remainder leftover }
    let l := l.assign (.next remainder) (l.deref prev)
    (needed, l.assign prev remainder)
  else (nodeSize, l)

/-- What a slot gets beyond `needed` bytes when the first node that is large enough is taken whole,
because what is left over would not make a node. -/
def surplus (l : FreeList) (needed rounds : ℕ) : ℕ :=
  match l.findNode needed rounds .head with
  | none => 0
  | some prev =>
    let leftover := FreeNode.size l.memory (l.deref prev) - needed
    if leftover ≥ minSlotSize then 0 else leftover

/-- `dealloc`: a node written into the slot, at the front of the list. -/
def push (l : FreeList) (slotStart slotSize : ℕ) : FreeList :=
  let memory := FreeNode.setSize l.memory slotStart slotSize
  ⟨slotStart, FreeNode.setNext memory slotStart l.head⟩

/-- `defragment`: the link before which `current` belongs in the sorted list. -/
def findPlace (sorted : FreeList) (current : ℕ) : ℕ → Link → Link
  | 0, prev => prev
  | rounds + 1, prev =>
    if sorted.deref prev ≠ 0 ∧ sorted.deref prev < current then
      sorted.findPlace current rounds (.next (sorted.deref prev))
    else prev

/-- `defragment`: the node `current` tied into the sorted list. -/
def insertNode (sorted : FreeList) (current bound : ℕ) : FreeList :=
  let prev := sorted.findPlace current bound .head
  let sorted := sorted.assign (.next current) (sorted.deref prev)
  sorted.assign prev current

/-- `defragment`: the nodes from `current` on inserted into the sorted list one by one. -/
def sortNodes (bound : ℕ) : ℕ → ℕ → FreeList → FreeList
  | 0, _, sorted => sorted
  | rounds + 1, current, sorted =>
    if current = 0 then sorted
    else
      let next := FreeNode.next sorted.memory current
      sortNodes bound rounds next (sorted.insertNode current bound)

/-- `defragment`: nodes that touch merged, from `node` on. -/
def mergeNodes : ℕ → ℕ → Memory → Memory
  | 0, _, m => m
  | rounds + 1, node, m =>
    if node ≠ 0 ∧ FreeNode.next m node ≠ 0 then
      let next := FreeNode.next m node
      if node + FreeNode.size m node = next then
        let m := FreeNode.setSize m node (FreeNode.size m node + FreeNode.size m next)
        let m := FreeNode.setNext m node (FreeNode.next m next)
        mergeNodes rounds node m
      else mergeNodes rounds next m
    else m

/-- `defragment` on a list of fewer than `bound` nodes. -/
def defragment (bound : ℕ) (l : FreeList) : FreeList :=
  let sorted := sortNodes bound bound l.head ⟨0, l.memory⟩
  ⟨sorted.head, mergeNodes bound sorted.head sorted.memory⟩

end FreeList

open Segment

/-- The list from address `a` holds the segments `free`, in this order. -/
def Linked (m : Memory) : ℕ → List Segment → Prop
  | a, [] => a = 0
  | a, s :: free =>
    a = s.start ∧ a ≠ 0 ∧ FreeNode.size m a = s.size ∧ Linked m (FreeNode.next m a) free

/-- The bytes of the node at the start of a segment. -/
def FreeNode.bytes (s : Segment) : Segment := ⟨s.start, minSlotSize⟩

/-- Two nodes that do not overlap. -/
def Clear (s t : Segment) : Prop := (FreeNode.bytes s).Apart (FreeNode.bytes t)

instance : DecidableRel Clear := fun _ _ => inferInstanceAs (Decidable (Segment.Apart _ _))

/-- A slot with room for a node, at an address that fits in a word. -/
structure Roomy (s : Segment) : Prop where
  room : minSlotSize ≤ s.size
  fits : s.stop < 2 ^ 64

/-- Nodes at addresses that are words, of which each can be written without the others. -/
structure Nodes (free : List Segment) : Prop where
  words : ∀ s ∈ free, s.start < 2 ^ 64
  clear : free.Pairwise Clear

/-- The link behind the last segment of a prefix of the list. -/
def Link.behind (pre : List Segment) : Link :=
  match pre.getLast? with
  | none => .head
  | some s => .next s.start

@[simp] theorem Link.behind_nil : Link.behind [] = .head := rfl

@[simp] theorem Link.behind_concat (pre : List Segment) (s : Segment) :
    Link.behind (pre ++ [s]) = .next s.start := by
  rw [Link.behind, List.getLast?_concat]

/-! ## Reading the list -/

section Reading

variable {m m' m'' : Memory} {a : ℕ} {s t : Segment} {free pre rest others : List Segment}

/-- The two words of a node in memories that agree on its bytes. -/
theorem FreeNode.congr (same : m.AgreeOn m' s.start (bytes s).stop) :
    size m s.start = size m' s.start ∧ next m s.start = next m' s.start := by
  unfold bytes minSlotSize stop at same
  constructor
  · exact Memory.load_congr (same.mono le_rfl (by dsimp only; omega))
  · exact Memory.load_congr (same.mono (by omega) (by dsimp only; omega))

theorem Linked.congr (h : Linked m a free)
    (same : ∀ s ∈ free, m.AgreeOn m' s.start (FreeNode.bytes s).stop) : Linked m' a free := by
  induction free generalizing a with
  | nil => exact h
  | cons s free ih =>
    obtain ⟨rfl, nonnull, size, rest⟩ := h
    obtain ⟨here, same⟩ := List.forall_mem_cons.1 same
    obtain ⟨sizes, nexts⟩ := FreeNode.congr here
    exact ⟨rfl, nonnull, sizes ▸ size, ih (nexts ▸ rest) same⟩

theorem Linked.tail (h : Linked m a (pre ++ s :: rest)) :
    Linked m (FreeNode.next m s.start) rest := by
  induction pre generalizing a with
  | nil =>
    obtain ⟨rfl, -, -, h⟩ := h
    exact h
  | cons t pre ih => exact ih h.2.2.2

/-- The segments tell where a list begins. -/
theorem Linked.head_eq {b : ℕ} (h : Linked m a free) (h' : Linked m' b free) : a = b := by
  cases free with
  | nil => exact Eq.trans (b := 0) h (Eq.symm h')
  | cons s free => exact h.1.trans h'.1.symm

/-- The rest of the list hangs from the link behind the prefix. -/
theorem Linked.behind {l : FreeList} (h : Linked l.memory l.head (pre ++ rest)) :
    Linked l.memory (l.deref (Link.behind pre)) rest := by
  rcases pre.eq_nil_or_concat' with rfl | ⟨pre, s, rfl⟩
  · exact h
  · rw [List.append_assoc] at h
    rw [Link.behind_concat]
    exact h.tail

/-- The list with another tail behind `s`. -/
theorem Linked.splice (h : Linked m a (pre ++ s :: rest))
    (same : ∀ t ∈ pre, m.AgreeOn m' t.start (FreeNode.bytes t).stop)
    (size : FreeNode.size m' s.start = FreeNode.size m s.start)
    (tail : Linked m' (FreeNode.next m' s.start) others) : Linked m' a (pre ++ s :: others) := by
  induction pre generalizing a with
  | nil =>
    obtain ⟨rfl, nonnull, old, -⟩ := h
    exact ⟨rfl, nonnull, size.trans old, tail⟩
  | cons t pre ih =>
    obtain ⟨rfl, nonnull, old, h⟩ := h
    obtain ⟨here, same⟩ := List.forall_mem_cons.1 same
    obtain ⟨sizes, nexts⟩ := FreeNode.congr here
    exact ⟨rfl, nonnull, sizes ▸ old, ih (nexts ▸ h) same⟩

/-- A list whose nodes are apart from the changed segments is still there. -/
theorem Linked.beside {changed : List Segment} (h : Linked m a free)
    (same : SameOutside changed m m')
    (apart : ∀ s ∈ changed, ∀ t ∈ free, s.Apart (FreeNode.bytes t)) : Linked m' a free :=
  h.congr fun t ht => same.agree fun s hs => apart s hs t ht

/-- The list and the bytes outside its nodes are all there is to a memory. -/
theorem Linked.memory_eq (h : Linked m a free) (h' : Linked m' a free)
    (same : SameOutside (free.map FreeNode.bytes) m m') : m = m' := by
  have nodes : ∀ s ∈ free, m.AgreeOn m' s.start (FreeNode.bytes s).stop := by
    clear same
    induction free generalizing a with
    | nil => simp
    | cons s free ih =>
      obtain ⟨rfl, -, size, rest⟩ := h
      obtain ⟨-, -, size', rest'⟩ := h'
      have next : FreeNode.next m s.start = FreeNode.next m' s.start := rest.head_eq rest'
      rw [← next] at rest'
      refine List.forall_mem_cons.2 ⟨?_, ih rest rest'⟩
      have first := Memory.agree_of_load_eq (size.trans size'.symm)
      have second := Memory.agree_of_load_eq next
      intro k hlo hhi
      unfold FreeNode.bytes minSlotSize stop at hhi
      by_cases low : k < s.start + 8
      · exact first k hlo low
      · exact second k (by omega) (by dsimp only at hhi; omega)
  funext k
  by_cases covered : ∃ s ∈ free, (FreeNode.bytes s).Covers k
  · obtain ⟨s, hs, hlo, hhi⟩ := covered
    exact nodes s hs k hlo hhi
  · exact same k (List.forall_mem_map.2 fun s hs inside => covered ⟨s, hs, inside⟩)

end Reading

/-! ## Writing nodes -/

section Writing

variable {m : Memory} {a v : ℕ} {s : Segment} {free pre rest others : List Segment}

namespace FreeNode

theorem next_lt (m : Memory) (a : ℕ) : next m a < 2 ^ 64 := m.load_lt 8 (a + 8)

theorem next_setNext (fits : v < 2 ^ 64) : next (setNext m a v) a = v :=
  Memory.load_store_of_lt fits

theorem size_setNext : size (setNext m a v) a = size m a :=
  Memory.load_store_other (.inl le_rfl)

theorem size_setSize (fits : v < 2 ^ 64) : size (setSize m a v) a = v :=
  Memory.load_store_of_lt fits

end FreeNode

theorem FreeNode.sameOutside_setNext :
    SameOutside [FreeNode.bytes s] m (FreeNode.setNext m s.start v) := by
  intro k hk
  have := List.forall_mem_singleton.1 hk
  simp only [FreeNode.bytes, minSlotSize, Covers, stop] at this
  exact (if_neg (by omega)).symm

theorem FreeNode.sameOutside_setSize :
    SameOutside [FreeNode.bytes s] m (FreeNode.setSize m s.start v) := by
  intro k hk
  have := List.forall_mem_singleton.1 hk
  simp only [FreeNode.bytes, minSlotSize, Covers, stop] at this
  exact (if_neg (by omega)).symm

namespace Nodes

theorem perm (same : free.Perm others) (nodes : Nodes free) : Nodes others where
  words s hs := nodes.words s (same.mem_iff.2 hs)
  clear := (same.pairwise_iff Apart.symm).1 nodes.clear

theorem left (nodes : Nodes (free ++ others)) : Nodes free where
  words s hs := nodes.words s (List.mem_append_left _ hs)
  clear := (List.pairwise_append.1 nodes.clear).1

theorem tail (nodes : Nodes (s :: free)) : Nodes free where
  words s hs := nodes.words s (List.mem_cons_of_mem _ hs)
  clear := (List.pairwise_cons.1 nodes.clear).2

end Nodes

/-- An assignment behind a prefix writes into the nodes of the prefix only. -/
theorem sameOutside_assign {l : FreeList} :
    SameOutside (pre.map FreeNode.bytes) l.memory (l.assign (Link.behind pre) v).memory := by
  rcases pre.eq_nil_or_concat' with rfl | ⟨pre, s, rfl⟩
  · exact .refl _ _
  · rw [Link.behind_concat, List.map_append]
    exact FreeNode.sameOutside_setNext.mono (List.subset_append_right _ _)

/-- After an assignment behind a prefix the list goes on with what hangs from the new address. -/
theorem linked_assign {l : FreeList} (h : Linked l.memory l.head (pre ++ rest))
    (clear : pre.Pairwise Clear) (word : v < 2 ^ 64)
    (hangs : Linked (l.assign (Link.behind pre) v).memory v others) :
    Linked (l.assign (Link.behind pre) v).memory (l.assign (Link.behind pre) v).head
      (pre ++ others) := by
  rcases pre.eq_nil_or_concat' with rfl | ⟨pre, s, rfl⟩
  · exact hangs
  · rw [Link.behind_concat] at hangs ⊢
    rw [List.append_assoc] at h ⊢
    refine h.splice (fun t ht => ?_) FreeNode.size_setNext ?_
    · have aside := (List.pairwise_append.1 clear).2.2 t ht s (by simp)
      exact FreeNode.sameOutside_setNext.agree (List.forall_mem_singleton.2 aside.symm)
    · have next : FreeNode.next (l.assign (.next s.start) v).memory s.start = v :=
        FreeNode.next_setNext word
      rw [next]
      exact hangs

/-- A node tied into the list behind a prefix. -/
theorem linked_insert {l : FreeList} (h : Linked l.memory l.head (pre ++ rest))
    (nodes : Nodes (s :: (pre ++ rest))) (nonnull : s.start ≠ 0)
    (size : FreeNode.size l.memory s.start = s.size) :
    let l' := (l.assign (.next s.start) (l.deref (Link.behind pre))).assign (Link.behind pre) s.start
    Linked l'.memory l'.head (pre ++ s :: rest) ∧
      SameOutside ((pre ++ [s]).map FreeNode.bytes) l.memory l'.memory := by
  obtain ⟨word, words⟩ := List.forall_mem_cons.1 nodes.words
  obtain ⟨beside, clear⟩ := List.pairwise_cons.1 nodes.clear
  obtain ⟨clearPre, -, crossed⟩ := List.pairwise_append.1 clear
  let tied := l.assign (.next s.start) (l.deref (Link.behind pre))
  have same : SameOutside [FreeNode.bytes s] l.memory tied.memory := FreeNode.sameOutside_setNext
  have same' : SameOutside (pre.map FreeNode.bytes) tied.memory
      (tied.assign (Link.behind pre) s.start).memory := sameOutside_assign
  have list : Linked tied.memory tied.head (pre ++ rest) :=
    h.beside same (List.forall_mem_singleton.2 beside)
  have hangs : Linked tied.memory s.start (s :: rest) := by
    have fits : l.deref (Link.behind pre) < 2 ^ 64 := by
      rcases pre.eq_nil_or_concat' with rfl | ⟨pre, t, rfl⟩
      · cases rest with
        | nil => rw [h.behind]; decide
        | cons t rest =>
          rw [h.behind.1]
          exact words t (by simp)
      · rw [Link.behind_concat]
        exact FreeNode.next_lt _ _
    have next : FreeNode.next tied.memory s.start = l.deref (Link.behind pre) :=
      FreeNode.next_setNext fits
    refine ⟨rfl, nonnull, FreeNode.size_setNext.trans size, ?_⟩
    rw [next]
    exact h.behind.beside same (List.forall_mem_singleton.2 fun t ht =>
      beside t (List.mem_append_right _ ht))
  rw [List.map_append]
  constructor
  · refine linked_assign list clearPre word (hangs.beside same' (List.forall_mem_map.2
      fun t ht => List.forall_mem_cons.2 ⟨?_, crossed t ht⟩))
    exact (beside t (List.mem_append_left _ ht)).symm
  · exact (same.mono (List.subset_append_right _ _)).trans
      (same'.mono (List.subset_append_left _ _))

end Writing

/-! ## Nodes in slots that have room for them -/

section Roomy

variable {m m' : Memory} {s t : Segment} {free : List Segment}

theorem Roomy.start_lt (roomy : Roomy s) : s.start < 2 ^ 64 := by
  have := roomy.room
  have := roomy.fits
  unfold minSlotSize stop at *
  omega

theorem Roomy.size_lt (roomy : Roomy s) : s.size < 2 ^ 64 := by
  have := roomy.fits
  unfold stop at this
  omega

theorem Roomy.apart_bytes (roomy : Roomy t) (apart : s.Apart t) : s.Apart (FreeNode.bytes t) := by
  have := roomy.room
  simp only [Apart, FreeNode.bytes, stop] at *
  omega

theorem Roomy.clear (hs : Roomy s) (ht : Roomy t) (apart : s.Apart t) : Clear s t :=
  (hs.apart_bytes (ht.apart_bytes apart).symm).symm

/-- Slots with room for their nodes, apart from each other, have nodes that do not overlap. -/
theorem nodes_of_roomy (roomy : ∀ s ∈ free, Roomy s) (apart : free.Pairwise Apart) :
    Nodes free where
  words s hs := (roomy s hs).start_lt
  clear := apart.imp_of_mem fun hs ht aside => (roomy _ hs).clear (roomy _ ht) aside

/-- What is written into the nodes is written into their slots. -/
theorem sameOutside_of_nodes (roomy : ∀ s ∈ free, Roomy s)
    (same : SameOutside (free.map FreeNode.bytes) m m') : SameOutside free m m' := by
  intro k hk
  refine same k (List.forall_mem_map.2 fun s hs inside => hk s hs ?_)
  have := (roomy s hs).room
  simp only [Covers, FreeNode.bytes, stop] at *
  omega

/-- A list apart from the changed segments is still there. -/
theorem Linked.outside {a : ℕ} {changed : List Segment} (h : Linked m a free)
    (roomy : ∀ s ∈ free, Roomy s) (same : SameOutside changed m m')
    (apart : ∀ s ∈ changed, ∀ t ∈ free, s.Apart t) : Linked m' a free :=
  h.beside same fun s hs t ht => (roomy t ht).apart_bytes (apart s hs t ht)

end Roomy

/-! ## Taking and returning a slot -/

section Taking

variable {l : FreeList} {needed rounds : ℕ} {s : Segment} {pre rest : List Segment}

theorem Linked.deref_cons (h : Linked l.memory l.head (pre ++ s :: rest)) :
    l.deref (Link.behind pre) = s.start ∧ s.start ≠ 0 ∧ FreeNode.size l.memory s.start = s.size := by
  obtain ⟨here, nonnull, size, -⟩ := h.behind
  rw [here] at nonnull size
  exact ⟨here, nonnull, size⟩

theorem findNode_none (h : Linked l.memory l.head (pre ++ rest))
    (small : ∀ s ∈ rest, s.size < needed) : l.findNode needed rounds (Link.behind pre) = none := by
  induction rounds generalizing pre rest with
  | zero => rfl
  | succ rounds ih =>
    rw [FreeList.findNode]
    cases rest with
    | nil => exact if_pos h.behind
    | cons s rest =>
      obtain ⟨here, nonnull, size⟩ := h.deref_cons
      obtain ⟨first, others⟩ := List.forall_mem_cons.1 small
      rw [here, if_neg nonnull, if_neg (by omega), ← Link.behind_concat pre s]
      exact ih (by rwa [List.append_assoc]) others

theorem findNode_some {skipped : List Segment}
    (h : Linked l.memory l.head (pre ++ (skipped ++ s :: rest)))
    (small : ∀ t ∈ skipped, t.size < needed) (large : needed ≤ s.size)
    (enough : skipped.length < rounds) :
    l.findNode needed rounds (Link.behind pre) = some (Link.behind (pre ++ skipped)) := by
  induction rounds generalizing pre skipped with
  | zero => omega
  | succ rounds ih =>
    rw [FreeList.findNode]
    cases skipped with
    | nil =>
      obtain ⟨here, nonnull, size⟩ := h.deref_cons
      rw [here, if_neg nonnull, if_pos (by omega), List.append_nil]
    | cons t skipped =>
      obtain ⟨here, nonnull, size⟩ := h.deref_cons
      obtain ⟨first, others⟩ := List.forall_mem_cons.1 small
      rw [here, if_neg nonnull, if_neg (by omega), ← Link.behind_concat pre t,
        List.append_cons pre t skipped]
      exact ih (by rwa [List.append_assoc]) others (by simpa using enough)

/-- What is left of a slot lies apart from what the slot lies apart from. -/
theorem apart_remainder {t : Segment} (aside : s.Apart t) (large : needed ≤ s.size) :
    (⟨s.start + needed, s.size - needed⟩ : Segment).Apart t := by
  simp only [Apart, stop] at *
  omega

/-- A slot written as a node, and tied into the list behind a prefix. -/
theorem linked_new (h : Linked l.memory l.head (pre ++ rest)) (roomy : ∀ t ∈ pre ++ rest, Roomy t)
    (apart : (pre ++ rest).Pairwise Apart) (new : Roomy s) (nonnull : s.start ≠ 0)
    (beside : ∀ t ∈ pre ++ rest, s.Apart t) :
    let sized : FreeList := { l with memory := FreeNode.setSize l.memory s.start s.size }
    let l' := (sized.assign (.next s.start) (sized.deref (Link.behind pre))).assign
      (Link.behind pre) s.start
    Linked l'.memory l'.head (pre ++ s :: rest) ∧ SameOutside (pre ++ [s]) l.memory l'.memory := by
  intro sized l'
  have nodes : Nodes (s :: (pre ++ rest)) := nodes_of_roomy (List.forall_mem_cons.2 ⟨new, roomy⟩)
    (List.pairwise_cons.2 ⟨beside, apart⟩)
  have same : SameOutside [FreeNode.bytes s] l.memory sized.memory := FreeNode.sameOutside_setSize
  have list : Linked sized.memory sized.head (pre ++ rest) :=
    h.beside same (List.forall_mem_singleton.2 (List.pairwise_cons.1 nodes.clear).1)
  obtain ⟨linked, same'⟩ := linked_insert list nodes nonnull (FreeNode.size_setSize new.size_lt)
  have written : ∀ t ∈ pre ++ [s], Roomy t := List.forall_mem_append.2
    ⟨(List.forall_mem_append.1 roomy).1, List.forall_mem_singleton.2 new⟩
  exact ⟨linked, sameOutside_of_nodes written ((same.mono (by simp)).trans same')⟩

/-- `takeNode` cuts the node behind the prefix. -/
theorem takeNode_spec (h : Linked l.memory l.head (pre ++ s :: rest))
    (roomy : ∀ t ∈ pre ++ s :: rest, Roomy t) (apart : (pre ++ s :: rest).Pairwise Apart)
    (large : needed ≤ s.size) :
    let taken := l.takeNode (Link.behind pre) needed
    taken.1 = (cut minSlotSize needed s).1.size ∧
      Linked taken.2.memory taken.2.head (pre ++ ((cut minSlotSize needed s).2 ++ rest)) ∧
      SameOutside (pre ++ [s]) l.memory taken.2.memory := by
  obtain ⟨roomyPre, roomyRest⟩ := List.forall_mem_append.1 roomy
  obtain ⟨roomyNode, roomyTail⟩ := List.forall_mem_cons.1 roomyRest
  obtain ⟨apartPre, apartRest, aside⟩ := List.pairwise_append.1 apart
  obtain ⟨behind, apartTail⟩ := List.pairwise_cons.1 apartRest
  obtain ⟨here, nonnull, size⟩ := h.deref_cons
  have roomyList := List.forall_mem_append.2 ⟨roomyPre, roomyTail⟩
  have crossed : ∀ t ∈ pre, ∀ u ∈ rest, t.Apart u := fun t ht u hu =>
    aside t ht u (List.mem_cons_of_mem _ hu)
  -- the list without the node
  let unlinked := l.assign (Link.behind pre) (FreeNode.next l.memory s.start)
  have same : SameOutside pre l.memory unlinked.memory :=
    sameOutside_of_nodes roomyPre sameOutside_assign
  have list : Linked unlinked.memory unlinked.head (pre ++ rest) :=
    linked_assign h (nodes_of_roomy roomyPre apartPre).clear (FreeNode.next_lt _ _)
      (h.tail.beside same fun t ht u hu => (roomyTail u hu).apart_bytes (crossed t ht u hu))
  unfold FreeList.takeNode cut
  simp only [here, size]
  split_ifs with cuts
  · -- the remainder in its place
    let remainder : Segment := ⟨s.start + needed, s.size - needed⟩
    have new : Roomy remainder := ⟨cuts, by
      have := roomyNode.fits
      simp only [remainder, stop] at *
      omega⟩
    have beside : ∀ t ∈ pre ++ rest, remainder.Apart t := by
      refine List.forall_mem_append.2 ⟨fun t ht => ?_, fun t ht => ?_⟩
      · exact apart_remainder (aside t ht s List.mem_cons_self).symm large
      · exact apart_remainder (behind t ht) large
    have nonnull' : remainder.start ≠ 0 := by
      simp only [remainder]
      omega
    obtain ⟨linked, same'⟩ := linked_new list roomyList
      (List.pairwise_append.2 ⟨apartPre, apartTail, crossed⟩) new nonnull' beside
    refine ⟨rfl, linked, ?_⟩
    have all : SameOutside (pre ++ [remainder]) l.memory _ :=
      (same.mono (List.subset_append_left _ _)).trans same'
    apply all.widen
    simp only [remainder, stop]
    omega
  · exact ⟨rfl, list, same.mono (List.subset_append_left _ _)⟩

/-- `push` puts the slot at the front of the list. -/
theorem push_spec {free : List Segment} (h : Linked l.memory l.head free)
    (roomy : ∀ t ∈ free, Roomy t) (apart : free.Pairwise Apart) (new : Roomy s)
    (nonnull : s.start ≠ 0) (beside : ∀ t ∈ free, s.Apart t) :
    let l' := l.push s.start s.size
    Linked l'.memory l'.head (s :: free) ∧ SameOutside [s] l.memory l'.memory :=
  linked_new (show Linked l.memory l.head ([] ++ free) from h) roomy apart new nonnull beside

end Taking

/-! ## Defragmentation -/

section Defragment

variable {m : Memory} {l : FreeList} {bound rounds a : ℕ} {s : Segment}
  {pre rest free done todo : List Segment}

theorem findPlace_spec (h : Linked l.memory l.head (pre ++ rest)) (enough : rest.length < rounds) :
    l.findPlace s.start rounds (Link.behind pre) =
      Link.behind (pre ++ rest.takeWhile fun t => ¬ Before s t) := by
  induction rounds generalizing pre rest with
  | zero => omega
  | succ rounds ih =>
    rw [FreeList.findPlace]
    cases rest with
    | nil =>
      rw [h.behind]
      simp
    | cons t rest =>
      obtain ⟨here, nonnull, -⟩ := h.deref_cons
      rw [here]
      by_cases before : t.start < s.start
      · have moved : Linked l.memory l.head ((pre ++ [t]) ++ rest) := by rwa [List.append_assoc]
        have next := ih moved (by simpa using enough)
        rw [Link.behind_concat] at next
        rw [if_pos ⟨nonnull, before⟩, next, List.takeWhile_cons_of_pos (by simpa [Before] using before),
          List.append_assoc]
        rfl
      · rw [if_neg (by tauto), List.takeWhile_cons_of_neg (by simpa [Before] using before),
          List.append_nil]

theorem insertNode_spec (h : Linked l.memory l.head done) (nodes : Nodes (s :: done))
    (enough : done.length < bound) (nonnull : s.start ≠ 0)
    (size : FreeNode.size l.memory s.start = s.size) :
    let l' := l.insertNode s.start bound
    Linked l'.memory l'.head (done.orderedInsert Before s) ∧
      SameOutside ((done ++ [s]).map FreeNode.bytes) l.memory l'.memory := by
  obtain ⟨pre, hpre⟩ : ∃ pre, pre = done.takeWhile fun t => ¬ Before s t := ⟨_, rfl⟩
  obtain ⟨rest, hrest⟩ : ∃ rest, rest = done.dropWhile fun t => ¬ Before s t := ⟨_, rfl⟩
  have parts : done = pre ++ rest := by rw [hpre, hrest, List.takeWhile_append_dropWhile]
  have place : l.findPlace s.start bound .head = Link.behind pre := by
    have walk : l.findPlace s.start bound (Link.behind []) = Link.behind ([] ++ _) :=
      findPlace_spec h enough
    rwa [List.nil_append, ← hpre] at walk
  have ordered : done.orderedInsert Before s = pre ++ s :: rest := by
    rw [List.orderedInsert_eq_take_drop, hpre, hrest]
  rw [parts] at h nodes
  obtain ⟨linked, same⟩ := linked_insert h nodes nonnull size
  unfold FreeList.insertNode
  rw [place, ordered]
  refine ⟨linked, same.mono (List.map_subset _ ?_)⟩
  rw [parts, List.append_assoc]
  exact List.append_subset.2 ⟨List.subset_append_left _ _, by simp⟩

theorem sortNodes_spec (current : Linked l.memory a todo) (h : Linked l.memory l.head done)
    (nodes : Nodes (done ++ todo)) (enough : todo.length ≤ rounds)
    (large : done.length + todo.length < bound) :
    let l' := FreeList.sortNodes bound rounds a l
    Linked l'.memory l'.head (insertAll done todo) ∧
      SameOutside ((done ++ todo).map FreeNode.bytes) l.memory l'.memory := by
  induction rounds generalizing a l done todo with
  | zero =>
    rw [List.length_eq_zero_iff.1 (Nat.le_zero.1 enough)]
    exact ⟨h, .refl _ _⟩
  | succ rounds ih =>
    unfold FreeList.sortNodes
    cases todo with
    | nil =>
      rw [if_pos (show a = 0 from current)]
      exact ⟨h, .refl _ _⟩
    | cons s todo =>
      obtain ⟨rfl, nonnull, size, next⟩ := current
      rw [List.length_cons] at enough large
      have first : Nodes (s :: done ++ todo) := nodes.perm List.perm_middle
      have fewer : done.length < bound := by omega
      obtain ⟨list, same⟩ := insertNode_spec h first.left fewer nonnull size
      have moved : (done ++ s :: todo).Perm (done.orderedInsert Before s ++ todo) :=
        List.perm_middle.trans ((List.perm_orderedInsert Before s done).symm.append_right todo)
      have nodes' : Nodes (done ++ [s] ++ todo) := by rwa [← List.append_cons]
      have next' := next.beside same
        (List.forall_mem_map.2 (List.pairwise_append.1 nodes'.clear).2.2)
      obtain ⟨linked, same'⟩ := ih next' list (nodes.perm moved) (by omega)
        (by rw [List.orderedInsert_length]; omega)
      rw [if_neg nonnull]
      refine ⟨linked, (same.mono (List.map_subset _ ?_)).trans
        (same'.mono (List.map_subset _ moved.symm.subset))⟩
      exact List.append_subset.2 ⟨List.subset_append_left _ _, by simp⟩

/-- One round of the merging loop: the node takes over the size and the link of the next one. -/
theorem linked_join {t : Segment} (h : Linked m s.start (s :: t :: free))
    (nodes : Nodes (s :: t :: free)) (word : s.size + t.size < 2 ^ 64) :
    let grown := FreeNode.setSize m s.start (s.size + t.size)
    let m' := FreeNode.setNext grown s.start (FreeNode.next grown t.start)
    Linked m' s.start (⟨s.start, s.size + t.size⟩ :: free) ∧
      SameOutside [FreeNode.bytes s] m m' := by
  intro grown m'
  obtain ⟨-, nonnull, -, next, -, -, tail⟩ := h
  rw [next] at tail
  obtain ⟨beside, sFree⟩ := List.forall_mem_cons.1 (List.pairwise_cons.1 nodes.clear).1
  have same : SameOutside [FreeNode.bytes s] m grown := FreeNode.sameOutside_setSize
  have same' : SameOutside [FreeNode.bytes s] m m' := same.trans FreeNode.sameOutside_setNext
  have target : FreeNode.next grown t.start = FreeNode.next m t.start :=
    (FreeNode.congr (same.agree (List.forall_mem_singleton.2 beside))).2.symm
  have written : FreeNode.next m' s.start = FreeNode.next m t.start := by
    rw [← target]
    exact FreeNode.next_setNext (FreeNode.next_lt _ _)
  refine ⟨⟨rfl, nonnull, ?_, ?_⟩, same'⟩
  · exact FreeNode.size_setNext.trans (FreeNode.size_setSize word)
  · rw [written]
    exact tail.beside same' (List.forall_mem_singleton.2 sFree)

theorem mergeNodes_spec (h : Linked m a free) (nodes : Nodes free)
    (fits : ∀ t ∈ free, t.stop < 2 ^ 64) (enough : free.length ≤ rounds) :
    let m' := FreeList.mergeNodes rounds a m
    Linked m' a (coalesce free) ∧ SameOutside (free.map FreeNode.bytes) m m' := by
  induction rounds generalizing a m free with
  | zero =>
    obtain rfl := List.length_eq_zero_iff.1 (Nat.le_zero.1 enough)
    rw [coalesce]
    exact ⟨h, .refl _ _⟩
  | succ rounds ih =>
    unfold FreeList.mergeNodes
    rcases free with _ | ⟨s, _ | ⟨t, free⟩⟩
    · rw [if_neg (by simp [show a = 0 from h]), coalesce]
      exact ⟨h, .refl _ _⟩
    · rw [if_neg (by simp [show FreeNode.next m a = 0 from h.2.2.2]), coalesce]
      exact ⟨h, .refl _ _⟩
    · obtain rfl := h.1
      obtain ⟨-, fitsRest⟩ := List.forall_mem_cons.1 fits
      obtain ⟨fitsNext, fitsTail⟩ := List.forall_mem_cons.1 fitsRest
      have joined := linked_join h nodes
      obtain ⟨-, nonnull, size, next, nonnull', size', tail⟩ := h
      rw [next] at nonnull' size' tail
      simp only [List.length_cons] at enough
      rw [if_pos ⟨nonnull, by rwa [next]⟩, coalesce]
      simp only [next, size, size']
      by_cases touch : s.stop = t.start
      · rw [if_pos (show s.start + s.size = t.start from touch), if_pos touch]
        have stops : (⟨s.start, s.size + t.size⟩ : Segment).stop = t.stop := by
          unfold stop at *
          dsimp only
          omega
        have word : s.size + t.size < 2 ^ 64 := by
          unfold stop at stops fitsNext
          dsimp only at stops
          omega
        obtain ⟨linked, same⟩ := joined word
        -- the grown node lies where the node lay
        have grown : Nodes (⟨s.start, s.size + t.size⟩ :: free) :=
          ⟨List.forall_mem_cons.2 ⟨nodes.words s List.mem_cons_self, nodes.tail.tail.words⟩,
            List.pairwise_cons.2 ⟨fun u hu => (List.pairwise_cons.1 nodes.clear).1 u
              (List.mem_cons_of_mem _ hu), nodes.tail.tail.clear⟩⟩
        obtain ⟨linked', same'⟩ := ih linked grown
          (List.forall_mem_cons.2 ⟨stops ▸ fitsNext, fitsTail⟩)
          (by simp only [List.length_cons]; omega)
        refine ⟨linked', (same.mono (by simp)).trans (same'.mono ?_)⟩
        exact List.cons_subset_cons _ (List.subset_cons_self _ _)
      · rw [if_neg (show ¬ s.start + s.size = t.start from touch), if_neg touch]
        have tail' : Linked m t.start (t :: free) := ⟨rfl, nonnull', size', tail⟩
        obtain ⟨linked, same⟩ := ih tail' nodes.tail fitsRest
          (by simp only [List.length_cons]; omega)
        have here := FreeNode.congr (s := s) (same.agree (List.forall_mem_map.2 fun u hu =>
          ((List.pairwise_cons.1 nodes.clear).1 u hu).symm))
        refine ⟨⟨rfl, nonnull, here.1.symm.trans size, ?_⟩,
          same.mono (List.subset_cons_self _ _)⟩
        rw [← here.2, next]
        exact linked

/-- The list sorted and merged, with changes to its nodes only. -/
theorem defragment_nodes (h : Linked l.memory l.head free) (nodes : Nodes free)
    (fits : ∀ t ∈ free, t.stop < 2 ^ 64) (large : free.length < bound) :
    let l' := l.defragment bound
    Linked l'.memory l'.head (coalesce (insertAll [] free)) ∧
      SameOutside (free.map FreeNode.bytes) l.memory l'.memory := by
  let empty : FreeList := ⟨0, l.memory⟩
  have current : Linked empty.memory l.head free := h
  have nothing : Linked empty.memory empty.head [] := rfl
  have few : free.length ≤ bound := by omega
  obtain ⟨sorted, same⟩ := sortNodes_spec current nothing nodes few
    (by rw [List.length_nil, Nat.zero_add]; exact large)
  have order : (insertAll [] free).Perm free := insertAll_perm [] free
  obtain ⟨merged, same'⟩ := mergeNodes_spec sorted (nodes.perm order.symm)
    (fun t ht => fits t (order.mem_iff.1 ht)) (order.length_eq.trans_le few)
  exact ⟨merged, same.trans (same'.mono (order.map _).subset)⟩

/-- `defragment` sorts the list by address and merges what touches. -/
theorem defragment_spec (h : Linked l.memory l.head free) (roomy : ∀ t ∈ free, Roomy t)
    (apart : free.Pairwise Apart) (large : free.length < bound) :
    let l' := l.defragment bound
    Linked l'.memory l'.head (coalesce (insertAll [] free)) ∧
      SameOutside free l.memory l'.memory := by
  obtain ⟨linked, same⟩ := defragment_nodes h (nodes_of_roomy roomy apart)
    (fun t ht => (roomy t ht).fits) large
  exact ⟨linked, sameOutside_of_nodes roomy same⟩

/-- The nodes of a coalesced list are some of its nodes. -/
theorem Nodes.coalesce (nodes : Nodes free) : Nodes (coalesce free) := by
  have starts := starts_coalesce free
  constructor
  · have words : ∀ a ∈ free.map Segment.start, a < 2 ^ 64 := List.forall_mem_map.2 nodes.words
    exact List.forall_mem_map.1 fun a ha => words a (starts.subset ha)
  · have clear : (free.map Segment.start).Pairwise fun a b =>
        (⟨a, minSlotSize⟩ : Segment).Apart ⟨b, minSlotSize⟩ := List.pairwise_map.2 nodes.clear
    have fewer := List.pairwise_map.1 (List.Pairwise.sublist starts clear)
    exact fewer

/-- A list with a gap behind every node is left as it is, with all of the memory. -/
theorem defragment_of_gapped (h : Linked l.memory l.head free) (nodes : Nodes free)
    (fits : ∀ t ∈ free, t.stop < 2 ^ 64) (gapped : Gapped free) (large : free.length < bound) :
    l.defragment bound = l := by
  obtain ⟨linked, same⟩ := defragment_nodes h nodes fits large
  have sorted : insertAll [] free = free := insertAll_of_increasing gapped.increasing
  rw [sorted, coalesce_of_gapped gapped] at linked
  have head := linked.head_eq h
  rw [head] at linked
  cases l
  exact congrArg₂ FreeList.mk head (linked.memory_eq h same.symm)

/-- Defragmentation keeps the free bytes and joins all that can be joined: the list ends in the
order of its addresses, with a gap behind every node, and another run leaves the memory as it is.
The nodes may lie anywhere and be of any size, as long as none is written over another. -/
theorem defragment_coalesces (h : Linked l.memory l.head free) (nonempty : ∀ t ∈ free, 0 < t.size)
    (apart : free.Pairwise Apart) (clear : free.Pairwise Clear)
    (fits : ∀ t ∈ free, t.stop < 2 ^ 64) (large : free.length < bound) :
    let l' := l.defragment bound
    ∃ free', Linked l'.memory l'.head free' ∧
      (free'.Pairwise fun s t => s.start < t.start) ∧
      addresses free' = addresses free ∧
      (free'.map Segment.size).sum = (free.map Segment.size).sum ∧
      (∀ s ∈ free', ∀ t ∈ free', s.stop ≠ t.start) ∧
      ∀ bound', free'.length < bound' → l'.defragment bound' = l' := by
  intro l'
  have order : (insertAll [] free).Perm free := insertAll_perm [] free
  have words : ∀ t ∈ free, t.start < 2 ^ 64 := fun t ht =>
    (Nat.le_add_right _ _).trans_lt (fits t ht)
  have sorted : (insertAll [] free).Pairwise Before := insertAll_sorted .nil
  have gapped : Gapped (coalesce (insertAll [] free)) :=
    coalesce_gapped (ordered_of_sorted sorted ((order.pairwise_iff Apart.symm).2 apart)
      fun t ht => nonempty t (order.mem_iff.1 ht))
  have nodes : Nodes free := ⟨words, clear⟩
  have nonempty' : ∀ t ∈ coalesce (insertAll [] free), 0 < t.size :=
    forall_coalesce (fun t ht => nonempty t (order.mem_iff.1 ht))
      fun _ _ hs _ _ => Nat.add_pos_left hs _
  have fits' : ∀ t ∈ coalesce (insertAll [] free), t.stop < 2 ^ 64 := by
    refine forall_coalesce (fun t ht => fits t (order.mem_iff.1 ht)) fun s t _ ht touch => ?_
    simp only [stop] at *
    omega
  have covered : addresses (coalesce (insertAll [] free)) = addresses free :=
    (addresses_coalesce _).trans (addresses_perm order)
  have total : ((coalesce (insertAll [] free)).map Segment.size).sum =
      (free.map Segment.size).sum := by
    rw [← card_addresses gapped.apart, ← card_addresses apart, covered]
  obtain ⟨linked, -⟩ := defragment_nodes h nodes fits large
  exact ⟨_, linked, gapped.increasing, covered, total, gapped.not_touching nonempty', fun _ =>
    defragment_of_gapped linked (nodes.perm order.symm).coalesce fits' gapped⟩

/-- Two slots that touch, freed in the order of their addresses. -/
def twoFreed : FreeList := (FreeList.push ⟨0, fun _ => 0⟩ 16 16).push 32 24

theorem defragment_coalesces_two :
    let l' := twoFreed.defragment 3
    ∃ free', Linked l'.memory l'.head free' ∧ (free'.map Segment.size).sum = 40 ∧
      ∀ bound', free'.length < bound' → l'.defragment bound' = l' := by
  have linked : Linked twoFreed.memory twoFreed.head [⟨32, 24⟩, ⟨16, 16⟩] := by
    refine ⟨rfl, by decide, by decide +kernel, by decide +kernel, by decide +kernel,
      by decide +kernel, ?_⟩
    change FreeNode.next _ _ = 0
    decide +kernel
  obtain ⟨free', linked', -, -, total, -, again⟩ := defragment_coalesces linked
    (by decide) (by decide) (by decide) (by decide) (show 2 < 3 by decide)
  exact ⟨free', linked', total, again⟩

end Defragment

end DataBroker
