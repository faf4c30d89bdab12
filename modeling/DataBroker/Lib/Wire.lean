import DataBroker.Lib.Transition

/-!
# Writing to a shared stream

Writers share a stream whose end takes as much of what is offered as it has room for. Each of them
has one item to write and takes a lock for it, which it keeps until all of the item is written or
the stream has failed. A stream that has failed takes nothing more.

`whole_run`: the stream is the items of the writers that came through, one after the other, and
perhaps the beginning of one more.
-/

/-- Where a writer stands. Behind `written` and `failed` it gives the lock back. -/
inductive WriterStand (α : Type) where
  | waiting
  | writing (rest : List α)
  | written
  | failed
deriving DecidableEq

/-- A stream and its writers. As a record, `sent` has the items that were written, with their
writers, and `cut` what has been written of the next one. -/
structure Wire (α γ : Type) where
  stream : List α
  broken : Bool
  holder : Option ℕ
  writers : List (γ × WriterStand α)
  sent : List (ℕ × γ)
  cut : List α

/-- A writer comes with an item, gets the lock, offers what it has left and gets rid of `n` elements
at most, learns that the stream has failed, or gives the lock back. -/
inductive Wire.Turn (γ : Type) where
  | come (item : γ)
  | lock (i : ℕ)
  | write (i n : ℕ)
  | fail (i : ℕ)
  | unlock (i : ℕ)

namespace Wire

variable {α γ : Type}

def start : Wire α γ := ⟨[], false, none, [], [], []⟩

def come (s : Wire α γ) (item : γ) : Wire α γ :=
  { s with writers := s.writers ++ [(item, .waiting)] }

def lock (encode : γ → List α) (s : Wire α γ) (i : ℕ) : Wire α γ :=
  match s.holder, s.writers[i]? with
  | none, some (item, .waiting) =>
    { s with holder := some i, writers := s.writers.set i (item, .writing (encode item)) }
  | _, _ => s

def write (s : Wire α γ) (i n : ℕ) : Wire α γ :=
  match s.broken, s.writers[i]? with
  | false, some (item, .writing rest) =>
    if rest.length ≤ n then
      { s with
        stream := s.stream ++ rest
        writers := s.writers.set i (item, .written)
        sent := s.sent ++ [(i, item)]
        cut := [] }
    else
      { s with
        stream := s.stream ++ rest.take n
        writers := s.writers.set i (item, .writing (rest.drop n))
        cut := s.cut ++ rest.take n }
  | _, _ => s

def fail (s : Wire α γ) (i : ℕ) : Wire α γ :=
  match s.writers[i]? with
  | some (item, .writing _) =>
    { s with broken := true, writers := s.writers.set i (item, .failed) }
  | _ => s

def unlock (s : Wire α γ) (i : ℕ) : Wire α γ :=
  match s.writers[i]? with
  | some (_, .written) => if s.holder = some i then { s with holder := none } else s
  | some (_, .failed) => if s.holder = some i then { s with holder := none } else s
  | _ => s

def step (encode : γ → List α) (s : Wire α γ) : Turn γ → Wire α γ
  | .come item => s.come item
  | .lock i => s.lock encode i
  | .write i n => s.write i n
  | .fail i => s.fail i
  | .unlock i => s.unlock i

def Writing (s : Wire α γ) (i : ℕ) (item : γ) (rest : List α) : Prop :=
  s.writers[i]? = some (item, .writing rest)

/-- The stream is whole items and the part that has been written of the one whose writer holds the
lock. -/
structure Whole (encode : γ → List α) (s : Wire α γ) : Prop where
  stream : s.stream = (s.sent.map Prod.snd).flatMap encode ++ s.cut
  sent : ∀ i item, (i, item) ∈ s.sent ↔ s.writers[i]? = some (item, .written)
  once : (s.sent.map Prod.fst).Nodup
  alone : ∀ i item rest, s.Writing i item rest → s.holder = some i ∧ rest ≠ []
  current : s.broken = false → ∀ i item rest, s.Writing i item rest → s.cut ++ rest = encode item
  idle : s.broken = false → (∀ i item rest, ¬ s.Writing i item rest) → s.cut = []
  proper : s.cut = [] ∨
    ∃ item ∈ s.writers.map Prod.fst, ∃ rest, rest ≠ [] ∧ s.cut ++ rest = encode item

variable {encode : γ → List α} {s : Wire α γ}

theorem whole_start : (start : Wire α γ).Whole encode where
  stream := rfl
  sent i item := by simp [start]
  once := List.nodup_nil
  alone i item rest writing := by simp [Writing, start] at writing
  current _ i item rest writing := by simp [Writing, start] at writing
  idle _ _ := rfl
  proper := .inl rfl

theorem getElem?_concat_waiting {writers : List (γ × WriterStand α)} {i : ℕ} {item item' : γ}
    {stand : WriterStand α} (other : stand ≠ .waiting) :
    (writers ++ [(item', .waiting)])[i]? = some (item, stand) ↔ writers[i]? = some (item, stand) := by
  rcases Nat.lt_trichotomy i writers.length with inside | rfl | outside
  · rw [List.getElem?_append_left inside]
  · simp [Ne.symm other]
  · rw [List.getElem?_eq_none (by simp; omega), List.getElem?_eq_none (by omega)]

theorem Whole.come (whole : s.Whole encode) (item : γ) : (s.come item).Whole encode where
  stream := whole.stream
  sent i item' := (whole.sent i item').trans (getElem?_concat_waiting (by simp)).symm
  once := whole.once
  alone i item' rest writing := whole.alone i item' rest ((getElem?_concat_waiting (by simp)).1 writing)
  current sound i item' rest writing :=
    whole.current sound i item' rest ((getElem?_concat_waiting (by simp)).1 writing)
  idle sound none := whole.idle sound fun i item' rest writing =>
    none i item' rest ((getElem?_concat_waiting (by simp)).2 writing)
  proper := by
    refine whole.proper.imp_right fun ⟨item', inside, rest⟩ => ⟨item', ?_, rest⟩
    exact (List.map_append ▸ List.mem_append_left _ inside :)

section Set

variable {writers : List (γ × WriterStand α)} {i : ℕ} {item : γ} {stand : WriterStand α}

theorem getElem?_set_found (found : writers[i]? = some (item, stand)) (stand' : WriterStand α)
    (j : ℕ) :
    (writers.set i (item, stand'))[j]? = if j = i then some (item, stand') else writers[j]? := by
  rw [List.getElem?_set]
  by_cases here : i = j
  · rw [if_pos here, if_pos here.symm, if_pos (here ▸ (List.getElem?_eq_some_iff.1 found).1)]
  · rw [if_neg here, if_neg (Ne.symm here)]

theorem items_set (found : writers[i]? = some (item, stand)) (stand' : WriterStand α) :
    (writers.set i (item, stand')).map Prod.fst = writers.map Prod.fst := by
  apply List.ext_getElem?
  intro j
  rw [List.getElem?_map, List.getElem?_map, getElem?_set_found found]
  split_ifs with here
  · rw [here, found]
    rfl
  · rfl

end Set

/-- Who is writing behind a change of one writer. -/
theorem writing_set {i : ℕ} {item : γ} {stand : WriterStand α}
    (found : s.writers[i]? = some (item, stand)) (stand' : WriterStand α) (j : ℕ) (item' : γ)
    (rest : List α) :
    (s.writers.set i (item, stand'))[j]? = some (item', .writing rest) ↔
      j = i ∧ item' = item ∧ stand' = .writing rest ∨ j ≠ i ∧ s.Writing j item' rest := by
  rw [getElem?_set_found found]
  split_ifs with here
  · simp [here, eq_comm]
  · simp [here, Writing]

/-- A writer that was not through and is not now. -/
theorem Whole.sent_set (whole : s.Whole encode) {i : ℕ} {item : γ} {stand stand' : WriterStand α}
    (found : s.writers[i]? = some (item, stand)) (before : stand ≠ .written)
    (behind : stand' ≠ .written) (j : ℕ) (item' : γ) :
    (j, item') ∈ s.sent ↔ (s.writers.set i (item, stand'))[j]? = some (item', .written) := by
  rw [whole.sent, getElem?_set_found found]
  split_ifs with here
  · simp [here, found, before, behind]
  · rfl

theorem Whole.lock (whole : s.Whole encode) (nonempty : ∀ item, encode item ≠ []) (i : ℕ) :
    (s.lock encode i).Whole encode := by
  unfold Wire.lock
  split
  next item free found =>
    have none : ∀ j item' rest, ¬ s.Writing j item' rest := by
      intro j item' rest writing
      cases free.symm.trans (whole.alone j item' rest writing).1
    have only : ∀ j item' rest, (s.writers.set i (item, .writing (encode item)))[j]? =
        some (item', .writing rest) → j = i ∧ item' = item ∧ rest = encode item := by
      intro j item' rest writing
      rcases (writing_set found _ j item' rest).1 writing with ⟨here, same, stand⟩ | ⟨-, writing⟩
      · exact ⟨here, same, (WriterStand.writing.inj stand).symm⟩
      · exact absurd writing (none j item' rest)
    refine ⟨whole.stream, whole.sent_set found (by simp) (by simp), whole.once,
      fun j item' rest writing => ?_, fun sound j item' rest writing => ?_, fun sound quiet => ?_, ?_⟩
    · obtain ⟨rfl, -, rfl⟩ := only j item' rest writing
      exact ⟨rfl, nonempty item⟩
    · obtain ⟨-, rfl, rfl⟩ := only j item' rest writing
      rw [whole.idle sound none, List.nil_append]
    · exact absurd ((writing_set found _ i item _).2 (.inl ⟨rfl, rfl, rfl⟩)) (quiet i item _)
    · show s.cut = [] ∨ ∃ item' ∈ (s.writers.set i _).map Prod.fst, _
      rw [items_set found]
      exact whole.proper
  · exact whole

/-- While a writer is writing, the others are not. -/
theorem Whole.writing_eq (whole : s.Whole encode) {i j : ℕ} {item item' : γ} {rest rest' : List α}
    (writing : s.Writing i item rest) (writing' : s.Writing j item' rest') : j = i :=
  Option.some.inj ((whole.alone j item' rest' writing').1.symm.trans
    (whole.alone i item rest writing).1)

theorem Whole.write (whole : s.Whole encode) (i n : ℕ) : (s.write i n).Whole encode := by
  unfold Wire.write
  split
  next item rest sound found =>
    have others : ∀ j item' rest', s.Writing j item' rest' → j = i := fun j item' rest' writing =>
      whole.writing_eq found writing
    have fresh : ∀ item', (i, item') ∉ s.sent := by
      intro item' inside
      cases found.symm.trans ((whole.sent i item').1 inside)
    have part := whole.current sound i item rest found
    split_ifs with through
    · have none : ∀ (j : ℕ) (item' : γ) (rest' : List α),
          (s.writers.set i (item, .written))[j]? ≠ some (item', .writing rest') := by
        intro j item' rest' writing
        rcases (writing_set found _ j item' rest').1 writing with ⟨-, -, stand⟩ | ⟨there, writing⟩
        · cases stand
        · exact there (others j item' rest' writing)
      refine ⟨?_, fun j item' => ?_, ?_, fun j item' rest' writing => ?_,
        fun _ j item' rest' writing => ?_, fun _ _ => rfl, .inl rfl⟩
      · simp [whole.stream, ← part]
      · rw [getElem?_set_found found, List.mem_append, List.mem_singleton]
        split_ifs with here
        · subst here
          simp [fresh, eq_comm]
        · rw [whole.sent]
          simp [here]
      · have unsent : i ∉ s.sent.map Prod.fst := by
          intro inside
          obtain ⟨⟨_, item'⟩, entry, rfl⟩ := List.mem_map.1 inside
          exact fresh item' entry
        rw [List.map_append, List.map_singleton]
        refine List.nodup_append.2 ⟨whole.once, by simp, fun j inside k last same => unsent ?_⟩
        rwa [same, List.mem_singleton.1 last] at inside
      · exact absurd writing (none j item' rest')
      · exact absurd writing (none j item' rest')
    · have left : rest.drop n ≠ [] := by
        intro nothing
        have := List.drop_eq_nil_iff.1 nothing
        omega
      have next : s.cut ++ rest.take n ++ rest.drop n = encode item := by
        rw [List.append_assoc, List.take_append_drop, part]
      refine ⟨?_, whole.sent_set found (by simp) (by simp), whole.once,
        fun j item' rest' writing => ?_, fun _ j item' rest' writing => ?_, fun _ quiet => ?_,
        .inr ⟨item, ?_, rest.drop n, left, next⟩⟩
      · simp [whole.stream]
      · rcases (writing_set found _ j item' rest').1 writing with ⟨rfl, rfl, stand⟩ | ⟨-, writing⟩
        · obtain rfl := WriterStand.writing.inj stand
          exact ⟨(whole.alone j item' rest found).1, left⟩
        · exact whole.alone j item' rest' writing
      · rcases (writing_set found _ j item' rest').1 writing with ⟨-, rfl, stand⟩ | ⟨there, writing⟩
        · obtain rfl := WriterStand.writing.inj stand
          exact next
        · exact absurd (others j item' rest' writing) there
      · exact absurd ((writing_set found _ i item _).2 (.inl ⟨rfl, rfl, rfl⟩)) (quiet i item _)
      · show item ∈ (s.writers.set i _).map Prod.fst
        rw [items_set found]
        exact List.mem_map_of_mem (List.mem_of_getElem? found)
  · exact whole

theorem Whole.fail (whole : s.Whole encode) (i : ℕ) : (s.fail i).Whole encode := by
  unfold Wire.fail
  split
  next item rest found =>
    refine ⟨whole.stream, whole.sent_set found (by simp) (by simp), whole.once,
      fun j item' rest' writing => ?_, fun sound => (by cases sound), fun sound => (by cases sound),
      ?_⟩
    · rcases (writing_set found _ j item' rest').1 writing with ⟨-, -, stand⟩ | ⟨-, writing⟩
      · cases stand
      · exact whole.alone j item' rest' writing
    · show s.cut = [] ∨ ∃ item' ∈ (s.writers.set i _).map Prod.fst, _
      rw [items_set found]
      exact whole.proper
  · exact whole

/-- Where the lock is given back, nobody is writing. -/
theorem Whole.free (whole : s.Whole encode) {i : ℕ} {item : γ} {stand : WriterStand α}
    (found : s.writers[i]? = some (item, stand)) (through : ∀ rest : List α, stand ≠ .writing rest)
    (holds : s.holder = some i) : Whole encode { s with holder := none } := by
  have none : ∀ j item' rest, ¬ s.Writing j item' rest := by
    intro j item' rest writing
    obtain rfl := Option.some.inj ((whole.alone j item' rest writing).1.symm.trans holds)
    exact through rest (congrArg Prod.snd (Option.some.inj (found.symm.trans writing)))
  exact ⟨whole.stream, whole.sent, whole.once,
    fun j item' rest writing => absurd writing (none j item' rest), whole.current, whole.idle,
    whole.proper⟩

theorem Whole.unlock (whole : s.Whole encode) (i : ℕ) : (s.unlock i).Whole encode := by
  unfold Wire.unlock
  split
  next item found =>
    split_ifs with holds
    · exact whole.free found (by simp) holds
    · exact whole
  next item found =>
    split_ifs with holds
    · exact whole.free found (by simp) holds
    · exact whole
  · exact whole

theorem Whole.step (whole : s.Whole encode) (nonempty : ∀ item, encode item ≠ [])
    (turn : Turn γ) : (s.step encode turn).Whole encode := by
  cases turn with
  | come item => exact whole.come item
  | lock i => exact whole.lock nonempty i
  | write i n => exact whole.write i n
  | fail i => exact whole.fail i
  | unlock i => exact whole.unlock i

theorem whole_run (nonempty : ∀ item, encode item ≠ []) (turns : List (Turn γ)) :
    (Transition.run (step encode) start turns).Whole encode :=
  (Transition.invariant whole_start (fun _ turn whole => whole.step nonempty turn) turns).last

end Wire
