import Mathlib.Data.List.Basic

/-!
# Framing a stream

A receiver gets a stream in chunks, appends each to a buffer and takes complete items off the front
of the buffer until what is left is incomplete or wrong. `Framing` is what such a receiver needs of
the function that looks at the buffer: an item found there is found whatever follows it.

* `receiveAll_flatten`: the items taken, how much of the stream they were and whether it was
  rejected depend only on the concatenation of the chunks.
* `takeItems_encoded`: a stream of encoded items gives exactly these items and leaves nothing;
  `receiveAll_encoded`: also in chunks.
* `receiveAll_prefix`: a receiver of the beginning of a stream has the first of its items.
* `fixed`: the framing of records of one size.
-/

/-- What the front of a buffer holds: not enough yet, something wrong, or an item. -/
inductive Scan (α β ε : Type) where
  | wait
  | reject (error : ε)
  | item (value : β) (rest : List α)

/-- A function that finds the next item in a buffer, the same one however the stream goes on. -/
structure Framing (α β ε : Type) where
  scan : List α → Scan α β ε
  scan_nil : scan [] = .wait
  shorter : ∀ buffer value rest, scan buffer = .item value rest → rest.length < buffer.length
  item_append : ∀ buffer more value rest, scan buffer = .item value rest →
    scan (buffer ++ more) = .item value (rest ++ more)
  reject_append : ∀ buffer more error, scan buffer = .reject error →
    scan (buffer ++ more) = .reject error

namespace Framing

variable {α β ε : Type}

/-- What a receiver has done so far. -/
structure Progress (α β ε : Type) where
  /-- The items taken. -/
  items : List β
  /-- How many elements of the stream these were. -/
  consumed : ℕ
  /-- What is left in the buffer. -/
  buffer : List α
  /-- The error that ended the stream. -/
  ended : Option ε

namespace Progress

def start : Progress α β ε := ⟨[], 0, [], none⟩

def append (p : Progress α β ε) (chunk : List α) : Progress α β ε :=
  { p with buffer := p.buffer ++ chunk }

def took (p : Progress α β ε) (value : β) (rest : List α) : Progress α β ε where
  items := p.items ++ [value]
  consumed := p.consumed + (p.buffer.length - rest.length)
  buffer := rest
  ended := p.ended

def reject (p : Progress α β ε) (error : ε) : Progress α β ε := { p with ended := some error }

/-- The same up to the buffer of a rejected stream. -/
structure Same (p q : Progress α β ε) : Prop where
  items : p.items = q.items
  consumed : p.consumed = q.consumed
  ended : p.ended = q.ended
  buffer : p.ended = none → p.buffer = q.buffer

end Progress

variable (F : Framing α β ε)

/-- Take items off the front of the buffer as long as there are any. -/
def takeItems (p : Progress α β ε) : Progress α β ε :=
  match _ : F.scan p.buffer with
  | .wait => p
  | .reject error => p.reject error
  | .item value rest => takeItems (p.took value rest)
termination_by p.buffer.length
decreasing_by exact F.shorter _ _ _ ‹_›

/-- Receive a chunk; nothing is read any more once the stream was rejected. -/
def receive (p : Progress α β ε) (chunk : List α) : Progress α β ε :=
  if p.ended.isSome then p else F.takeItems (p.append chunk)

def receiveAll (p : Progress α β ε) (chunks : List (List α)) : Progress α β ε :=
  chunks.foldl F.receive p

variable {F} {p : Progress α β ε}

theorem takeItems_wait (h : F.scan p.buffer = .wait) : F.takeItems p = p := by
  rw [takeItems]
  split <;> simp_all

theorem takeItems_reject {error : ε} (h : F.scan p.buffer = .reject error) :
    F.takeItems p = p.reject error := by
  rw [takeItems]
  split <;> simp_all

theorem takeItems_item {value : β} {rest : List α} (h : F.scan p.buffer = .item value rest) :
    F.takeItems p = F.takeItems (p.took value rest) := by
  conv_lhs => rw [takeItems]
  split <;> simp_all

/-- Taking items stops where there is no complete one. -/
theorem scan_takeItems (p : Progress α β ε) (running : (F.takeItems p).ended = none) :
    F.scan (F.takeItems p).buffer = .wait := by
  induction p using takeItems.induct F with
  | case1 p waiting => rwa [takeItems_wait waiting]
  | case2 p error rejected =>
    rw [takeItems_reject rejected] at running
    cases running
  | case3 p value rest found ih =>
    rw [takeItems_item found] at running ⊢
    exact ih running

/-- What follows in the stream changes nothing about the items at the front. -/
theorem takeItems_append (p : Progress α β ε) (running : p.ended = none) (more : List α) :
    F.takeItems (p.append more) =
      if (F.takeItems p).ended.isSome then (F.takeItems p).append more
      else F.takeItems ((F.takeItems p).append more) := by
  induction p using takeItems.induct F with
  | case1 p waiting => simp [takeItems_wait waiting, running]
  | case2 p error rejected =>
    have later : F.scan (p.append more).buffer = .reject error :=
      F.reject_append p.buffer more error rejected
    rw [takeItems_reject rejected, takeItems_reject later]
    rfl
  | case3 p value rest found ih =>
    have later : F.scan (p.append more).buffer = .item value (rest ++ more) :=
      F.item_append p.buffer more value rest found
    have took : (p.append more).took value (rest ++ more) = (p.took value rest).append more := by
      simp only [Progress.append, Progress.took, List.length_append, Nat.add_sub_add_right]
    rw [takeItems_item later, takeItems_item found, took]
    exact ih running

theorem receiveAll_ended (ended : p.ended.isSome) (chunks : List (List α)) :
    F.receiveAll p chunks = p := by
  induction chunks with
  | nil => rfl
  | cons chunk chunks ih =>
    rw [receiveAll, List.foldl_cons, receive, if_pos ended]
    exact ih

theorem receiveAll_same (running : p.ended = none) (settled : F.scan p.buffer = .wait)
    (chunks : List (List α)) :
    (F.receiveAll p chunks).Same (F.takeItems (p.append chunks.flatten)) := by
  induction chunks generalizing p with
  | nil =>
    have none_more : p.append ([] : List (List α)).flatten = p := by simp [Progress.append]
    rw [none_more, takeItems_wait settled]
    exact ⟨rfl, rfl, rfl, fun _ => rfl⟩
  | cons chunk chunks ih =>
    have joined : p.append (chunk :: chunks).flatten = (p.append chunk).append chunks.flatten := by
      simp [Progress.append]
    have next : F.receive p chunk = F.takeItems (p.append chunk) := if_neg (by simp [running])
    rw [receiveAll, List.foldl_cons, next, joined, takeItems_append (p.append chunk) running]
    split_ifs with rejected
    · rw [← receiveAll, receiveAll_ended rejected]
      refine ⟨rfl, rfl, rfl, fun running => ?_⟩
      rw [running] at rejected
      cases rejected
    · have running : (F.takeItems (p.append chunk)).ended = none := by simpa using rejected
      exact ih running (scan_takeItems _ running)

/-- How the stream is cut into chunks makes no difference. -/
theorem receiveAll_flatten {chunks chunks' : List (List α)}
    (same : chunks.flatten = chunks'.flatten) :
    (F.receiveAll .start chunks).Same (F.receiveAll .start chunks') := by
  have first := receiveAll_same (p := .start) (F := F) rfl F.scan_nil chunks
  have second := receiveAll_same (p := .start) (F := F) rfl F.scan_nil chunks'
  rw [same] at first
  refine ⟨first.items.trans second.items.symm, first.consumed.trans second.consumed.symm,
    first.ended.trans second.ended.symm, fun running => ?_⟩
  have running' := second.ended.trans (first.ended.symm.trans running)
  exact (first.buffer running).trans (second.buffer running').symm

/-- Nothing complete is left in the buffer. -/
theorem scan_receiveAll (chunks : List (List α))
    (running : (F.receiveAll .start chunks).ended = none) :
    F.scan (F.receiveAll .start chunks).buffer = .wait := by
  have same := receiveAll_same (p := .start) (F := F) rfl F.scan_nil chunks
  rw [same.buffer running]
  exact scan_takeItems _ (same.ended.symm.trans running)

/-- Every element of the stream is either taken or still in the buffer, and where each item is made
of at least `size` of them, there are that many fewer rounds than elements. -/
theorem takeItems_length {size : ℕ} (large : ∀ buffer value rest,
      F.scan buffer = .item value rest → rest.length + size ≤ buffer.length)
    (p : Progress α β ε) :
    (F.takeItems p).consumed + (F.takeItems p).buffer.length = p.consumed + p.buffer.length ∧
      (F.takeItems p).items.length * size + p.consumed ≤
        p.items.length * size + (F.takeItems p).consumed := by
  induction p using takeItems.induct F with
  | case1 p waiting =>
    rw [takeItems_wait waiting]
    exact ⟨rfl, Nat.le_refl _⟩
  | case2 p error rejected =>
    rw [takeItems_reject rejected]
    exact ⟨rfl, Nat.le_refl _⟩
  | case3 p value rest found ih =>
    have taken := large _ _ _ found
    rw [takeItems_item found]
    simp only [Progress.took, List.length_append, List.length_singleton, Nat.add_mul,
      Nat.one_mul] at ih ⊢
    omega

/-- The number of items is bounded by the length of the stream. -/
theorem length_receiveAll {size : ℕ} (large : ∀ buffer value rest,
      F.scan buffer = .item value rest → rest.length + size ≤ buffer.length)
    (chunks : List (List α)) :
    (F.receiveAll .start chunks).items.length * size ≤ (F.receiveAll .start chunks).consumed ∧
      (F.receiveAll .start chunks).consumed ≤ chunks.flatten.length := by
  have same := receiveAll_same (p := .start) (F := F) rfl F.scan_nil chunks
  have bound := takeItems_length large ((Progress.start : Progress α β ε).append chunks.flatten)
  rw [same.items, same.consumed]
  simp only [Progress.append, Progress.start, List.nil_append, List.length_nil] at bound ⊢
  omega

/-- A stream of encoded items. -/
theorem takeItems_encoded {γ : Type} {encode : γ → List α} {decode : γ → β} {items : List γ}
    (found : ∀ c ∈ items, ∀ more, F.scan (encode c ++ more) = .item (decode c) more)
    (running : p.ended = none) (buffer : p.buffer = items.flatMap encode) :
    F.takeItems p = ⟨p.items ++ items.map decode, p.consumed + p.buffer.length, [], none⟩ := by
  induction items generalizing p with
  | nil =>
    obtain ⟨items, consumed, _, _⟩ := p
    obtain rfl := running
    obtain rfl := buffer
    rw [takeItems_wait F.scan_nil]
    simp
  | cons c items ih =>
    have first : F.scan p.buffer = .item (decode c) (items.flatMap encode) := by
      rw [buffer, List.flatMap_cons]
      exact found c List.mem_cons_self _
    have shorter := F.shorter _ _ _ first
    have rest := ih (p := p.took (decode c) (items.flatMap encode))
      (fun c mem => found c (List.mem_cons_of_mem _ mem)) running rfl
    rw [takeItems_item first, rest]
    simp only [Progress.took, List.append_assoc, List.map_cons, List.cons_append, List.nil_append]
    congr 1
    omega

/-- A stream of encoded items that arrives in chunks. -/
theorem receiveAll_encoded {γ : Type} {encode : γ → List α} {decode : γ → β} {items : List γ}
    (found : ∀ c ∈ items, ∀ more, F.scan (encode c ++ more) = .item (decode c) more)
    {chunks : List (List α)} (stream : chunks.flatten = items.flatMap encode) :
    F.receiveAll .start chunks = ⟨items.map decode, chunks.flatten.length, [], none⟩ := by
  have same := receiveAll_same (p := .start) (F := F) rfl F.scan_nil chunks
  have start : (Progress.start.append chunks.flatten : Progress α β ε).buffer =
      items.flatMap encode := stream
  rw [takeItems_encoded found rfl start] at same
  generalize F.receiveAll .start chunks = progress at same ⊢
  obtain ⟨items, consumed, buffer, ended⟩ := progress
  obtain ⟨items_eq, consumed_eq, ended_eq, buffer_eq⟩ := same
  dsimp only at items_eq consumed_eq ended_eq buffer_eq
  rw [items_eq, consumed_eq, ended_eq, buffer_eq ended_eq]
  simp [Progress.append, Progress.start]

/-- The items of a receiver that goes on are those it has, and more. -/
theorem prefix_takeItems (p : Progress α β ε) : p.items <+: (F.takeItems p).items := by
  induction p using takeItems.induct F with
  | case1 p waiting => exact (takeItems_wait waiting).symm ▸ List.prefix_rfl
  | case2 p error rejected => exact (takeItems_reject rejected).symm ▸ List.prefix_rfl
  | case3 p value rest found ih =>
    rw [takeItems_item found]
    exact (List.prefix_append _ _).trans ih

/-- Of a stream that goes on, a receiver takes the same items first. -/
theorem receiveAll_prefix {chunks chunks' : List (List α)}
    (further : chunks.flatten <+: chunks'.flatten) :
    (F.receiveAll .start chunks).items <+: (F.receiveAll .start chunks').items := by
  obtain ⟨more, whole⟩ := further
  have first := receiveAll_same (p := .start) (F := F) rfl F.scan_nil chunks
  have second := receiveAll_same (p := .start) (F := F) rfl F.scan_nil chunks'
  have joined : (Progress.start : Progress α β ε).append chunks'.flatten =
      (Progress.start.append chunks.flatten).append more := by
    simp [Progress.append, ← whole]
  rw [first.items, second.items, joined, takeItems_append (.append .start chunks.flatten) rfl]
  split_ifs
  · exact List.prefix_rfl
  · exact prefix_takeItems ((F.takeItems (.append .start chunks.flatten)).append more)

/-- Before an item is complete, there is nothing to take. -/
theorem scan_incomplete {front more : List α} {value : β}
    (found : F.scan (front ++ more) = .item value []) (missing : more ≠ []) :
    F.scan front = .wait := by
  cases early : F.scan front with
  | wait => rfl
  | reject error => cases (F.reject_append front more error early).symm.trans found
  | item value' rest =>
    have later := (F.item_append front more value' rest early).symm.trans found
    exact absurd (List.append_eq_nil_iff.1 (Scan.item.inj later).2).2 missing

/-- A stream of encoded items that ends before the next one is complete. -/
theorem receiveAll_partial {γ : Type} {encode : γ → List α} {decode : γ → β} {items : List γ}
    {rest : List α} (found : ∀ c ∈ items, ∀ more, F.scan (encode c ++ more) = .item (decode c) more)
    (waiting : F.scan rest = .wait) {chunks : List (List α)}
    (stream : chunks.flatten = items.flatMap encode ++ rest) :
    (F.receiveAll .start chunks).items = items.map decode ∧
      (F.receiveAll .start chunks).ended = none := by
  have same := receiveAll_same (p := .start) (F := F) rfl F.scan_nil chunks
  have joined : (Progress.start : Progress α β ε).append chunks.flatten =
      (Progress.start.append (items.flatMap encode)).append rest := by
    simp [Progress.append, stream]
  have front := takeItems_encoded (p := (Progress.start : Progress α β ε).append
    (items.flatMap encode)) found rfl rfl
  rw [joined, takeItems_append (.append .start (items.flatMap encode)) rfl, front, if_neg (by simp), takeItems_wait waiting] at same
  exact ⟨same.items, same.ended⟩

/-- Records of `size` elements each. -/
def fixed (size : ℕ) (positive : 0 < size) (decode : List α → β) : Framing α β ε where
  scan buffer :=
    if buffer.length < size then .wait else .item (decode (buffer.take size)) (buffer.drop size)
  scan_nil := if_pos positive
  shorter buffer value rest found := by
    split_ifs at found with short
    obtain ⟨-, rfl⟩ := Scan.item.inj found
    rw [List.length_drop]
    omega
  item_append buffer more value rest found := by
    split_ifs at found with short
    obtain ⟨rfl, rfl⟩ := Scan.item.inj found
    rw [if_neg (by rw [List.length_append]; omega), List.take_append_of_le_length (by omega),
      List.drop_append_of_le_length (by omega)]
  reject_append buffer more error rejected := by
    split_ifs at rejected

theorem scan_fixed {size : ℕ} {positive : 0 < size} {decode : List α → β} {record : List α}
    (length : record.length = size) (more : List α) :
    (fixed size positive decode : Framing α β ε).scan (record ++ more) =
      .item (decode record) more := by
  subst length
  show (if (record ++ more).length < record.length then _ else _) = _
  rw [if_neg (by rw [List.length_append]; omega), List.take_left, List.drop_left]

end Framing
