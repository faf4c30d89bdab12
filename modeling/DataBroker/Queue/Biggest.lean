import DataBroker.Lib.Largest
import DataBroker.Queue.Calls
import Mathlib.Order.Lattice.Nat

/-!
# The biggest payloads

`biggestPayloads` is a record of the five largest payload sizes that `findBiggestPayloads` has come
across: it offers every stored message to the record (`findBiggestPayloads_merges`).
`getNextBiggestPayload` is answered from the record as it was before, and nothing is ever taken out
of it. `getNextBiggestPayload_iff` says when the answer is the size of the largest stored payload.
-/

namespace DataBroker

namespace Queue

open Largest

/-- The sizes of the stored payloads. -/
def payloadSizes (s : Queue) : Multiset ℕ := s.queue.entries.map fun e => e.2.payload.length

/-- The size of the largest stored payload, 0 if there is none. -/
def longest (s : Queue) : ℕ := s.payloadSizes.sup

/-- The record is in ascending order. -/
def Measured (s : Queue) : Prop := s.biggestPayloads.toList.Pairwise (· ≤ ·)

/-! ## One pass over the messages -/

section Pass

variable {s : Queue} {d len : ℕ}

theorem run_setBiggest (s : Queue) (small : d < 5) (value : ℕ) : ∃ v : Vector ℕ 5,
    (setBiggest d value).run s = (.ok (), { s with biggestPayloads := v }) ∧
      v.toList = s.biggestPayloads.toList.set d value := by
  refine ⟨s.biggestPayloads.setIfInBounds d value, ?_, Vector.toList_setIfInBounds⟩
  simp [setBiggest, Method.run_bind, small]

/-- Reading entry `d` of the record. -/
theorem run_readBiggest {s : Queue} {value : ℕ} (entry : s.biggestPayloads.toList[d]? = some value) :
    (do Method.unwrap (← get).biggestPayloads[d]? : QueueM ℕ).run s = (.ok value, s) := by
  rw [Vector.getElem?_toList] at entry
  simp [Method.run_bind, entry]

/-- The loop of the shift: the entries below `d` have taken their successors. -/
theorem run_shiftBiggest (s : Queue) (small : d < 5) : ∃ v : Vector ℕ 5,
    (shiftBiggest d).run s = (.ok (), { s with biggestPayloads := v }) ∧
      v.toList = s.biggestPayloads.toList.tail.take d ++ s.biggestPayloads.toList.drop d := by
  induction d with
  | zero => exact ⟨s.biggestPayloads, rfl, by simp⟩
  | succ d ih =>
    obtain ⟨v, shifted, entries⟩ := ih (by omega)
    have length : s.biggestPayloads.toList.length = 5 := Vector.length_toList
    generalize s.biggestPayloads.toList = old at entries length ⊢
    have front : (old.tail.take d).length = d := by simp; omega
    have next : v.toList[d + 1]? = some old[d + 1] := by
      rw [entries, List.getElem?_append_right (by omega), front]
      simp
    obtain ⟨v', written, entries'⟩ := run_setBiggest { s with biggestPayloads := v }
      (by omega : d < 5) old[d + 1]
    refine ⟨v', ?_, ?_⟩
    · rw [shiftBiggest, List.range_succ]
      exact Method.run_forM_concat shifted ((Method.run_bind_ok (run_readBiggest next)).trans written)
    · have taken : old.tail.take (d + 1) = old.tail.take d ++ [old[d + 1]] := by
        rw [List.take_add_one, List.getElem?_tail, List.getElem?_eq_getElem (by omega)]
        rfl
      rw [entries', entries, List.set_append_right _ _ front.le, front, Nat.sub_self,
        List.drop_eq_getElem_cons (by omega), List.set_cons_zero, taken, List.append_cons]

/-- The shift makes room for the size at `d`; the least entry is lost. -/
theorem run_insertBiggest (s : Queue) (small : d < 5) (len : ℕ) : ∃ v : Vector ℕ 5,
    (shiftBiggest d >>= fun _ => setBiggest d len).run s =
        (.ok (), { s with biggestPayloads := v }) ∧
      v.toList = (s.biggestPayloads.toList.take (d + 1) ++
        len :: s.biggestPayloads.toList.drop (d + 1)).tail := by
  have length : s.biggestPayloads.toList.length = 5 := Vector.length_toList
  obtain ⟨v, shifted, entries⟩ := run_shiftBiggest s small
  obtain ⟨v', written, entries'⟩ := run_setBiggest { s with biggestPayloads := v } small len
  refine ⟨v', (Method.run_bind_ok shifted).trans written, entries'.trans ?_⟩
  generalize s.biggestPayloads.toList = old at entries length ⊢
  have front : (old.tail.take d).length = d := by simp; omega
  obtain ⟨least, others, rfl⟩ := List.exists_cons_of_length_eq_add_one length
  rw [entries, List.set_append_right _ _ front.le, front, Nat.sub_self,
    List.drop_eq_getElem_cons (by omega), List.set_cons_zero, List.take_succ_cons]
  rfl

/-- The loop over `decr_id`, from where the entries at `d` and behind are not below the size. -/
theorem run_placePayload (s : Queue) (measured : s.Measured) (len : ℕ) (small : d ≤ 5)
    (above : ∀ y ∈ s.biggestPayloads.toList.drop d, len ≤ y) : ∃ v : Vector ℕ 5,
    (placePayload len d).run s = (.ok (), { s with biggestPayloads := v }) ∧
      v.toList = offer s.biggestPayloads.toList len := by
  induction d with
  | zero =>
    have below : ∀ x ∈ ([] : List ℕ), x < len := by simp
    have same : offer s.biggestPayloads.toList len = s.biggestPayloads.toList :=
      offer_append below above
    exact ⟨s.biggestPayloads, rfl, same.symm⟩
  | succ d ih =>
    have length : s.biggestPayloads.toList.length = 5 := Vector.length_toList
    have split : s.biggestPayloads.toList.drop d =
        s.biggestPayloads.toList[d] :: s.biggestPayloads.toList.drop (d + 1) :=
      List.drop_eq_getElem_cons _
    have round : (placePayload len (d + 1)).run s =
        (if len > s.biggestPayloads.toList[d] then shiftBiggest d >>= fun _ => setBiggest d len
          else placePayload len d).run s :=
      Method.run_bind_ok (run_readBiggest (List.getElem?_eq_getElem _))
    rw [round]
    split_ifs with larger
    · obtain ⟨v, inserted, entries⟩ := run_insertBiggest s small len
      refine ⟨v, inserted, ?_⟩
      rw [entries, ← offer_append (fun x mem => ?_) above, List.take_append_drop]
      obtain ⟨i, inside, rfl⟩ := List.mem_take_iff_getElem.1 mem
      refine lt_of_le_of_lt ?_ larger
      exact measured.rel_get_of_le (a := ⟨i, by omega⟩) (b := ⟨d, by omega⟩) (by simp; omega)
    · apply ih (by omega)
      rw [split]
      exact List.forall_mem_cons.2 ⟨not_lt.1 larger, above⟩

theorem run_offers {s : Queue} (measured : s.Measured) (entries : List (Σ _ : U128, QueueMessage)) :
    ∃ v : Vector ℕ 5,
      (entries.forM fun e => placePayload e.2.payload.length 5).run s =
          (.ok (), { s with biggestPayloads := v }) ∧
        v.toList = (entries.map fun e => e.2.payload.length).foldl offer s.biggestPayloads.toList := by
  induction entries generalizing s with
  | nil => exact ⟨s.biggestPayloads, rfl, rfl⟩
  | cons e entries ih =>
    have behind : s.biggestPayloads.toList.drop 5 = [] :=
      List.drop_eq_nil_of_le Vector.length_toList.le
    obtain ⟨v, placed, offered⟩ := run_placePayload s measured e.2.payload.length le_rfl
      (by simp [behind])
    have measured' : Measured { s with biggestPayloads := v } := by
      rw [Measured, offered]
      exact offer_ascending measured _
    obtain ⟨v', rest, all⟩ := ih measured'
    refine ⟨v', (Method.run_bind_ok placed).trans rest, ?_⟩
    rw [all, List.map_cons, List.foldl_cons, ← offered]

theorem run_findBiggestPayloads (measured : s.Measured) (iter : Iteration U128 QueueMessage) :
    ∃ v : Vector ℕ 5,
      (findBiggestPayloads iter).run s = (.ok (), { s with biggestPayloads := v }) ∧
        v.toList = largest 5 ((s.biggestPayloads.toList : Multiset ℕ) + s.payloadSizes) := by
  obtain ⟨v, run, entries⟩ := run_offers measured (iter.entries s.queue)
  refine ⟨v, run, ?_⟩
  rw [entries, foldl_offer measured, Vector.length_toList, ← Multiset.map_coe, iter.complete,
    payloadSizes]

end Pass

/-- A pass over the messages leaves the five largest of the entries of the record and the stored
sizes, with multiplicity and in ascending order, whatever the order of the messages. -/
theorem findBiggestPayloads_merges (s : Queue) (measured : s.Measured) : ∃ v : Vector ℕ 5,
    v.toList.Pairwise (· ≤ ·) ∧
      v.toList = largest 5 ((s.biggestPayloads.toList : Multiset ℕ) + s.payloadSizes) ∧
      ∀ iter, (findBiggestPayloads iter).run s = (.ok (), { s with biggestPayloads := v }) := by
  obtain ⟨v, -, merged⟩ := run_findBiggestPayloads measured default
  refine ⟨v, merged ▸ largest_ascending _ _, merged, fun iter => ?_⟩
  obtain ⟨v', run, merged'⟩ := run_findBiggestPayloads measured iter
  rw [run, Vector.toList_inj.1 (merged'.trans merged.symm)]

theorem measured_new : new.Measured := List.pairwise_replicate.2 (.inr le_rfl)

/-- Two payloads of three bytes and one of a single byte, with a record from before. -/
def measuredBefore : Queue :=
  { Transition.run step new [.enqueue [1, 2, 3] 7 0, .enqueue [9] 7 0, .enqueue [4, 5, 6] 8 0] with
    biggestPayloads := ⟨#[2, 2, 3, 4, 6], rfl⟩ }

/-- The two longer messages drive the two smallest entries out of the record. -/
theorem findBiggestPayloads_merges_three : ∃ v : Vector ℕ 5, v.toList = [3, 3, 3, 4, 6] ∧
    ∀ iter, (findBiggestPayloads iter).run measuredBefore =
      (.ok (), { measuredBefore with biggestPayloads := v }) := by
  have ascending : measuredBefore.Measured := show [2, 2, 3, 4, 6].Pairwise (· ≤ ·) by decide
  obtain ⟨v, -, merged, run⟩ := findBiggestPayloads_merges measuredBefore ascending
  have sizes : (measuredBefore.biggestPayloads.toList : Multiset ℕ) + measuredBefore.payloadSizes =
      {1, 2, 2} + ([3, 3, 3, 4, 6] : List ℕ) := by decide +kernel
  refine ⟨v, merged.trans ?_, run⟩
  exact (congrArg (largest 5) sizes).trans (largest_eq (by decide) (by decide))

/-! ## What the call is answered with -/

/-- The size of the largest payload that was stored at one of the `getNextBiggestPayload` calls of a
run, 0 if there was none. -/
def longestSeen : Queue → List Op → ℕ
  | _, [] => 0
  | s, .getNextBiggestPayload iter :: ops =>
    max s.longest (longestSeen (s.step (.getNextBiggestPayload iter)) ops)
  | s, op :: ops => longestSeen (s.step op) ops

variable {s : Queue}

/-- The last entry of the record is its largest one. -/
theorem sup_record (measured : s.Measured) :
    (s.biggestPayloads.toList : Multiset ℕ).sup = s.biggest := by
  have length : s.biggestPayloads.toList.length = 5 := Vector.length_toList
  have all := @largest_eq _ _ _ 0 measured (by simp)
  have last := getLast?_largest (k := 5) (s := (s.biggestPayloads.toList : Multiset ℕ)) (by decide)
    (by rw [Multiset.coe_card, length])
  rw [length, Multiset.zero_add] at all
  rw [all, List.getLast?_eq_getElem?, length] at last
  rw [biggest]
  simpa using last.symm

/-- The call brings the record up to date, behind its answer. -/
theorem step_getNextBiggestPayload (measured : s.Measured) (iter : Iteration U128 QueueMessage) :
    (s.step (.getNextBiggestPayload iter)).Measured ∧
      (s.step (.getNextBiggestPayload iter)).biggest = max s.biggest s.longest := by
  obtain ⟨v, found, merged⟩ := run_findBiggestPayloads measured iter
  have ascending : v.toList.Pairwise (· ≤ ·) := merged ▸ largest_ascending _ _
  have moved : s.step (.getNextBiggestPayload iter) = { s with biggestPayloads := v } := by
    simp [step, Op.call, getNextBiggestPayload, Method.run_bind, found]
  have last : v.toList.getLast? = some (max s.biggest s.longest) := by
    rw [merged, getLast?_largest (by decide) (by simp), Multiset.sup_add, sup_record measured]
    rfl
  rw [moved]
  refine ⟨ascending, ?_⟩
  rw [List.getLast?_eq_getElem?, Vector.length_toList] at last
  simpa [biggest] using last

/-- No other call writes the record. -/
theorem step_biggestPayloads (rooted : s.Rooted) {op : Op}
    (other : ∀ iter, op ≠ .getNextBiggestPayload iter) :
    (s.step op).biggestPayloads = s.biggestPayloads := by
  have effect := step_effect rooted op
  generalize s.step op = t at effect ⊢
  cases effect with
  | measured iter => exact absurd rfl (other iter)
  | _ => rfl

theorem longestSeen_cons {op : Op} (other : ∀ iter, op ≠ .getNextBiggestPayload iter) (ops : List Op) :
    s.longestSeen (op :: ops) = (s.step op).longestSeen ops := by
  cases op with
  | getNextBiggestPayload iter => exact absurd rfl (other iter)
  | _ => rfl

/-- The last entry of the record is the largest size that was ever looked at. -/
theorem biggest_run (rooted : s.Rooted) (measured : s.Measured) (ops : List Op) :
    (Transition.run step s ops).biggest = max s.biggest (s.longestSeen ops) := by
  induction ops generalizing s with
  | nil => exact (Nat.max_zero s.biggest).symm
  | cons op ops ih =>
    rw [Transition.run_cons]
    by_cases looks : ∃ iter, op = .getNextBiggestPayload iter
    · obtain ⟨iter, rfl⟩ := looks
      obtain ⟨measured', looked⟩ := step_getNextBiggestPayload measured iter
      rw [ih (rooted.step _) measured', looked, longestSeen, max_assoc]
    · have other : ∀ iter, op ≠ .getNextBiggestPayload iter := fun iter e => looks ⟨iter, e⟩
      have same := step_biggestPayloads rooted other
      have measured' : (s.step op).Measured := by rwa [Measured, same]
      rw [ih (rooted.step op) measured', longestSeen_cons other, biggest, biggest, same]

/-- The call is answered with the size of the largest stored payload if and only if that is the
largest size stored at any of the calls before. -/
theorem getNextBiggestPayload_iff (ops : List Op) (iter : Iteration U128 QueueMessage) :
    ((getNextBiggestPayload iter).run (Transition.run step new ops)).1 =
        .ok (Transition.run step new ops).longest ↔
      new.longestSeen ops = (Transition.run step new ops).longest := by
  obtain ⟨record, answer⟩ := run_getNextBiggestPayload iter (Transition.run step new ops)
  have seen := biggest_run .new measured_new ops
  rw [answer, Outcome.ok.injEq, seen]
  rw [show new.biggest = 0 from rfl, Nat.zero_max]

/-- The first call on a queue with one message. -/
theorem first_answer_is_zero : ¬ ∀ ops iter,
    ((getNextBiggestPayload iter).run (Transition.run step new ops)).1 =
      .ok (Transition.run step new ops).longest := by
  intro answered
  have longest := answered [.enqueue [1, 2, 3] 7 0] default
  obtain ⟨record, zero⟩ := run_getNextBiggestPayload default (new.step (.enqueue [1, 2, 3] 7 0))
  rw [Transition.run_cons, Transition.run_nil, zero] at longest
  exact absurd (Outcome.ok.inj longest) (by decide)

end Queue

end DataBroker
