import Mathlib.Data.List.Basic

/-!
# Patterns that are matched leftmost-first

A pattern gives the ways in which it matches a beginning of the input, in the order in which a
backtracking search tries them: of two alternatives the left one comes first, and a repetition takes
as much as it can. Repetitions are of single symbols, so that none goes round without taking any.

* `First`, `Fails`: the way that is tried first, and that there is none; with a rule for each form
  of pattern.
* `Pattern.search` goes from one position to the next, and `Pattern.capturesIter` from the end of
  one match to the next match. A `Pattern` takes at least one symbol, so that matches do not
  overlap.
-/

/-- Patterns over symbols `α`, with the symbols of a class, repetitions of them, and numbered groups
that are captured. -/
inductive Regex (α : Type) where
  | one (p : α → Bool)
  | many (p : α → Bool)
  | seq (r s : Regex α)
  | alt (r s : Regex α)
  | group (n : ℕ) (r : Regex α)

/-- What the groups have captured, and the input behind the match. -/
structure Match (α : Type) where
  captures : List (ℕ × List α)
  rest : List α
deriving DecidableEq, Repr

namespace Regex

variable {α : Type}

/-- The inputs behind a greedy repetition, the shortest one first. -/
def manyOf (p : α → Bool) : List α → List (List α)
  | [] => [[]]
  | a :: rest => if p a then manyOf p rest ++ [a :: rest] else [a :: rest]

/-- The ways to match a beginning of the input, in the order of preference. -/
def ways : Regex α → List α → List (Match α)
  | one _, [] => []
  | one p, a :: rest => if p a then [⟨[], rest⟩] else []
  | many p, input => (manyOf p input).map fun rest => ⟨[], rest⟩
  | seq r s, input => (r.ways input).flatMap fun m =>
      (s.ways m.rest).map fun m' => ⟨m.captures ++ m'.captures, m'.rest⟩
  | alt r s, input => r.ways input ++ s.ways input
  | group n r, input => (r.ways input).map fun m =>
      ⟨m.captures ++ [(n, input.take (input.length - m.rest.length))], m.rest⟩

/-- `r+` for a class. -/
def plus (p : α → Bool) : Regex α := seq (one p) (many p)

/-- Every match takes a symbol. -/
def takes : Regex α → Bool
  | one _ => true
  | many _ => false
  | seq r s => r.takes || s.takes
  | alt r s => r.takes && s.takes
  | group _ r => r.takes

/-- The way that is tried first. -/
def First (r : Regex α) (input : List α) (m : Match α) : Prop := (r.ways input).head? = some m

/-- There is no way to match a beginning of the input. -/
def Fails (r : Regex α) (input : List α) : Prop := r.ways input = []

variable {p : α → Bool} {r s : Regex α} {a : α} {n : ℕ} {input taken rest : List α} {m m' : Match α}
  {captures : List (ℕ × List α)}

/-! ## What is behind a match -/

theorem mem_manyOf (h : rest ∈ manyOf p input) :
    ∃ taken, input = taken ++ rest ∧ ∀ a ∈ taken, p a := by
  induction input with
  | nil =>
    obtain rfl := List.mem_singleton.1 h
    exact ⟨[], rfl, by simp⟩
  | cons a input ih =>
    rw [manyOf] at h
    split_ifs at h with first
    · rcases List.mem_append.1 h with h | h
      · obtain ⟨taken, rfl, all⟩ := ih h
        exact ⟨a :: taken, rfl, List.forall_mem_cons.2 ⟨first, all⟩⟩
      · obtain rfl := List.mem_singleton.1 h
        exact ⟨[], rfl, by simp⟩
    · obtain rfl := List.mem_singleton.1 h
      exact ⟨[], rfl, by simp⟩

theorem mem_many (h : m ∈ (many p).ways input) :
    m.captures = [] ∧ ∃ taken, input = taken ++ m.rest ∧ ∀ a ∈ taken, p a := by
  obtain ⟨rest, member, rfl⟩ := List.mem_map.1 h
  exact ⟨rfl, mem_manyOf member⟩

theorem mem_one (h : m ∈ (one p).ways input) :
    m.captures = [] ∧ ∃ a, input = a :: m.rest ∧ p a := by
  cases input with
  | nil => cases h
  | cons a rest =>
    rw [ways] at h
    split_ifs at h with holds
    · obtain rfl := List.mem_singleton.1 h
      exact ⟨rfl, a, rfl, holds⟩
    · cases h

theorem mem_seq (h : m ∈ (seq r s).ways input) : ∃ m₁ ∈ r.ways input, ∃ m₂ ∈ s.ways m₁.rest,
    m.captures = m₁.captures ++ m₂.captures ∧ m.rest = m₂.rest := by
  obtain ⟨m₁, first, h⟩ := List.mem_flatMap.1 h
  obtain ⟨m₂, second, rfl⟩ := List.mem_map.1 h
  exact ⟨m₁, first, m₂, second, rfl, rfl⟩

theorem mem_group (h : m ∈ (group n r).ways input) : ∃ m' ∈ r.ways input, ∃ taken,
    m.captures = m'.captures ++ [(n, taken)] ∧ m.rest = m'.rest := by
  obtain ⟨m', member, rfl⟩ := List.mem_map.1 h
  exact ⟨m', member, _, rfl, rfl⟩

theorem mem_plus (h : m ∈ (plus p).ways input) :
    m.captures = [] ∧ ∃ taken, input = taken ++ m.rest ∧ ∀ a ∈ taken, p a := by
  obtain ⟨m₁, first, m₂, second, captures, same⟩ := mem_seq h
  obtain ⟨none, a, rfl, holds⟩ := mem_one first
  obtain ⟨none', taken, behind, all⟩ := mem_many second
  refine ⟨by rw [captures, none, none']; rfl, a :: taken, ?_, List.forall_mem_cons.2 ⟨holds, all⟩⟩
  rw [behind, same]
  rfl

theorem length_rest_le (h : m ∈ r.ways input) : m.rest.length ≤ input.length := by
  induction r generalizing input m with
  | one p =>
    obtain ⟨-, a, rfl, -⟩ := mem_one h
    exact Nat.le_succ _
  | many p =>
    obtain ⟨-, taken, rfl, -⟩ := mem_many h
    rw [List.length_append]
    exact Nat.le_add_left _ _
  | seq r s ihr ihs =>
    obtain ⟨m₁, first, m₂, second, -, same⟩ := mem_seq h
    rw [same]
    exact Nat.le_trans (ihs second) (ihr first)
  | alt r s ihr ihs => exact (List.mem_append.1 h).elim ihr ihs
  | group n r ih =>
    obtain ⟨m', member, -, -, same⟩ := mem_group h
    rw [same]
    exact ih member

/-- What takes a symbol in every match leaves less behind. -/
theorem length_rest_lt (takes : r.takes = true) (h : m ∈ r.ways input) :
    m.rest.length < input.length := by
  induction r generalizing input m with
  | one p =>
    obtain ⟨-, a, rfl, -⟩ := mem_one h
    exact Nat.lt_succ_self _
  | many p => cases takes
  | seq r s ihr ihs =>
    obtain ⟨m₁, first, m₂, second, -, same⟩ := mem_seq h
    rw [same]
    rcases Bool.or_eq_true _ _ ▸ takes with left | right
    · exact Nat.lt_of_le_of_lt (length_rest_le second) (ihr left first)
    · exact Nat.lt_of_lt_of_le (ihs right second) (length_rest_le first)
  | alt r s ihr ihs =>
    obtain ⟨left, right⟩ := Bool.and_eq_true _ _ ▸ takes
    exact (List.mem_append.1 h).elim (ihr left) (ihs right)
  | group n r ih =>
    obtain ⟨m', member, -, -, same⟩ := mem_group h
    rw [same]
    exact ih takes member

/-- Symbols of a class are taken off the front up to a symbol that is not of the class. -/
theorem append_eq_append_cons {front tail : List α} (h : front ++ a :: tail = taken ++ rest)
    (all : ∀ a ∈ taken, p a) (stops : ¬ p a) :
    ∃ front', front = taken ++ front' ∧ rest = front' ++ a :: tail := by
  induction taken generalizing front with
  | nil => exact ⟨front, rfl, h.symm⟩
  | cons b taken ih =>
    obtain ⟨first, others⟩ := List.forall_mem_cons.1 all
    cases front with
    | nil =>
      obtain ⟨rfl, -⟩ := List.cons.inj h
      exact absurd first stops
    | cons c front =>
      obtain ⟨rfl, same⟩ := List.cons.inj h
      obtain ⟨front', rfl, behind⟩ := ih same others
      exact ⟨front', rfl, behind⟩

/-! ## The way that is tried first -/

namespace First

theorem one (holds : p a) : First (.one p) (a :: rest) ⟨[], rest⟩ := by
  rw [First, ways, if_pos holds]
  rfl

theorem many (all : ∀ a ∈ taken, p a) (stops : ∀ a ∈ rest.head?, ¬ p a) :
    First (.many p) (taken ++ rest) ⟨[], rest⟩ := by
  have longest : (manyOf p (taken ++ rest)).head? = some rest := by
    induction taken with
    | nil =>
      cases rest with
      | nil => rfl
      | cons a rest => rw [List.nil_append, manyOf, if_neg (stops a rfl)]; rfl
    | cons a taken ih =>
      obtain ⟨first, all⟩ := List.forall_mem_cons.1 all
      rw [List.cons_append, manyOf, if_pos first, List.head?_append, ih all]
      rfl
  rw [First, ways, List.head?_map, longest]
  rfl

/-- The first way of a sequence, where the second part matches behind the first way of the first. -/
theorem seq (first : First r input m) (second : First s m.rest m') :
    First (.seq r s) input ⟨m.captures ++ m'.captures, m'.rest⟩ := by
  rw [First] at *
  obtain ⟨others, ways_r⟩ := List.head?_eq_some_iff.1 first
  obtain ⟨others', ways_s⟩ := List.head?_eq_some_iff.1 second
  rw [ways, ways_r, List.flatMap_cons, ways_s]
  rfl

theorem alt_right (fails : Fails r input) (h : First s input m) : First (.alt r s) input m := by
  rw [First, ways, fails]
  exact h

theorem group (h : First r (taken ++ rest) ⟨captures, rest⟩) :
    First (.group n r) (taken ++ rest) ⟨captures ++ [(n, taken)], rest⟩ := by
  have whole : (taken ++ rest).take ((taken ++ rest).length - rest.length) = taken := by
    rw [List.length_append, Nat.add_sub_cancel, List.take_left]
  rw [First] at *
  rw [ways, List.head?_map, h, Option.map_some, whole]

theorem plus (some : taken ≠ []) (all : ∀ a ∈ taken, p a) (stops : ∀ a ∈ rest.head?, ¬ p a) :
    First (.plus p) (taken ++ rest) ⟨[], rest⟩ := by
  obtain ⟨a, taken, rfl⟩ := List.exists_cons_of_ne_nil some
  obtain ⟨first, others⟩ := List.forall_mem_cons.1 all
  exact (one first).seq (many others stops)

end First

namespace Fails

theorem one (stops : ∀ a ∈ input.head?, ¬ p a) : Fails (.one p) input := by
  cases input with
  | nil => rfl
  | cons a rest => exact if_neg (stops a rfl)

/-- A sequence fails where the second part fails behind every way of the first. -/
theorem seq (h : ∀ m ∈ r.ways input, Fails s m.rest) : Fails (.seq r s) input := by
  rw [Fails, ways, List.flatMap_eq_nil_iff]
  intro m member
  rw [h m member]
  rfl

theorem seq_left (h : Fails r input) : Fails (.seq r s) input :=
  seq fun m member => by
    rw [h] at member
    cases member

theorem alt (left : Fails r input) (right : Fails s input) : Fails (.alt r s) input := by
  rw [Fails, ways, left, right]
  rfl

theorem group (h : Fails r input) : Fails (.group n r) input := by
  rw [Fails, ways, h]
  rfl

theorem plus (stops : ∀ a ∈ input.head?, ¬ p a) : Fails (.plus p) input := seq_left (one stops)

end Fails

end Regex

/-! ## Searching -/

/-- A pattern of which every match takes a symbol. -/
structure Pattern (α : Type) where
  regex : Regex α
  takes : regex.takes = true

namespace Pattern

open Regex

variable {α : Type} (pattern : Pattern α)

/-- The first match from the first position that has one. -/
def search : List α → Option (Match α)
  | [] => (pattern.regex.ways []).head?
  | a :: rest =>
    match (pattern.regex.ways (a :: rest)).head? with
    | some m => some m
    | none => search rest

theorem length_search {input : List α} {m : Match α} (h : pattern.search input = some m) :
    m.rest.length < input.length := by
  induction input with
  | nil => exact length_rest_lt pattern.takes (List.mem_of_head? h)
  | cons a rest ih =>
    rw [search] at h
    split at h
    next found =>
      obtain rfl := Option.some.inj h
      exact length_rest_lt pattern.takes (List.mem_of_head? found)
    · exact Nat.lt_succ_of_lt (ih h)

/-- What the groups capture in one match after the other. -/
def capturesIter (input : List α) : List (List (ℕ × List α)) :=
  match _ : pattern.search input with
  | none => []
  | some m => m.captures :: capturesIter m.rest
termination_by input.length
decreasing_by exact pattern.length_search ‹_›

variable {pattern} {a : α} {input input' gap rest : List α} {m : Match α}

theorem mem_of_search (h : pattern.search input = some m) :
    ∃ input, m ∈ pattern.regex.ways input := by
  induction input with
  | nil => exact ⟨[], List.mem_of_head? h⟩
  | cons a rest ih =>
    rw [search] at h
    split at h
    next found => exact ⟨a :: rest, Option.some.inj h ▸ List.mem_of_head? found⟩
    · exact ih h

/-- What is captured is captured by a match. -/
theorem mem_capturesIter {captures : List (ℕ × List α)}
    (h : captures ∈ pattern.capturesIter input) :
    ∃ input, ∃ m ∈ pattern.regex.ways input, m.captures = captures := by
  fun_induction capturesIter pattern input with
  | case1 => cases h
  | case2 input m found ih =>
    rcases List.mem_cons.1 h with rfl | h
    · obtain ⟨input', member⟩ := mem_of_search found
      exact ⟨input', m, member, rfl⟩
    · exact ih h

theorem search_of_first (h : First pattern.regex input m) : pattern.search input = some m := by
  cases input with
  | nil => exact h
  | cons a rest =>
    rw [First] at h
    rw [search, h]

theorem search_cons (h : Fails pattern.regex (a :: rest)) :
    pattern.search (a :: rest) = pattern.search rest := by
  rw [search, h]
  rfl

/-- Positions without a match are skipped. -/
theorem search_append (h : ∀ a ∈ gap, ∀ rest, Fails pattern.regex (a :: rest)) :
    pattern.search (gap ++ rest) = pattern.search rest := by
  induction gap with
  | nil => rfl
  | cons a gap ih =>
    obtain ⟨first, others⟩ := List.forall_mem_cons.1 h
    rw [List.cons_append, search_cons (first _), ih others]

theorem capturesIter_of_some (h : pattern.search input = some m) :
    pattern.capturesIter input = m.captures :: pattern.capturesIter m.rest := by
  rw [capturesIter]
  split
  next none => cases none.symm.trans h
  next found => cases found.symm.trans h; rfl

theorem capturesIter_of_none (h : pattern.search input = none) :
    pattern.capturesIter input = [] := by
  rw [capturesIter]
  split
  · rfl
  next found => cases found.symm.trans h

theorem capturesIter_congr (h : pattern.search input = pattern.search input') :
    pattern.capturesIter input = pattern.capturesIter input' := by
  cases found : pattern.search input' with
  | none => rw [capturesIter_of_none found, capturesIter_of_none (h.trans found)]
  | some m => rw [capturesIter_of_some found, capturesIter_of_some (h.trans found)]

end Pattern
