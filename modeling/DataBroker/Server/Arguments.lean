import DataBroker.Server.Config
import Mathlib.Data.List.TakeWhile

/-!
# The arguments of the process

`main` takes every argument with an equals sign for a key and a value, the first sign between them,
and `shutdown` reads one of the values as a number of seconds. `shutdownTimeout_iff` says for which
command lines it waits, and how long.
-/

namespace DataBroker

/-- `arg.splitn(2, '=')`, where both parts are there. -/
def splitArg (arg : Text) : Option (Text × Text) :=
  match arg.span (· ≠ '=') with
  | (_, []) => none
  | (key, _ :: value) => some (key, value)

/-- The `env_args` of `main`; the first argument is the name of the program. -/
def envArgs (args : List Text) : HashMap Text Text :=
  HashMap.insertAll ∅ ((args.drop 1).filterMap splitArg)

def timeoutKey : Text := "--shutdown_timeout".toList

/-- For how many seconds `shutdown` waits, if it does. -/
def shutdownTimeout (args : HashMap Text Text) : Option (Except IntErrorKind ℕ) :=
  (args.lookup timeoutKey).map fun value =>
    (parseU64 value).map fun duration => if duration = 0 then 30 else duration

/-! ## Keys and values -/

variable {arg key value : Text} {args : List Text}

theorem splitArg_iff : splitArg arg = some (key, value) ↔ '=' ∉ key ∧ arg = key ++ '=' :: value := by
  unfold splitArg
  rw [List.span_eq_takeWhile_dropWhile]
  constructor
  · intro split
    have whole : arg.takeWhile (· ≠ '=') ++ arg.dropWhile (· ≠ '=') = arg :=
      List.takeWhile_append_dropWhile
    have first := List.head?_dropWhile_not (· ≠ '=') arg
    cases rest : arg.dropWhile (· ≠ '=') with
    | nil =>
      rw [rest] at split
      cases split
    | cons c tail =>
      rw [rest] at split first whole
      obtain ⟨rfl, rfl⟩ := Prod.mk.inj (Option.some.inj split)
      obtain rfl : c = '=' := by simpa using first
      refine ⟨fun inside => ?_, whole.symm⟩
      have := List.mem_takeWhile_imp inside
      simp at this
  · rintro ⟨plain, rfl⟩
    have before : ∀ c ∈ key, decide (c ≠ '=') = true := by
      intro c inside
      exact decide_eq_true fun here => plain (here ▸ inside)
    rw [List.takeWhile_append_of_pos before, List.dropWhile_append_of_pos before]
    simp

theorem key_notMem_iff (plain : '=' ∉ key) :
    key ∉ (args.filterMap splitArg).map Prod.fst ↔ ∀ arg ∈ args, ¬ key ++ ['='] <+: arg := by
  constructor
  · rintro absent arg inside ⟨value, rfl⟩
    have found : splitArg (key ++ ['='] ++ value) = some (key, value) :=
      splitArg_iff.2 ⟨plain, by simp⟩
    exact absent (List.mem_map_of_mem (List.mem_filterMap.2 ⟨_, inside, found⟩))
  · intro absent inside
    obtain ⟨⟨_, value⟩, entry, rfl⟩ := List.mem_map.1 inside
    obtain ⟨arg, inside, found⟩ := List.mem_filterMap.1 entry
    obtain ⟨-, rfl⟩ := splitArg_iff.1 found
    exact absent _ inside ⟨value, by simp⟩

/-- The last argument with a key decides. -/
theorem lookup_envArgs_iff (plain : '=' ∉ key) : (envArgs args).lookup key = some value ↔
    ∃ pre post, args.drop 1 = pre ++ (key ++ '=' :: value) :: post ∧
      ∀ arg ∈ post, ¬ key ++ ['='] <+: arg := by
  rw [envArgs, HashMap.lookup_insertAll_iff]
  constructor
  · rintro ⟨pre, post, split, absent⟩
    obtain ⟨before, behind, whole, -, split⟩ := List.filterMap_eq_append_iff.1 split
    obtain ⟨skipped, arg, rest, rfl, -, found, rfl⟩ := List.filterMap_eq_cons_iff.1 split
    obtain ⟨-, rfl⟩ := splitArg_iff.1 found
    refine ⟨before ++ skipped, rest, ?_, (key_notMem_iff plain).1 absent⟩
    rw [whole, List.append_assoc]
  · rintro ⟨pre, post, whole, absent⟩
    have found : splitArg (key ++ '=' :: value) = some (key, value) := splitArg_iff.2 ⟨plain, rfl⟩
    refine ⟨pre.filterMap splitArg, post.filterMap splitArg, ?_, (key_notMem_iff plain).2 absent⟩
    rw [whole, List.filterMap_append, List.filterMap_cons_some found]

theorem lookup_envArgs_eq_none_iff (plain : '=' ∉ key) : (envArgs args).lookup key = none ↔
    ∀ arg ∈ args.drop 1, ¬ key ++ ['='] <+: arg := by
  rw [envArgs, HashMap.lookup_insertAll_eq_none_iff, key_notMem_iff plain]

/-! ## The timeout -/

/-- `shutdown` waits for no time if and only if no argument begins with `--shutdown_timeout=`; it
waits for `n` seconds if and only if the last such argument goes on with a number, and `n` is this
number, or 30 for zero. -/
theorem shutdownTimeout_iff (args : List Text) :
    (shutdownTimeout (envArgs args) = none ↔
      ∀ arg ∈ args.drop 1, ¬ timeoutKey ++ ['='] <+: arg) ∧
    ∀ n, shutdownTimeout (envArgs args) = some (.ok n) ↔
      ∃ pre value post duration, args.drop 1 = pre ++ (timeoutKey ++ '=' :: value) :: post ∧
        (∀ arg ∈ post, ¬ timeoutKey ++ ['='] <+: arg) ∧ Numeral value duration ∧
        n = if duration = 0 then 30 else duration := by
  have plain : '=' ∉ timeoutKey := by decide
  refine ⟨?_, fun n => ?_⟩
  · rw [← lookup_envArgs_eq_none_iff plain, shutdownTimeout, Option.map_eq_none_iff]
  · rw [shutdownTimeout, Option.map_eq_some_iff]
    constructor
    · rintro ⟨value, found, read⟩
      obtain ⟨pre, post, whole, last⟩ := (lookup_envArgs_iff plain).1 found
      cases number : parseU64 value with
      | error kind =>
        rw [number] at read
        cases read
      | ok duration =>
        rw [number] at read
        obtain rfl := Except.ok.inj read
        exact ⟨pre, value, post, duration, whole, last, parseU64_eq_ok_iff.1 number, rfl⟩
    · rintro ⟨pre, value, post, duration, whole, last, number, rfl⟩
      refine ⟨value, (lookup_envArgs_iff plain).2 ⟨pre, post, whole, last⟩, ?_⟩
      rw [parseU64_eq_ok_iff.2 number]
      rfl

end DataBroker
