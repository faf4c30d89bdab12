import DataBroker.Lib.HashMap
import DataBroker.Lib.Regex

/-!
# `parse_config`

The settings are pairs of a key and a value, found with `(\w+)\s*=\s*(?:"([^"]+)"|(\S+))` wherever
they are in the file. The data of all pairs comes first; then each field of `Config` is read from
the value of its key.
-/

namespace DataBroker

abbrev Text := List Char

/-- `\s`, the characters of Unicode with the property `White_Space`. -/
def isWhitespace (c : Char) : Bool :=
  (9 ≤ c.toNat && c.toNat ≤ 13) || (0x2000 ≤ c.toNat && c.toNat ≤ 0x200a) ||
    [0x20, 0x85, 0xa0, 0x1680, 0x2028, 0x2029, 0x202f, 0x205f, 0x3000].contains c.toNat

/-- `\w`, which is `[0-9A-Za-z_]` on ASCII. -/
structure WordClass where
  contains : Char → Bool
  ascii : ∀ c : Char, c.toNat < 128 → contains c = (c.isAlphanum || c == '_')

/-- `(?-u:\w)` -/
def asciiWord : WordClass := ⟨fun c => c.isAlphanum || c == '_', fun _ _ => rfl⟩

/-- The double quote. -/
def quote : Char := Char.ofNat 34

/-- `(?:"([^"]+)"|(\S+))` -/
def settingValue : Regex Char :=
  .alt (.seq (.one (· == quote)) (.seq (.group 2 (.plus (· != quote))) (.one (· == quote))))
    (.group 3 (.plus fun c => !isWhitespace c))

/-- `RE` -/
def settingPattern (word : WordClass) : Pattern Char where
  regex := .seq (.group 1 (.plus word.contains)) (.seq (.many isWhitespace)
    (.seq (.one (· == '=')) (.seq (.many isWhitespace) settingValue)))
  takes := rfl

/-! ## `parse_config` -/

/-- `std::num::IntErrorKind`, as far as `parse::<u64>` gives it. -/
inductive IntErrorKind where
  | empty
  | invalidDigit
  | posOverflow
deriving DecidableEq, Repr

/-- The errors that `parse_config` boxes. -/
inductive ConfigError (ε : Type) where
  | io (error : ε)
  | text (message : String)
  | parseInt (kind : IntErrorKind)
deriving DecidableEq, Repr

structure Config where
  threadsLimit : ℕ
  procLimit : ℕ
  waitLimit : ℕ
  memoryLimit : ℕ
  serverAddr : Text
  serverPort : Text
  queueNames : List Text
deriving DecidableEq, Repr

/-- The loop of `parse::<u64>` over the digits. -/
def parseDigits (result : ℕ) : Text → Except IntErrorKind ℕ
  | [] => .ok result
  | c :: digits =>
    if c.isDigit then
      let result := result * 10 + (c.toNat - 48)
      if result < 2 ^ 64 then parseDigits result digits else .error .posOverflow
    else .error .invalidDigit

/-- `parse::<u64>`, which allows a plus sign before the digits. -/
def parseU64 : Text → Except IntErrorKind ℕ
  | [] => .error .empty
  | ['+'] => .error .invalidDigit
  | '+' :: digits => parseDigits 0 digits
  | digits => parseDigits 0 digits

variable {ε : Type}

/-- The pairs of the file; a later value replaces an earlier one. Where a group is missing, `unwrap`
would panic (`captured_groups`: it never is). -/
def readData (word : WordClass) (text : Text) : HashMap Text Text :=
  ((settingPattern word).capturesIter text).foldl (fun data pair =>
    match pair.lookup 1, (pair.lookup 2).or (pair.lookup 3) with
    | some key, some value => data.insert key value
    | _, _ => data) ∅

/-- `data.get(key).ok_or(message)?` -/
def setting (data : HashMap Text Text) (key message : String) : Except (ConfigError ε) Text :=
  match data.lookup key.toList with
  | some value => .ok value
  | none => .error (.text message)

/-- `data.get(key).ok_or(message)?.parse::<u64>()?` -/
def limit (data : HashMap Text Text) (key message : String) : Except (ConfigError ε) ℕ := do
  match parseU64 (← setting data key message) with
  | .ok n => .ok n
  | .error kind => .error (.parseInt kind)

/-- `parse_config` on what `fs::read_to_string` gives. -/
def parseConfig (word : WordClass) : Except ε Text → Except (ConfigError ε) Config
  | .error error => .error (.io error)
  | .ok text => do
    let data := readData word text
    let threadsLimit ← limit data "THREADS_LIMIT" "missing THREADS_LIMIT"
    let procLimit ← limit data "PROC_LIMIT" "missing PROC_LIMIT"
    let waitLimit ← limit data "WAIT_LIMIT" "missing WAIT_LIMIT"
    let memoryLimit ← limit data "MEMORY_LIMIT" "missing MEMORY_LIMIT"
    let serverAddr ← setting data "SERVER_ADDR" "missing SERVER_ADDR"
    let serverPort ← setting data "SERVER_PORT" "missing SERVER_PORT"
    let names ← setting data "QUEUE_NAMES" ""
    .ok { threadsLimit, procLimit, waitLimit, memoryLimit, serverAddr, serverPort,
          queueNames := (names.splitOn ',').filter (· ≠ []) }

/-- Group 1 and one of the groups 2 and 3 are in every match. -/
theorem captured_groups {word : WordClass} {text : Text} {pair : List (ℕ × Text)}
    (captured : pair ∈ (settingPattern word).capturesIter text) :
    (∃ key, pair.lookup 1 = some key) ∧
      ∃ value, (pair.lookup 2).or (pair.lookup 3) = some value := by
  obtain ⟨input, m, member, rfl⟩ := Pattern.mem_capturesIter captured
  obtain ⟨m₁, first, m₂, member, captures, -⟩ := Regex.mem_seq member
  obtain ⟨m₁', plus, key, captures₁, -⟩ := Regex.mem_group first
  obtain ⟨m₃, blank, m₄, member, captures₂, -⟩ := Regex.mem_seq member
  obtain ⟨m₅, sign, m₆, member, captures₄, -⟩ := Regex.mem_seq member
  obtain ⟨m₇, blank', m₈, member, captures₆, -⟩ := Regex.mem_seq member
  rw [captures, captures₁, captures₂, captures₄, captures₆, (Regex.mem_plus plus).1,
    (Regex.mem_many blank).1, (Regex.mem_one sign).1, (Regex.mem_many blank').1]
  refine ⟨⟨key, rfl⟩, ?_⟩
  rcases List.mem_append.1 member with quoted | plain
  · obtain ⟨m₉, opening, m₁₀, member, captures₈, -⟩ := Regex.mem_seq quoted
    obtain ⟨m₁₁, member, m₁₂, closing, captures₁₀, -⟩ := Regex.mem_seq member
    obtain ⟨m₁₃, plus', value, captures₁₁, -⟩ := Regex.mem_group member
    rw [captures₈, captures₁₀, captures₁₁, (Regex.mem_one opening).1, (Regex.mem_plus plus').1]
    exact ⟨value, rfl⟩
  · obtain ⟨m₉, plus', value, captures₈, -⟩ := Regex.mem_group plain
    rw [captures₈, (Regex.mem_plus plus').1]
    exact ⟨value, rfl⟩

/-! ## Numbers -/

theorem parseDigits_of_digits {digits : Text} {result : ℕ} (numeric : ∀ c ∈ digits, c.isDigit)
    (fits : Nat.ofDigitChars 10 digits result < 2 ^ 64) :
    parseDigits result digits = .ok (Nat.ofDigitChars 10 digits result) := by
  induction digits generalizing result with
  | nil => rfl
  | cons c digits ih =>
    obtain ⟨first, numeric⟩ := List.forall_mem_cons.1 numeric
    rw [Nat.ofDigitChars_cons, Nat.mul_comm] at fits ⊢
    change Nat.ofDigitChars 10 digits (result * 10 + (c.toNat - 48)) < 2 ^ 64 at fits
    -- the digits that follow only make the number larger
    have grows : result * 10 + (c.toNat - 48) ≤
        Nat.ofDigitChars 10 digits (result * 10 + (c.toNat - 48)) := by
      rw [Nat.ofDigitChars_eq_ofDigitChars_zero]
      exact Nat.le_add_right_of_le (Nat.le_mul_of_pos_left _ (Nat.pow_pos (by decide)))
    rw [parseDigits, if_pos first, if_pos (Nat.lt_of_le_of_lt grows fits)]
    exact ih numeric fits

/-- A number in decimal digits is read as what it says. -/
theorem parseU64_of_digits {value : Text} (some : value ≠ []) (numeric : ∀ c ∈ value, c.isDigit)
    (fits : Nat.ofDigitChars 10 value 0 < 2 ^ 64) :
    parseU64 value = .ok (Nat.ofDigitChars 10 value 0) := by
  have digits := parseDigits_of_digits numeric fits
  unfold parseU64
  split
  · exact absurd rfl some
  · exact absurd (numeric '+' (by simp)) (by decide)
  · exact absurd (numeric '+' (by simp)) (by decide)
  · exact digits

/-- Where digits are read as a number, they say it, and no step has passed the bound. -/
theorem parseDigits_eq_ok_iff {digits : Text} {result n : ℕ} (fits : result < 2 ^ 64) :
    parseDigits result digits = .ok n ↔
      (∀ c ∈ digits, c.isDigit) ∧ Nat.ofDigitChars 10 digits result = n ∧ n < 2 ^ 64 := by
  constructor
  · intro read
    induction digits generalizing result with
    | nil =>
      obtain rfl := Except.ok.inj read
      exact ⟨fun c inside => (by cases inside), rfl, fits⟩
    | cons c digits ih =>
      rw [parseDigits] at read
      dsimp only at read
      split_ifs at read with first below
      obtain ⟨numeric, same, small⟩ := ih below read
      refine ⟨List.forall_mem_cons.2 ⟨first, numeric⟩, ?_, small⟩
      rw [Nat.ofDigitChars_cons, Nat.mul_comm]
      exact same
  · rintro ⟨numeric, rfl, small⟩
    exact parseDigits_of_digits numeric small

/-- Decimal digits, at least one, perhaps behind a plus sign. -/
def Numeral (text : Text) (n : ℕ) : Prop :=
  ∃ digits : Text, digits ≠ [] ∧ (text = digits ∨ text = '+' :: digits) ∧
    (∀ c ∈ digits, c.isDigit) ∧ Nat.ofDigitChars 10 digits 0 = n ∧ n < 2 ^ 64

theorem parseU64_eq_ok_iff {value : Text} {n : ℕ} : parseU64 value = .ok n ↔ Numeral value n := by
  have zero : (0 : ℕ) < 2 ^ 64 := by decide
  constructor
  · intro read
    unfold parseU64 at read
    split at read
    · cases read
    · cases read
    next digits some => exact ⟨digits, some, .inr rfl, (parseDigits_eq_ok_iff zero).1 read⟩
    next some _ _ => exact ⟨value, some, .inl rfl, (parseDigits_eq_ok_iff zero).1 read⟩
  · rintro ⟨digits, some, rfl | rfl, numeric, rfl, small⟩
    · exact parseU64_of_digits some numeric small
    · cases digits with
      | nil => exact absurd rfl some
      | cons c digits => exact parseDigits_of_digits numeric small

/-! ## The fields -/

inductive SettingKey where
  | threadsLimit
  | procLimit
  | waitLimit
  | memoryLimit
  | serverAddr
  | serverPort
  | queueNames
deriving DecidableEq, Repr

namespace SettingKey

def name : SettingKey → Text
  | threadsLimit => "THREADS_LIMIT".toList
  | procLimit => "PROC_LIMIT".toList
  | waitLimit => "WAIT_LIMIT".toList
  | memoryLimit => "MEMORY_LIMIT".toList
  | serverAddr => "SERVER_ADDR".toList
  | serverPort => "SERVER_PORT".toList
  | queueNames => "QUEUE_NAMES".toList

def all : List SettingKey :=
  [threadsLimit, procLimit, waitLimit, memoryLimit, serverAddr, serverPort, queueNames]

/-- A number is expected. -/
def IsLimit : SettingKey → Prop
  | threadsLimit => True
  | procLimit => True
  | waitLimit => True
  | memoryLimit => True
  | _ => False

end SettingKey

theorem SettingKey.name_injective {key key' : SettingKey} (same : key.name = key'.name) :
    key = key' := by
  cases key <;> cases key' <;> first | rfl | exact absurd same (by decide)

/-- The field of a key is what a value says. -/
def Config.Has (config : Config) : SettingKey → Text → Prop
  | .threadsLimit, value => parseU64 value = .ok config.threadsLimit
  | .procLimit, value => parseU64 value = .ok config.procLimit
  | .waitLimit, value => parseU64 value = .ok config.waitLimit
  | .memoryLimit, value => parseU64 value = .ok config.memoryLimit
  | .serverAddr, value => config.serverAddr = value
  | .serverPort, value => config.serverPort = value
  | .queueNames, value => config.queueNames = (value.splitOn ',').filter (· ≠ [])

section Fields

variable {word : WordClass} {data : HashMap Text Text} {key message : String} {text value : Text}
  {n : ℕ} {config : Config}

theorem bind_eq_ok_iff {α β ε : Type} {x : Except ε α} {f : α → Except ε β} {b : β} :
    x >>= f = .ok b ↔ ∃ a, x = .ok a ∧ f a = .ok b := by
  cases x with
  | error e => exact ⟨fun h => (by cases h), fun ⟨a, h, _⟩ => (by cases h)⟩
  | ok a => exact ⟨fun h => ⟨a, rfl, h⟩, fun ⟨a', same, h⟩ => (by cases same; exact h)⟩

theorem setting_eq_ok_iff : setting data key message = (.ok value : Except (ConfigError ε) Text) ↔
    data.lookup key.toList = some value := by
  unfold setting
  cases data.lookup key.toList <;> simp

theorem limit_eq_ok_iff : limit data key message = (.ok n : Except (ConfigError ε) ℕ) ↔
    ∃ value, data.lookup key.toList = some value ∧ parseU64 value = .ok n := by
  unfold limit
  rw [bind_eq_ok_iff]
  refine exists_congr fun value => and_congr setting_eq_ok_iff ?_
  cases parseU64 value <;> simp

/-- `parse_config` succeeds with a record if and only if the data has every key, with a value that
the field of the key has. -/
theorem parseConfig_eq_ok_iff :
    parseConfig word (.ok text : Except ε Text) = .ok config ↔
      ∀ key : SettingKey, ∃ value, (readData word text).lookup key.name = some value ∧
        config.Has key value := by
  unfold parseConfig
  simp only [bind_eq_ok_iff, limit_eq_ok_iff, setting_eq_ok_iff]
  constructor
  · rintro ⟨threads, ht, procs, hp, wait, hw, memory, hm, addr, ha, port, hport, names, hn, same⟩
    obtain rfl := Except.ok.inj same
    intro key
    cases key with
    | threadsLimit => exact ht
    | procLimit => exact hp
    | waitLimit => exact hw
    | memoryLimit => exact hm
    | serverAddr => exact ⟨addr, ha, rfl⟩
    | serverPort => exact ⟨port, hport, rfl⟩
    | queueNames => exact ⟨names, hn, rfl⟩
  · intro found
    obtain ⟨addr, ha, hasAddr⟩ := found .serverAddr
    obtain ⟨port, hport, hasPort⟩ := found .serverPort
    obtain ⟨names, hn, hasNames⟩ := found .queueNames
    refine ⟨_, found .threadsLimit, _, found .procLimit, _, found .waitLimit, _,
      found .memoryLimit, addr, ha, port, hport, names, hn, ?_⟩
    cases config
    cases hasAddr
    cases hasPort
    cases hasNames
    rfl

/-- `parse_config` succeeds where the data has every key, and numbers where they are expected. -/
theorem exists_config (found : ∀ key : SettingKey, ∃ value,
      (readData word text).lookup key.name = some value ∧
        (key.IsLimit → ∃ n, parseU64 value = .ok n)) :
    ∃ config, parseConfig word (.ok text : Except ε Text) = .ok config := by
  obtain ⟨threads, ht, numeric⟩ := found .threadsLimit
  obtain ⟨t, ht'⟩ := numeric trivial
  obtain ⟨procs, hp, numeric⟩ := found .procLimit
  obtain ⟨p, hp'⟩ := numeric trivial
  obtain ⟨wait, hw, numeric⟩ := found .waitLimit
  obtain ⟨w, hw'⟩ := numeric trivial
  obtain ⟨memory, hm, numeric⟩ := found .memoryLimit
  obtain ⟨m, hm'⟩ := numeric trivial
  obtain ⟨addr, ha, -⟩ := found .serverAddr
  obtain ⟨port, hport, -⟩ := found .serverPort
  obtain ⟨names, hn, -⟩ := found .queueNames
  refine ⟨⟨t, p, w, m, addr, port, (names.splitOn ',').filter (· ≠ [])⟩,
    parseConfig_eq_ok_iff.2 fun key => ?_⟩
  cases key with
  | threadsLimit => exact ⟨threads, ht, ht'⟩
  | procLimit => exact ⟨procs, hp, hp'⟩
  | waitLimit => exact ⟨wait, hw, hw'⟩
  | memoryLimit => exact ⟨memory, hm, hm'⟩
  | serverAddr => exact ⟨addr, ha, rfl⟩
  | serverPort => exact ⟨port, hport, rfl⟩
  | queueNames => exact ⟨names, hn, rfl⟩

end Fields

end DataBroker
