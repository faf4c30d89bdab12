import DataBroker.Server.Config
import Mathlib.Data.Bool.AllAny

/-!
# The settings file

A settings file has one `KEY=VALUE` on each line. The pattern of `parse_config` is not tied to
lines, and `\s` takes the end of a line as well as a blank: a line without a value has the next line
taken for one.
-/

namespace DataBroker

variable {ε : Type}

/-- How a line ends; only the last line of a file ends with the file. -/
inductive LineEnd where
  | lf
  | crlf
  | eof
deriving DecidableEq, Repr

def LineEnd.text : LineEnd → Text
  | lf => ['\n']
  | crlf => ['\r', '\n']
  | eof => []

structure SettingLine where
  key : SettingKey
  value : Text
  ending : LineEnd
deriving DecidableEq, Repr

/-- `KEY=VALUE` and the end of the line. -/
def SettingLine.text (line : SettingLine) : Text :=
  line.key.name ++ '=' :: (line.value ++ line.ending.text)

/-- Only the last line ends with the file. -/
def LinesEnd (lines : List SettingLine) : Prop :=
  ∀ pre line post, lines = pre ++ line :: post → line.ending = .eof → post = []

/-- The seven keys once each, in any order. Values have no whitespace and no quotes, numbers where
numbers are expected, and only `QUEUE_NAMES` may be empty. -/
structure SettingsFile (lines : List SettingLine) : Prop where
  keys : (lines.map SettingLine.key).Perm SettingKey.all
  plain : ∀ line ∈ lines, ∀ c ∈ line.value, isWhitespace c = false ∧ c ≠ quote
  nonempty : ∀ line ∈ lines, line.key ≠ .queueNames → line.value ≠ []
  numeric : ∀ line ∈ lines, line.key.IsLimit → ∃ n, parseU64 line.value = .ok n
  ended : LinesEnd lines

/-! ## What the pattern matches -/

section Matching

open Regex

variable {word : WordClass} {name gap value rest input : Text} {c : Char}

theorem WordClass.not_contains (word : WordClass) (ascii : c.toNat < 128)
    (other : (c.isAlphanum || c == '_') = false) : word.contains c = false :=
  (word.ascii c ascii).trans other

theorem WordClass.not_contains_equals (word : WordClass) : word.contains '=' = false :=
  word.not_contains (by decide) (by decide)

/-- The characters of a key are taken by `\w+`, and not by `\s*`. -/
theorem name_plain (word : WordClass) (key : SettingKey) :
    ∀ c ∈ key.name, word.contains c = true ∧ isWhitespace c = false ∧ c ≠ quote := by
  have ascii : ∀ c ∈ key.name, (c.toNat < 128 ∧ (c.isAlphanum || c == '_') = true) ∧
      isWhitespace c = false ∧ c ≠ quote := by
    cases key <;> exact List.all_iff_forall_prop.1 (by decide)
  intro c member
  obtain ⟨⟨small, alphanumeric⟩, plain⟩ := ascii c member
  exact ⟨(word.ascii c small).trans alphanumeric, plain⟩

theorem name_ne_nil (key : SettingKey) : key.name ≠ [] := by cases key <;> decide

/-- A match begins with a word character. -/
theorem fails_of_not_word (other : word.contains c = false) :
    Fails (settingPattern word).regex (c :: rest) := by
  apply Fails.seq_left
  apply Fails.group
  apply Fails.plus
  intro a first
  obtain rfl := Option.some.inj first
  simp [other]

/-- A key, its sign, any white space, and a value up to the next white space. -/
theorem first_setting (named : name ≠ []) (words : ∀ c ∈ name, word.contains c = true)
    (blank : ∀ c ∈ gap, isWhitespace c = true) (some : value ≠ [])
    (plain : ∀ c ∈ value, isWhitespace c = false ∧ c ≠ quote)
    (ends : ∀ c ∈ rest.head?, isWhitespace c = true) :
    First (settingPattern word).regex (name ++ '=' :: (gap ++ (value ++ rest)))
      ⟨[(1, name), (3, value)], rest⟩ := by
  have key : First (.group 1 (.plus word.contains)) (name ++ '=' :: (gap ++ (value ++ rest)))
      ⟨[(1, name)], '=' :: (gap ++ (value ++ rest))⟩ := by
    refine First.group (.plus named words fun c first => ?_)
    obtain rfl := Option.some.inj first
    simp [word.not_contains_equals]
  have before : First (.many isWhitespace) ('=' :: (gap ++ (value ++ rest)))
      ⟨[], '=' :: (gap ++ (value ++ rest))⟩ := by
    rw [← List.nil_append ('=' :: _)]
    refine First.many (by simp) fun c first => ?_
    obtain rfl := Option.some.inj first
    decide
  obtain ⟨v, value', rfl⟩ := List.exists_cons_of_ne_nil some
  obtain ⟨notBlank, notQuote⟩ := plain v List.mem_cons_self
  have behind : First (.many isWhitespace) (gap ++ (v :: value' ++ rest))
      ⟨[], v :: value' ++ rest⟩ := by
    refine First.many blank fun c first => ?_
    obtain rfl := Option.some.inj first
    simp [notBlank]
  have quoted : Fails (.seq (.one (· == quote))
      (.seq (.group 2 (.plus (· != quote))) (.one (· == quote)))) (v :: value' ++ rest) := by
    refine Fails.seq_left (.one fun c first => ?_)
    obtain rfl := Option.some.inj first
    simpa using notQuote
  have plainValue : First (.group 3 (.plus fun c => !isWhitespace c)) (v :: value' ++ rest)
      ⟨[(3, v :: value')], rest⟩ := by
    refine First.group (.plus some (fun c member => ?_) fun c first => ?_)
    · simp [(plain c member).1]
    · simp [ends c first]
  have sign : First (.one (· == '=')) ('=' :: (gap ++ (v :: value' ++ rest)))
      ⟨[], gap ++ (v :: value' ++ rest)⟩ := First.one (by decide)
  exact key.seq (before.seq (sign.seq (behind.seq (plainValue.alt_right quoted))))

/-- No value begins with white space. -/
theorem settingValue_fails (blank : ∀ c ∈ gap.head?, isWhitespace c = true) :
    Fails settingValue gap := by
  refine Fails.alt (Fails.seq_left (.one fun c first => ?_)) (Fails.group (.plus fun c first => ?_))
  · have := blank c first
    rw [beq_iff_eq]
    rintro rfl
    revert this
    decide
  · simp [blank c first]

/-- Where nothing but white space follows the sign, no value can be found. -/
theorem fails_unset (plain : ∀ c ∈ name, isWhitespace c = false ∧ c ≠ '=')
    (blank : ∀ c ∈ gap, isWhitespace c = true) :
    Fails (settingPattern word).regex (name ++ '=' :: gap) := by
  apply Fails.seq
  intro m key
  obtain ⟨m', member, -, -, same⟩ := mem_group key
  obtain ⟨-, taken, split, words⟩ := mem_plus member
  obtain ⟨name', rfl, behind⟩ := append_eq_append_cons split words
    (by simp [word.not_contains_equals])
  rw [same, behind]
  apply Fails.seq
  intro m₁ member₁
  obtain ⟨-, taken₁, split₁, blanks⟩ := mem_many member₁
  obtain ⟨name₁, rfl, behind₁⟩ := append_eq_append_cons split₁ blanks (by decide)
  rw [behind₁]
  cases name₁ with
  | cons c name₁ =>
    refine Fails.seq_left (.one fun a first => ?_)
    obtain rfl := Option.some.inj first
    simpa using (plain c (by simp)).2
  | nil =>
    apply Fails.seq
    intro m₂ member₂
    obtain ⟨-, a, split₂, -⟩ := mem_one member₂
    obtain ⟨-, rfl⟩ := List.cons.inj split₂
    apply Fails.seq
    intro m₃ member₃
    obtain ⟨-, taken₃, split₃, -⟩ := mem_many member₃
    rw [split₃] at blank
    exact settingValue_fails fun c first =>
      blank c (List.mem_append_right _ (List.mem_of_head? first))

theorem search_unset (plain : ∀ c ∈ name, isWhitespace c = false ∧ c ≠ '=')
    (blank : ∀ c ∈ gap, isWhitespace c = true) (notWords : ∀ c ∈ gap, word.contains c = false) :
    (settingPattern word).search (name ++ '=' :: gap) = none := by
  induction name with
  | nil =>
    have none : (settingPattern word).search gap = none := by
      rw [← List.append_nil gap, Pattern.search_append fun c member rest =>
        fails_of_not_word (notWords c member)]
      rfl
    rw [List.nil_append, Pattern.search_cons (fails_of_not_word word.not_contains_equals), none]
  | cons c name ih =>
    obtain ⟨-, others⟩ := List.forall_mem_cons.1 plain
    rw [List.cons_append, Pattern.search_cons, ih others]
    exact @fails_unset word (c :: name) gap plain blank

/-! ## What is read off a file -/

theorem LineEnd.text_blank (ending : LineEnd) (word : WordClass) :
    ∀ c ∈ ending.text, isWhitespace c = true ∧ word.contains c = false := by
  have ascii : ∀ c ∈ ending.text, isWhitespace c = true ∧ c.toNat < 128 ∧
      (c.isAlphanum || c == '_') = false := by
    cases ending <;> exact List.all_iff_forall_prop.1 (by decide)
  intro c member
  obtain ⟨blank, small, other⟩ := ascii c member
  exact ⟨blank, word.not_contains small other⟩

/-- The end of a line is skipped before the next match. -/
theorem capturesIter_ending (word : WordClass) (ending : LineEnd) (rest : Text) :
    (settingPattern word).capturesIter (ending.text ++ rest) =
      (settingPattern word).capturesIter rest :=
  Pattern.capturesIter_congr (Pattern.search_append fun c member _ =>
    fails_of_not_word (ending.text_blank word c member).2)

/-- Behind a line comes white space, or nothing at all. -/
theorem LineEnd.head_blank {ending : LineEnd} (last : ending = .eof → rest = []) :
    ∀ c ∈ (ending.text ++ rest).head?, isWhitespace c = true := by
  intro c first
  cases ending with
  | lf =>
    obtain rfl := Option.some.inj first
    decide
  | crlf =>
    obtain rfl := Option.some.inj first
    decide
  | eof =>
    rw [last rfl] at first
    cases first

/-- A match with the key of a line takes white space and the next value, and skips the end of the
line that has it. -/
theorem capturesIter_value (word : WordClass) (key : SettingKey) {ending : LineEnd}
    (blank : ∀ c ∈ gap, isWhitespace c = true) (some : value ≠ [])
    (plain : ∀ c ∈ value, isWhitespace c = false ∧ c ≠ quote)
    (last : ending = .eof → rest = []) :
    (settingPattern word).capturesIter
        (key.name ++ '=' :: (gap ++ (value ++ (ending.text ++ rest)))) =
      [(1, key.name), (3, value)] :: (settingPattern word).capturesIter rest := by
  have first := @first_setting word _ _ _ _ (name_ne_nil key)
    (fun c member => (name_plain word key c member).1) blank some plain (LineEnd.head_blank last)
  rw [Pattern.capturesIter_of_some (Pattern.search_of_first first), capturesIter_ending]

end Matching

/-- A line with a value gives it to its key. -/
theorem capturesIter_line (word : WordClass) {line : SettingLine} {rest : Text}
    (some : line.value ≠ []) (plain : ∀ c ∈ line.value, isWhitespace c = false ∧ c ≠ quote)
    (last : line.ending = .eof → rest = []) :
    (settingPattern word).capturesIter (line.text ++ rest) =
      [(1, line.key.name), (3, line.value)] :: (settingPattern word).capturesIter rest := by
  have whole : line.text ++ rest =
      line.key.name ++ '=' :: ([] ++ (line.value ++ (line.ending.text ++ rest))) := by
    simp [SettingLine.text]
  rw [whole, capturesIter_value word line.key (by simp) some plain last]

/-- A line without a value takes the whole line behind it for one. -/
theorem capturesIter_empty (word : WordClass) {line next : SettingLine} {rest : Text}
    (none : line.value = []) (plain : ∀ c ∈ next.value, isWhitespace c = false ∧ c ≠ quote)
    (last : next.ending = .eof → rest = []) :
    (settingPattern word).capturesIter (line.text ++ (next.text ++ rest)) =
      [(1, line.key.name), (3, next.key.name ++ '=' :: next.value)] ::
        (settingPattern word).capturesIter rest := by
  have whole : line.text ++ (next.text ++ rest) = line.key.name ++ '=' :: (line.ending.text ++
      ((next.key.name ++ '=' :: next.value) ++ (next.ending.text ++ rest))) := by
    simp [SettingLine.text, none]
  have plain' : ∀ c ∈ next.key.name ++ '=' :: next.value, isWhitespace c = false ∧ c ≠ quote := by
    refine List.forall_mem_append.2 ⟨fun c member => (name_plain word next.key c member).2,
      List.forall_mem_cons.2 ⟨by decide, plain⟩⟩
  rw [whole, capturesIter_value word line.key
    (fun c member => (line.ending.text_blank word c member).1) (by simp) plain' last]

/-- A line without a value at the end of the file gives none. -/
theorem capturesIter_unset (word : WordClass) {line : SettingLine} (none : line.value = []) :
    (settingPattern word).capturesIter line.text = [] := by
  have whole : line.text = line.key.name ++ '=' :: line.ending.text := by
    simp [SettingLine.text, none]
  have plain : ∀ c ∈ line.key.name, isWhitespace c = false ∧ c ≠ '=' := by
    cases line.key <;> exact List.all_iff_forall_prop.1 (by decide)
  rw [whole]
  exact Pattern.capturesIter_of_none (search_unset plain
    (fun c member => (line.ending.text_blank word c member).1)
    (fun c member => (line.ending.text_blank word c member).2))

/-- The text of a settings file. -/
def settingsText (lines : List SettingLine) : Text := lines.flatMap SettingLine.text

/-- A key and its value, as the groups capture them. -/
def capturedPair (entry : Text × Text) : List (ℕ × Text) := [(1, entry.1), (3, entry.2)]

def SettingLine.entry (line : SettingLine) : Text × Text := (line.key.name, line.value)

section Files

variable {word : WordClass} {lines pre tail : List SettingLine} {line next : SettingLine}

theorem LinesEnd.right (pre : List SettingLine) (ended : LinesEnd (pre ++ tail)) : LinesEnd tail :=
  fun pre' line post same => ended (pre ++ pre') line post (by rw [same, List.append_assoc])

/-- Lines with values are read one by one. -/
theorem capturesIter_append (word : WordClass) (filled : ∀ line ∈ pre, line.value ≠ [])
    (plain : ∀ line ∈ pre, ∀ c ∈ line.value, isWhitespace c = false ∧ c ≠ quote)
    (ended : LinesEnd (pre ++ tail)) :
    (settingPattern word).capturesIter (settingsText (pre ++ tail)) =
      (pre.map SettingLine.entry).map capturedPair ++
        (settingPattern word).capturesIter (settingsText tail) := by
  induction pre with
  | nil => rfl
  | cons line pre ih =>
    obtain ⟨first, filled⟩ := List.forall_mem_cons.1 filled
    obtain ⟨plainFirst, plain⟩ := List.forall_mem_cons.1 plain
    have last : line.ending = .eof → settingsText (pre ++ tail) = [] := fun eof => by
      rw [ended [] line (pre ++ tail) rfl eof]
      rfl
    rw [List.cons_append, settingsText, List.flatMap_cons, ← settingsText,
      capturesIter_line word first plainFirst last, ih filled plain (LinesEnd.right [line] ended)]
    rfl

theorem capturesIter_file (word : WordClass) (filled : ∀ line ∈ lines, line.value ≠ [])
    (plain : ∀ line ∈ lines, ∀ c ∈ line.value, isWhitespace c = false ∧ c ≠ quote)
    (ended : LinesEnd lines) :
    (settingPattern word).capturesIter (settingsText lines) =
      (lines.map SettingLine.entry).map capturedPair := by
  rw [← List.append_nil lines] at ended
  have nothing : (settingPattern word).capturesIter (settingsText []) = [] :=
    Pattern.capturesIter_of_none rfl
  have all := capturesIter_append word filled plain ended
  rwa [nothing, List.append_nil, List.append_nil] at all

/-- A last line without a value adds no pair. -/
theorem capturesIter_last (word : WordClass) (none : line.value = [])
    (filled : ∀ line ∈ pre, line.value ≠ [])
    (plain : ∀ line ∈ pre, ∀ c ∈ line.value, isWhitespace c = false ∧ c ≠ quote)
    (ended : LinesEnd (pre ++ [line])) :
    (settingPattern word).capturesIter (settingsText (pre ++ [line])) =
      (pre.map SettingLine.entry).map capturedPair := by
  have single : settingsText [line] = line.text := List.append_nil line.text
  rw [capturesIter_append word filled plain ended, single, capturesIter_unset word none,
    List.append_nil]

/-- A line without a value has the line behind it for its value, and the key of that one is lost. -/
theorem capturesIter_swallowed (word : WordClass) (none : line.value = [])
    (filledPre : ∀ line ∈ pre, line.value ≠ []) (filledTail : ∀ line ∈ tail, line.value ≠ [])
    (plain : ∀ other ∈ pre ++ line :: next :: tail, ∀ c ∈ other.value,
      isWhitespace c = false ∧ c ≠ quote)
    (ended : LinesEnd (pre ++ line :: next :: tail)) :
    (settingPattern word).capturesIter (settingsText (pre ++ line :: next :: tail)) =
      (pre.map SettingLine.entry ++ (line.key.name, next.key.name ++ '=' :: next.value) ::
        tail.map SettingLine.entry).map capturedPair := by
  obtain ⟨plainPre, plainRest⟩ := List.forall_mem_append.1 plain
  obtain ⟨-, plainRest⟩ := List.forall_mem_cons.1 plainRest
  obtain ⟨plainNext, plainTail⟩ := List.forall_mem_cons.1 plainRest
  have ended' := LinesEnd.right pre ended
  have last : next.ending = .eof → settingsText tail = [] := fun eof => by
    rw [ended' [line] next tail rfl eof]
    rfl
  have whole : settingsText (line :: next :: tail) =
      line.text ++ (next.text ++ settingsText tail) := rfl
  rw [capturesIter_append word filledPre plainPre ended, whole,
    capturesIter_empty word none plainNext last,
    capturesIter_file word filledTail plainTail (LinesEnd.right [line, next] ended'),
    List.map_append, List.map_cons]
  rfl

/-- The data of captured pairs. -/
theorem readData_of_captures {text : Text} {entries : List (Text × Text)}
    (captures : (settingPattern word).capturesIter text = entries.map capturedPair) :
    readData word text = HashMap.insertAll ∅ entries := by
  rw [readData, captures, List.foldl_map]
  rfl

/-- A key that no line has is not the name of an entry. -/
theorem SettingKey.name_notMem {key : SettingKey} (absent : key ∉ lines.map SettingLine.key) :
    key.name ∉ (lines.map SettingLine.entry).map Prod.fst := by
  rw [List.map_map]
  intro member
  obtain ⟨line, inside, same⟩ := List.mem_map.1 member
  exact absent (List.mem_map.2 ⟨line, inside, SettingKey.name_injective same⟩)

/-- A key that is not captured is missing. -/
theorem lookup_of_captures {text : Text} {entries : List (Text × Text)} {key : Text}
    (captures : (settingPattern word).capturesIter text = entries.map capturedPair)
    (absent : key ∉ entries.map Prod.fst) : (readData word text).lookup key = none := by
  rw [readData_of_captures captures, HashMap.lookup_insertAll_of_notMem absent]
  rfl

end Files

namespace SettingsFile

variable {lines : List SettingLine}

theorem nodup (settings : SettingsFile lines) : (lines.map SettingLine.key).Nodup :=
  settings.keys.nodup_iff.2 (by decide)

theorem exists_line (settings : SettingsFile lines) (key : SettingKey) :
    ∃ line ∈ lines, line.key = key := by
  have member : key ∈ SettingKey.all := by cases key <;> decide
  exact List.mem_map.1 (settings.keys.mem_iff.2 member)

/-- Where no value is empty, every key has the value on its own line. -/
theorem lookup (settings : SettingsFile lines) (word : WordClass)
    (filled : ∀ line ∈ lines, line.value ≠ []) {line : SettingLine} (member : line ∈ lines) :
    (readData word (settingsText lines)).lookup line.key.name = some line.value := by
  have names : ((lines.map SettingLine.entry).map Prod.fst).Nodup := by
    have distinct := List.Nodup.map (fun _ _ => SettingKey.name_injective) settings.nodup
    rwa [List.map_map] at distinct ⊢
  rw [readData_of_captures (capturesIter_file word filled settings.plain settings.ended)]
  exact HashMap.lookup_insertAll names (List.mem_map_of_mem member)

/-- Where `QUEUE_NAMES` is empty, a key is missing: that of the next line, or `QUEUE_NAMES` if there
is none. -/
theorem missing (settings : SettingsFile lines) (word : WordClass) {line : SettingLine}
    (member : line ∈ lines) (names : line.key = .queueNames) (empty : line.value = []) :
    ∃ key : SettingKey, (readData word (settingsText lines)).lookup key.name = none := by
  obtain ⟨pre, post, rfl⟩ := List.append_of_mem member
  have distinct : (line.key :: (pre ++ post).map SettingLine.key).Nodup :=
    ((List.perm_middle.map SettingLine.key).nodup_iff).1 settings.nodup
  obtain ⟨once, distinct⟩ := List.nodup_cons.1 distinct
  have filled : ∀ other ∈ pre ++ post, other.value ≠ [] := by
    intro other inside
    refine settings.nonempty other (List.perm_middle.mem_iff.2 (List.mem_cons_of_mem _ inside))
      fun same => once ?_
    rw [names, ← same]
    exact List.mem_map_of_mem inside
  obtain ⟨filledPre, filledPost⟩ := List.forall_mem_append.1 filled
  cases post with
  | nil =>
    have captures := capturesIter_last word empty filledPre
      (List.forall_mem_append.1 settings.plain).1 settings.ended
    rw [List.append_nil, names] at once
    exact ⟨.queueNames, lookup_of_captures captures (SettingKey.name_notMem once)⟩
  | cons next post =>
    have captures := capturesIter_swallowed word empty filledPre
      (List.forall_mem_cons.1 filledPost).2 settings.plain settings.ended
    have distinct' : (next.key :: (pre ++ post).map SettingLine.key).Nodup :=
      ((List.perm_middle.map SettingLine.key).nodup_iff).1 distinct
    have absent := (List.nodup_cons.1 distinct').1
    rw [List.map_append, List.mem_append, not_or] at absent
    refine ⟨next.key, lookup_of_captures captures ?_⟩
    rw [List.map_append, List.map_cons, List.mem_append, List.mem_cons, not_or, not_or]
    refine ⟨SettingKey.name_notMem absent.1, fun same => once ?_, SettingKey.name_notMem absent.2⟩
    rw [← SettingKey.name_injective same]
    exact List.mem_map_of_mem (List.mem_append_right _ List.mem_cons_self)

end SettingsFile

/-- Every field of the record is the value on the line of its own key, if and only if the value of
`QUEUE_NAMES` is not empty. -/
theorem parseConfig_iff_queueNames (word : WordClass) {lines : List SettingLine}
    (settings : SettingsFile lines) :
    (∃ config, parseConfig word (.ok (settingsText lines) : Except ε Text) = .ok config ∧
        ∀ line ∈ lines, config.Has line.key line.value) ↔
      ∀ line ∈ lines, line.key = .queueNames → line.value ≠ [] := by
  constructor
  · rintro ⟨config, parsed, -⟩ line member names empty
    obtain ⟨key, missing⟩ := settings.missing word member names empty
    obtain ⟨value, found, -⟩ := parseConfig_eq_ok_iff.1 parsed key
    cases missing.symm.trans found
  · intro names
    have filled : ∀ line ∈ lines, line.value ≠ [] := by
      intro line member
      by_cases key : line.key = .queueNames
      · exact names line member key
      · exact settings.nonempty line member key
    have found : ∀ key : SettingKey, ∃ value,
        (readData word (settingsText lines)).lookup key.name = some value ∧
          (key.IsLimit → ∃ n, parseU64 value = .ok n) := by
      intro key
      obtain ⟨line, member, rfl⟩ := settings.exists_line key
      exact ⟨line.value, settings.lookup word filled member, settings.numeric line member⟩
    obtain ⟨config, parsed⟩ := exists_config (ε := ε) found
    refine ⟨config, parsed, fun line member => ?_⟩
    obtain ⟨value, found, has⟩ := parseConfig_eq_ok_iff.1 parsed line.key
    obtain rfl := Option.some.inj (found.symm.trans (settings.lookup word filled member))
    exact has

/-- A settings file with these queue names. -/
def settingLines (names : Text) : List SettingLine :=
  [⟨.threadsLimit, "5".toList, .lf⟩, ⟨.procLimit, "10".toList, .lf⟩,
    ⟨.waitLimit, "100".toList, .lf⟩, ⟨.queueNames, names, .lf⟩,
    ⟨.memoryLimit, "24576".toList, .lf⟩, ⟨.serverAddr, "127.0.0.1".toList, .lf⟩,
    ⟨.serverPort, "8080".toList, .lf⟩]

theorem settingLines_file {names : Text}
    (plain : ∀ c ∈ names, isWhitespace c = false ∧ c ≠ quote) :
    SettingsFile (settingLines names) where
  keys := (by decide : List.Perm [.threadsLimit, .procLimit, .waitLimit, .queueNames, .memoryLimit,
    .serverAddr, .serverPort] SettingKey.all)
  plain := by
    simp only [settingLines, List.forall_mem_cons]
    have checked {value : Text}
        (all : value.all (fun c => isWhitespace c = false ∧ c ≠ quote) = true) :
        ∀ c ∈ value, isWhitespace c = false ∧ c ≠ quote := List.all_iff_forall_prop.1 all
    exact ⟨checked (by decide), checked (by decide), checked (by decide), plain,
      checked (by decide), checked (by decide), checked (by decide), by simp⟩
  nonempty := by
    simp only [settingLines, List.forall_mem_cons]
    exact ⟨by decide, by decide, by decide, fun other => absurd rfl other, by decide, by decide,
      by decide, by simp⟩
  numeric := by
    simp only [settingLines, List.forall_mem_cons]
    have number {value : Text} (some : value ≠ []) (numeric : value.all Char.isDigit = true)
        (fits : Nat.ofDigitChars 10 value 0 < 2 ^ 64) : ∃ n, parseU64 value = .ok n :=
      ⟨_, parseU64_of_digits some (List.all_eq_true.1 numeric) fits⟩
    exact ⟨fun _ => number (by decide) (by decide) (by decide),
      fun _ => number (by decide) (by decide) (by decide),
      fun _ => number (by decide) (by decide) (by decide), fun other => other.elim,
      fun _ => number (by decide) (by decide) (by decide), fun other => other.elim,
      fun other => other.elim, by simp⟩
  ended pre line post same eof := by
    have all : ∀ line ∈ settingLines names, line.ending ≠ .eof := by simp [settingLines]
    exact absurd eof (all line (by simp [same]))

/-- A file with two queues. -/
theorem parseConfig_two_queues :
    ∃ config, parseConfig asciiWord (.ok (settingsText (settingLines "a,,b".toList)) :
        Except Unit Text) = .ok config ∧
      ∀ line ∈ settingLines "a,,b".toList, config.Has line.key line.value :=
  (parseConfig_iff_queueNames asciiWord
    (settingLines_file (List.all_iff_forall_prop.1 (by decide)))).2 (by decide)

/-- A file without queues: the line behind `QUEUE_NAMES=` is taken for the list of names. -/
theorem parseConfig_without_queues :
    ¬ ∀ (word : WordClass) (lines : List SettingLine), SettingsFile lines →
      ∃ config, parseConfig word (.ok (settingsText lines) : Except Unit Text) = .ok config ∧
        ∀ line ∈ lines, config.Has line.key line.value := by
  intro reads
  have settings : SettingsFile (settingLines []) := settingLines_file (by simp)
  obtain ⟨config, parsed, -⟩ := reads asciiWord _ settings
  have member : (⟨.queueNames, [], .lf⟩ : SettingLine) ∈ settingLines [] := by decide
  obtain ⟨key, missing⟩ := settings.missing asciiWord member rfl rfl
  obtain ⟨value, found, -⟩ := parseConfig_eq_ok_iff.1 parsed key
  cases missing.symm.trans found

end DataBroker
