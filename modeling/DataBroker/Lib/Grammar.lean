import DataBroker.Lib.Framing
import DataBroker.Lib.Transition

/-!
# Reading a grammar

The items of a stream are told apart by their encodings alone. A receiver takes items off the front
of its buffer as long as it finds any, and then reads on. What it looks at besides the buffer may
be different each time, and may lead it to refuse an item; it has no say in where the next item
begins and ends.

* `Receiver.sound_run`: in every run the stream is made of the items taken and of what is left.
* `Grammar.prefix_of_stuck`: of two parses of a stream, one begins with the other.
-/

/-- Items over `γ` written in a stream of `α`, and a function that finds the next one in a buffer in
view of something else, `φ`. -/
structure Grammar (α β γ ε φ : Type) where
  encode : γ → List α
  decode : γ → β
  scan : φ → List α → Scan α β ε
  nonempty : ∀ c, encode c ≠ []
  apart : ∀ c c' more more', encode c ++ more = encode c' ++ more' → c = c'
  scan_item : ∀ x buffer value rest, scan x buffer = .item value rest →
    ∃ c, value = decode c ∧ buffer = encode c ++ rest
  scan_wait : ∀ x buffer, scan x buffer = .wait → ∀ c, ¬ encode c <+: buffer

namespace Grammar

variable {α β γ ε φ : Type} (G : Grammar α β γ ε φ)

def encodeAll (cs : List γ) : List α := cs.flatMap G.encode

variable {G} {cs cs' : List γ} {rest rest' : List α}

theorem encodeAll_cons (c : γ) (cs : List γ) : G.encodeAll (c :: cs) = G.encode c ++ G.encodeAll cs :=
  List.flatMap_cons

/-- Where a stream goes on, what is parsed of it does too. -/
theorem prefix_of_stuck (within : G.encodeAll cs ++ rest <+: G.encodeAll cs' ++ rest')
    (stuck : ∀ c, ¬ G.encode c <+: rest') : cs <+: cs' := by
  induction cs generalizing cs' with
  | nil => exact List.nil_prefix
  | cons c cs ih =>
    rw [encodeAll_cons, List.append_assoc] at within
    cases cs' with
    | nil => exact absurd ((List.prefix_append _ _).trans within) (stuck c)
    | cons c' cs' =>
      rw [encodeAll_cons, List.append_assoc] at within
      obtain ⟨more, whole⟩ := within
      rw [List.append_assoc] at whole
      obtain rfl := G.apart c c' _ _ whole
      apply (List.prefix_cons_inj c).2
      exact ih ⟨more, List.append_cancel_left whole⟩

/-- No item begins where nothing is left. -/
theorem stuck_nil (c : γ) : ¬ G.encode c <+: [] := fun within =>
  G.nonempty c (List.prefix_nil.1 within)

end Grammar

/-- What a receiver is doing: it waits for more of the stream, looks at its buffer, has refused an
item in view of `x`, or has come to the end. -/
inductive Stance (ε φ : Type) where
  | reading
  | looking
  | refused (x : φ) (error : ε)
  | ended
deriving DecidableEq

/-- A receiver, with a record of what it has received. -/
structure Receiver (α β ε φ : Type) where
  received : List α
  buffer : List α
  items : List β
  stance : Stance ε φ

/-- The receiver reads a chunk, which is empty at the end of the stream, looks at its buffer, or
leaves the stream. -/
inductive Receiver.Turn (α φ : Type) where
  | read (chunk : List α)
  | look (x : φ)
  | leave

namespace Receiver

variable {α β γ ε φ : Type}

def start : Receiver α β ε φ := ⟨[], [], [], .reading⟩

def read (r : Receiver α β ε φ) (chunk : List α) : Receiver α β ε φ :=
  match r.stance with
  | .reading =>
    if chunk = [] then { r with stance := .ended }
    else ⟨r.received ++ chunk, r.buffer ++ chunk, r.items, .looking⟩
  | _ => r

def look (scan : φ → List α → Scan α β ε) (r : Receiver α β ε φ) (x : φ) : Receiver α β ε φ :=
  match r.stance with
  | .looking =>
    match scan x r.buffer with
    | .wait => { r with stance := .reading }
    | .reject error => { r with stance := .refused x error }
    | .item value rest => { r with buffer := rest, items := r.items ++ [value] }
  | _ => r

def leave (r : Receiver α β ε φ) : Receiver α β ε φ :=
  match r.stance with
  | .reading => { r with stance := .ended }
  | _ => r

def step (scan : φ → List α → Scan α β ε) (r : Receiver α β ε φ) :
    Turn α φ → Receiver α β ε φ
  | .read chunk => r.read chunk
  | .look x => r.look scan x
  | .leave => r.leave

/-- The items taken are those of `cs`, and with what is left they are all that was received. -/
structure Parsed (G : Grammar α β γ ε φ) (r : Receiver α β ε φ) (cs : List γ) : Prop where
  items : r.items = cs.map G.decode
  stream : r.received = G.encodeAll cs ++ r.buffer

/-- What a receiver has done and why it waits or has refused. -/
structure Sound (G : Grammar α β γ ε φ) (r : Receiver α β ε φ) : Prop where
  parsed : ∃ cs, r.Parsed G cs
  stuck : r.stance = .reading → ∀ c, ¬ G.encode c <+: r.buffer
  refused : ∀ x error, r.stance = .refused x error → G.scan x r.buffer = .reject error

variable {G : Grammar α β γ ε φ} {r r' : Receiver α β ε φ} {cs cs' : List γ}

theorem Parsed.read (parsed : r.Parsed G cs) (chunk : List α) (stance : Stance ε φ) :
    Parsed G ⟨r.received ++ chunk, r.buffer ++ chunk, r.items, stance⟩ cs := by
  refine ⟨parsed.items, ?_⟩
  rw [parsed.stream, List.append_assoc]

theorem Parsed.take (parsed : r.Parsed G cs) {c : γ} {rest : List α}
    (front : r.buffer = G.encode c ++ rest) :
    Parsed G { r with buffer := rest, items := r.items ++ [G.decode c] } (cs ++ [c]) := by
  constructor
  · simp [parsed.items]
  · simp [parsed.stream, front, Grammar.encodeAll]

theorem sound_start : Sound G (start : Receiver α β ε φ) :=
  ⟨⟨[], rfl, rfl⟩, fun _ => Grammar.stuck_nil, fun _ _ refused => by cases refused⟩

theorem Sound.read (sound : r.Sound G) (chunk : List α) : (r.read chunk).Sound G := by
  obtain ⟨⟨cs, parsed⟩, -, -⟩ := id sound
  unfold Receiver.read
  split
  · split_ifs
    · exact ⟨⟨cs, parsed.items, parsed.stream⟩, fun h => (by cases h), fun _ _ h => by cases h⟩
    · exact ⟨⟨cs, parsed.read chunk _⟩, fun h => (by cases h), fun _ _ h => by cases h⟩
  · exact sound

theorem Sound.look (sound : r.Sound G) (x : φ) : (r.look G.scan x).Sound G := by
  obtain ⟨⟨cs, parsed⟩, -, -⟩ := id sound
  unfold Receiver.look
  split
  next looking =>
    split
    next waiting =>
      exact ⟨⟨cs, parsed.items, parsed.stream⟩, fun _ => G.scan_wait x _ waiting,
        fun _ _ h => by cases h⟩
    next error rejected =>
      refine ⟨⟨cs, parsed.items, parsed.stream⟩, fun h => (by cases h), fun y e h => ?_⟩
      cases h
      exact rejected
    next value rest found =>
      obtain ⟨c, rfl, front⟩ := G.scan_item x _ _ _ found
      refine ⟨⟨cs ++ [c], parsed.take front⟩, fun h => ?_, fun y e h => ?_⟩
      · cases looking.symm.trans h
      · cases looking.symm.trans h
  · exact sound

theorem Sound.leave (sound : r.Sound G) : r.leave.Sound G := by
  obtain ⟨⟨cs, parsed⟩, -, -⟩ := id sound
  unfold Receiver.leave
  split
  · exact ⟨⟨cs, parsed.items, parsed.stream⟩, fun h => (by cases h), fun _ _ h => by cases h⟩
  · exact sound

theorem Sound.step (sound : r.Sound G) (turn : Turn α φ) : (r.step G.scan turn).Sound G := by
  cases turn with
  | read chunk => exact sound.read chunk
  | look x => exact sound.look x
  | leave => exact sound.leave

theorem sound_run (turns : List (Turn α φ)) : (Transition.run (step G.scan) start turns).Sound G :=
  (Transition.invariant sound_start (fun _ turn sound => sound.step turn) turns).last

/-- A receiver that has read on and waits for more has taken at least as much. -/
theorem items_prefix (sound : r.Sound G) (sound' : r'.Sound G)
    (further : r.received <+: r'.received) (waiting : r'.stance = .reading) :
    r.items <+: r'.items := by
  obtain ⟨cs, parsed⟩ := sound.parsed
  obtain ⟨cs', parsed'⟩ := sound'.parsed
  rw [parsed.stream, parsed'.stream] at further
  rw [parsed.items, parsed'.items]
  exact (Grammar.prefix_of_stuck further (sound'.stuck waiting)).map _

/-- Of a stream of encoded items, a receiver takes the first ones. -/
theorem Parsed.prefix_sent (parsed : r.Parsed G cs) {sent : List γ}
    (within : r.received <+: G.encodeAll sent) : cs <+: sent := by
  rw [parsed.stream, ← List.append_nil (G.encodeAll sent)] at within
  exact Grammar.prefix_of_stuck within Grammar.stuck_nil

end Receiver
