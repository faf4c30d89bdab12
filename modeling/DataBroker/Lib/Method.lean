import Mathlib.Logic.Function.Basic

/-!
# Methods over a mutable receiver

A call on a mutable receiver `σ` returns a value, returns an error `ε`, or panics. In all three
cases the writes made so far stay: an early return and an unwinding panic do not roll the receiver
back.
-/

/-- How a call ends. -/
inductive Outcome (ε α : Type) where
  | ok (value : α)
  | err (error : ε)
  | panic
deriving DecidableEq, Repr

/-- A call on a receiver of type `σ`: the outcome, and the receiver it leaves behind. -/
def Method (σ ε α : Type) : Type := σ → Outcome ε α × σ

namespace Outcome

variable {ε α : Type}

/-- The call came back to its caller, with a value or with an error. -/
def Returns : Outcome ε α → Prop
  | panic => False
  | _ => True

instance (o : Outcome ε α) : Decidable o.Returns :=
  match o with
  | ok _ => .isTrue trivial
  | err _ => .isTrue trivial
  | panic => .isFalse id

end Outcome

namespace Method

variable {σ ε α β : Type}

/-- The outcome of the call on `s` and the receiver afterwards. -/
def run (x : Method σ ε α) (s : σ) : Outcome ε α × σ := x s

instance : Monad (Method σ ε) where
  pure a := fun s => (.ok a, s)
  bind x f := fun s =>
    match x s with
    | (.ok a, t) => f a t
    | (.err e, t) => (.err e, t)
    | (.panic, t) => (.panic, t)

instance : MonadStateOf σ (Method σ ε) where
  get := fun s => (.ok s, s)
  set t := fun _ => (.ok (), t)
  modifyGet f := fun s => (.ok (f s).1, (f s).2)

/-- Return early with an error. -/
def fail (e : ε) : Method σ ε α := fun s => (.err e, s)

/-- `Option::unwrap` and map indexing: a missing value panics. -/
def unwrap : Option α → Method σ ε α
  | some a => fun s => (.ok a, s)
  | none => fun s => (.panic, s)

@[simp] theorem run_pure (a : α) (s : σ) : (pure a : Method σ ε α).run s = (.ok a, s) := rfl

@[simp] theorem run_get (s : σ) : (get : Method σ ε σ).run s = (.ok s, s) := rfl

@[simp] theorem run_set (t s : σ) : (set t : Method σ ε PUnit).run s = (.ok (), t) := rfl

@[simp] theorem run_modify (f : σ → σ) (s : σ) :
    (modify f : Method σ ε PUnit).run s = (.ok (), f s) := rfl

@[simp] theorem run_fail (e : ε) (s : σ) : (fail e : Method σ ε α).run s = (.err e, s) := rfl

@[simp] theorem run_unwrap_some (a : α) (s : σ) :
    (unwrap (some a) : Method σ ε α).run s = (.ok a, s) := rfl

@[simp] theorem run_unwrap_none (s : σ) :
    (unwrap none : Method σ ε α).run s = (.panic, s) := rfl

theorem run_bind (x : Method σ ε α) (f : α → Method σ ε β) (s : σ) :
    (x >>= f).run s =
      match x.run s with
      | (.ok a, t) => (f a).run t
      | (.err e, t) => (.err e, t)
      | (.panic, t) => (.panic, t) := rfl

theorem run_bind_ok {x : Method σ ε α} {f : α → Method σ ε β} {s t : σ} {a : α}
    (h : x.run s = (.ok a, t)) : (x >>= f).run s = (f a).run t := by
  rw [run_bind, h]

theorem run_bind_err {x : Method σ ε α} {f : α → Method σ ε β} {s : σ} {e : ε}
    (h : (x.run s).1 = .err e) : ((x >>= f).run s).1 = .err e := by
  rw [run_bind]
  generalize x.run s = r at h ⊢
  obtain ⟨outcome, t⟩ := r
  obtain rfl : outcome = .err e := h
  rfl

theorem run_bind_panic {x : Method σ ε α} {f : α → Method σ ε β} {s : σ}
    (h : (x.run s).1 = .panic) : ((x >>= f).run s).1 = .panic := by
  rw [run_bind]
  generalize x.run s = r at h ⊢
  obtain ⟨outcome, t⟩ := r
  obtain rfl : outcome = .panic := h
  rfl

/-- Dropping the value keeps the receiver. -/
@[simp] theorem run_discard_snd (x : Method σ ε α) (s : σ) :
    ((x >>= fun _ => pure PUnit.unit).run s).2 = (x.run s).2 := by
  rw [run_bind]
  rcases x.run s with ⟨_ | _ | _, t⟩ <;> rfl

@[simp] theorem run_ite (c : Prop) [Decidable c] (x y : Method σ ε α) (s : σ) :
    (if c then x else y).run s = if c then x.run s else y.run s := by
  split <;> rfl

/-- A loop whose last round comes after the rounds before it. -/
theorem run_forM_concat {f : α → Method σ ε PUnit} {as : List α} {a : α} {s t u : σ}
    (before : (as.forM f).run s = (.ok ⟨⟩, t)) (last : (f a).run t = (.ok ⟨⟩, u)) :
    ((as ++ [a]).forM f).run s = (.ok ⟨⟩, u) := by
  induction as generalizing s with
  | nil =>
    obtain rfl : s = t := congrArg Prod.snd before
    exact (run_bind_ok last).trans (run_pure _ _)
  | cons b as ih =>
    rw [List.forM, run_bind] at before
    rw [List.cons_append, List.forM, run_bind]
    rcases round : (f b).run s with ⟨_ | _ | _, v⟩ <;> rw [round] at before
    · exact ih before
    · cases before
    · cases before

/-! ## Parts of the receiver that a method does not know -/

/-- The method does the same on a receiver that `u` has changed, and leaves the change alone. -/
def Blind (u : σ → σ) (x : Method σ ε α) : Prop :=
  ∀ s, x.run (u s) = ((x.run s).1, u (x.run s).2)

namespace Blind

variable {u : σ → σ} {x y : Method σ ε α} {f : α → Method σ ε β}

theorem pure (a : α) : Blind u (Pure.pure a : Method σ ε α) := fun _ => rfl

theorem fail (e : ε) : Blind u (Method.fail e : Method σ ε α) := fun _ => rfl

theorem unwrap (o : Option α) : Blind u (Method.unwrap o : Method σ ε α) := by
  cases o <;> exact fun _ => rfl

theorem modify {g : σ → σ} (keeps : ∀ s, g (u s) = u (g s)) :
    Blind u (modify g : Method σ ε PUnit) := by
  intro s
  rw [run_modify, keeps]
  rfl

theorem bind (hx : Blind u x) (hf : ∀ a, Blind u (f a)) : Blind u (x >>= f) := by
  intro s
  rw [run_bind, run_bind, hx s]
  rcases x.run s with ⟨_ | _ | _, t⟩
  · exact hf _ t
  · rfl
  · rfl

/-- Looking at the receiver, apart from what `u` changes. -/
theorem get {g : σ → Method σ ε β} (looks : ∀ s, g (u s) = g s) (hg : ∀ s, Blind u (g s)) :
    Blind u (get >>= g) := by
  intro s
  show (g (u s)).run (u s) = _
  rw [looks]
  exact hg s s

theorem ite {c : Prop} [Decidable c] (hx : Blind u x) (hy : Blind u y) :
    Blind u (if c then x else y) := by
  split
  · exact hx
  · exact hy

theorem forM {γ : Type} {g : γ → Method σ ε PUnit} {l : List γ} (hg : ∀ a ∈ l, Blind u (g a)) :
    Blind u (l.forM g) := by
  induction l with
  | nil => exact pure _
  | cons a l ih =>
    exact (hg a List.mem_cons_self).bind fun _ => ih fun b hb => hg b (List.mem_cons_of_mem _ hb)

end Blind

end Method
