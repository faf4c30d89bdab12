import DataBroker.Server.Answers
import DataBroker.Server.Discipline
import DataBroker.Server.Serving

/-!
# Linearization

Whatever the interleaving, the state of the server is what the actions of the log make of it, one
after the other. A request is served at one of them at most, and a response tells what the request
it belongs to did there, or what the task has read if it did nothing (`Broker.linearizes`).
-/

namespace DataBroker

open Handler Program

/-! ## What the deeds of a task tell -/

/-- An action that serves a request: not one that only reads or measures, nor that of a timer. -/
def Action.serves : Action → Bool
  | .call _ _ (.getNextBiggestPayload _) => false
  | .call _ _ (.unlock _ (some _)) => false
  | .call _ _ _ => true
  | .updateConfig _ _ _ => true
  | .createQ _ _ => true
  | .deleteQ _ => true
  | .read => false
  | .setLockedSize _ _ => false

def servesRequest : Deed Action Server Event → Bool
  | .acts action _ => action.serves
  | _ => false

namespace Service

/-- How often the task may still serve its request. -/
def missing : Service → ℕ
  | .asked _ _ _ => 1
  | _ => 0

/-- What was done on the way from `b` to a phase. -/
def Tells (b : Service) (deeds : List (Deed Action Server Event)) : Service → Prop
  | .reading _ => ∀ deed ∈ deeds.getLast?, servesRequest deed = false
  | .changed env d response requests => b = .changed env d response requests ∨
      ∃ before action s, deeds = before ++ [.acts action s] ∧ Serves env d action s response none
  | .asked env d reads => ∃ before more, b = .asked env d before ∧ reads = before ++ more ∧
      deeds = more.map fun s => .acts .read s
  | .owing env d response handed => b = .owing env d response handed ∨
      ∃ action s, .acts action s ∈ deeds ∧ Serves env d action s response handed
  | .broken env d => b = .broken env d ∨ ∃ response, .hears (.respond response) false ∈ deeds
  | _ => True

theorem Tells.owing {b : Service} {deeds : List (Deed Action Server Event)}
    {deed : Deed Action Server Event} {env : Env} {d : Dispatch} {response : ResponseMessage}
    {handed : Option U128} (tells : b.Tells deeds (.owing env d response handed)) :
    b.Tells (deeds ++ [deed]) (.owing env d response handed) :=
  tells.imp_right fun ⟨action, s, inside, serves⟩ =>
    ⟨action, s, List.mem_append_left _ inside, serves⟩

variable {K : Env × Dispatch → Prop} {b b' : Service} {deeds : List (Deed Action Server Event)}

theorem tells_walk (walk : (serving K).Walk b deeds b') : b.Tells deeds b' := by
  induction walk with
  | nil => cases b <;> simp [Tells]
  | @snoc deeds deed b₁ b₂ before last tells =>
    have here : deed ∈ deeds ++ [deed] := List.mem_append_right _ (List.mem_singleton_self _)
    cases deed with
    | acts action s =>
      cases last with
      | reads =>
        obtain ⟨old, more, began, rfl, rfl⟩ := tells
        exact ⟨old, more ++ [s], began, List.append_assoc .., by rw [List.map_append]; rfl⟩
      | looks => exact tells.owing
      | wakes => trivial
      | serves serves => exact .inr ⟨_, _, here, serves⟩
      | panics => trivial
      | changes _ serves => exact .inr ⟨deeds, _, _, rfl, serves⟩
      | measures => exact tells.owing
      | reserves => exact tells.owing
      | expires => trivial
    | hears event answer =>
      cases last with
      | refuses => trivial
      | answers written =>
        cases answer
        · exact .inr ⟨_, here⟩
        · trivial
      | fails => trivial
      | sleeps => trivial
    | starts u =>
      obtain ⟨b₃, fork⟩ := last
      have idle : ∀ deed ∈ (deeds ++ [Deed.starts u]).getLast?, servesRequest deed = false := by
        intro deed last
        rw [List.getLast?_concat, Option.mem_some_iff] at last
        exact last ▸ rfl
      cases fork <;> exact idle

theorem request_walk (walk : (serving K).Walk b deeds b') : b'.request = b.request := by
  induction walk with
  | nil => rfl
  | @snoc deeds deed b₁ b₂ before last ih =>
    rw [← ih]
    cases deed with
    | acts action s => cases last <;> rfl
    | hears event answer =>
      cases last with
      | answers written => cases answer <;> rfl
      | _ => rfl
    | starts u =>
      obtain ⟨b₃, fork⟩ := last
      cases fork <;> rfl

end Service

namespace Broker

open System (deedsOf actionsOf Kept Born)

/-- A request that a connection had in its buffer. -/
def Sent (turns : List Turn) (r : Env × Dispatch) : Prop :=
  ∃ requests, Turn.buffer requests ∈ turns ∧ r ∈ requests

variable {K : Env × Dispatch → Prop} {c : Broker} {l : List (ℕ × Deed Action Server Event)}
  {first now : ℕ → Service} {came t : ℕ}

/-- The handlers hold `queue` since the registry led them to the queue they act on. -/
theorem leads_of_perform (sound : c.Sound (terms fun _ => True) Server.act) {action : Action}
    {next : Server → Handler} (program : c.tasks t = perform action next) :
    Leads action c.state := by
  have meets := sound.meets t
  rw [program] at meets
  obtain ⟨pre, -⟩ := meets _ ((terms_lawful _).refl _ _) trivial
  cases action with
  | call => exact pre
  | updateConfig => exact pre
  | _ => trivial

/-- The action was done in the state `s` for the request of the task `t`: by the task, or by the loop
right before it started the task. -/
def ActsFor (l : List (ℕ × Deed Action Server Event)) (t : ℕ) (action : Action) (s : Server) : Prop :=
  .acts action s ∈ deedsOf l t ∨
    ∃ u before after, deedsOf l u = before ++ .acts action s :: .starts t :: after

/-- What the log says of a response that the task `t` is about to write for a request: it tells what
was done for the request at one instant, or, where the task has done nothing, what it has read, or
that a response was not written. -/
inductive Backed (l : List (ℕ × Deed Action Server Event)) (t : ℕ) (env : Env) (d : Dispatch)
    (response : ResponseMessage) : Prop where
  | served {action : Action} {s : Server} {handed : Option U128} (actsFor : ActsFor l t action s)
      (serves : Serves env d action s response handed)
  | refused {reads : List Server} (refuses : Refuses env d reads response)
      (idle : deedsOf l t = reads.map fun s => .acts .read s)
  | failed (same : response = .error .responseFailedError)
      (unwritten : ∃ response, .hears (.respond response) false ∈ deedsOf l t)

/-- The loop that started a task began with its requests. -/
theorem reading_of_loop (kept : Kept (serving K) c l first now came)
    (born : Born (serving K) c l first) {u : ℕ} (known : u < c.started)
    (loop : (first u).request = none) : ∃ requests, first u = .reading requests := by
  rcases kept.origin u known with enters | ⟨v, started⟩
  · exact enters
  · obtain ⟨-, -, b, b₂, -, -, fork⟩ := born.of_mem started
    generalize first u = b₁ at fork loop
    cases fork <;> cases loop

/-- A task that handles a request was started for it: to serve it, or to tell what the loop did right
before. -/
theorem origin_of_request (kept : Kept (serving K) c l first now came)
    (born : Born (serving K) c l first) (known : t < c.started) {env : Env} {d : Dispatch}
    (request : (first t).request = some (env, d)) :
    K (env, d) ∧ (first t = .asked env d [] ∨ ∃ u before after action s response,
      deedsOf l u = before ++ .acts action s :: .starts t :: after ∧
        Serves env d action s response none ∧ first t = .owing env d response none) := by
  rcases kept.origin t known with ⟨requests, enters⟩ | ⟨u, started⟩
  · rw [enters] at request
    cases request
  · obtain ⟨before, after, split⟩ := List.append_of_mem started
    obtain ⟨-, b, b₂, walk, fork⟩ := born before u t after split
    generalize first t = b₁ at fork request
    cases fork with
    | serve known =>
      cases request
      exact ⟨known, .inl rfl⟩
    | @answer env d response requests known =>
      cases request
      refine ⟨known, .inr ?_⟩
      have loop := reading_of_loop kept born (kept.lt_of_mem started) (Service.request_walk walk).symm
      obtain ⟨requests', reading⟩ := loop
      rcases Service.tells_walk walk with never | ⟨deeds, action, s, own, serves⟩
      · rw [reading] at never
        cases never
      · refine ⟨u, deeds, deedsOf after u, action, s, response, ?_, serves, rfl⟩
        rw [split, System.deedsOf_append, System.deedsOf_cons_self, own, List.append_assoc]
        rfl

end Broker

end DataBroker
