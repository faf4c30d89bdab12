import DataBroker.Queue.Retention
import DataBroker.Queue.Unconfigured
import DataBroker.Server.Orphans
import DataBroker.Server.Provenance

/-!
# The queues of the server

The server is a map of names to queues, and does nothing to a queue but call its methods for the
requests that came in, and configure it. A queue in the server is therefore a queue on its own
after these calls, whatever the tasks do to other queues in between.
-/

namespace DataBroker

open Handler Program

/-- Apart from its configuration, the queue is what the calls have made of a new one, and they are
calls for the requests that `K` knows. -/
structure Queue.RunOf (K : Env × Dispatch → Prop) (ops : List Queue.Op) (x : Queue) : Prop where
  called : ∀ op ∈ ops, CalledFor K op
  same : x.configure Queue.new.config = Transition.run Queue.step Queue.new ops

namespace Queue.RunOf

variable {K : Env × Dispatch → Prop} {ops : List Queue.Op} {x : Queue}

theorem new : Queue.new.RunOf K [] := ⟨by simp, rfl⟩

theorem call (runOf : x.RunOf K ops) {op : Queue.Op} (calledFor : CalledFor K op) :
    (x.step op).RunOf K (ops ++ [op]) := by
  constructor
  · exact List.forall_mem_append.2 ⟨runOf.called, List.forall_mem_singleton.2 calledFor⟩
  · rw [Transition.run_append, ← runOf.same, ← step_configure]
    rfl

theorem configures (runOf : x.RunOf K ops) (config : NetQueueConfig) :
    ((Queue.updateConfig config).run x).2.RunOf K ops := ⟨runOf.called, runOf.same⟩

end Queue.RunOf

namespace Broker

theorem queues_runOf (r : Registry) (lockedSize : ℕ) (turns : List Turn) (q : ℕ) :
    let start : Broker := System.init ⟨r, fun _ => Queue.new, lockedSize⟩
    ((Transition.run step start turns).state.queues q).RunOf (Sent turns)
      (callsOn q (log start turns)) :=
  queues_invariant (P := Queue.RunOf (Sent turns)) (fun _ => .new) .new
    (fun _ _ _ called runOf => runOf.call called) (fun _ config _ runOf => runOf.configures config) q

/-- At any time of any run of the server, every queue is, apart from its configuration, what the
calls on it that the log has, one after the other, make of a new queue; each of these calls is for a
request that came in. -/
theorem queues_run (r : Registry) (lockedSize : ℕ) (turns : List Turn) (q : ℕ) :
    let start : Broker := System.init ⟨r, fun _ => Queue.new, lockedSize⟩
    ((Transition.run step start turns).state.queues q).configure Queue.new.config =
        Transition.run Queue.step Queue.new (callsOn q (log start turns)) ∧
      ∀ op ∈ callsOn q (log start turns), CalledFor (Sent turns) op :=
  have runOf := queues_runOf r lockedSize turns q
  ⟨runOf.same, runOf.called⟩

end Broker

end DataBroker
