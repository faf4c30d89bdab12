import DataBroker.Lib.Notify
import DataBroker.Server.Request

/-!
# Stopping

`shutdown` notifies `stop_accepting`, which ends the accept loop of `Server::run`, and `stop_word`,
which ends the `read_buffer` of every connection. Both loops ask for the notification anew in each
round of their `select!`; in between `read_buffer` takes the frames off its buffer, and may wait for
a lock or for the socket at each of them.
-/

namespace DataBroker

/-- The variables of `read_buffer`. As a record, `late` is the number of bytes of the buffer that
were read after the notification, and `servedLate` has the requests with such bytes. -/
structure Reader where
  buffer : Bytes
  late : ℕ
  servedLate : List Dispatch
deriving DecidableEq

namespace Reader

/-- `read_buf` brings bytes, none at the end of the stream, or an error. -/
def take (called : Bool) (r : Reader) : Option Bytes → Next × Reader
  | none => (.stop, r)
  | some [] => (.stop, r)
  | some bytes =>
    (.work, { r with
      buffer := r.buffer ++ bytes
      late := if called then r.late + bytes.length else r.late })

/-- One round of the loop over the buffer, with what `get_free_mem_size` is then. -/
def work (r : Reader) (freeMemSize : ℕ) : Next × Reader :=
  match readFrame freeMemSize r.buffer with
  | .wait => (.select, r)
  | .reject _ => (.stop, r)
  | .item request rest =>
    (.work,
      { buffer := rest
        late := min r.late rest.length
        servedLate := if rest.length < r.late then r.servedLate ++ [request] else r.servedLate })

/-- `read_buffer`, which begins with an empty buffer. -/
def code : LoopCode Reader (Option Bytes) ℕ := ⟨⟨[], 0, []⟩, take, work⟩

/-- Nothing that was read after the notification is in the buffer or has been served. -/
def Early (r : Reader) : Prop := r.late = 0 ∧ r.servedLate = []

theorem Early.take {r : Reader} (early : r.Early) (x : Option Bytes) :
    (r.take false x).2.Early := by
  unfold Reader.take
  split <;> exact early

theorem Early.work {r : Reader} (early : r.Early) (freeMemSize : ℕ) :
    (r.work freeMemSize).2.Early := by
  unfold Reader.work
  split
  · exact early
  · exact early
  next request rest found =>
    have none : ¬ rest.length < r.late := by rw [early.1]; exact Nat.not_lt_zero _
    exact ⟨by rw [early.1]; exact Nat.zero_min _, (if_neg none).trans early.2⟩

end Reader

/-- How many connections the accept loop of `Server::run` has accepted, and how many of them after
the notification. -/
structure Acceptor where
  accepted : ℕ
  acceptedLate : ℕ
deriving DecidableEq

namespace Acceptor

/-- `listener.accept` brings a connection or an error. -/
def take (called : Bool) (a : Acceptor) : Bool → Next × Acceptor
  | true => (.work, ⟨a.accepted + 1, if called then a.acceptedLate + 1 else a.acceptedLate⟩)
  | false => (.work, a)

/-- The accept loop of `Server::run`. It is at work before its first `select!`, when the queues are
created, and when it spawns the task of a connection. -/
def code : LoopCode Acceptor Bool Unit := ⟨⟨0, 0⟩, take, fun a _ => (.select, a)⟩

theorem acceptedLate_take {a : Acceptor} (early : a.acceptedLate = 0) (x : Bool) :
    (a.take false x).2.acceptedLate = 0 := by
  cases x <;> exact early

end Acceptor

namespace Shutdown

/-- No request is served whose bytes were read after the notification. -/
def ServesNone (s : Loops Reader) : Prop := ∀ l ∈ s.loops, l.data.servedLate = []

/-- No connection is accepted after the notification. -/
def AcceptsNone (s : Loops Acceptor) : Prop := ∀ l ∈ s.loops, l.data.acceptedLate = 0

/-- Where both notifications are called when the loops stand in their `select!`, no loop starts
behind them and no woken `select!` takes its other arm, nothing is read, served or accepted behind
them. -/
theorem neverMissed_of_timely (reads : List (Loops.Turn (Option Bytes) ℕ))
    (accepts : List (Loops.Turn Bool Unit))
    (readsTimely : Transition.EveryStep (Loops.step Reader.code) Loops.Timely Loops.init reads)
    (acceptsTimely : Transition.EveryStep (Loops.step Acceptor.code) Loops.Timely Loops.init accepts) :
    Transition.EveryState (Loops.step Reader.code) ServesNone Loops.init reads ∧
      Transition.EveryState (Loops.step Acceptor.code) AcceptsNone Loops.init accepts := by
  constructor
  · have early := Loops.everyState_of_timely (Q := Reader.Early) ⟨rfl, rfl⟩
      (fun _ x early => early.take x) (fun _ size early => early.work size) readsTimely
    exact early.mono fun s h l inside => (h l inside).2
  · exact Loops.everyState_of_timely (Q := fun a : Acceptor => a.acceptedLate = 0) rfl
      (fun _ x early => Acceptor.acceptedLate_take early x) (fun _ _ => id) acceptsTimely

/-- A connection is served and stopped in its `select!`; the accept loop stops as well. -/
theorem neverMissed_one_request :
    Transition.EveryState (Loops.step Reader.code) ServesNone Loops.init
        [.start, .work 0 usizeMax, .input 0 (some sampleRequest.encode), .work 0 usizeMax,
          .work 0 usizeMax, .notify, .stop 0] ∧
      Transition.EveryState (Loops.step Acceptor.code) AcceptsNone Loops.init
        [.start, .work 0 (), .input 0 true, .work 0 (), .notify, .stop 0] :=
  neverMissed_of_timely _ _ (by decide +kernel) (by decide)

/-- A call that comes while `read_buffer` handles a frame is missed: the next frame is read and
served. -/
theorem notify_while_handling :
    ¬ ∀ (reads : List (Loops.Turn (Option Bytes) ℕ)) (accepts : List (Loops.Turn Bool Unit)),
      Transition.EveryState (Loops.step Reader.code) ServesNone Loops.init reads ∧
        Transition.EveryState (Loops.step Acceptor.code) AcceptsNone Loops.init accepts := by
  intro stops
  have last := (stops [.start, .work 0 usizeMax, .input 0 (some sampleRequest.encode), .notify,
    .work 0 usizeMax, .work 0 usizeMax, .input 0 (some sampleRequest.encode), .work 0 usizeMax]
    []).1.last
  revert last
  unfold ServesNone
  decide +kernel

end Shutdown

end DataBroker
