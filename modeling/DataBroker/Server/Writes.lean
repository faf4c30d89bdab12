import DataBroker.Lib.Wire
import DataBroker.Server.Client

/-!
# The responses on the wire

The tasks of a connection share the write half of its socket, in a mutex. `send_response` and
`lock_and_dequeue_message` take it for one `write_all`, in which the socket takes the bytes of the
response in as many pieces as it likes, or fails. `responses_whole` says that the client reads whole
responses all the same, those of the tasks whose `write_all` succeeded.
-/

namespace DataBroker

/-- What `ResponseMessage::new` is given. -/
structure Reply where
  status : Response
  payload : Bytes
  fits : payload.length < 2 ^ 64

namespace Reply

/-- What is written to the socket. -/
def encode (r : Reply) : Bytes := (ResponseMessage.new r.status r.payload).toU8

/-- What the client makes of it. -/
def seen (r : Reply) : ClientResponse := ⟨r.status.asU8, r.payload⟩

theorem scan_encode (r : Reply) (more : Bytes) :
    responseFraming.scan (r.encode ++ more) = .item r.seen more :=
  readResponse_toU8 r.status r.fits more

end Reply

/-- The write half of a connection and the tasks that respond over it. -/
def responding (turns : List (Wire.Turn Reply)) : Wire UInt8 Reply :=
  Transition.run (Wire.step Reply.encode) .start turns

theorem responding_whole (turns : List (Wire.Turn Reply)) :
    (responding turns).Whole Reply.encode := Wire.whole_run (fun _ => List.cons_ne_nil _ _) turns

/-- What has been written of a response that is not complete is no response. -/
theorem scan_cut {s : Wire UInt8 Reply} (whole : s.Whole Reply.encode) :
    responseFraming.scan s.cut = .wait := by
  rcases whole.proper with none | ⟨r, -, rest, missing, part⟩
  · rw [none]
    exact responseFraming.scan_nil
  · have found := r.scan_encode []
    rw [List.append_nil, ← part] at found
    exact Framing.scan_incomplete found missing

/-- However the tasks of a connection take turns, whatever pieces the socket takes and whether it
fails or not: a task's response counts as sent exactly once and exactly where its `write_all`
succeeded, and a client that has read any part of what was written, in any pieces, has found the
first of the responses sent, in the order in which they were; where it has read everything, it has
found all of them. -/
theorem responses_whole (turns : List (Wire.Turn Reply)) :
    (∀ i r, (i, r) ∈ (responding turns).sent ↔
      (responding turns).writers[i]? = some (r, .written)) ∧
    ((responding turns).sent.map Prod.fst).Nodup ∧
    ∀ reads : List Bytes, reads.flatten <+: (responding turns).stream →
      (readResponses reads).items <+: (responding turns).sent.map (fun entry => entry.2.seen) ∧
      (reads.flatten = (responding turns).stream →
        (readResponses reads).items = (responding turns).sent.map fun entry => entry.2.seen) := by
  have whole := responding_whole turns
  have all : ∀ reads : List Bytes, reads.flatten = (responding turns).stream →
      (readResponses reads).items = (responding turns).sent.map fun entry => entry.2.seen := by
    intro reads same
    have found : ∀ r ∈ (responding turns).sent.map Prod.snd, ∀ more,
        responseFraming.scan (r.encode ++ more) = .item r.seen more :=
      fun r _ more => r.scan_encode more
    have stream := same.trans whole.stream
    rw [readResponses, (Framing.receiveAll_partial found (scan_cut whole) stream).1, List.map_map]
    rfl
  refine ⟨whole.sent, whole.once, fun reads part => ⟨?_, all reads⟩⟩
  rw [← all [(responding turns).stream] (by simp)]
  exact Framing.receiveAll_prefix (by simpa using part)

/-- The response to a request that succeeded, without a payload. -/
def emptyReply : Reply := ⟨.succeeded, [], by decide⟩

/-- The socket takes four bytes of the first response, and the second task has to wait. -/
def twoReplies : List (Wire.Turn Reply) :=
  [.come emptyReply, .come emptyReply, .lock 0, .write 0 4, .lock 1, .write 1 9, .write 0 9,
    .unlock 0, .lock 1, .write 1 8]

theorem responses_whole_two :
    (readResponses [(responding twoReplies).stream]).items = [⟨1, []⟩] := by
  have sent : (responding twoReplies).sent.map (fun entry => entry.2.seen) = [⟨1, []⟩] := by
    decide +kernel
  rw [← sent]
  exact ((responses_whole twoReplies).2.2 _ (by simp)).2 (by simp)

end DataBroker
