import DataBroker.Queue.Basic

/-!
# Responses

A response frame is a status byte, the length of the payload and the payload. A failed request is
answered with its error code.
-/

namespace DataBroker

inductive ErrorCode where
  | unknownRequestType
  | requestParseError
  | responseFailedError
  | payloadTooLarge
  | queueHashNotFound
  | queueNotFound
  | queueAlreadyExists
  | queueDoesNotExist
  | queueIsEmpty
  | queueStatsFailed
  | payloadMissingMessageId
  | noSuchMessageId
  | messageAlreadyLocked
  | noSuchMessageIdLocked
  | messageNotLockedByClient
  | messageNotInQueue
  | invalidConfigPayloadSize
  | configBytesEmpty
  | configInvalidAutoFail
  | configInvalidFailTimeout
deriving DecidableEq, Repr

namespace ErrorCode

def asU16 : ErrorCode → BitVec 16
  | unknownRequestType => 0
  | requestParseError => 1
  | responseFailedError => 2
  | payloadTooLarge => 3
  | queueHashNotFound => 100
  | queueNotFound => 101
  | queueAlreadyExists => 102
  | queueDoesNotExist => 103
  | queueIsEmpty => 104
  | queueStatsFailed => 105
  | payloadMissingMessageId => 200
  | noSuchMessageId => 201
  | messageAlreadyLocked => 202
  | noSuchMessageIdLocked => 203
  | messageNotLockedByClient => 204
  | messageNotInQueue => 205
  | invalidConfigPayloadSize => 300
  | configBytesEmpty => 301
  | configInvalidAutoFail => 302
  | configInvalidFailTimeout => 303

def toPayload (code : ErrorCode) : Bytes := BigEndian.ofBitVec 2 code.asU16

def fromU16 (value : BitVec 16) : Option ErrorCode :=
  match value.toNat with
  | 0 => some unknownRequestType
  | 1 => some requestParseError
  | 2 => some responseFailedError
  | 3 => some payloadTooLarge
  | 100 => some queueHashNotFound
  | 101 => some queueNotFound
  | 102 => some queueAlreadyExists
  | 103 => some queueDoesNotExist
  | 104 => some queueIsEmpty
  | 105 => some queueStatsFailed
  | 200 => some payloadMissingMessageId
  | 201 => some noSuchMessageId
  | 202 => some messageAlreadyLocked
  | 203 => some noSuchMessageIdLocked
  | 204 => some messageNotLockedByClient
  | 205 => some messageNotInQueue
  | 300 => some invalidConfigPayloadSize
  | 301 => some configBytesEmpty
  | 302 => some configInvalidAutoFail
  | 303 => some configInvalidFailTimeout
  | _ => none

theorem fromU16_asU16 (code : ErrorCode) : fromU16 code.asU16 = some code := by
  cases code <;> rfl

end ErrorCode

inductive Response where
  | succeeded
  | failed
deriving DecidableEq, Repr

def Response.asU8 : Response → UInt8
  | succeeded => 1
  | failed => 2

structure ResponseMessage where
  status : Response
  payloadSize : U64
  payload : Bytes
deriving DecidableEq, Repr

namespace ResponseMessage

def new (status : Response) (payload : Bytes) : ResponseMessage :=
  ⟨status, BitVec.ofNat 64 payload.length, payload⟩

/-- `Response::Failed` with an error code. -/
def error (code : ErrorCode) : ResponseMessage := new .failed code.toPayload

/-- A failed request is answered with two bytes that are the number of an error. -/
def Legible (response : ResponseMessage) : Prop :=
  response.status = .failed → response.payload.length = 2 ∧
    (ErrorCode.fromU16 (BigEndian.toBitVec 2 response.payload)).isSome

instance : DecidablePred Legible := fun _ => inferInstanceAs (Decidable (_ → _))

theorem legible_succeeded (payload : Bytes) : (new .succeeded payload).Legible :=
  fun failed => by cases failed

theorem legible_error (code : ErrorCode) : (error code).Legible := by
  refine fun _ => ⟨BigEndian.length_ofBitVec 2 _, ?_⟩
  show (ErrorCode.fromU16 (BigEndian.toBitVec 2 (BigEndian.ofBitVec 2 code.asU16))).isSome
  rw [BigEndian.toBitVec_ofBitVec, ErrorCode.fromU16_asU16]
  rfl

/-- The bytes written to the socket. -/
def toU8 (response : ResponseMessage) : Bytes :=
  response.status.asU8 :: BigEndian.ofBitVec 8 response.payloadSize ++ response.payload

end ResponseMessage

end DataBroker
