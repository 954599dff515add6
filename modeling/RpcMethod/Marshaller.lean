import RpcMethod.Archive.Reader
import RpcMethod.Error
import RpcMethod.Event
import RpcMethod.Message

/-!
# Marshallers

A marshaller turns the messages of one type into bytes and back. Reading what was written gives
the message again; every other input is either another message or an error. Some marshallers can
also tell their message type, or show a sample message. Those with a size limit refuse anything that
is larger, and log the refusal with the same two numbers that the error carries.
-/

namespace RpcMethod

/-- A message may have up to `max` bytes; sixteen mebibytes if nothing else is said. -/
structure SizeLimit where
  max : Nat := 16777216
deriving DecidableEq, Repr

namespace SizeLimit

/-- Goes on with `next` if a message of this size is let through. -/
@[inline] def guard {α : Type} (limit : SizeLimit) (size : Nat)
    (next : Unit → Except CodecError α) : Traced (Except CodecError α) :=
  if size ≤ limit.max then pure (next ())
  else do
    Traced.emit (.messageTooLarge size limit.max)
    return .error (.messageTooLarge size limit.max)

def outline (limit : SizeLimit) : Outline :=
  .record "MarshallerConfig" [("max_message_size", .number limit.max)] false

theorem guard_of_le {α : Type} {limit : SizeLimit} {size : Nat} (h : size ≤ limit.max)
    (next : Unit → Except CodecError α) : limit.guard size next = pure (next ()) := if_pos h

theorem guard_of_lt {α : Type} {limit : SizeLimit} {size : Nat} (h : limit.max < size)
    (next : Unit → Except CodecError α) :
    limit.guard size next =
      ⟨[.messageTooLarge size limit.max], .error (.messageTooLarge size limit.max)⟩ :=
  if_neg (Nat.not_le.mpr h)

end SizeLimit

/-- The marshallers of a message type. -/
inductive Marshaller : MessageType → Type where
  /-- Messages as archives, within a size limit and perhaps with a sample. -/
  | archived {t : MessageType} (limit : SizeLimit) (sample? : Option t.Value) : Marshaller t
  /-- Bytes as they are, within a size limit. -/
  | verbatim (limit : SizeLimit) : Marshaller .bytes
  /-- The message that has no bytes. -/
  | void : Marshaller .unit
  /-- Texts in UTF-8; some of these marshallers tell their message type. -/
  | utf8 (reflectable : Bool) : Marshaller .text
  /-- Words of four bytes, the lowest first, with a sample. -/
  | word32 (sample : UInt32) : Marshaller .word32
  /-- Refuses every message and every input for a stated reason. -/
  | refusing {t : MessageType} (reason : String) : Marshaller t
deriving DecidableEq

/-- What a marshaller shows when it is asked for a sample of its messages. -/
inductive Sample (α : Type) where
  /-- The marshaller has no samples. -/
  | unsupported
  /-- The marshaller's message has no content. -/
  | void
  | message (value : α)
deriving DecidableEq, Repr

namespace Marshaller

/-- Why an archive was refused; what exactly is wrong with it is not told. -/
def malformedArchive : CodecError := .deserialization "malformed archive"

/-- A message as bytes. -/
def stream : {t : MessageType} → Marshaller t → t.Value → Traced (Except CodecError Bytes)
  | t, archived limit _, v =>
    match Archive.encode? t.fields (t.pack v) with
    | none => pure (.error (.serialization "archive too large"))
    | some bytes => limit.guard bytes.length fun _ => .ok bytes
  | _, verbatim limit, v => limit.guard v.length fun _ => .ok v
  | _, void, _ => pure (.ok [])
  | _, utf8 _, v => pure (.ok (Bytes.ofText v))
  | _, word32 _, v => pure (.ok (Bytes.ofNat 4 v.toNat))
  | _, refusing reason, _ => pure (.error (.serialization ("refused: " ++ reason)))

/-- The message of some bytes. -/
def parse : {t : MessageType} → Marshaller t → Bytes → Traced (Except CodecError t.Value)
  | t, archived limit _, bytes =>
    limit.guard bytes.length fun _ =>
      match Archive.decode? t.fields bytes with
      | none => .error malformedArchive
      | some record => .ok (t.unpack record)
  | _, verbatim limit, bytes => limit.guard bytes.length fun _ => .ok bytes
  | _, void, bytes =>
    pure (if bytes.isEmpty then .ok () else
      .error (.deserialization
        ("expected empty message, got " ++ Nat.repr bytes.length ++ " bytes")))
  | _, utf8 _, bytes =>
    pure (match Bytes.text? bytes with
      | none => .error (.deserialization "invalid utf-8")
      | some text => .ok text)
  | _, word32 _, bytes =>
    pure (if bytes.length = 4 then .ok (UInt32.ofNat (Bytes.toNat bytes)) else
      .error (.deserialization ("expected 4 bytes, got " ++ Nat.repr bytes.length)))
  | _, refusing reason, _ => pure (.error (.deserialization ("refused: " ++ reason)))

/-- The message type, if the marshaller tells it. -/
def reflect? : {t : MessageType} → Marshaller t → Option MessageType
  | t, archived _ _ => some t
  | _, verbatim _ => some .bytes
  | _, void => some .unit
  | _, utf8 reflectable => if reflectable then some .text else none
  | _, word32 _ => some .word32
  | _, refusing _ => none

def sample : {t : MessageType} → Marshaller t → Sample t.Value
  | _, archived _ none => .unsupported
  | _, archived _ (some v) => .message v
  | _, verbatim _ => .message []
  | _, void => .void
  | _, utf8 _ => .unsupported
  | _, word32 v => .message v
  | _, refusing _ => .unsupported

/-- The size limit of a marshaller of archives. -/
def archiveLimit? : {t : MessageType} → Marshaller t → Option SizeLimit
  | _, archived limit _ => some limit
  | _, _ => none

/-- What a marshaller shows of itself, if anything; message types go by the given names. -/
def outline? (typeName : MessageType → String) : {t : MessageType} → Marshaller t → Option Outline
  | t, archived limit sample? => some <| .record "RkyvMarshaller"
      [("type", .quoted (typeName t)), ("config", limit.outline),
        ("prototype", .flag sample?.isSome)] false
  | _, verbatim limit => some <| .record "RawBytesMarshaller"
      [("config", limit.outline), ("empty", .list [])] false
  | _, void => some (.word "VoidMarshaller")
  | _, _ => none

end Marshaller

end RpcMethod
