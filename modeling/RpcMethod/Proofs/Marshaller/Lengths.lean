import RpcMethod.Proofs.Archive.Shortest
import RpcMethod.Proofs.Marshaller.Delivery

/-!
# The length of messages

How many bytes a message has as an archive can be told from the lengths of its texts and lists,
without writing it. A sender lets exactly those messages through for which this number is within its
limit, and the limit has no influence on their bytes (`stream_within_limit`).
-/

namespace RpcMethod

open Bytes (roundUp)

namespace Archive

/-- The bytes of a text that stand outside its head. -/
def outOfLine (text : String) : Nat := if 8 < text.utf8ByteSize then text.utf8ByteSize else 0

theorem outOfLine_of_le {text : String} (h : text.utf8ByteSize ≤ 8) : outOfLine text = 0 :=
  if_neg (Nat.not_lt.mpr h)

/-- Where the body of a field ends that is set down at `position`. -/
def Field.bodyEnd : (field : Field) → field.Value → (position : Nat) → Nat
  | .scalar _, _, position => position
  | .text, value, position => position + outOfLine value
  | .list s, items, position => roundUp position s.width + s.width * items.length

/-- Where the last body of a record ends. -/
def bodiesEnd : (fields : List Field) → Record fields → (position : Nat) → Nat
  | [], _, position => position
  | field :: rest, (v, vs), position => bodiesEnd rest vs (field.bodyEnd v position)

theorem Field.add_length_body (field : Field) (v : field.Value) (position : Nat) :
    position + (field.body v position).bytes.length = field.bodyEnd v position := by
  cases field with
  | scalar s => rfl
  | text =>
    have whole := Bytes.length_ofText v
    by_cases long : 8 < v.utf8ByteSize
    · simp [Field.body, Field.bodyEnd, outOfLine, inlineLimit, whole, long, Nat.not_le.mpr long]
    · simp [Field.body, Field.bodyEnd, outOfLine, inlineLimit, whole, long, Nat.not_lt.mp long]
  | list s =>
    have gap := Bytes.add_gap_eq_roundUp position s.width_pos
    have size := s.length_writeList v
    simp only [Field.body, Field.bodyEnd, List.length_append, Bytes.length_zeros,
      Nat.mul_comm s.width]
    omega

theorem add_length_bodies (fields : List Field) (record : Record fields) (position : Nat) :
    position + (bodies fields record position).length = bodiesEnd fields record position := by
  induction fields generalizing position with
  | nil => rfl
  | cons field others ih =>
    obtain ⟨v, vs⟩ := record
    rw [bodies, List.length_append, ← Nat.add_assoc, ih, field.add_length_body, bodiesEnd]

theorem encodedSize_eq_roundUp (fields : List Field) (record : Record fields) :
    encodedSize fields record =
      roundUp (bodiesEnd fields record 0) (rootAlign fields) + rootSize fields := by
  have content := add_length_bodies fields record 0
  rw [Nat.zero_add] at content
  rw [encodedSize, Bytes.add_gap_eq_roundUp _ (rootAlign_pos fields), content]

end Archive

open Archive (outOfLine)

/-- The number of bytes of a message as an archive. -/
def MessageType.archiveLength : (t : MessageType) → t.Value → Nat
  | bytes, v => roundUp v.length 4 + 8
  | unit, _ => 0
  | text, v => roundUp (outOfLine v) 4 + 8
  | word32, _ => 4
  | order, v => roundUp (roundUp (outOfLine v.symbol) 4 + 4 * v.quantities.length) 8 + 24
  | greeting, v => roundUp (outOfLine v.name) 4 + 8
  | bench, v => roundUp (outOfLine v.name + v.payload.length) 8 + 24

theorem MessageType.encodedSize_pack (t : MessageType) (v : t.Value) :
    Archive.encodedSize t.fields (t.pack v) = t.archiveLength v := by
  rw [Archive.encodedSize_eq_roundUp]
  cases t <;>
    simp [fields, pack, archiveLength, Archive.bodiesEnd, Archive.Field.bodyEnd, roundUp,
      Archive.rootAlign, Archive.rootSize, Archive.Field.align, Archive.Field.width,
      Archive.Scalar.width]

namespace Marshaller

variable {t : MessageType}

/-- The outcome for what is too large: the error has size and limit, and so has the only event that
is logged. -/
structure TooLarge {α : Type} (size max : Nat) (outcome : Traced (Except CodecError α)) : Prop where
  refused : outcome.value = .error (.messageTooLarge size max)
  logged : ∃ event : Event, outcome.events = [event] ∧ event.level = .debug ∧
    event.fields = [("size", .number size), ("max", .number max)]

theorem tooLarge_guard {α : Type} {limit : SizeLimit} {size : Nat} (h : limit.max < size)
    (next : Unit → Except CodecError α) : TooLarge size limit.max (limit.guard size next) := by
  rw [SizeLimit.guard_of_lt h]
  exact ⟨rfl, .messageTooLarge size limit.max, rfl, rfl, rfl⟩

/-- A message is sent if and only if its length is within the limit, and always as the same bytes,
as many as its length says. -/
theorem stream_within_limit (v : t.Value) (small : t.archiveLength v < 2 ^ 30) :
    ∃ bytes : Bytes, bytes.length = t.archiveLength v ∧
      ∀ (limit : SizeLimit) (sample? : Option t.Value),
        (t.archiveLength v ≤ limit.max →
          (archived limit sample?).stream v = pure (.ok bytes)) ∧
        (limit.max < t.archiveLength v →
          TooLarge (t.archiveLength v) limit.max ((archived limit sample?).stream v)) := by
  have size := t.encodedSize_pack v
  obtain ⟨bytes, written⟩ := Archive.exists_encode? (size ▸ small)
  have length : bytes.length = t.archiveLength v := (Archive.length_encode? written).trans size
  refine ⟨bytes, length, ?_⟩
  intro limit sample?
  rw [stream_archived written, length]
  exact ⟨fun fits => SizeLimit.guard_of_le fits _, fun large => tooLarge_guard large _⟩

/-- Five letters that take nine bytes are one byte too long for their head, and then a list without
items still asks for a gap. -/
theorem stream_within_limit_order :
    let order : Order := ⟨7, "äöüß!", []⟩
    (MessageType.order.archiveLength order = 40 ∧ 40 < 2 ^ 30) ∧
      ∃ bytes : Bytes, bytes.length = 40 ∧
        (archived ⟨40⟩ none : Marshaller .order).stream order = pure (.ok bytes) ∧
        TooLarge 40 39 ((archived ⟨39⟩ none : Marshaller .order).stream order) := by
  intro order
  have length : MessageType.order.archiveLength order = 40 := by decide +kernel
  have small : MessageType.order.archiveLength order < 2 ^ 30 := by omega
  obtain ⟨bytes, size, sent⟩ := stream_within_limit (t := .order) order small
  rw [length] at size sent
  exact ⟨⟨length, by decide⟩, bytes, size, (sent ⟨40⟩ none).1 (by decide),
    (sent ⟨39⟩ none).2 (by decide)⟩

end Marshaller

end RpcMethod
