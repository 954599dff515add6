import RpcMethod.Archive.Schema

/-!
# Writing archives

The bodies come first, in the order of the fields, each after the gap that its alignment asks for;
then a gap up to the alignment of the root, and the root, which ends the archive. A head names its
body by the signed 32-bit distance from the head to the body.
-/

namespace RpcMethod.Archive

/-- A text of at most this many bytes stands in its head; a longer one has a body. -/
def inlineLimit : Nat := 8

/-- The length of a text that has a body, packed into a word whose lowest byte is marked by its
top two bits being `10`: six bits below the mark, the rest above it. -/
def lengthWord (length : Nat) : Nat := length % 64 + 128 + length / 64 * 256

/-- A body set down at the position reached: the bytes added, and where the body itself starts. -/
structure Body where
  bytes : Bytes
  start : Nat

/-- The body of a field. A list has one even when it is empty, so its gap is always there. -/
def Field.body : (field : Field) → field.Value → (position : Nat) → Body
  | .scalar _, _, position => ⟨[], position⟩
  | .text, value, position =>
    let content := Bytes.ofText value
    ⟨if content.length ≤ inlineLimit then [] else content, position⟩
  | .list s, items, position =>
    let gap := Bytes.gap position s.width
    ⟨Bytes.zeros gap ++ s.writeList items, position + gap⟩

/-- The head of a text: the text itself, filled up with `0xff`, or length and distance. -/
def textHead? (content : Bytes) (distance : Int) : Option Bytes :=
  if content.length ≤ inlineLimit then
    some (content ++ List.replicate (inlineLimit - content.length) 0xff)
  else if content.length < 0x40000000 then
    (Bytes.word32? distance).map fun word =>
      Bytes.ofNat 4 (lengthWord content.length) ++ Bytes.ofNat 4 word
  else none

/-- The head of a field at address `here` whose body starts at `start`; `none` if the length of a
text or the distance does not fit. A list too long for its length word never gets that far: its
body lies between the two positions, and the distance does not fit either. -/
def Field.head? : (field : Field) → field.Value → (start here : Nat) → Option Bytes
  | .scalar s, v, _, _ => some (s.write v)
  | .text, value, start, here => textHead? (Bytes.ofText value) ((start : Int) - here)
  | .list _, items, start, here =>
    (Bytes.word32? ((start : Int) - here)).map fun word =>
      Bytes.ofNat 4 word ++ Bytes.ofNat 4 items.length

/-- All bodies of a record, the first of them set down at `position`. -/
def bodies : (fields : List Field) → Record fields → (position : Nat) → Bytes
  | [], _, _ => []
  | field :: rest, (v, vs), position =>
    let body := (field.body v position).bytes
    body ++ bodies rest vs (position + body.length)

/-- All heads of a record, the first of them at address `here`; `position` is where the first body
was set down. -/
def heads? : (fields : List Field) → Record fields → (position here : Nat) → Option Bytes
  | [], _, _, _ => some []
  | field :: rest, (v, vs), position, here => do
    let body := field.body v position
    let head ← field.head? v body.start here
    let heads ← heads? rest vs (position + body.bytes.length) (here + field.width)
    return head ++ heads

/-- The archive of a record; `none` if a part is too large or too far away for its head. -/
def encode? (fields : List Field) (record : Record fields) : Option Bytes :=
  let content := bodies fields record 0
  let gap := Bytes.gap content.length (rootAlign fields)
  (heads? fields record 0 (content.length + gap)).map fun root =>
    content ++ Bytes.zeros gap ++ root

/-- The mark of a packed length. -/
theorem lengthWord_mark (length : Nat) : lengthWord length % 256 / 64 = 2 := by
  unfold lengthWord
  omega

/-- A text's head is as wide as its place in the root. -/
theorem length_textHead? {content head : Bytes} {distance : Int}
    (h : textHead? content distance = some head) : head.length = 8 := by
  unfold textHead? at h
  split at h
  · next small =>
    obtain rfl := Option.some.inj h
    rw [List.length_append, List.length_replicate]
    unfold inlineLimit at *
    omega
  · split at h
    · obtain ⟨word, _, rfl⟩ := Option.map_eq_some_iff.mp h
      rw [List.length_append, Bytes.length_ofNat, Bytes.length_ofNat]
    · cases h

theorem Field.length_head? {field : Field} {v : field.Value} {start here : Nat} {head : Bytes}
    (h : field.head? v start here = some head) : head.length = field.width := by
  cases field with
  | scalar s =>
    obtain rfl := Option.some.inj h
    exact s.length_write v
  | text => exact length_textHead? h
  | list s =>
    obtain ⟨word, _, rfl⟩ := Option.map_eq_some_iff.mp h
    rw [List.length_append, Bytes.length_ofNat, Bytes.length_ofNat]
    rfl

/-- The heads of a record fill the root. -/
theorem length_heads? {fields : List Field} {record : Record fields} {position here : Nat}
    {root : Bytes} (h : heads? fields record position here = some root) :
    root.length = rootSize fields := by
  induction fields generalizing position here root with
  | nil =>
    obtain rfl := Option.some.inj h
    rfl
  | cons field rest ih =>
    obtain ⟨v, vs⟩ := record
    obtain ⟨head, hhead, h⟩ := Option.bind_eq_some_iff.mp h
    obtain ⟨heads, hheads, h⟩ := Option.bind_eq_some_iff.mp h
    obtain rfl := Option.some.inj h
    rw [List.length_append, Field.length_head? hhead, ih hheads]
    rfl

end RpcMethod.Archive
