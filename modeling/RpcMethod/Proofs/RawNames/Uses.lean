import RpcMethod.Descriptor

/-!
# Uses of raw names

Everything that can be done with the raw names of a descriptor, as one step, and what a whole
sequence of steps makes of the descriptor. Whatever the step is, it writes one slot or none
(`descriptor_use`), so slots that are filled stay filled (`filled_after`), and what the method is
stays as it was (`toMethodSpec_after`).
-/

namespace RpcMethod

open Transport (Slot)

/-- A use of the raw names of a descriptor. -/
inductive NameUse where
  /-- Asks for the name for an encoder; if it has to be made, it takes `number`. -/
  | resolve (encoder : NameEncoder) (number : Nat)
  | set (slot : Slot) (raw : Shared Payload)
  | trySet (index : Nat) (raw : Shared Payload)
  | get (slot : Slot)
  | tryGet (index : Nat)
  | outline

inductive NameAnswer where
  | raw (raw : Shared Payload)
  | held (raw? : Option (Shared Payload))
  | written
  | shown (outline : Outline)
  | refused (error : DescriptorError)

/-- The outcome of a use: the answer, the descriptor afterwards, and how often the encoder was
asked. -/
structure Used (Req Resp : MessageType) where
  answer : NameAnswer
  descriptor : Descriptor Req Resp
  encodings : Nat

namespace Descriptor

variable {Req Resp : MessageType}

def use (d : Descriptor Req Resp) : NameUse → Used Req Resp
  | .resolve encoder number =>
    let (raw, after, encodings) := d.rawName encoder number
    ⟨.raw raw, after, encodings⟩
  | .set slot raw => ⟨.written, { d with rawNames := d.rawNames.set slot raw }, 0⟩
  | .trySet index raw =>
    match d.rawNames.trySet index raw with
    | .ok names => ⟨.written, { d with rawNames := names }, 0⟩
    | .error error => ⟨.refused error, d, 0⟩
  | .get slot => ⟨.held (d.rawNames.get slot), d, 0⟩
  | .tryGet index =>
    match d.rawNames.tryGet index with
    | .ok raw? => ⟨.held raw?, d, 0⟩
    | .error error => ⟨.refused error, d, 0⟩
  | .outline => ⟨.shown d.outline, d, 0⟩

/-- The slot that a use writes and the object that it puts there, if it succeeds in writing. -/
def written? (d : Descriptor Req Resp) : NameUse → Option (Slot × Shared Payload)
  | .resolve encoder number =>
    match d.rawNames.get encoder.transport.slot with
    | some _ => none
    | none => some (encoder.transport.slot, ⟨number, encoder.encode d.name⟩)
  | .set slot raw => some (slot, raw)
  | .trySet index raw => (Transport.slot? index).map (·, raw)
  | .get _ => none
  | .tryGet _ => none
  | .outline => none

/-- The descriptor after a sequence of uses. -/
def after (d : Descriptor Req Resp) (uses : List NameUse) : Descriptor Req Resp :=
  uses.foldl (fun d use => (d.use use).descriptor) d

variable (d : Descriptor Req Resp)

section Resolve

variable (encoder : NameEncoder) (number : Nat)

/-- A name that is there is given as it is, whatever the encoder. -/
theorem use_resolve_of_some {raw : Shared Payload}
    (h : d.rawNames.get encoder.transport.slot = some raw) :
    d.use (.resolve encoder number) = ⟨.raw raw, d, 0⟩ := by
  rw [use, rawName, RawNames.resolve_of_some d.rawNames encoder d.name number h]

theorem use_resolve_of_none (h : d.rawNames.get encoder.transport.slot = none) :
    d.use (.resolve encoder number) =
      ⟨.raw ⟨number, encoder.encode d.name⟩,
        { d with rawNames :=
          d.rawNames.set encoder.transport.slot ⟨number, encoder.encode d.name⟩ }, 1⟩ := by
  rw [use, rawName, RawNames.resolve_of_none d.rawNames encoder d.name number h]

end Resolve

theorem use_trySet_of_some {index : Nat} {slot : Slot} (raw : Shared Payload)
    (h : Transport.slot? index = some slot) :
    d.use (.trySet index raw) = d.use (.set slot raw) := by
  simp only [use, RawNames.trySet, RawNames.checkedSlot, h, Except.map]

theorem use_trySet_of_none {index : Nat} (raw : Shared Payload)
    (h : Transport.slot? index = none) :
    d.use (.trySet index raw) =
      ⟨.refused (.slotOutOfRange index Transport.count), d, 0⟩ := by
  simp only [use, RawNames.trySet, RawNames.checkedSlot, h, Except.map]

theorem use_tryGet_of_some {index : Nat} {slot : Slot} (h : Transport.slot? index = some slot) :
    d.use (.tryGet index) = d.use (.get slot) := by
  simp only [use, RawNames.tryGet, RawNames.checkedSlot, h, Except.map]

theorem use_tryGet_of_none {index : Nat} (h : Transport.slot? index = none) :
    d.use (.tryGet index) = ⟨.refused (.slotOutOfRange index Transport.count), d, 0⟩ := by
  simp only [use, RawNames.tryGet, RawNames.checkedSlot, h, Except.map]

/-- A use writes one slot or none. -/
theorem descriptor_use (use : NameUse) :
    (d.use use).descriptor = match d.written? use with
      | some (slot, raw) => { d with rawNames := d.rawNames.set slot raw }
      | none => d := by
  cases use with
  | resolve encoder number =>
    cases held : d.rawNames.get encoder.transport.slot with
    | none => simp only [d.use_resolve_of_none encoder number held, written?, held]
    | some raw => simp only [d.use_resolve_of_some encoder number held, written?, held]
  | set slot raw => rfl
  | trySet index raw =>
    cases position : Transport.slot? index with
    | none => simp only [d.use_trySet_of_none raw position, written?, position, Option.map_none]
    | some slot =>
      simp only [d.use_trySet_of_some raw position, written?, position, Option.map_some]
      rfl
  | get slot => rfl
  | tryGet index =>
    cases position : Transport.slot? index with
    | none => rw [d.use_tryGet_of_none position, written?]
    | some slot =>
      rw [d.use_tryGet_of_some position, written?]
      rfl
  | outline => rfl

variable {d} {use : NameUse} {slot : Slot} {raw : Shared Payload}

theorem use_of_written (h : d.written? use = some (slot, raw)) :
    (d.use use).descriptor = { d with rawNames := d.rawNames.set slot raw } := by
  rw [descriptor_use, h]

theorem use_of_not_written (h : d.written? use = none) : (d.use use).descriptor = d := by
  rw [descriptor_use, h]

theorem get_of_written (h : d.written? use = some (slot, raw)) :
    (d.use use).descriptor.rawNames.get slot = some raw := by
  rw [use_of_written h]
  exact RawNames.get_set_self d.rawNames slot raw

/-- A slot that a use does not write keeps its object. -/
theorem get_of_not_written (h : ∀ raw, d.written? use ≠ some (slot, raw)) :
    (d.use use).descriptor.rawNames.get slot = d.rawNames.get slot := by
  cases written : d.written? use with
  | none => rw [use_of_not_written written]
  | some target =>
    obtain ⟨other, raw⟩ := target
    have apart : slot ≠ other := by
      rintro rfl
      exact h raw written
    rw [use_of_written written]
    exact RawNames.get_set_of_ne d.rawNames raw apart

theorem toMethodSpec_use (d : Descriptor Req Resp) (use : NameUse) :
    (d.use use).descriptor.toMethodSpec = d.toMethodSpec := by
  cases written : d.written? use with
  | none => rw [use_of_not_written written]
  | some target => rw [use_of_written written]

theorem filled_use (h : (d.rawNames.get slot).isSome) :
    ((d.use use).descriptor.rawNames.get slot).isSome := by
  by_cases written : ∃ raw, d.written? use = some (slot, raw)
  · obtain ⟨raw, written⟩ := written
    rw [get_of_written written]
    rfl
  · rw [get_of_not_written (fun raw same => written ⟨raw, same⟩)]
    exact h

theorem after_append (d : Descriptor Req Resp) (earlier later : List NameUse) :
    d.after (earlier ++ later) = (d.after earlier).after later :=
  List.foldl_append

theorem toMethodSpec_after (d : Descriptor Req Resp) (uses : List NameUse) :
    (d.after uses).toMethodSpec = d.toMethodSpec := by
  induction uses generalizing d with
  | nil => rfl
  | cons use rest ih => exact (ih (d.use use).descriptor).trans (d.toMethodSpec_use use)

theorem filled_after (uses : List NameUse) (h : (d.rawNames.get slot).isSome) :
    ((d.after uses).rawNames.get slot).isSome := by
  induction uses generalizing d with
  | nil => exact h
  | cons use rest ih => exact ih (filled_use h)

end Descriptor

end RpcMethod
