import RpcMethod.RawNames

/-!
# Name encoders

How a transport writes the name of a method. An encoder is asked only when the slot of its
transport is empty, and what it gives is kept there; so it is asked at most once as long as the
slots last.
-/

namespace RpcMethod

/-- The encoder of a transport. -/
structure NameEncoder where
  transport : Transport
  encode : String → Payload

namespace NameEncoder

/-- A slash and the name, as the bytes of a request path. -/
def pathBytes (name : String) : Bytes := 0x2f :: Bytes.ofText name

/-- Writes names as request paths. -/
def path (transport : Transport) : NameEncoder := ⟨transport, fun name => .bytes (pathBytes name)⟩

/-- Writes names as texts with the letters `a` to `z` capitalised. -/
def upper (transport : Transport) : NameEncoder :=
  ⟨transport, fun name => .text (String.ofList (name.toList.map Char.toUpper))⟩

/-- How the path encoder of a transport shows itself. -/
def pathOutline (transport : Transport) : Outline :=
  .record "PathEncoder" [("transport", transport.outline)] false

end NameEncoder

/-- The outcome of asking for a raw name: the name, the names kept afterwards, and how often the
encoder was asked. -/
structure Resolved where
  raw : Shared Payload
  names : RawNames
  encodings : Nat

/-- The raw name of a method for an encoder's transport. If it has to be made, it takes `number`,
which no object has yet. -/
def RawNames.resolve (names : RawNames) (encoder : NameEncoder) (method : String) (number : Nat) :
    Resolved :=
  let slot := encoder.transport.slot
  match names.get slot with
  | some raw => ⟨raw, names, 0⟩
  | none =>
    let raw : Shared Payload := ⟨number, encoder.encode method⟩
    ⟨raw, names.set slot raw, 1⟩

namespace RawNames

variable (names : RawNames) (encoder : NameEncoder) (method : String) (number : Nat)

theorem resolve_of_some {raw : Shared Payload} (h : names.get encoder.transport.slot = some raw) :
    names.resolve encoder method number = ⟨raw, names, 0⟩ := by
  simp only [resolve, h]

theorem resolve_of_none (h : names.get encoder.transport.slot = none) :
    names.resolve encoder method number =
      ⟨⟨number, encoder.encode method⟩,
        names.set encoder.transport.slot ⟨number, encoder.encode method⟩, 1⟩ := by
  simp only [resolve, h]

/-- The name given is the one kept in the slot afterwards. -/
theorem get_resolve :
    (names.resolve encoder method number).names.get encoder.transport.slot =
      some (names.resolve encoder method number).raw := by
  cases held : names.get encoder.transport.slot with
  | none => rw [resolve_of_none _ _ _ _ held, get_set_self]
  | some raw => rw [resolve_of_some _ _ _ _ held, held]

end RawNames

end RpcMethod
