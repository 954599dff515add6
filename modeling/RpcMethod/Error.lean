import RpcMethod.Outline

/-!
What can go wrong when a method is described and when a message is marshalled. Errors are causes;
`message` and `outline` give their texts.
-/

namespace RpcMethod

/-- Why a method's description was refused. -/
inductive DescriptorError where
  | missingField (field : String)
  | invalidConfiguration (reason : String)
  | slotOutOfRange (index count : Nat)
deriving DecidableEq, Repr

namespace DescriptorError

def message : DescriptorError → String
  | missingField field => "missing required field: " ++ field
  | invalidConfiguration reason => "invalid configuration: " ++ reason
  | slotOutOfRange index count =>
    "transport index " ++ Nat.repr index ++ " out of range (cache size: " ++ Nat.repr count ++ ")"

def outline : DescriptorError → Outline
  | missingField field => .call "MissingField" [.quoted field]
  | invalidConfiguration reason => .call "InvalidConfiguration" [.quoted reason]
  | slotOutOfRange index count =>
    .record "IndexOutOfRange" [("index", .number index), ("len", .number count)] false

def isMissingField : DescriptorError → Bool
  | missingField _ => true
  | _ => false

end DescriptorError

/-- Why a message could not be written or read. -/
inductive CodecError where
  | messageTooLarge (size max : Nat)
  | serialization (reason : String)
  | deserialization (reason : String)
deriving DecidableEq, Repr

namespace CodecError

def message : CodecError → String
  | messageTooLarge size max =>
    "message too large: " ++ Nat.repr size ++ " bytes (max: " ++ Nat.repr max ++ ")"
  | serialization reason => "serialization error: " ++ reason
  | deserialization reason => "deserialization error: " ++ reason

def outline : CodecError → Outline
  | messageTooLarge size max =>
    .record "MessageTooLarge" [("size", .number size), ("max", .number max)] false
  | serialization reason => .call "Serialization" [.quoted reason]
  | deserialization reason => .call "Deserialization" [.quoted reason]

/-- Whether the fault lies in the bytes received. -/
def isDecodeError : CodecError → Bool
  | deserialization _ => true
  | _ => false

end CodecError

end RpcMethod
