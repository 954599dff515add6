import RpcMethod.Marshaller
import RpcMethod.MethodName
import RpcMethod.NameEncoder

/-!
# Method descriptors

A descriptor says all that client and server need to know of a method. Beside that it keeps the raw
names that its transports asked for; they do not count when descriptors are compared. The spans that
are opened around a call carry what traces are searched by.
-/

namespace RpcMethod

/-- The version of this library, as it is told to those who ask for it. -/
def version : String := "0.1.0"

/-- How many messages each side of a call sends. The numbers and the names in capitals are those that
peers and traces show. -/
inductive Cardinality where
  | unary
  | clientStreaming
  | serverStreaming
  | bidiStreaming
  | unknown
deriving DecidableEq, Repr

namespace Cardinality

/-- All of them, in the order of their numbers. -/
def all : List Cardinality := [unary, clientStreaming, serverStreaming, bidiStreaming, unknown]

def number : Cardinality → Nat
  | unary => 1
  | clientStreaming => 2
  | serverStreaming => 3
  | bidiStreaming => 4
  | unknown => 5

def name : Cardinality → String
  | unary => "UNARY"
  | clientStreaming => "CLIENT_STREAMING"
  | serverStreaming => "SERVER_STREAMING"
  | bidiStreaming => "BIDI_STREAMING"
  | unknown => "UNKNOWN"

def outline : Cardinality → Outline
  | unary => .word "Unary"
  | clientStreaming => .word "ClientStreaming"
  | serverStreaming => .word "ServerStreaming"
  | bidiStreaming => .word "BidiStreaming"
  | unknown => .word "Unknown"

/-- Whether the client is known to send exactly one message. -/
def clientSendsOne : Cardinality → Bool
  | unary | serverStreaming => true
  | _ => false

/-- Whether the server is known to send exactly one message. -/
def serverSendsOne : Cardinality → Bool
  | unary | clientStreaming => true
  | _ => false

def ofName? (name : String) : Option Cardinality := all.find? (·.name == name)

end Cardinality

/-- What a method is. Marshallers and schema are shared objects: two specifications agree on them
only if they have the very same ones. -/
structure MethodSpec (Req Resp : MessageType) where
  cardinality : Cardinality
  name : String
  request : Shared (Marshaller Req)
  response : Shared (Marshaller Resp)
  schema? : Option (Shared Payload)
  idempotent : Bool
  safe : Bool
deriving DecidableEq

/-- A method with the raw names known so far. -/
structure Descriptor (Req Resp : MessageType) extends MethodSpec Req Resp where
  rawNames : RawNames := .empty

namespace Descriptor

variable {Req Resp : MessageType}

/-- The descriptor of a method that has nothing but what every method needs. -/
def create (cardinality : Cardinality) (name : String) (request : Shared (Marshaller Req))
    (response : Shared (Marshaller Resp)) : Descriptor Req Resp where
  cardinality := cardinality
  name := name
  request := request
  response := response
  schema? := none
  idempotent := false
  safe := false

/-- Descriptors are equal when they describe the same method; their raw names may differ. -/
instance : BEq (Descriptor Req Resp) := ⟨fun a b => a.toMethodSpec = b.toMethodSpec⟩

theorem beq_iff {a b : Descriptor Req Resp} : a == b ↔ a.toMethodSpec = b.toMethodSpec :=
  decide_eq_true_iff

def service? (d : Descriptor Req Resp) : Option String := MethodName.service? d.name

def method? (d : Descriptor Req Resp) : Option String := MethodName.method? d.name

def streamRequest (d : Descriptor Req Resp) (v : Req.Value) : Traced (Except CodecError Bytes) :=
  d.request.value.stream v

def parseRequest (d : Descriptor Req Resp) (bytes : Bytes) : Traced (Except CodecError Req.Value) :=
  d.request.value.parse bytes

def streamResponse (d : Descriptor Req Resp) (v : Resp.Value) : Traced (Except CodecError Bytes) :=
  d.response.value.stream v

def parseResponse (d : Descriptor Req Resp) (bytes : Bytes) :
    Traced (Except CodecError Resp.Value) :=
  d.response.value.parse bytes

/-- The schema as a text, if there is one and it is one. -/
def schemaText? (d : Descriptor Req Resp) : Option String := d.schema?.bind (·.value.text?)

/-- The schema as a word, if there is one and it is one. -/
def schemaWord32? (d : Descriptor Req Resp) : Option UInt32 := d.schema?.bind (·.value.word32?)

/-- The raw name for an encoder, with the descriptor that has it and how often the encoder was
asked; see `RawNames.resolve`. -/
def rawName (d : Descriptor Req Resp) (encoder : NameEncoder) (number : Nat) :
    Shared Payload × Descriptor Req Resp × Nat :=
  let resolved := d.rawNames.resolve encoder d.name number
  (resolved.raw, { d with rawNames := resolved.names }, resolved.encodings)

/-- Shows everything but the marshallers and the schema, of which it shows only the presence. -/
def outline (d : Descriptor Req Resp) : Outline :=
  .record "MethodDescriptor"
    [("type", d.cardinality.outline), ("full_method_name", .quoted d.name),
      ("schema_descriptor", .flag d.schema?.isSome), ("idempotent", .flag d.idempotent),
      ("safe", .flag d.safe), ("raw_names", d.rawNames.outline)] true

end Descriptor

/-- What client or server opens around a call. -/
structure Span where
  name : String
  level : Level
  fields : List (String × FieldValue)
deriving DecidableEq, Repr

/-- The span of a side for a call of the method. -/
def Descriptor.span {Req Resp : MessageType} (d : Descriptor Req Resp) (side : Side) : Span where
  name := "rpc"
  level := .info
  fields :=
    [("otel.name", .text (MethodName.span side d.name)), ("rpc.method", .text d.name),
      ("rpc.method_type", .text d.cardinality.name), ("rpc.idempotent", .flag d.idempotent)]

end RpcMethod
