import RpcMethod.Descriptor
import RpcMethod.SpanRegistry

/-!
# Drafts of methods

A draft is a method in the making: it is filled setting by setting, in any order, where a later
setting of the same field wins. Building it checks that nothing is missing and that only unary
methods are called safe; only then may the span names of the method go to a registrar.
-/

namespace RpcMethod

/-- A method that may lack any of its parts. -/
structure Draft (Req Resp : MessageType) where
  cardinality? : Option Cardinality := none
  name? : Option String := none
  request? : Option (Shared (Marshaller Req)) := none
  response? : Option (Shared (Marshaller Resp)) := none
  schema? : Option (Shared Payload) := none
  idempotent : Bool := false
  safe : Bool := false
  /-- Whether the span names of the method are to be registered. -/
  traced : Bool := false
  /-- The number of the registrar to tell them to. -/
  registrar? : Option Nat := none

/-- One change to a draft. -/
inductive Setting (Req Resp : MessageType) where
  | cardinality (value : Cardinality)
  | name (value : String)
  | request (value : Shared (Marshaller Req))
  | response (value : Shared (Marshaller Resp))
  | schema (value : Shared Payload)
  | noSchema
  | idempotent (value : Bool)
  | safe (value : Bool)
  | traced (value : Bool)
  | registrar (number : Nat)

namespace Draft

variable {Req Resp : MessageType}

/-- A draft that has its marshallers and nothing else. -/
def ofMarshallers (request : Shared (Marshaller Req)) (response : Shared (Marshaller Resp)) :
    Draft Req Resp :=
  { request? := some request, response? := some response }

def set (draft : Draft Req Resp) : Setting Req Resp → Draft Req Resp
  | .cardinality value => { draft with cardinality? := some value }
  | .name value => { draft with name? := some value }
  | .request value => { draft with request? := some value }
  | .response value => { draft with response? := some value }
  | .schema value => { draft with schema? := some value }
  | .noSchema => { draft with schema? := none }
  | .idempotent value => { draft with idempotent := value }
  | .safe value => { draft with safe := value }
  | .traced value => { draft with traced := value }
  | .registrar number => { draft with registrar? := some number }

/-- Makes the changes one after the other. -/
def setAll (draft : Draft Req Resp) (settings : List (Setting Req Resp)) : Draft Req Resp :=
  settings.foldl set draft

/-- A part that no method can do without. -/
def require {α : Type} (field : String) : Option α → Except DescriptorError α
  | some value => .ok value
  | none => .error (.missingField field)

/-- The descriptor of the draft, or the first thing that is wrong with it. -/
def assemble (draft : Draft Req Resp) : Except DescriptorError (Descriptor Req Resp) := do
  let cardinality ← require "type" draft.cardinality?
  let name ← require "full_method_name" draft.name?
  let request ← require "request_marshaller" draft.request?
  let response ← require "response_marshaller" draft.response?
  if draft.safe ∧ cardinality ≠ .unary then
    throw (.invalidConfiguration "only unary methods can be specified safe")
  return {
    cardinality, name, request, response
    schema? := draft.schema?
    idempotent := draft.idempotent
    safe := draft.safe }

/-- Tells the draft's registrar the span names of a method, if the draft asks for that. -/
def announce (draft : Draft Req Resp) (method : String) (registrars : Registrars) :
    Traced Registrars :=
  if draft.traced then
    match draft.registrar? with
    | none => do
      Traced.emit (.registrarMissing method)
      return registrars
    | some number => do
      Traced.emit (.registeringSpans method (MethodName.span .client method)
        (MethodName.span .server method))
      registrars.register number (MethodName.spans method)
  else pure registrars

/-- Builds the method and announces it; a draft with a fault leaves the registrars alone. -/
def build (draft : Draft Req Resp) (registrars : Registrars) :
    Traced (Except DescriptorError (Descriptor Req Resp) × Registrars) :=
  match draft.assemble with
  | .error e => pure (.error e, registrars)
  | .ok d => do
    let registrars ← draft.announce d.name registrars
    return (.ok d, registrars)

/-- Shows all that is set, of marshallers and schema only the presence. -/
def outline (draft : Draft Req Resp) : Outline :=
  .record "Builder"
    [("type", .option (draft.cardinality?.map Cardinality.outline)),
      ("full_method_name", .option (draft.name?.map Outline.quoted)),
      ("request_marshaller", .flag draft.request?.isSome),
      ("response_marshaller", .flag draft.response?.isSome),
      ("schema_descriptor", .flag draft.schema?.isSome), ("idempotent", .flag draft.idempotent),
      ("safe", .flag draft.safe), ("register_for_tracing", .flag draft.traced)] true

end Draft

namespace Descriptor

variable {Req Resp : MessageType}

/-- A draft of the same method with other marshallers, perhaps for other messages. It knows nothing
of the raw names, nor of how the method was announced. -/
def toDraftWith {NewReq NewResp : MessageType} (d : Descriptor Req Resp)
    (request : Shared (Marshaller NewReq)) (response : Shared (Marshaller NewResp)) :
    Draft NewReq NewResp where
  cardinality? := some d.cardinality
  name? := some d.name
  request? := some request
  response? := some response
  schema? := d.schema?
  idempotent := d.idempotent
  safe := d.safe

/-- A draft of the same method. -/
def toDraft (d : Descriptor Req Resp) : Draft Req Resp := d.toDraftWith d.request d.response

end Descriptor

end RpcMethod
