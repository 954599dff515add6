/-!
# Log events

The events that describing methods, marshalling messages and sampling spans give rise to, and
values that come with the events of their making, in order.
-/

namespace RpcMethod

inductive Level where
  | debug
  | info
  | warn
deriving DecidableEq, Repr

def Level.name : Level → String
  | .debug => "DEBUG"
  | .info => "INFO"
  | .warn => "WARN"

/-- The value of a field of an event or a span. -/
inductive FieldValue where
  | text (value : String)
  | number (value : Nat)
  | flag (value : Bool)
deriving DecidableEq, Repr

inductive Event where
  /-- The span names of a method are about to go to a registrar. -/
  | registeringSpans (method clientSpan serverSpan : String)
  /-- A method asks for tracing and has no registrar. -/
  | registrarMissing (method : String)
  /-- A span name was taken up for sampling. -/
  | spanSampled (span : String)
  /-- A span name was turned away from a full registry. -/
  | registryFull (span : String) (capacity : Nat)
  /-- A message is larger than its marshaller allows. -/
  | messageTooLarge (size max : Nat)
deriving DecidableEq, Repr

namespace Event

def level : Event → Level
  | registeringSpans .. | spanSampled _ | messageTooLarge .. => .debug
  | registrarMissing _ | registryFull .. => .warn

def message : Event → String
  | registeringSpans .. => "Registering span names for collection"
  | registrarMissing _ => "Tracing registration requested without a span registrar; skipping"
  | spanSampled _ => "Registered span name for sampling"
  | registryFull .. => "Span registry full, not sampling span"
  | messageTooLarge .. => "Message exceeds size limit"

/-- The fields of an event beside its message. -/
def fields : Event → List (String × FieldValue)
  | registeringSpans method clientSpan serverSpan =>
    [("method", .text method), ("client_span", .text clientSpan), ("server_span", .text serverSpan)]
  | registrarMissing method => [("method", .text method)]
  | spanSampled span => [("span_name", .text span)]
  | registryFull span capacity => [("span_name", .text span), ("max", .number capacity)]
  | messageTooLarge size max => [("size", .number size), ("max", .number max)]

end Event

/-- A value together with the events of its making. -/
structure Traced (α : Type) where
  events : List Event
  value : α
deriving DecidableEq, Repr

namespace Traced

/-- A single event. -/
def emit (event : Event) : Traced Unit := ⟨[event], ()⟩

instance : Monad Traced where
  pure value := ⟨[], value⟩
  bind first next := ⟨first.events ++ (next first.value).events, (next first.value).value⟩

@[simp] theorem events_pure {α : Type} (a : α) : (pure a : Traced α).events = [] := rfl

@[simp] theorem value_pure {α : Type} (a : α) : (pure a : Traced α).value = a := rfl

@[simp] theorem events_bind {α β : Type} (x : Traced α) (f : α → Traced β) :
    (x >>= f).events = x.events ++ (f x.value).events := rfl

@[simp] theorem value_bind {α β : Type} (x : Traced α) (f : α → Traced β) :
    (x >>= f).value = (f x.value).value := rfl

@[simp] theorem events_emit (event : Event) : (emit event).events = [event] := rfl

@[simp] theorem pure_bind {α β : Type} (a : α) (f : α → Traced β) : pure a >>= f = f a := rfl

@[ext] theorem ext {α : Type} {x y : Traced α} (events : x.events = y.events)
    (value : x.value = y.value) : x = y := by
  cases x
  cases y
  cases events
  cases value
  rfl

end Traced

end RpcMethod
