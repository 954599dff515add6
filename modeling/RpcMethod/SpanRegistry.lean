import RpcMethod.Event
import RpcMethod.Outline

/-!
# Span registries

The span names that are sampled. A registry takes up new names until it is full and never gives one
up by itself; a name it has already is always welcome. Registries are told of span names as
registrars are, and so are recorders. Registrars are shared and changed by every method built, so
they live in a table and are spoken of by their number in it.
-/

namespace RpcMethod

/-- A registry with its names in the order in which they were taken up. -/
structure SpanRegistry where
  capacity : Nat := 4096
  names : List String := []
deriving DecidableEq, Repr

namespace SpanRegistry

def isSampled (registry : SpanRegistry) (name : String) : Bool := registry.names.contains name

def size (registry : SpanRegistry) : Nat := registry.names.length

def isEmpty (registry : SpanRegistry) : Bool := registry.names.isEmpty

/-- The sampled names in ascending order. -/
def sorted (registry : SpanRegistry) : List String :=
  registry.names.mergeSort (fun a b => decide (a ≤ b))

/-- Offers a name to the registry. -/
def offer (registry : SpanRegistry) (name : String) : Traced SpanRegistry :=
  if registry.isSampled name then pure registry
  else if registry.size < registry.capacity then
    ⟨[.spanSampled name], { registry with names := registry.names ++ [name] }⟩
  else ⟨[.registryFull name registry.capacity], registry⟩

/-- Offers the names one after the other. -/
def register (registry : SpanRegistry) : List String → Traced SpanRegistry
  | [] => pure registry
  | name :: rest => do
    let registry ← registry.offer name
    registry.register rest

/-- Gives up a name, and says whether it was sampled. -/
def unregister (registry : SpanRegistry) (name : String) : Bool × SpanRegistry :=
  (registry.isSampled name, { registry with names := registry.names.erase name })

/-- How the limits of a registry show themselves. -/
def limitOutline (registry : SpanRegistry) : Outline :=
  .record "SpanRegistryConfig" [("max_span_names", .number registry.capacity)] false

theorem isSampled_iff {registry : SpanRegistry} {name : String} :
    registry.isSampled name = true ↔ name ∈ registry.names := List.contains_iff_mem

@[simp] theorem register_nil (registry : SpanRegistry) : registry.register [] = pure registry := rfl

theorem register_cons (registry : SpanRegistry) (name : String) (rest : List String) :
    registry.register (name :: rest) = registry.offer name >>= (·.register rest) := rfl

end SpanRegistry

/-- Whoever wants to hear of the span names of methods. -/
inductive Registrar where
  | sampling (registry : SpanRegistry)
  /-- Keeps the names of every call, the first call first. -/
  | recorder (calls : List (List String))
deriving DecidableEq, Repr

/-- Tells a registrar the span names of a method. -/
def Registrar.register (names : List String) : Registrar → Traced Registrar
  | sampling registry => do return sampling (← registry.register names)
  | recorder calls => pure (recorder (calls ++ [names]))

/-- The registrars there are; the number of one is its place in the list. -/
structure Registrars where
  all : List Registrar := []
deriving DecidableEq, Repr

namespace Registrars

/-- The number that the next registrar will have. -/
def next (registrars : Registrars) : Nat := registrars.all.length

def add (registrars : Registrars) (registrar : Registrar) : Registrars :=
  ⟨registrars.all ++ [registrar]⟩

def get? (registrars : Registrars) (number : Nat) : Option Registrar := registrars.all[number]?

def put (registrars : Registrars) (number : Nat) (registrar : Registrar) : Registrars :=
  ⟨registrars.all.set number registrar⟩

/-- Tells the registrar of a number the span names of a method. -/
def register (registrars : Registrars) (number : Nat) (names : List String) : Traced Registrars :=
  match registrars.get? number with
  | none => pure registrars
  | some registrar => do return registrars.put number (← registrar.register names)

end Registrars

end RpcMethod
