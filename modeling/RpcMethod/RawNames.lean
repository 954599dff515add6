import RpcMethod.Bytes
import RpcMethod.Error
import RpcMethod.Transport

/-!
# Raw names

The names of one method as its transports write them, each kept once it is known. There is one slot
per transport and slots do not touch one another: writing one leaves the rest as they are. A slot is
named either by a transport's slot, which cannot miss, or by any number, which is checked. What a
transport wrote is kept as it is and read back by asking for a form; it is an object with an
identity, so that being given the same name again can be told from being given an equal one.
-/

namespace RpcMethod

/-- A value whose form only its user knows: the name of a method as a transport writes it, or the
schema that came with a method. -/
inductive Payload where
  | bytes (value : Bytes)
  | text (value : String)
  | word32 (value : UInt32)
deriving DecidableEq, Repr

namespace Payload

def bytes? : Payload → Option Bytes
  | bytes value => some value
  | _ => none

def text? : Payload → Option String
  | text value => some value
  | _ => none

def word32? : Payload → Option UInt32
  | word32 value => some value
  | _ => none

/-- A raw name does not show its content. -/
def rawNameOutline : Outline := .record "RawMethodName" [] true

end Payload

/-- An object that several descriptors may share. Two of them are the same object when they were
made in the same act, which the number records, and not merely when their contents agree. -/
structure Shared (α : Type) where
  number : Nat
  value : α
deriving DecidableEq, Repr

/-- The raw names known so far. -/
structure RawNames where
  slots : Vector (Option (Shared Payload)) Transport.count
deriving DecidableEq, Repr

namespace RawNames

open Transport (Slot)

def empty : RawNames := ⟨Vector.replicate Transport.count none⟩

def get (names : RawNames) (slot : Slot) : Option (Shared Payload) := names.slots[slot]

def set (names : RawNames) (slot : Slot) (raw : Shared Payload) : RawNames :=
  ⟨names.slots.set slot (some raw)⟩

/-- The slot that a number stands for. -/
def checkedSlot (index : Nat) : Except DescriptorError Slot :=
  match Transport.slot? index with
  | some slot => .ok slot
  | none => .error (.slotOutOfRange index Transport.count)

def tryGet (names : RawNames) (index : Nat) : Except DescriptorError (Option (Shared Payload)) :=
  (checkedSlot index).map names.get

def trySet (names : RawNames) (index : Nat) (raw : Shared Payload) :
    Except DescriptorError RawNames :=
  (checkedSlot index).map fun slot => names.set slot raw

/-- The slots in order. -/
def toList (names : RawNames) : List (Option (Shared Payload)) := names.slots.toList

/-- Shows which slots are filled, and not with what. -/
def outline (names : RawNames) : Outline :=
  .record "RawNameCache" [("filled", .list (names.toList.map fun raw => .flag raw.isSome))] false

@[ext] theorem ext {a b : RawNames} (h : ∀ slot, a.get slot = b.get slot) : a = b := by
  cases a with
  | mk a =>
    cases b with
    | mk b => exact congrArg mk (Vector.ext fun i hi => h ⟨i, hi⟩)

@[simp] theorem get_empty (slot : Slot) : empty.get slot = none := by
  simp [get, empty]

@[simp] theorem get_set_self (names : RawNames) (slot : Slot) (raw : Shared Payload) :
    (names.set slot raw).get slot = some raw := by
  simp [get, set]

theorem get_set_of_ne (names : RawNames) {slot other : Slot} (raw : Shared Payload)
    (h : other ≠ slot) : (names.set slot raw).get other = names.get other := by
  have apart : slot.val ≠ other.val := fun same => h (Fin.ext same.symm)
  simp [get, set, apart]

theorem get_set (names : RawNames) (target slot : Slot) (raw : Shared Payload) :
    (names.set target raw).get slot =
      (if target = slot then some raw else none).or (names.get slot) := by
  by_cases here : target = slot
  · simp [here]
  · simp [here, get_set_of_ne names raw (Ne.symm here)]

end RawNames

end RpcMethod
