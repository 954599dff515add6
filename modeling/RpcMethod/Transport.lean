import RpcMethod.Outline

/-!
The transports that a call may travel over. Each has a slot in the tables that keep one entry per
transport.
-/

namespace RpcMethod

inductive Transport where
  | tcp
  | uds
  | tls
deriving DecidableEq, Repr

namespace Transport

/-- All transports, in the order of their slots. -/
def all : List Transport := [tcp, uds, tls]

/-- How many transports there are. -/
abbrev count : Nat := 3

abbrev Slot := Fin count

def slot : Transport → Slot
  | tcp => 0
  | uds => 1
  | tls => 2

/-- The transport that a slot belongs to. -/
def ofSlot : Slot → Transport
  | 0 => tcp
  | 1 => uds
  | 2 => tls

/-- The slot of a position, if it is one. -/
def slot? (position : Nat) : Option Slot :=
  if h : position < count then some ⟨position, h⟩ else none

def name : Transport → String
  | tcp => "tcp"
  | uds => "uds"
  | tls => "tls"

def outline : Transport → Outline
  | tcp => .word "Tcp"
  | uds => .word "Uds"
  | tls => .word "Tls"

def slotOutline (slot : Slot) : Outline := .call "TransportIndex" [.number slot]

def ofName? (name : String) : Option Transport := all.find? (·.name == name)

theorem ofSlot_slot (t : Transport) : ofSlot t.slot = t := by cases t <;> rfl

theorem slot_ofSlot (slot : Slot) : (ofSlot slot).slot = slot := by
  match slot with
  | 0 => rfl
  | 1 => rfl
  | 2 => rfl

end Transport

end RpcMethod
