import RpcMethod.Archive.Schema

/-!
# Messages

The message types that methods carry, their values, and the records that stand for the values in
archives. Packing a value into a record and unpacking it are inverse to each other.
-/

namespace RpcMethod

/-- An order for quantities of what a symbol stands for. -/
structure Order where
  id : UInt64
  symbol : String
  quantities : List UInt32
deriving DecidableEq, Repr

structure Greeting where
  name : String
deriving DecidableEq, Repr

/-- The message that throughput is measured with. -/
structure Bench where
  id : UInt64
  name : String
  payload : Bytes
deriving DecidableEq, Repr

inductive MessageType where
  | bytes
  | unit
  | text
  | word32
  | order
  | greeting
  | bench
deriving DecidableEq, Repr

namespace MessageType

abbrev Value : MessageType → Type
  | bytes => Bytes
  | unit => Unit
  | text => String
  | word32 => UInt32
  | order => Order
  | greeting => Greeting
  | bench => Bench

instance : (t : MessageType) → DecidableEq t.Value
  | bytes => inferInstanceAs (DecidableEq Bytes)
  | unit => inferInstanceAs (DecidableEq Unit)
  | text => inferInstanceAs (DecidableEq String)
  | word32 => inferInstanceAs (DecidableEq UInt32)
  | order => inferInstanceAs (DecidableEq Order)
  | greeting => inferInstanceAs (DecidableEq Greeting)
  | bench => inferInstanceAs (DecidableEq Bench)

/-- The fields that a message has in an archive. -/
def fields : MessageType → List Archive.Field
  | bytes => [.list .byte]
  | unit => []
  | text => [.text]
  | word32 => [.scalar .word32]
  | order => [.scalar .word64, .text, .list .word32]
  | greeting => [.text]
  | bench => [.scalar .word64, .text, .list .byte]

/-- The record of a message. -/
def pack : (t : MessageType) → t.Value → Archive.Record t.fields
  | bytes, v => (v, ())
  | unit, _ => ()
  | text, v => (v, ())
  | word32, v => (v, ())
  | order, v => (v.id, v.symbol, v.quantities, ())
  | greeting, v => (v.name, ())
  | bench, v => (v.id, v.name, v.payload, ())

/-- The message of a record. -/
def unpack : (t : MessageType) → Archive.Record t.fields → t.Value
  | bytes, (v, _) => v
  | unit, _ => ()
  | text, (v, _) => v
  | word32, (v, _) => v
  | order, (id, symbol, quantities, _) => ⟨id, symbol, quantities⟩
  | greeting, (name, _) => ⟨name⟩
  | bench, (id, name, payload, _) => ⟨id, name, payload⟩

theorem unpack_pack (t : MessageType) (v : t.Value) : t.unpack (t.pack v) = v := by
  cases t <;> rfl

theorem pack_unpack (t : MessageType) (r : Archive.Record t.fields) : t.pack (t.unpack r) = r := by
  cases t <;> rfl

end MessageType

end RpcMethod
