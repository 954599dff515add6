import RpcMethod.Bytes

/-!
# Archive schemas

An archive holds one record: a root of fixed size at its end, with one head per field, and before
it the bodies that texts and lists keep out of line. This module says which fields there are, what
they hold, and how wide and how aligned their heads are.
-/

namespace RpcMethod.Archive

/-- Numbers of a fixed width; they are aligned to their width. -/
inductive Scalar where
  | byte
  | word32
  | word64
deriving DecidableEq, Repr

namespace Scalar

/-- Bytes that one number takes. -/
def width : Scalar → Nat
  | byte => 1
  | word32 => 4
  | word64 => 8

abbrev Value : Scalar → Type
  | byte => UInt8
  | word32 => UInt32
  | word64 => UInt64

instance : (s : Scalar) → DecidableEq s.Value
  | byte => inferInstanceAs (DecidableEq UInt8)
  | word32 => inferInstanceAs (DecidableEq UInt32)
  | word64 => inferInstanceAs (DecidableEq UInt64)

def toNat : (s : Scalar) → s.Value → Nat
  | byte, v => v.toNat
  | word32, v => v.toNat
  | word64, v => v.toNat

def fromNat : (s : Scalar) → Nat → s.Value
  | byte, n => UInt8.ofNat n
  | word32, n => UInt32.ofNat n
  | word64, n => UInt64.ofNat n

def write (s : Scalar) (v : s.Value) : Bytes := Bytes.ofNat s.width (s.toNat v)

def read (s : Scalar) (bytes : Bytes) : s.Value := s.fromNat (Bytes.toNat bytes)

/-- The numbers one after the other. -/
def writeList (s : Scalar) (vs : List s.Value) : Bytes := vs.flatMap s.write

/-- The first `count` numbers of the bytes. -/
def readList (s : Scalar) : (count : Nat) → Bytes → List s.Value
  | 0, _ => []
  | count + 1, bytes => s.read (bytes.take s.width) :: s.readList count (bytes.drop s.width)

theorem width_pos (s : Scalar) : 0 < s.width := by cases s <;> decide

theorem fromNat_toNat (s : Scalar) (v : s.Value) : s.fromNat (s.toNat v) = v := by
  cases s <;> simp [fromNat, toNat]

theorem length_write (s : Scalar) (v : s.Value) : (s.write v).length = s.width :=
  Bytes.length_ofNat _ _

theorem length_writeList (s : Scalar) (vs : List s.Value) :
    (s.writeList vs).length = vs.length * s.width := by
  induction vs with
  | nil => simp [writeList]
  | cons v vs ih =>
    simp only [writeList, List.flatMap_cons, List.length_append, length_write] at ih ⊢
    rw [ih, List.length_cons, Nat.succ_mul, Nat.add_comm]

end Scalar

/-- What a record's field holds. -/
inductive Field where
  | scalar (s : Scalar)
  | text
  | list (s : Scalar)
deriving DecidableEq, Repr

namespace Field

abbrev Value : Field → Type
  | scalar s => s.Value
  | text => String
  | list s => List s.Value

instance : (field : Field) → DecidableEq field.Value
  | scalar s => inferInstanceAs (DecidableEq s.Value)
  | text => inferInstanceAs (DecidableEq String)
  | list s => inferInstanceAs (DecidableEq (List s.Value))

/-- Bytes that the field's head takes in the root. -/
def width : Field → Nat
  | scalar s => s.width
  | text => 8
  | list _ => 8

/-- The alignment of the field's head. -/
def align : Field → Nat
  | scalar s => s.width
  | text => 4
  | list _ => 4

end Field

/-- The values of a record, field by field. -/
def Record : List Field → Type
  | [] => Unit
  | field :: rest => field.Value × Record rest

instance : (fields : List Field) → DecidableEq (Record fields)
  | [] => inferInstanceAs (DecidableEq Unit)
  | field :: rest =>
    have : DecidableEq (Record rest) := instDecidableEqRecord rest
    inferInstanceAs (DecidableEq (field.Value × Record rest))

/-- The root's size: the heads follow one another without gaps, so a schema lists the fields of
wider alignment first. -/
def rootSize (fields : List Field) : Nat := fields.foldr (fun field size => field.width + size) 0

theorem rootSize_cons (field : Field) (rest : List Field) :
    rootSize (field :: rest) = field.width + rootSize rest := rfl

/-- The root's alignment is that of its most aligned head. -/
def rootAlign (fields : List Field) : Nat := fields.foldr (fun field a => max field.align a) 1

theorem rootAlign_pos (fields : List Field) : 0 < rootAlign fields := by
  induction fields with
  | nil => decide
  | cons field rest ih =>
    have : rootAlign (field :: rest) = max field.align (rootAlign rest) := rfl
    omega

end RpcMethod.Archive
