import RpcMethod.Archive.Writer

/-!
# Reading archives

A reader trusts nothing: the root has to lie aligned at the end of the input, and each body has to
lie aligned in the window between the end of the body before it and the root. So bodies neither
overlap nor swap places, and whatever else is in the input is ignored. Reading is strict about
what a head says and blind to the gaps.
-/

namespace RpcMethod.Archive

/-- The positions that are still free for bodies: from `lo` up to but not including `hi`. -/
structure Window where
  lo : Nat
  hi : Nat
deriving DecidableEq, Repr

/-- A part of `size` bytes may start at a position if it lies in the window and is aligned; the
position comes from a head and may be anything. -/
def Window.Admits (window : Window) (position : Int) (size align : Nat) : Prop :=
  (window.lo : Int) ≤ position ∧ position + size ≤ window.hi ∧ position % align = 0

instance (window : Window) (position : Int) (size align : Nat) :
    Decidable (window.Admits position size align) :=
  inferInstanceAs (Decidable (_ ∧ _ ∧ _))

/-- Cuts a part out of the input and moves the window past it. -/
def Window.take? (window : Window) (input : Bytes) (position : Int) (size align : Nat) :
    Option (Bytes × Window) :=
  if window.Admits position size align then
    let start := position.toNat
    some (Bytes.slice input start size, { window with lo := start + size })
  else none

/-- The distance that a word of a head gives, from the four bytes at an offset of the head. -/
def headDistance (head : Bytes) (offset : Nat) : Int :=
  Bytes.signed32 (Bytes.toNat (Bytes.slice head offset 4))

/-- The length packed into a text's word, undoing `lengthWord`. -/
def wordLength (word : Nat) : Nat := word % 64 + word / 256 * 64

/-- Whether the head of a text says that the text has a body. -/
def isMarked (head : Bytes) : Bool := (head.headD 0).toNat / 64 == 2

/-- What a field holds whose head is at address `here`, and the window left for later bodies. -/
def Field.read? (input : Bytes) :
    (field : Field) → (here : Nat) → Window → Option (field.Value × Window)
  | .scalar s, here, window => some (s.read (Bytes.slice input here s.width), window)
  | .text, here, window => do
    let head := Bytes.slice input here 8
    if isMarked head then
      let length := wordLength (Bytes.toNat (head.take 4))
      if length ≤ inlineLimit then none
      let (content, window) ← window.take? input (here + headDistance head 4) length 1
      return (← Bytes.text? content, window)
    else
      return (← Bytes.text? (head.takeWhile (· ≠ 0xff)), window)
  | .list s, here, window => do
    let head := Bytes.slice input here 8
    let count := Bytes.toNat (head.drop 4)
    let (content, window) ←
      window.take? input (here + headDistance head 0) (count * s.width) s.width
    return (s.readList count content, window)

/-- The fields of a record, the head of the first at address `here`. -/
def fields? (input : Bytes) :
    (fields : List Field) → (here : Nat) → Window → Option (Record fields)
  | [], _, _ => some ()
  | field :: rest, here, window => do
    let (v, window) ← field.read? input here window
    let vs ← fields? input rest (here + field.width) window
    return (v, vs)

/-- The record of an archive; `none` if the input is not one. The root is looked for at the very
end, and the bodies have to lie before it. -/
def decode? (fields : List Field) (input : Bytes) : Option (Record fields) :=
  let size := rootSize fields
  let root := input.length - size
  if (Window.mk 0 input.length).Admits root size (rootAlign fields) then
    fields? input fields root ⟨0, root⟩
  else none

theorem wordLength_lengthWord (length : Nat) : wordLength (lengthWord length) = length := by
  unfold wordLength lengthWord
  omega

/-- A part that was cut out has the size asked for and lies in the window, and the window shrinks
to what lies behind it. -/
theorem Window.take?_eq_some {window window' : Window} {input content : Bytes} {position : Int}
    {size align : Nat} (h : window.take? input position size align = some (content, window')) :
    window.Admits position size align ∧ content = Bytes.slice input position.toNat size ∧
      window' = ⟨position.toNat + size, window.hi⟩ := by
  unfold Window.take? at h
  split at h
  · next admits =>
    obtain ⟨rfl, rfl⟩ := Prod.mk.inj (Option.some.inj h)
    exact ⟨admits, rfl, rfl⟩
  · cases h

end RpcMethod.Archive
