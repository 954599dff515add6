/-!
Byte strings and the few readings of them that messages need: UTF-8 text, little-endian words,
slices, and the zeros that bring a position to the next multiple of an alignment.
-/

namespace RpcMethod

/-- A message on the wire, or any part of one. -/
abbrev Bytes := List UInt8

namespace Bytes

/-- The UTF-8 form of a text. -/
def ofText (text : String) : Bytes := text.toUTF8.data.toList

/-- The text that the bytes are the UTF-8 form of, if there is one. -/
def text? (bytes : Bytes) : Option String := String.fromUTF8? ⟨bytes.toArray⟩

/-- The `width` low bytes of a number, the lowest first. -/
def ofNat : (width : Nat) → Nat → Bytes
  | 0, _ => []
  | width + 1, n => UInt8.ofNat (n % 256) :: ofNat width (n / 256)

/-- The number whose bytes these are, the lowest first. -/
def toNat : Bytes → Nat
  | [] => 0
  | byte :: rest => byte.toNat + 256 * toNat rest

/-- The signed reading of a 32-bit word: its upper half stands for the negative numbers. -/
def signed32 (word : Nat) : Int :=
  if word < 0x80000000 then word else (word : Int) - 0x100000000

/-- The 32-bit word of a signed number; `none` outside the range of such words. -/
def word32? (n : Int) : Option Nat :=
  if -0x80000000 ≤ n ∧ n < 0x80000000 then some (n % 0x100000000).toNat else none

/-- The `size` bytes from position `start`, or as many of them as there are. -/
def slice (bytes : Bytes) (start size : Nat) : Bytes := (bytes.drop start).take size

def zeros (count : Nat) : Bytes := List.replicate count 0

/-- How far `position` is from the next multiple of `align`. -/
def gap (position align : Nat) : Nat := (align - position % align) % align

theorem length_ofNat (width n : Nat) : (ofNat width n).length = width := by
  induction width generalizing n with
  | zero => rfl
  | succ width ih => simp [ofNat, ih]

@[simp] theorem length_zeros (count : Nat) : (zeros count).length = count :=
  List.length_replicate

/-- The signed reading of a word is its reading in two's complement. -/
theorem signed32_eq_toInt {word : Nat} (h : word < 0x100000000) :
    signed32 word = (BitVec.ofNat 32 word).toInt := by
  rw [BitVec.toInt_eq_toNat_cond, BitVec.toNat_ofNat, Nat.mod_eq_of_lt h, signed32]
  split
  · next low => rw [if_pos (by omega)]
  · next high =>
    rw [if_neg (by omega)]
    rfl

theorem signed32_of_word32? {n : Int} {word : Nat} (h : word32? n = some word) :
    signed32 word = n := by
  unfold word32? at h
  split at h
  · obtain rfl := Option.some.inj h
    unfold signed32
    split <;> omega
  · cases h

/-- A gap is shorter than the alignment and ends on a multiple of it. -/
theorem gap_lt {align : Nat} (position : Nat) (h : 0 < align) : gap position align < align :=
  Nat.mod_lt _ h

theorem add_gap_mod {align : Nat} (position : Nat) (h : 0 < align) :
    (position + gap position align) % align = 0 := by
  have small := Nat.mod_lt position h
  have split := Nat.mod_add_div position align
  unfold gap
  by_cases zero : position % align = 0
  · simp [zero]
  · rw [Nat.mod_eq_of_lt (show align - position % align < align by omega)]
    have whole : position + (align - position % align) = align * (position / align + 1) := by
      rw [Nat.mul_add, Nat.mul_one]
      omega
    rw [whole, Nat.mul_mod_right]

theorem text?_ofText (text : String) : text? (ofText text) = some text := by
  simp only [text?, ofText, String.toUTF8, Array.toArray_toList, String.fromUTF8?]
  exact dif_pos text.isValidUTF8

theorem eq_ofText_of_text? {bytes : Bytes} {text : String} (h : text? bytes = some text) :
    bytes = ofText text := by
  unfold text? String.fromUTF8? at h
  split at h
  · obtain rfl := Option.some.inj h
    simp [ofText, String.toUTF8, String.fromUTF8]
  · cases h

end Bytes

end RpcMethod
