import Mathlib.Algebra.Ring.Int.Defs
import Mathlib.Algebra.Ring.Nat
import RpcMethod.Bytes

/-!
# Laws of byte strings

Texts: every character starts with a byte that continues no other character, an ASCII byte is a
character of its own, and no byte of a text is `0xff`. Numbers: bytes and the number that they stand
for determine each other once the width is fixed. Slices: a part stands at a position exactly when
its pieces stand one after the other.
-/

namespace RpcMethod.Bytes

/-- The byte `10xxxxxx`: in a text it is never the first of a character. -/
def Continues (byte : UInt8) : Prop := byte.toNat / 64 = 2

theorem continues_ofNat (n : Nat) : Continues (UInt8.ofNat (n % 64 + 128)) := by
  have low := Nat.mod_lt n (show 0 < 64 by omega)
  have same : (UInt8.ofNat (n % 64 + 128)).toNat = n % 64 + 128 :=
    UInt8.toNat_ofNat_of_lt' (show n % 64 + 128 < 256 by omega)
  rw [Continues, same]
  omega

/-- The byte may be the first of a character. -/
def Leads (byte : UInt8) : Prop := ¬ Continues byte ∧ byte.toNat < 248

theorem leads_ofNat {n : Nat} (h : n < 128 ∨ 192 ≤ n ∧ n < 248) : Leads (UInt8.ofNat n) := by
  have same : (UInt8.ofNat n).toNat = n := UInt8.toNat_ofNat_of_lt' (show n < 256 by omega)
  rw [Leads, Continues, same]
  omega

theorem encodeChar_shape (c : Char) :
    ∃ lead rest, String.utf8EncodeChar c = lead :: rest ∧ Leads lead ∧
      ∀ byte ∈ rest, Continues byte := by
  have two : ∀ m n, ∀ byte ∈ [UInt8.ofNat (m % 64 + 128), UInt8.ofNat (n % 64 + 128)],
      Continues byte := fun m n =>
    List.forall_mem_cons.mpr ⟨continues_ofNat m, List.forall_mem_singleton.mpr (continues_ofNat n)⟩
  simp only [String.utf8EncodeChar]
  split
  · exact ⟨_, [], rfl, leads_ofNat (by omega), List.forall_mem_nil _⟩
  · split
    · exact ⟨_, _, rfl, leads_ofNat (by omega), List.forall_mem_singleton.mpr (continues_ofNat _)⟩
    · split
      · exact ⟨_, _, rfl, leads_ofNat (by omega), two _ _⟩
      · exact ⟨_, _, rfl, leads_ofNat (by omega),
          List.forall_mem_cons.mpr ⟨continues_ofNat _, two _ _⟩⟩

/-- A text is written character by character. -/
theorem ofText_eq_flatMap (text : String) :
    ofText text = text.toList.flatMap String.utf8EncodeChar := by
  have whole : text.toByteArray = text.toList.utf8Encode := String.utf8Encode_toList.symm
  rw [ofText, String.toUTF8, whole, List.utf8Encode, List.toList_data_toByteArray]

theorem ofText_append (a b : String) : ofText (a ++ b) = ofText a ++ ofText b := by
  simp only [ofText_eq_flatMap, String.toList_append, List.flatMap_append]

/-- Characters beyond ASCII have no ASCII bytes. -/
theorem high_of_mem_encodeChar {c : Char} (wide : ¬ c.val.toNat ≤ 127) :
    ∀ byte ∈ String.utf8EncodeChar c, 128 ≤ byte.toNat := by
  have high : ∀ {n : Nat}, 128 ≤ n ∧ n < 256 → 128 ≤ (UInt8.ofNat n).toNat := by
    intro n bounds
    rw [UInt8.toNat_ofNat_of_lt' bounds.2]
    exact bounds.1
  simp only [String.utf8EncodeChar, if_neg wide]
  split
  · simp only [List.forall_mem_cons]
    exact ⟨high (by omega), high (by omega), List.forall_mem_nil _⟩
  · split
    · simp only [List.forall_mem_cons]
      exact ⟨high (by omega), high (by omega), high (by omega), List.forall_mem_nil _⟩
    · simp only [List.forall_mem_cons]
      exact ⟨high (by omega), high (by omega), high (by omega), high (by omega),
        List.forall_mem_nil _⟩

/-- An ASCII byte of a text is a character of it and no part of another one. -/
theorem mem_toList_of_mem_ofText {text : String} {c : Char} (ascii : c.toNat < 128)
    (h : UInt8.ofNat c.toNat ∈ ofText text) : c ∈ text.toList := by
  have byte : (UInt8.ofNat c.toNat).toNat = c.toNat :=
    UInt8.toNat_ofNat_of_lt' (show c.toNat < 256 by omega)
  rw [ofText_eq_flatMap] at h
  obtain ⟨d, there, part⟩ := List.mem_flatMap.mp h
  by_cases single : d.val.toNat ≤ 127
  · rw [String.utf8EncodeChar, if_pos single, List.mem_singleton] at part
    have same : c.toNat = d.toNat := by
      rw [← byte, part]
      exact UInt8.toNat_ofNat_of_lt' (show d.val.toNat < 256 by omega)
    rwa [← Char.ofNat_toNat c, same, Char.ofNat_toNat]
  · have high := high_of_mem_encodeChar single _ part
    omega

theorem ne_filler_of_mem_ofText {text : String} {byte : UInt8} (h : byte ∈ ofText text) :
    byte ≠ 0xff := by
  rw [ofText_eq_flatMap] at h
  obtain ⟨c, _, hbyte⟩ := List.mem_flatMap.mp h
  obtain ⟨lead, rest, written, start, continued⟩ := encodeChar_shape c
  rw [written] at hbyte
  intro filler
  subst filler
  rcases List.mem_cons.mp hbyte with first | later
  · rw [← first] at start
    exact absurd start.2 (by decide)
  · have bad : (0xff : UInt8).toNat / 64 = 2 := continued _ later
    exact absurd bad (by decide)

theorem not_continues_of_ofText {text : String} {first : UInt8} {rest : Bytes}
    (h : ofText text = first :: rest) : ¬ Continues first := by
  rw [ofText_eq_flatMap] at h
  cases chars : text.toList with
  | nil =>
    rw [chars] at h
    cases h
  | cons c others =>
    obtain ⟨lead, tail, written, start, _⟩ := encodeChar_shape c
    rw [chars, List.flatMap_cons, written, List.cons_append] at h
    obtain ⟨rfl, _⟩ := List.cons.inj h
    exact start.1

theorem text?_eq_some_iff {bytes : Bytes} {text : String} :
    text? bytes = some text ↔ bytes = ofText text := by
  constructor
  · exact eq_ofText_of_text?
  · intro h
    rw [h, text?_ofText]

theorem length_ofText (text : String) : (ofText text).length = text.utf8ByteSize := rfl

theorem toNat_lt (bytes : Bytes) : toNat bytes < 256 ^ bytes.length := by
  induction bytes with
  | nil => exact Nat.one_pos
  | cons byte rest ih =>
    have low := byte.toNat_lt
    rw [toNat, List.length_cons, Nat.pow_succ]
    omega

/-- Bytes are the number that they stand for, written in as many bytes. -/
theorem ofNat_toNat (bytes : Bytes) : ofNat bytes.length (toNat bytes) = bytes := by
  induction bytes with
  | nil => rfl
  | cons byte rest ih =>
    have low := byte.toNat_lt
    have first : (byte.toNat + 256 * toNat rest) % 256 = byte.toNat := by omega
    have others : (byte.toNat + 256 * toNat rest) / 256 = toNat rest := by omega
    rw [toNat, List.length_cons, ofNat, first, others, ih, UInt8.ofNat_toNat]

theorem toNat_ofNat (width n : Nat) : toNat (ofNat width n) = n % 256 ^ width := by
  induction width generalizing n with
  | zero => simp [ofNat, toNat, Nat.mod_one]
  | succ width ih =>
    have byte : (UInt8.ofNat (n % 256)).toNat = n % 256 := by simp
    rw [ofNat, toNat, ih, byte, Nat.pow_succ, Nat.mul_comm (256 ^ width), Nat.mod_mul]

theorem toNat_ofNat_of_lt {width n : Nat} (h : n < 256 ^ width) : toNat (ofNat width n) = n := by
  rw [toNat_ofNat, Nat.mod_eq_of_lt h]

theorem eq_ofNat_iff {width n : Nat} {bytes : Bytes} (h : n < 256 ^ width) :
    bytes = ofNat width n ↔ bytes.length = width ∧ toNat bytes = n := by
  constructor
  · intro same
    rw [same]
    exact ⟨length_ofNat width n, toNat_ofNat_of_lt h⟩
  · rintro ⟨rfl, rfl⟩
    exact (ofNat_toNat bytes).symm

/-- The four bytes of a signed number. -/
def Signed (n : Int) (bytes : Bytes) : Prop := bytes.length = 4 ∧ signed32 (toNat bytes) = n

theorem exists_word32? {n : Int} (low : -2 ^ 31 ≤ n) (high : n < 2 ^ 31) :
    ∃ word, word32? n = some word :=
  ⟨_, if_pos ⟨low, high⟩⟩

theorem word32?_bounds {n : Int} {word : Nat} (h : word32? n = some word) :
    -2 ^ 31 ≤ n ∧ n < 2 ^ 31 ∧ word < 2 ^ 32 := by
  rw [word32?] at h
  split at h
  · next bounds =>
    obtain rfl := Option.some.inj h
    exact ⟨bounds.1, bounds.2, by omega⟩
  · cases h

theorem signed_of_word32? {n : Int} {word : Nat} (h : word32? n = some word) :
    Signed n (ofNat 4 word) := by
  have small : word < 256 ^ 4 := (word32?_bounds h).2.2
  refine ⟨length_ofNat 4 word, ?_⟩
  rw [toNat_ofNat_of_lt small]
  exact signed32_of_word32? h

/-- The gap leads to the first aligned position, and so to none behind another aligned one. -/
theorem add_gap_le {position bound align : Nat} (pos : 0 < align) (le : position ≤ bound)
    (aligned : bound % align = 0) : position + gap position align ≤ bound := by
  have short := gap_lt position pos
  have whole := Nat.dvd_of_mod_eq_zero (add_gap_mod position pos)
  by_cases beyond : bound < position + gap position align
  · have step := Nat.le_of_dvd (by omega) (Nat.dvd_sub whole (Nat.dvd_of_mod_eq_zero aligned))
    omega
  · omega

/-- The first multiple of `align` that is not below `n`. -/
def roundUp (n align : Nat) : Nat := (n + align - 1) / align * align

theorem add_gap_eq_roundUp (position : Nat) {align : Nat} (pos : 0 < align) :
    position + gap position align = roundUp position align := by
  have short := gap_lt position pos
  have reached : position ≤ roundUp position align := by
    have within := Nat.div_add_mod (position + align - 1) align
    have rest := Nat.mod_lt (position + align - 1) pos
    rw [Nat.mul_comm] at within
    rw [roundUp]
    omega
  apply Nat.le_antisymm
  · exact add_gap_le pos reached (Nat.mul_mod_left _ align)
  · obtain ⟨count, whole⟩ := Nat.dvd_of_mod_eq_zero (add_gap_mod position pos)
    rw [whole, Nat.mul_comm align, roundUp]
    apply Nat.mul_le_mul_right
    apply Nat.le_of_lt_succ
    rw [Nat.div_lt_iff_lt_mul pos, Nat.succ_mul, Nat.mul_comm count, ← whole]
    omega

theorem length_slice {input : Bytes} {start size : Nat} (h : start + size ≤ input.length) :
    (slice input start size).length = size := by
  rw [slice, List.length_take, List.length_drop]
  omega

theorem slice_add (input : Bytes) (start first second : Nat) :
    slice input start (first + second) =
      slice input start first ++ slice input (start + first) second := by
  rw [slice, List.take_add, List.drop_drop, slice, slice]

/-- The part stands in the input at the position. -/
def At (input : Bytes) (position : Nat) (part : Bytes) : Prop :=
  slice input position part.length = part

/-- A part that stands at a position is what is cut out there. -/
theorem slice_of_at {input part : Bytes} {position size : Nat} (stands : At input position part)
    (h : part.length = size) : slice input position size = part := by
  rw [← h]
  exact stands

theorem at_append {input : Bytes} {position : Nat} {first second : Bytes} :
    At input position (first ++ second) ↔
      At input position first ∧ At input (position + first.length) second := by
  rw [At, At, At, List.length_append, slice_add]
  constructor
  · intro h
    have total := congrArg List.length h
    simp only [List.length_append, slice, List.length_take] at total
    exact List.append_inj h (by rw [slice, List.length_take]; omega)
  · rintro ⟨left, right⟩
    rw [left, right]

theorem at_self (bytes : Bytes) : At bytes 0 bytes := by
  rw [At, slice, List.drop_zero, List.take_length]

theorem at_slice {input : Bytes} {start size : Nat} (h : start + size ≤ input.length) :
    At input start (slice input start size) := by
  rw [At, length_slice h]

theorem At.take_add {input part : Bytes} {position : Nat} (h : At input position part) :
    input.take (position + part.length) = input.take position ++ part := by
  have cut : (input.drop position).take part.length = part := h
  rw [List.take_add, cut]

theorem exists_take_append (input : Bytes) {start stop : Nat} (h : start ≤ stop) :
    ∃ between, input.take stop = input.take start ++ between := by
  have whole : stop = start + (stop - start) := by omega
  rw [whole, List.take_add]
  exact ⟨_, rfl⟩

/-- Bytes in front move every place by their number. -/
theorem slice_append_left (front input : Bytes) (start size : Nat) :
    slice (front ++ input) (front.length + start) size = slice input start size := by
  simp [slice, List.drop_length_add_append]

theorem At.append_left {input part : Bytes} {position : Nat} (h : At input position part)
    (front : Bytes) : At (front ++ input) (front.length + position) part := by
  simpa [At, slice_append_left] using h

/-- The last 24 bytes, eight by eight. -/
theorem drop_eq_slices {input : Bytes} {start : Nat} (h : input.length = start + 24) :
    input.drop start =
      slice input start 8 ++ slice input (start + 8) 8 ++ slice input (start + 16) 8 := by
  have whole : slice input start (8 + 8 + 8) = input.drop start :=
    List.take_of_length_le (by rw [List.length_drop]; omega)
  rw [← whole, slice_add, slice_add]

end RpcMethod.Bytes
