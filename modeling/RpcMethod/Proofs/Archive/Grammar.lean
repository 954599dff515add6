import RpcMethod.Proofs.Archive.Placement

/-!
# The grammar of two-part archives

An archive with a number, a text and a list is a concatenation: junk, the text's body, junk, the
list's items, junk, and a root of 24 bytes. No address occurs in it but the distances that its heads
spell out. `isArchive_iff_grammar` says that this is all that the reader looks for.
-/

namespace RpcMethod.Archive

/-- The word in the head of a text with a body of `length` bytes: the six low bits of the length
below the mark `10`, and its other bits above the mark. -/
def packedLength (length : Nat) : UInt32 :=
  let word := UInt32.ofNat length
  (word &&& (0x3f : UInt32)) ||| 0x80 ||| ((word &&& ~~~(0x3f : UInt32)) <<< (2 : UInt32))

/-- A text with a head at address `here`: it stands in the head, and the body is empty, or it is
the body, and the head has its packed length, which is one of thirty bits, and the distance to the
body's `start`. -/
def TextForm (text : String) (start here : Nat) (body head : Bytes) : Prop :=
  (body = [] ∧ InlineHead (Bytes.ofText text) head) ∨
    (body = Bytes.ofText text ∧ 8 < body.length ∧ body.length < 2 ^ 30 ∧
      ∃ pointer, Bytes.Signed (start - here) pointer ∧
        head = Scalar.word32.write (packedLength body.length) ++ pointer)

/-- The archives of a number, a text and a list, as concatenations. -/
def Grammar (s : Scalar) (id : UInt64) (text : String) (items : List s.Value) (bytes : Bytes) :
    Prop :=
  ∃ (junk₁ body junk₂ junk₃ head pointer : Bytes) (start root : Nat),
    bytes = junk₁ ++ body ++ junk₂ ++ s.writeList items ++ junk₃ ++
      (Scalar.word64.write id ++ head ++ (pointer ++ Bytes.ofNat 4 items.length)) ∧
    start = (junk₁ ++ body ++ junk₂).length ∧ start % s.width = 0 ∧
    root = (junk₁ ++ body ++ junk₂ ++ s.writeList items ++ junk₃).length ∧ root % 8 = 0 ∧
    TextForm text junk₁.length (root + 8) body head ∧
    Bytes.Signed (start - (root + 16)) pointer ∧ items.length < 2 ^ 32

theorem and_upper_bits {n : Nat} (h : n < 2 ^ 32) : n &&& 0xffffffc0 = (n / 64) <<< 6 := by
  have mask : 0xffffffc0 = (2 ^ 26 - 1) <<< 6 := by decide
  apply Nat.eq_of_testBit_eq
  intro i
  rw [mask, Nat.testBit_and, Nat.testBit_shiftLeft, Nat.testBit_shiftLeft,
    Nat.testBit_two_pow_sub_one, show 64 = 2 ^ 6 from rfl, Nat.testBit_div_two_pow]
  by_cases low : 6 ≤ i
  · by_cases high : i < 32
    · have inside : i - 6 < 26 := by omega
      have same : i - 6 + 6 = i := by omega
      simp [low, inside, same]
    · have none : n.testBit i = false :=
        Nat.testBit_lt_two_pow (Nat.lt_of_lt_of_le h (Nat.pow_le_pow_right (by omega) (by omega)))
      have same : i - 6 + 6 = i := by omega
      simp [none, same]
  · simp [low]

theorem lengthWord_eq_or (length : Nat) :
    lengthWord length = length % 64 ||| 128 ||| (length / 64) <<< 8 := by
  have low := Nat.mod_lt length (show 0 < 64 by omega)
  have inner : length % 64 ||| 128 = 128 + length % 64 := by
    rw [Nat.or_comm]
    exact (Nat.two_pow_add_eq_or_of_lt (i := 7) (by omega) 1).symm
  have outer := Nat.shiftLeft_add_eq_or_of_lt (i := 8) (b := 128 + length % 64) (by omega)
    (length / 64)
  rw [inner, Nat.or_comm, ← outer, Nat.shiftLeft_eq, lengthWord]
  omega

theorem toNat_packedLength {length : Nat} (h : length < 2 ^ 30) :
    (packedLength length).toNat = lengthWord length := by
  have word : (UInt32.ofNat length).toNat = length :=
    UInt32.toNat_ofNat_of_lt' (show length < 2 ^ 32 by omega)
  have low : length &&& 0x3f = length % 64 := Nat.and_two_pow_sub_one_eq_mod length 6
  have mask : (~~~(0x3f : UInt32)).toNat = 0xffffffc0 := by decide
  have high : ((length / 64) <<< 6) <<< 2 % 2 ^ 32 = (length / 64) <<< 8 := by
    simp only [Nat.shiftLeft_eq]
    omega
  rw [lengthWord_eq_or, packedLength]
  simp only [UInt32.toNat_or, UInt32.toNat_and, UInt32.toNat_shiftLeft, word, mask,
    and_upper_bits (show length < 2 ^ 32 by omega)]
  rw [← low, ← high]
  rfl

variable {s : Scalar} {id : UInt64} {text : String} {items : List s.Value} {bytes : Bytes}

theorem linkedHead_iff_packed {length : Nat} {distance : Int} {head : Bytes} :
    LinkedHead length distance head ↔
      8 < length ∧ length < 2 ^ 30 ∧ ∃ pointer, Bytes.Signed distance pointer ∧
        head = Scalar.word32.write (packedLength length) ++ pointer := by
  have same (fits : length < 2 ^ 30) :
      Scalar.word32.write (packedLength length) = Bytes.ofNat 4 (lengthWord length) :=
    congrArg (Bytes.ofNat 4) (toNat_packedLength fits)
  constructor
  · rintro ⟨long, fits, named⟩
    rw [← same fits] at named
    exact ⟨long, fits, named⟩
  · rintro ⟨long, fits, named⟩
    rw [same fits] at named
    exact ⟨long, fits, named⟩

/-- A text that is held has its form, and a body where the window starts again. -/
theorem form_of_holds {here root : Nat} {rest : Window}
    (h : Field.Holds bytes .text text here ⟨0, root⟩ rest) :
    ∃ first body, TextForm text first here body (Bytes.slice bytes here 8) ∧
      Bytes.At bytes first body ∧ rest = ⟨first + body.length, root⟩ := by
  rcases h with ⟨head, rfl⟩ | ⟨start, head, lies⟩
  · exact ⟨0, [], Or.inl ⟨rfl, head⟩, rfl, rfl⟩
  · exact ⟨start, Bytes.ofText text, Or.inr ⟨rfl, linkedHead_iff_packed.mp head⟩, lies.stands,
      lies.behind⟩

/-- Where an empty body stands does not matter: the window then starts at the very beginning. -/
theorem holds_of_form {first here root : Nat} {body : Bytes}
    (form : TextForm text first here body (Bytes.slice bytes here 8))
    (stands : Bytes.At bytes first body) (before : first + body.length ≤ root) :
    ∃ lo, lo ≤ first + body.length ∧ Field.Holds bytes .text text here ⟨0, root⟩ ⟨lo, root⟩ := by
  rcases form with ⟨rfl, head⟩ | ⟨rfl, head⟩
  · exact ⟨0, Nat.zero_le _, Or.inl ⟨head, rfl⟩⟩
  · refine ⟨_, Nat.le_refl _, Or.inr ⟨first, linkedHead_iff_packed.mpr head, ?_⟩⟩
    exact ⟨Nat.mod_one first, Nat.zero_le first, before, stands, rfl⟩

/-- The fields of a number, a text and a list. -/
abbrev twoPart (s : Scalar) : List Field := [.scalar .word64, .text, .list s]

theorem grammar_of_isArchive (h : IsArchive (twoPart s) (id, text, items, ()) bytes) :
    Grammar s id text items bytes := by
  obtain ⟨root, length, aligned, _, ⟨number, rfl⟩, _, held, _,
    ⟨start, ⟨count, pointer, signed, head⟩, lies⟩, _⟩ := h
  obtain ⟨first, body, form, stands, rfl⟩ := form_of_holds held
  have after : first + body.length ≤ start := lies.after
  have before : start + (s.writeList items).length ≤ root := lies.before
  have size : bytes.length = root + 24 := length
  have junk₁ : (bytes.take first).length = first := by
    rw [List.length_take]
    omega
  obtain ⟨junk₂, toList⟩ := Bytes.exists_take_append bytes after
  obtain ⟨junk₃, toRoot⟩ := Bytes.exists_take_append bytes before
  rw [stands.take_add] at toList
  rw [lies.stands.take_add, toList] at toRoot
  have heads : bytes.drop root = Scalar.word64.write id ++ Bytes.slice bytes (root + 8) 8 ++
      (pointer ++ Bytes.ofNat 4 items.length) := by
    rw [← number, ← head]
    exact Bytes.drop_eq_slices size
  refine ⟨bytes.take first, body, junk₂, junk₃, Bytes.slice bytes (root + 8) 8, pointer, start,
    root, ?_, ?_, lies.aligned, ?_, aligned, ?_, signed, count⟩
  · rw [← toRoot, ← heads, List.take_append_drop]
  · rw [← toList, List.length_take]
    omega
  · rw [← toRoot, List.length_take]
    omega
  · rw [junk₁]
    exact form

/-- The head of a text is eight bytes wide in both forms. -/
theorem TextForm.length_head {start here : Nat} {body head : Bytes}
    (form : TextForm text start here body head) : head.length = 8 := by
  rcases form with ⟨_, head⟩ | ⟨_, _, _, pointer, signed, rfl⟩
  · exact head.1
  · rw [List.length_append, signed.1, Scalar.length_write]
    rfl

theorem isArchive_of_grammar (h : Grammar s id text items bytes) :
    IsArchive (twoPart s) (id, text, items, ()) bytes := by
  obtain ⟨junk₁, body, junk₂, junk₃, head, pointer, start, root, whole, hstart, startAligned, hroot,
    rootAligned, form, signed, count⟩ := h
  have headed := form.length_head
  have numbered : (Scalar.word64.write id).length = 8 := Scalar.length_write .word64 id
  have counted : (pointer ++ Bytes.ofNat 4 items.length).length = 8 := by
    rw [List.length_append, signed.1, Bytes.length_ofNat]
  have all : Bytes.At bytes 0 _ := (congrArg (Bytes.At bytes 0) whole).mp (Bytes.at_self bytes)
  obtain ⟨front, heads⟩ := Bytes.at_append.mp all
  obtain ⟨front, _⟩ := Bytes.at_append.mp front
  obtain ⟨front, list⟩ := Bytes.at_append.mp front
  obtain ⟨front, _⟩ := Bytes.at_append.mp front
  obtain ⟨_, text⟩ := Bytes.at_append.mp front
  rw [Nat.zero_add, ← hroot] at heads
  rw [Nat.zero_add, ← hstart] at list
  rw [Nat.zero_add] at text
  obtain ⟨heads, listHead⟩ := Bytes.at_append.mp heads
  obtain ⟨number, textHead⟩ := Bytes.at_append.mp heads
  rw [List.length_append, numbered, headed] at listHead
  rw [numbered] at textHead
  have length := congrArg List.length whole
  rw [List.length_append, ← hroot] at length
  simp only [List.length_append, numbered, headed, signed.1, Bytes.length_ofNat] at length
  simp only [List.length_append] at hstart hroot
  rw [← Bytes.slice_of_at textHead headed] at form
  have before : junk₁.length + body.length ≤ root := by omega
  obtain ⟨lo, after, holds⟩ := holds_of_form form text before
  have lies : Lies bytes (s.writeList items) start s.width ⟨lo, root⟩
      ⟨start + (s.writeList items).length, root⟩ :=
    ⟨startAligned, by dsimp only; omega, by dsimp only; omega, list, rfl⟩
  have held := Bytes.slice_of_at listHead counted
  refine ⟨root, length, rootAligned, _, ⟨Bytes.slice_of_at number numbered, rfl⟩, _, holds, _,
    ⟨start, ⟨count, pointer, signed, held⟩, lies⟩, trivial⟩

/-- The archives of a number, a text and a list are their concatenations. -/
theorem isArchive_iff_grammar :
    IsArchive (twoPart s) (id, text, items, ()) bytes ↔ Grammar s id text items bytes :=
  ⟨grammar_of_isArchive, isArchive_of_grammar⟩

end RpcMethod.Archive
