import RpcMethod.Archive.Reader
import RpcMethod.Proofs.Bytes

/-!
# Where the parts of an archive lie

The reader follows distances through a shrinking window. Here an archive is described without a
reader: which heads stand in the root, and where their bodies stand before it. The two descriptions
agree, for every input (`decode?_eq_some_iff`).
-/

namespace RpcMethod.Archive

namespace Scalar

theorem toNat_lt (s : Scalar) (v : s.Value) : s.toNat v < 256 ^ s.width := by
  cases s
  · exact UInt8.toNat_lt v
  · exact UInt32.toNat_lt v
  · exact UInt64.toNat_lt v

theorem toNat_fromNat (s : Scalar) {n : Nat} (h : n < 256 ^ s.width) : s.toNat (s.fromNat n) = n := by
  cases s
  · exact UInt8.toNat_ofNat_of_lt' h
  · exact UInt32.toNat_ofNat_of_lt' h
  · exact UInt64.toNat_ofNat_of_lt' h

theorem read_write (s : Scalar) (v : s.Value) : s.read (s.write v) = v := by
  rw [read, write, Bytes.toNat_ofNat, Nat.mod_eq_of_lt (s.toNat_lt v), fromNat_toNat]

theorem write_read (s : Scalar) {bytes : Bytes} (h : bytes.length = s.width) :
    s.write (s.read bytes) = bytes := by
  have small : Bytes.toNat bytes < 256 ^ s.width := h ▸ Bytes.toNat_lt bytes
  rw [write, read, s.toNat_fromNat small, ← h, Bytes.ofNat_toNat]

/-- Reading back as many numbers as were written gives them, whatever follows. -/
theorem readList_writeList (s : Scalar) (vs : List s.Value) (rest : Bytes) :
    s.readList vs.length (s.writeList vs ++ rest) = vs := by
  induction vs with
  | nil => rfl
  | cons v vs ih =>
    have whole : s.writeList (v :: vs) ++ rest = s.write v ++ (s.writeList vs ++ rest) := by
      simp [writeList]
    rw [List.length_cons, readList, whole, List.take_left' (s.length_write v),
      List.drop_left' (s.length_write v), read_write, ih]

theorem length_readList (s : Scalar) (count : Nat) (bytes : Bytes) :
    (s.readList count bytes).length = count := by
  induction count generalizing bytes with
  | zero => rfl
  | succ count ih => rw [readList, List.length_cons, ih]

theorem writeList_readList (s : Scalar) {count : Nat} {bytes : Bytes}
    (h : bytes.length = count * s.width) : s.writeList (s.readList count bytes) = bytes := by
  induction count generalizing bytes with
  | zero =>
    have none : bytes = [] := List.eq_nil_of_length_eq_zero (by omega)
    rw [none]
    rfl
  | succ count ih =>
    rw [Nat.succ_mul] at h
    have first : (bytes.take s.width).length = s.width := by
      rw [List.length_take]
      omega
    have others : (bytes.drop s.width).length = count * s.width := by
      rw [List.length_drop]
      omega
    have rest := ih others
    rw [writeList] at rest
    rw [readList, writeList, List.flatMap_cons, rest, s.write_read first, List.take_append_drop]

/-- Reading a list and writing it are inverse to each other. -/
theorem readList_eq_iff (s : Scalar) {count : Nat} {bytes : Bytes} {items : List s.Value}
    (h : bytes.length = count * s.width) :
    s.readList count bytes = items ↔ items.length = count ∧ bytes = s.writeList items := by
  constructor
  · intro read
    rw [← read]
    exact ⟨s.length_readList count bytes, (s.writeList_readList h).symm⟩
  · rintro ⟨rfl, rfl⟩
    have back := s.readList_writeList items []
    rwa [List.append_nil] at back

end Scalar

/-- The head holds a text itself, and a `0xff` and anything in the room that the text leaves. -/
def InlineHead (content head : Bytes) : Prop :=
  head.length = 8 ∧ (head = content ∨ ∃ rest, head = content ++ 0xff :: rest)

/-- The head names a body by its packed length and its distance. -/
def LinkedHead (length : Nat) (distance : Int) (head : Bytes) : Prop :=
  inlineLimit < length ∧ length < 2 ^ 30 ∧
    ∃ pointer, Bytes.Signed distance pointer ∧
      head = Bytes.ofNat 4 (lengthWord length) ++ pointer

/-- The head names a list by its distance and the number of its items. -/
def ListHead (count : Nat) (distance : Int) (head : Bytes) : Prop :=
  count < 2 ^ 32 ∧
    ∃ pointer, Bytes.Signed distance pointer ∧ head = pointer ++ Bytes.ofNat 4 count

theorem isMarked_iff {head : Bytes} : isMarked head = true ↔ Bytes.Continues (head.headD 0) := by
  rw [isMarked, beq_iff_eq, Bytes.Continues]

theorem all_ne_filler (text : String) : ∀ byte ∈ Bytes.ofText text, decide (byte ≠ 0xff) = true := by
  intro byte mem
  exact decide_eq_true (Bytes.ne_filler_of_mem_ofText mem)

theorem takeWhile_filled (text : String) (rest : Bytes) :
    (Bytes.ofText text ++ 0xff :: rest).takeWhile (· ≠ 0xff) = Bytes.ofText text := by
  have all := all_ne_filler text
  rw [List.takeWhile_append_of_pos all, List.takeWhile_cons_of_neg (by simp), List.append_nil]

theorem takeWhile_whole (text : String) :
    (Bytes.ofText text).takeWhile (· ≠ 0xff) = Bytes.ofText text := by
  have cut : (Bytes.ofText text ++ []).takeWhile (· ≠ 0xff) =
      Bytes.ofText text ++ [].takeWhile (· ≠ 0xff) :=
    List.takeWhile_append_of_pos (all_ne_filler text)
  rwa [List.takeWhile_nil, List.append_nil] at cut

/-- What is left of a head behind its text is nothing, or starts with the filler. -/
theorem filled_of_takeWhile {content head : Bytes} (h : head.takeWhile (· ≠ 0xff) = content) :
    head = content ∨ ∃ rest, head = content ++ 0xff :: rest := by
  have whole := List.takeWhile_append_dropWhile (p := (· ≠ 0xff)) (l := head)
  rw [h] at whole
  cases left : head.dropWhile (· ≠ 0xff) with
  | nil =>
    rw [left, List.append_nil] at whole
    exact Or.inl whole.symm
  | cons byte rest =>
    have stop := List.head?_dropWhile_not (· ≠ 0xff) head
    rw [left] at stop whole
    have filler : byte = 0xff := by simpa using stop
    rw [filler] at whole
    exact Or.inr ⟨rest, whole.symm⟩

theorem readsInline_iff {head : Bytes} {text : String} (h : head.length = 8) :
    (¬ isMarked head = true ∧ Bytes.text? (head.takeWhile (· ≠ 0xff)) = some text) ↔
      InlineHead (Bytes.ofText text) head := by
  rw [Bytes.text?_eq_some_iff, isMarked_iff]
  constructor
  · rintro ⟨_, read⟩
    exact ⟨h, filled_of_takeWhile read⟩
  · rintro ⟨_, shape⟩
    have read : head.takeWhile (· ≠ 0xff) = Bytes.ofText text := by
      rcases shape with whole | ⟨rest, filled⟩
      · rw [whole, takeWhile_whole]
      · rw [filled, takeWhile_filled]
    refine ⟨?_, read⟩
    cases content : Bytes.ofText text with
    | nil =>
      rcases shape with whole | ⟨rest, filled⟩
      · rw [whole, content] at h
        cases h
      · rw [filled, content]
        show ¬ (0xff : UInt8).toNat / 64 = 2
        decide
    | cons first others =>
      have start := Bytes.not_continues_of_ofText content
      rcases shape with whole | ⟨rest, filled⟩
      · rw [whole, content]
        exact start
      · rw [filled, content]
        exact start

/-- The mark is in the lowest byte of the word that a linked head starts with. -/
theorem isMarked_iff_word {head : Bytes} (h : head.length = 8) :
    isMarked head = true ↔ Bytes.toNat (head.take 4) % 256 / 64 = 2 := by
  cases head with
  | nil => cases h
  | cons first rest =>
    have low := first.toNat_lt
    have word : Bytes.toNat ((first :: rest).take 4) % 256 = first.toNat := by
      rw [List.take_succ_cons, Bytes.toNat]
      omega
    rw [isMarked_iff, word]
    exact Iff.rfl

theorem lengthWord_lt {length : Nat} (h : length < 2 ^ 30) : lengthWord length < 2 ^ 32 := by
  rw [lengthWord]
  omega

theorem lengthWord_eq_iff {word length : Nat} (h : word < 2 ^ 32) :
    word = lengthWord length ↔ length < 2 ^ 30 ∧ word % 256 / 64 = 2 ∧ wordLength word = length := by
  rw [lengthWord, wordLength]
  omega

theorem length_halves {head : Bytes} (h : head.length = 8) :
    (head.take 4).length = 4 ∧ (head.drop 4).length = 4 := by
  rw [List.length_take, List.length_drop]
  omega

theorem linkedHead_iff {head : Bytes} {length : Nat} {distance : Int} (h : head.length = 8) :
    LinkedHead length distance head ↔
      isMarked head = true ∧ wordLength (Bytes.toNat (head.take 4)) = length ∧
        inlineLimit < length ∧ headDistance head 4 = distance := by
  obtain ⟨four, others⟩ := length_halves h
  have small : Bytes.toNat (head.take 4) < 2 ^ 32 := by
    have bound := Bytes.toNat_lt (head.take 4)
    rwa [four] at bound
  have whole : Bytes.slice head 4 4 = head.drop 4 := List.take_of_length_le (by omega)
  rw [isMarked_iff_word h, headDistance, whole]
  constructor
  · rintro ⟨long, fits, pointer, ⟨width, value⟩, rfl⟩
    have wide : lengthWord length < 256 ^ 4 := lengthWord_lt fits
    have front := Bytes.length_ofNat 4 (lengthWord length)
    rw [List.take_left' front, List.drop_left' front, Bytes.toNat_ofNat_of_lt wide]
    exact ⟨lengthWord_mark length, wordLength_lengthWord length, long, value⟩
  · rintro ⟨marked, packed, long, value⟩
    have fits : length < 2 ^ 30 := by
      rw [← packed, wordLength]
      omega
    have word := (lengthWord_eq_iff small).mpr ⟨fits, marked, packed⟩
    have front : head.take 4 = Bytes.ofNat 4 (lengthWord length) :=
      (Bytes.eq_ofNat_iff (lengthWord_lt fits)).mpr ⟨four, word⟩
    exact ⟨long, fits, head.drop 4, ⟨others, value⟩, by rw [← front, List.take_append_drop]⟩

theorem listHead_iff {head : Bytes} {count : Nat} {distance : Int} (h : head.length = 8) :
    ListHead count distance head ↔
      Bytes.toNat (head.drop 4) = count ∧ headDistance head 0 = distance := by
  obtain ⟨four, others⟩ := length_halves h
  have front : Bytes.slice head 0 4 = head.take 4 := rfl
  rw [headDistance, front]
  constructor
  · rintro ⟨fits, pointer, ⟨width, value⟩, rfl⟩
    have small : count < 256 ^ 4 := fits
    rw [List.take_left' width, List.drop_left' width, Bytes.toNat_ofNat_of_lt small]
    exact ⟨rfl, value⟩
  · rintro ⟨rfl, value⟩
    have small := Bytes.toNat_lt (head.drop 4)
    have back := Bytes.ofNat_toNat (head.drop 4)
    rw [others] at small back
    exact ⟨small, head.take 4, ⟨four, value⟩, by rw [back, List.take_append_drop]⟩

/-- The content stands aligned in the window, and `rest` is what the window has behind it. -/
structure Lies (input content : Bytes) (start align : Nat) (window rest : Window) : Prop where
  aligned : start % align = 0
  after : window.lo ≤ start
  before : start + content.length ≤ window.hi
  stands : Bytes.At input start content
  behind : rest = ⟨start + content.length, window.hi⟩

theorem Window.take?_eq_some_iff {window rest : Window} {input content : Bytes} {position : Int}
    {size align : Nat} (inside : window.hi ≤ input.length) :
    window.take? input position size align = some (content, rest) ↔
      content.length = size ∧
        ∃ start : Nat, (start : Int) = position ∧ Lies input content start align window rest := by
  constructor
  · intro h
    obtain ⟨⟨after, before, aligned⟩, cut, behind⟩ := Window.take?_eq_some h
    obtain ⟨start, rfl⟩ := Int.eq_ofNat_of_zero_le (show 0 ≤ position by omega)
    rw [Int.toNat_natCast] at cut behind
    have fits : start + size ≤ input.length := by omega
    have length : content.length = size := by rw [cut, Bytes.length_slice fits]
    refine ⟨length, start, rfl, by exact_mod_cast aligned, by omega, by omega, ?_, ?_⟩
    · rw [cut]
      exact Bytes.at_slice fits
    · rw [behind, length]
  · rintro ⟨rfl, start, rfl, aligned, after, before, stands, behind⟩
    have admits : window.Admits start content.length align :=
      ⟨by omega, by omega, by exact_mod_cast aligned⟩
    have cut : Bytes.slice input start content.length = content := stands
    rw [Window.take?, if_pos admits, Int.toNat_natCast]
    dsimp only
    rw [cut, behind]

/-- The field has its head at address `here` and its body, if there is one, in the window. -/
def Field.Holds (input : Bytes) :
    (field : Field) → field.Value → (here : Nat) → (window rest : Window) → Prop
  | .scalar s, v, here, window, rest => Bytes.slice input here s.width = s.write v ∧ rest = window
  | .text, value, here, window, rest =>
    (InlineHead (Bytes.ofText value) (Bytes.slice input here 8) ∧ rest = window) ∨
      ∃ start : Nat,
        LinkedHead (Bytes.ofText value).length (start - here) (Bytes.slice input here 8) ∧
          Lies input (Bytes.ofText value) start 1 window rest
  | .list s, items, here, window, rest =>
    ∃ start : Nat, ListHead items.length (start - here) (Bytes.slice input here 8) ∧
      Lies input (s.writeList items) start s.width window rest

variable {input : Bytes} {here : Nat} {window rest : Window}

theorem read?_text_inline (marked : ¬ isMarked (Bytes.slice input here 8) = true) :
    Field.read? input .text here window =
      (Bytes.text? ((Bytes.slice input here 8).takeWhile (· ≠ 0xff))).map (·, window) := by
  rw [Field.read?]
  dsimp only
  rw [if_neg marked, Option.map_eq_bind]
  rfl

theorem read?_text_linked (marked : isMarked (Bytes.slice input here 8) = true)
    (long : inlineLimit < wordLength (Bytes.toNat ((Bytes.slice input here 8).take 4))) :
    Field.read? input .text here window =
      (window.take? input (here + headDistance (Bytes.slice input here 8) 4)
        (wordLength (Bytes.toNat ((Bytes.slice input here 8).take 4))) 1).bind fun (content, rest) =>
          (Bytes.text? content).map (·, rest) := by
  rw [Field.read?]
  dsimp only
  rw [if_pos marked, if_neg (Nat.not_le.mpr long)]
  simp only [Option.map_eq_bind]
  rfl

/-- A text that would fit its head is not accepted from a body. -/
theorem read?_text_short (marked : isMarked (Bytes.slice input here 8) = true)
    (short : wordLength (Bytes.toNat ((Bytes.slice input here 8).take 4)) ≤ inlineLimit) :
    Field.read? input .text here window = none := by
  rw [Field.read?]
  dsimp only
  rw [if_pos marked, if_pos short]
  rfl

theorem holds_scalar_iff {s : Scalar} {v : s.Value} (fits : here + s.width ≤ input.length) :
    Field.read? input (.scalar s) here window = some (v, rest) ↔
      Field.Holds input (.scalar s) v here window rest := by
  have width := Bytes.length_slice fits
  constructor
  · intro h
    obtain ⟨rfl, rfl⟩ := Prod.mk.inj (Option.some.inj h)
    exact ⟨(s.write_read width).symm, rfl⟩
  · rintro ⟨written, rfl⟩
    rw [Field.read?, written, s.read_write]

theorem holds_text_iff {text : String} (fits : here + 8 ≤ input.length)
    (inside : window.hi ≤ input.length) :
    Field.read? input .text here window = some (text, rest) ↔
      Field.Holds input .text text here window rest := by
  have width := Bytes.length_slice fits
  by_cases marked : isMarked (Bytes.slice input here 8) = true
  · have linked (distance : Int) :
        LinkedHead (Bytes.ofText text).length distance (Bytes.slice input here 8) ↔ _ :=
      linkedHead_iff width
    have notInline : ¬ InlineHead (Bytes.ofText text) (Bytes.slice input here 8) :=
      fun head => ((readsInline_iff width).mpr head).1 marked
    constructor
    · intro h
      by_cases long : inlineLimit < wordLength (Bytes.toNat ((Bytes.slice input here 8).take 4))
      · rw [read?_text_linked marked long] at h
        obtain ⟨⟨content, window'⟩, taken, read⟩ := Option.bind_eq_some_iff.mp h
        obtain ⟨value, decoded, same⟩ := Option.map_eq_some_iff.mp read
        obtain ⟨rfl, rfl⟩ := Prod.mk.inj same
        obtain ⟨size, start, position, lies⟩ := (Window.take?_eq_some_iff inside).mp taken
        obtain rfl := Bytes.text?_eq_some_iff.mp decoded
        exact Or.inr ⟨start, (linked _).mpr ⟨marked, size.symm, by omega, by omega⟩, lies⟩
      · rw [read?_text_short marked (Nat.not_lt.mp long)] at h
        cases h
    · rintro (⟨head, _⟩ | ⟨start, head, lies⟩)
      · exact absurd head notInline
      · obtain ⟨_, length, long, distance⟩ := (linked _).mp head
        rw [read?_text_linked marked (by omega)]
        refine Option.bind_eq_some_iff.mpr ⟨(Bytes.ofText text, rest), ?_, ?_⟩
        · exact (Window.take?_eq_some_iff inside).mpr ⟨length.symm, start, by omega, lies⟩
        · exact Option.map_eq_some_iff.mpr ⟨text, Bytes.text?_ofText text, rfl⟩
  · have inline := @readsInline_iff _ text width
    rw [read?_text_inline marked]
    constructor
    · intro h
      obtain ⟨value, decoded, same⟩ := Option.map_eq_some_iff.mp h
      obtain ⟨rfl, rfl⟩ := Prod.mk.inj same
      exact Or.inl ⟨inline.mp ⟨marked, decoded⟩, rfl⟩
    · rintro (⟨head, rfl⟩ | ⟨start, head, _⟩)
      · exact Option.map_eq_some_iff.mpr ⟨text, (inline.mpr head).2, rfl⟩
      · exact absurd ((linkedHead_iff width).mp head).1 marked

theorem holds_list_iff {s : Scalar} {items : List s.Value} (fits : here + 8 ≤ input.length)
    (inside : window.hi ≤ input.length) :
    Field.read? input (.list s) here window = some (items, rest) ↔
      Field.Holds input (.list s) items here window rest := by
  have width := Bytes.length_slice fits
  rw [Field.read?]
  dsimp only
  constructor
  · intro h
    obtain ⟨⟨content, window'⟩, taken, read⟩ := Option.bind_eq_some_iff.mp h
    obtain ⟨listed, rfl⟩ := Prod.mk.inj (Option.some.inj read)
    obtain ⟨size, start, position, lies⟩ := (Window.take?_eq_some_iff inside).mp taken
    obtain ⟨count, rfl⟩ := (s.readList_eq_iff size).mp listed
    exact ⟨start, (listHead_iff width).mpr ⟨count.symm, by omega⟩, lies⟩
  · rintro ⟨start, head, lies⟩
    obtain ⟨count, distance⟩ := (listHead_iff width).mp head
    have size := s.length_writeList items
    rw [count]
    refine Option.bind_eq_some_iff.mpr ⟨(s.writeList items, rest), ?_, ?_⟩
    · exact (Window.take?_eq_some_iff inside).mpr ⟨size, start, by omega, lies⟩
    · dsimp only
      rw [(s.readList_eq_iff size).mpr ⟨rfl, rfl⟩]
      rfl

/-- What the reader of a field accepts is what the field holds. -/
theorem Field.read?_eq_some_iff {field : Field} {v : field.Value}
    (fits : here + field.width ≤ input.length) (inside : window.hi ≤ input.length) :
    field.read? input here window = some (v, rest) ↔ field.Holds input v here window rest := by
  cases field with
  | scalar s => exact holds_scalar_iff fits
  | text => exact holds_text_iff fits inside
  | list s => exact holds_list_iff fits inside

/-- The fields have their heads one after the other from address `here` on, and their bodies in the
window in the order of the fields. -/
def Hold (input : Bytes) :
    (fields : List Field) → Record fields → (here : Nat) → Window → Prop
  | [], _, _, _ => True
  | field :: others, (v, vs), here, window =>
    ∃ rest, field.Holds input v here window rest ∧ Hold input others vs (here + field.width) rest

/-- The input ends with an aligned root, and the bodies of the record lie before it. -/
def IsArchive (fields : List Field) (record : Record fields) (input : Bytes) : Prop :=
  ∃ root, input.length = root + rootSize fields ∧ root % rootAlign fields = 0 ∧
    Hold input fields record root ⟨0, root⟩

/-- No body of a field moves the end of the window. -/
theorem Field.Holds.hi_eq {field : Field} {v : field.Value}
    (h : field.Holds input v here window rest) : rest.hi = window.hi := by
  cases field with
  | scalar s => rw [h.2]
  | text =>
    rcases h with ⟨_, same⟩ | ⟨start, _, lies⟩
    · rw [same]
    · rw [lies.behind]
  | list s =>
    obtain ⟨start, _, lies⟩ := h
    rw [lies.behind]

theorem fields?_eq_some_iff {fields : List Field} {record : Record fields}
    (fits : here + rootSize fields ≤ input.length) (inside : window.hi ≤ input.length) :
    fields? input fields here window = some record ↔ Hold input fields record here window := by
  induction fields generalizing here window with
  | nil => exact ⟨fun _ => trivial, fun _ => rfl⟩
  | cons field others ih =>
    obtain ⟨v, vs⟩ := record
    have size := rootSize_cons field others
    rw [fields?]
    constructor
    · intro h
      obtain ⟨⟨v', rest⟩, read, h⟩ := Option.bind_eq_some_iff.mp h
      obtain ⟨vs', reads, same⟩ := Option.bind_eq_some_iff.mp h
      obtain ⟨rfl, rfl⟩ := Prod.mk.inj (Option.some.inj same)
      have holds := (Field.read?_eq_some_iff (by omega) inside).mp read
      exact ⟨rest, holds, (ih (by omega) (holds.hi_eq ▸ inside)).mp reads⟩
    · rintro ⟨rest, holds, hold⟩
      have read := (Field.read?_eq_some_iff (by omega) inside).mpr holds
      have reads := (ih (by omega) (holds.hi_eq ▸ inside)).mpr hold
      refine Option.bind_eq_some_iff.mpr ⟨(v, rest), read, ?_⟩
      exact Option.bind_eq_some_iff.mpr ⟨vs, reads, rfl⟩

/-- The reader accepts exactly the archives, and gives the record that they hold. -/
theorem decode?_eq_some_iff {fields : List Field} {record : Record fields} {input : Bytes} :
    decode? fields input = some record ↔ IsArchive fields record input := by
  rw [decode?]
  constructor
  · intro h
    split at h
    · next admits =>
      obtain ⟨_, inside, aligned⟩ := admits
      have exact : input.length = input.length - rootSize fields + rootSize fields := by
        dsimp only at inside
        omega
      refine ⟨input.length - rootSize fields, exact, by exact_mod_cast aligned, ?_⟩
      exact (fields?_eq_some_iff (by omega) (Nat.sub_le _ _)).mp h
    · cases h
  · rintro ⟨root, length, aligned, hold⟩
    have start : input.length - rootSize fields = root := by omega
    have admits : (Window.mk 0 input.length).Admits root (rootSize fields) (rootAlign fields) :=
      ⟨by simp, by dsimp only; omega, by exact_mod_cast aligned⟩
    rw [start, if_pos admits]
    exact (fields?_eq_some_iff (by omega) (by dsimp only; omega)).mpr hold

theorem decode?_eq_none_iff {fields : List Field} {input : Bytes} :
    decode? fields input = none ↔ ∀ record, ¬ IsArchive fields record input := by
  simp only [Option.eq_none_iff_forall_ne_some, ne_eq, decode?_eq_some_iff]

end RpcMethod.Archive
