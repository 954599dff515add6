import RpcMethod.Proofs.Archive.RoundTrip

/-!
# The shortest archive of a record

The writer sets every body down as early as order and alignment let it. So its position never
overtakes the reader's window, whatever archive of the same record is read, and what it writes is
nowhere longer than that archive. The archive also pays for the content: every byte of it is in a
head or in a body.
-/

namespace RpcMethod.Archive

/-- The bytes of the values themselves, without padding and pointers. -/
def Field.contentSize : (field : Field) → field.Value → Nat
  | .scalar s, _ => s.width
  | .text, value => (Bytes.ofText value).length
  | .list s, items => items.length * s.width

def contentSize : (fields : List Field) → Record fields → Nat
  | [], _ => 0
  | field :: rest, (v, vs) => field.contentSize v + contentSize rest vs

/-- The size of the archive that the writer makes: the bodies, a gap and the root. -/
def encodedSize (fields : List Field) (record : Record fields) : Nat :=
  let content := (bodies fields record 0).length
  content + Bytes.gap content (rootAlign fields) + rootSize fields

variable {fields : List Field} {record : Record fields} {input : Bytes}
  {position here : Nat} {window rest : Window}

theorem length_encode? {bytes : Bytes} (h : encode? fields record = some bytes) :
    bytes.length = encodedSize fields record := by
  simp only [encode?] at h
  obtain ⟨root, written, rfl⟩ := Option.map_eq_some_iff.mp h
  have size := length_heads? written
  simp only [List.length_append, Bytes.length_zeros, size, encodedSize]

/-- A head that stands less than `2 ^ 30` bytes into the archive reaches everything before it. -/
theorem exists_distance {start : Nat} (before : start ≤ here) (near : here < 2 ^ 30) :
    ∃ word, Bytes.word32? ((start : Int) - here) = some word := by
  apply Bytes.exists_word32?
  · omega
  · omega

theorem Field.exists_head? {field : Field} {v : field.Value}
    (before : position + (field.body v position).bytes.length ≤ here) (near : here < 2 ^ 30) :
    ∃ head, field.head? v (field.body v position).start here = some head := by
  cases field with
  | scalar s => exact ⟨s.write v, rfl⟩
  | text =>
    simp only [Field.body] at before
    simp only [Field.head?, Field.body, textHead?]
    by_cases short : (Bytes.ofText v).length ≤ inlineLimit
    · exact ⟨_, if_pos short⟩
    · rw [if_neg short] at before
      have small : (Bytes.ofText v).length < 0x40000000 := by omega
      have start : position ≤ here := by omega
      obtain ⟨word, reach⟩ := exists_distance start near
      rw [if_neg short, if_pos small, reach]
      exact ⟨_, rfl⟩
  | list s =>
    simp only [Field.body, List.length_append, Bytes.length_zeros] at before
    simp only [Field.head?, Field.body]
    have start : position + Bytes.gap position s.width ≤ here := by omega
    obtain ⟨word, reach⟩ := exists_distance start near
    rw [reach]
    exact ⟨_, rfl⟩

theorem exists_heads? (before : position + (bodies fields record position).length ≤ here)
    (near : here + rootSize fields < 2 ^ 30) :
    ∃ heads, heads? fields record position here = some heads := by
  induction fields generalizing position here with
  | nil => exact ⟨[], rfl⟩
  | cons field others ih =>
    obtain ⟨v, vs⟩ := record
    have size := rootSize_cons field others
    rw [bodies, List.length_append] at before
    have fits : position + (field.body v position).bytes.length ≤ here := by omega
    obtain ⟨head, first⟩ := Field.exists_head? fits (by omega)
    have fits' : position + (field.body v position).bytes.length +
        (bodies others vs (position + (field.body v position).bytes.length)).length ≤
          here + field.width := by omega
    obtain ⟨heads, later⟩ := ih fits' (by omega)
    refine ⟨head ++ heads, Option.bind_eq_some_iff.mpr ⟨head, first, ?_⟩⟩
    exact Option.bind_eq_some_iff.mpr ⟨heads, later, rfl⟩

/-- Nothing but its size keeps a record from being written. -/
theorem exists_encode? (small : encodedSize fields record < 2 ^ 30) :
    ∃ bytes, encode? fields record = some bytes := by
  have fits : 0 + (bodies fields record 0).length ≤ (bodies fields record 0).length +
      Bytes.gap (bodies fields record 0).length (rootAlign fields) := by omega
  obtain ⟨heads, written⟩ := exists_heads? fits small
  exact ⟨_, Option.map_eq_some_iff.mpr ⟨heads, written, rfl⟩⟩

theorem Field.Holds.lo_le_hi {field : Field} {v : field.Value}
    (h : field.Holds input v here window rest) (le : window.lo ≤ window.hi) : rest.lo ≤ rest.hi := by
  cases field with
  | scalar s =>
    obtain ⟨_, rfl⟩ := h
    exact le
  | text =>
    rcases h with ⟨_, rfl⟩ | ⟨start, _, lies⟩
    · exact le
    · rw [lies.behind]
      exact lies.before
  | list s =>
    obtain ⟨start, _, lies⟩ := h
    rw [lies.behind]
    exact lies.before

theorem InlineHead.length_le {content head : Bytes} (h : InlineHead content head) :
    content.length ≤ inlineLimit := by
  obtain ⟨width, whole | ⟨rest, filled⟩⟩ := h
  · rw [whole] at width
    exact Nat.le_of_eq width
  · rw [filled, List.length_append] at width
    rw [inlineLimit]
    omega

/-- A writer that has not overtaken the window before a field has not overtaken it behind. -/
theorem Field.Holds.body_le {field : Field} {v : field.Value}
    (h : field.Holds input v here window rest) (le : position ≤ window.lo) :
    position + (field.body v position).bytes.length ≤ rest.lo := by
  cases field with
  | scalar s =>
    obtain ⟨_, rfl⟩ := h
    exact le
  | text =>
    simp only [Field.body]
    rcases h with ⟨head, rfl⟩ | ⟨start, ⟨long, _⟩, lies⟩
    · rw [if_pos head.length_le]
      exact le
    · rw [if_neg (Nat.not_le.mpr long), lies.behind]
      exact Nat.add_le_add_right (Nat.le_trans le lies.after) _
  | list s =>
    obtain ⟨start, _, lies⟩ := h
    simp only [Field.body, List.length_append, Bytes.length_zeros]
    have first := Bytes.add_gap_le s.width_pos (Nat.le_trans le lies.after) lies.aligned
    rw [lies.behind, ← Nat.add_assoc]
    exact Nat.add_le_add_right first _

theorem Hold.bodies_le (h : Hold input fields record here window) (le : position ≤ window.lo)
    (inside : window.lo ≤ window.hi) :
    position + (bodies fields record position).length ≤ window.hi := by
  induction fields generalizing position here window with
  | nil => exact Nat.le_trans le inside
  | cons field others ih =>
    obtain ⟨v, vs⟩ := record
    obtain ⟨rest, holds, hold⟩ := h
    have behind := ih hold (holds.body_le le) (holds.lo_le_hi inside)
    rw [holds.hi_eq] at behind
    rw [bodies, List.length_append, ← Nat.add_assoc]
    exact behind

/-- No archive of a record is shorter than the one that the writer makes. -/
theorem IsArchive.encodedSize_le (h : IsArchive fields record input) :
    encodedSize fields record ≤ input.length := by
  obtain ⟨root, length, aligned, hold⟩ := h
  have content := hold.bodies_le (Nat.le_refl 0) (Nat.zero_le root)
  rw [Nat.zero_add] at content
  have padded := Bytes.add_gap_le (rootAlign_pos fields) content aligned
  rw [length]
  exact Nat.add_le_add_right padded _

theorem Field.contentSize_le (field : Field) (v : field.Value) (position : Nat) :
    field.contentSize v ≤ (field.body v position).bytes.length + field.width := by
  cases field with
  | scalar s => exact Nat.le_add_left s.width 0
  | text =>
    simp only [Field.contentSize, Field.body, Field.width]
    by_cases short : (Bytes.ofText v).length ≤ inlineLimit
    · rw [if_pos short]
      exact short
    · rw [if_neg short]
      exact Nat.le_add_right _ _
  | list s =>
    have size := s.length_writeList v
    simp only [Field.contentSize, Field.body, List.length_append, size]
    omega

theorem contentSize_le_bodies (fields : List Field) (record : Record fields) (position : Nat) :
    contentSize fields record ≤ (bodies fields record position).length + rootSize fields := by
  induction fields generalizing position with
  | nil => exact Nat.zero_le _
  | cons field others ih =>
    obtain ⟨v, vs⟩ := record
    have first := field.contentSize_le v position
    have later := ih vs (position + (field.body v position).bytes.length)
    have size := rootSize_cons field others
    rw [contentSize, bodies, List.length_append, size]
    omega

theorem contentSize_le_encodedSize (fields : List Field) (record : Record fields) :
    contentSize fields record ≤ encodedSize fields record := by
  have paid := contentSize_le_bodies fields record 0
  rw [encodedSize]
  omega

end RpcMethod.Archive
