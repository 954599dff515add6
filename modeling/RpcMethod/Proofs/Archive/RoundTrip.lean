import RpcMethod.Proofs.Archive.Placement

/-!
# Reading back what was written

What the writer sets down is an archive of its record, so reading gives the record again. The proof
follows the writer: its position never falls behind the reader's window, and every distance that it
writes leads back to where the body was set down.
-/

namespace RpcMethod.Archive

variable {input head : Bytes} {position here lo root : Nat}

theorem inlineHead_padded {content : Bytes} (short : content.length ≤ inlineLimit) :
    InlineHead content (content ++ List.replicate (inlineLimit - content.length) 0xff) := by
  rw [inlineLimit] at *
  refine ⟨by rw [List.length_append, List.length_replicate]; omega, ?_⟩
  cases 8 - content.length with
  | zero => exact Or.inl (List.append_nil content)
  | succ room => exact Or.inr ⟨List.replicate room 0xff, rfl⟩

theorem linkedHead_of_word? {length word : Nat} {distance : Int} (long : inlineLimit < length)
    (fits : length < 2 ^ 30) (h : Bytes.word32? distance = some word) :
    LinkedHead length distance (Bytes.ofNat 4 (lengthWord length) ++ Bytes.ofNat 4 word) :=
  ⟨long, fits, Bytes.ofNat 4 word, Bytes.signed_of_word32? h, rfl⟩

/-- Every item takes at least a byte, so a list that a distance can reach over has a length that
its head can tell. -/
theorem listHead_of_word? {s : Scalar} {items : List s.Value} {start word : Nat}
    (before : start + (s.writeList items).length ≤ here)
    (h : Bytes.word32? ((start : Int) - here) = some word) :
    ListHead items.length (start - here) (Bytes.ofNat 4 word ++ Bytes.ofNat 4 items.length) := by
  have bounds := Bytes.word32?_bounds h
  have size := s.length_writeList items
  have atLeast := Nat.le_mul_of_pos_right items.length s.width_pos
  exact ⟨by omega, Bytes.ofNat 4 word, Bytes.signed_of_word32? h, rfl⟩

theorem holds_text_of_written {text : String}
    (written : Field.head? .text text position here = some head)
    (stands : Bytes.At input position (Field.body .text text position).bytes)
    (headed : Bytes.At input here head) (after : lo ≤ position)
    (before : position + (Field.body .text text position).bytes.length ≤ root) :
    ∃ lo', lo' ≤ position + (Field.body .text text position).bytes.length ∧
      Field.Holds input .text text here ⟨lo, root⟩ ⟨lo', root⟩ := by
  have cut := Bytes.slice_of_at headed (length_textHead? written)
  have short_or := Nat.lt_or_ge inlineLimit (Bytes.ofText text).length
  simp only [Field.head?, textHead?] at written
  simp only [Field.body] at stands before ⊢
  rcases short_or with long | short
  · rw [if_neg (Nat.not_le.mpr long)] at stands before written ⊢
    split at written
    · next fits =>
      obtain ⟨word, reach, rfl⟩ := Option.map_eq_some_iff.mp written
      refine ⟨position + (Bytes.ofText text).length, Nat.le_refl _, Or.inr ⟨position, ?_, ?_⟩⟩
      · rw [cut]
        exact linkedHead_of_word? long fits reach
      · exact ⟨Nat.mod_one position, after, before, stands, rfl⟩
    · cases written
  · rw [if_pos short] at written ⊢
    obtain rfl := Option.some.inj written
    refine ⟨lo, Nat.le_trans after (Nat.le_add_right _ _), Or.inl ⟨?_, rfl⟩⟩
    rw [cut]
    exact inlineHead_padded short

theorem holds_list_of_written {s : Scalar} {items : List s.Value}
    (written : Field.head? (.list s) items (Field.body (.list s) items position).start here =
      some head)
    (stands : Bytes.At input position (Field.body (.list s) items position).bytes)
    (headed : Bytes.At input here head) (after : lo ≤ position)
    (before : position + (Field.body (.list s) items position).bytes.length ≤ root)
    (behind : root ≤ here) :
    ∃ lo', lo' ≤ position + (Field.body (.list s) items position).bytes.length ∧
      Field.Holds input (.list s) items here ⟨lo, root⟩ ⟨lo', root⟩ := by
  have cut : Bytes.slice input here 8 = head := Bytes.slice_of_at headed (Field.length_head? written)
  simp only [Field.head?, Field.body] at written
  simp only [Field.body, List.length_append, Bytes.length_zeros] at stands before ⊢
  obtain ⟨word, reach, rfl⟩ := Option.map_eq_some_iff.mp written
  have parts := (Bytes.at_append.mp stands).2
  rw [Bytes.length_zeros] at parts
  rw [← Nat.add_assoc] at before ⊢
  refine ⟨_, Nat.le_refl _, position + Bytes.gap position s.width, ?_, ?_⟩
  · rw [cut]
    exact listHead_of_word? (Nat.le_trans before behind) reach
  · have aligned := Bytes.add_gap_mod position s.width_pos
    exact ⟨aligned, Nat.le_trans after (Nat.le_add_right _ _), before, parts, rfl⟩

/-- A field that was written holds its value, and its body ends within what was written. -/
theorem Field.holds_of_written {field : Field} {v : field.Value}
    (written : field.head? v (field.body v position).start here = some head)
    (stands : Bytes.At input position (field.body v position).bytes)
    (headed : Bytes.At input here head) (after : lo ≤ position)
    (before : position + (field.body v position).bytes.length ≤ root) (behind : root ≤ here) :
    ∃ lo', lo' ≤ position + (field.body v position).bytes.length ∧
      field.Holds input v here ⟨lo, root⟩ ⟨lo', root⟩ := by
  cases field with
  | scalar s =>
    have cut := Bytes.slice_of_at headed (Field.length_head? written)
    obtain rfl := Option.some.inj written
    exact ⟨lo, Nat.le_trans after (Nat.le_add_right _ _), cut, rfl⟩
  | text => exact holds_text_of_written written stands headed after before
  | list s => exact holds_list_of_written written stands headed after before behind

theorem hold_of_written {fields : List Field} {record : Record fields} {heads : Bytes}
    (written : heads? fields record position here = some heads)
    (stands : Bytes.At input position (bodies fields record position))
    (headed : Bytes.At input here heads) (after : lo ≤ position)
    (before : position + (bodies fields record position).length ≤ root) (behind : root ≤ here) :
    Hold input fields record here ⟨lo, root⟩ := by
  induction fields generalizing position here lo heads with
  | nil => trivial
  | cons field others ih =>
    obtain ⟨v, vs⟩ := record
    obtain ⟨head, first, written⟩ := Option.bind_eq_some_iff.mp written
    obtain ⟨rest, later, same⟩ := Option.bind_eq_some_iff.mp written
    obtain rfl := Option.some.inj same
    have width := Field.length_head? first
    obtain ⟨headed, headed'⟩ := Bytes.at_append.mp headed
    obtain ⟨stands, stands'⟩ := Bytes.at_append.mp stands
    rw [bodies, List.length_append] at before
    rw [width] at headed'
    obtain ⟨lo', reached, holds⟩ :=
      Field.holds_of_written first stands headed after (by omega) behind
    exact ⟨⟨lo', root⟩, holds, ih later stands' headed' reached (by omega) (by omega)⟩

theorem isArchive_of_encode? {fields : List Field} {record : Record fields} {bytes : Bytes}
    (h : encode? fields record = some bytes) : IsArchive fields record bytes := by
  simp only [encode?] at h
  obtain ⟨root, written, rfl⟩ := Option.map_eq_some_iff.mp h
  have size := length_heads? written
  have aligned := Bytes.add_gap_mod (bodies fields record 0).length (rootAlign_pos fields)
  have whole := Bytes.at_self (bodies fields record 0 ++
    Bytes.zeros (Bytes.gap (bodies fields record 0).length (rootAlign fields)) ++ root)
  obtain ⟨front, headed⟩ := Bytes.at_append.mp whole
  obtain ⟨stands, _⟩ := Bytes.at_append.mp front
  simp only [List.length_append, Bytes.length_zeros, Nat.zero_add] at headed
  refine ⟨_, ?_, aligned, hold_of_written written stands headed (Nat.zero_le 0) ?_ (Nat.le_refl _)⟩
  · simp only [List.length_append, Bytes.length_zeros, size]
  · omega

theorem decode?_encode? {fields : List Field} {record : Record fields} {bytes : Bytes}
    (h : encode? fields record = some bytes) : decode? fields bytes = some record :=
  decode?_eq_some_iff.mpr (isArchive_of_encode? h)

end RpcMethod.Archive
