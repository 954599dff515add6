import RpcMethod.Proofs.Archive.Placement

/-!
# Archives behind other bytes

All places in an archive count from the beginning of the input, but a head tells only how far it is
to its body. So an archive can be moved towards the end of the input, as far as the alignment of its
parts allows: the window of the reader then has more room in front and everything else is where it
was, seen from the root (`decode?_append_left`).
-/

namespace RpcMethod.Archive

variable {fields : List Field} {record other : Record fields} {front input content : Bytes}
  {here start align : Nat} {window rest wide : Window}

/-- What the place of a field's body has to be a multiple of. -/
def Field.bodyAlign : Field → Nat
  | .scalar _ => 1
  | .text => 1
  | .list s => s.width

/-- The wide window has every place of the other one moved by `offset`, and ends where the other one
ends when it is moved. -/
structure Window.Covers (offset : Nat) (window wide : Window) : Prop where
  lo_le : wide.lo ≤ offset + window.lo
  hi_eq : wide.hi = offset + window.hi

/-- A head and its body that move together keep their distance. -/
theorem distance_shift (offset start here : Nat) :
    ((offset + start : Nat) : Int) - (offset + here : Nat) = start - here := by
  omega

theorem Lies.shift (h : Lies input content start align window rest)
    (covers : window.Covers front.length wide) (whole : align ∣ front.length) :
    ∃ rest', rest.Covers front.length rest' ∧
      Lies (front ++ input) content (front.length + start) align wide rest' := by
  have after := h.after
  have before := h.before
  have lower := covers.lo_le
  have upper := covers.hi_eq
  refine ⟨⟨front.length + start + content.length, wide.hi⟩, ?_, ?_⟩
  · rw [h.behind]
    exact ⟨by dsimp only; omega, upper⟩
  · constructor
    · exact Nat.mod_eq_zero_of_dvd (Nat.dvd_add whole (Nat.dvd_of_mod_eq_zero h.aligned))
    · omega
    · omega
    · exact h.stands.append_left front
    · rfl

theorem Field.Holds.shift {field : Field} {v : field.Value}
    (h : field.Holds input v here window rest) (covers : window.Covers front.length wide)
    (whole : field.bodyAlign ∣ front.length) :
    ∃ rest', rest.Covers front.length rest' ∧
      field.Holds (front ++ input) v (front.length + here) wide rest' := by
  cases field with
  | scalar s =>
    obtain ⟨written, rfl⟩ := h
    exact ⟨wide, covers, by rw [Bytes.slice_append_left, written], rfl⟩
  | text =>
    rcases h with ⟨head, rfl⟩ | ⟨start, head, lies⟩
    · exact ⟨wide, covers, Or.inl ⟨by rwa [Bytes.slice_append_left], rfl⟩⟩
    · obtain ⟨rest', covered, lies'⟩ := lies.shift covers whole
      refine ⟨rest', covered, Or.inr ⟨front.length + start, ?_, lies'⟩⟩
      rwa [distance_shift, Bytes.slice_append_left]
  | list s =>
    obtain ⟨start, head, lies⟩ := h
    obtain ⟨rest', covered, lies'⟩ := lies.shift covers whole
    refine ⟨rest', covered, front.length + start, ?_, lies'⟩
    rwa [distance_shift, Bytes.slice_append_left]

theorem Hold.shift (h : Hold input fields record here window)
    (covers : window.Covers front.length wide)
    (whole : ∀ field ∈ fields, field.bodyAlign ∣ front.length) :
    Hold (front ++ input) fields record (front.length + here) wide := by
  induction fields generalizing here window wide with
  | nil => trivial
  | cons field others ih =>
    obtain ⟨v, vs⟩ := record
    obtain ⟨rest, holds, hold⟩ := h
    obtain ⟨first, later⟩ := List.forall_mem_cons.mp whole
    obtain ⟨rest', covered, holds'⟩ := holds.shift covers first
    refine ⟨rest', holds', ?_⟩
    rw [Nat.add_assoc]
    exact ih hold covered later

/-- An archive may have bytes in front of it that keep its root aligned, if the alignment of the
root is one of all its bodies. -/
theorem IsArchive.append_left (h : IsArchive fields record input)
    (bodies : ∀ field ∈ fields, field.bodyAlign ∣ rootAlign fields)
    (whole : rootAlign fields ∣ front.length) : IsArchive fields record (front ++ input) := by
  obtain ⟨root, length, aligned, hold⟩ := h
  have covers : (Window.mk 0 root).Covers front.length ⟨0, front.length + root⟩ :=
    ⟨Nat.zero_le _, rfl⟩
  refine ⟨front.length + root, ?_, ?_, ?_⟩
  · rw [List.length_append, length, Nat.add_assoc]
  · exact Nat.mod_eq_zero_of_dvd (Nat.dvd_add whole (Nat.dvd_of_mod_eq_zero aligned))
  · exact hold.shift covers fun field mem => Nat.dvd_trans (bodies field mem) whole

/-- The roots of two archives with a common end are an aligned distance apart, whatever the records
are. -/
theorem IsArchive.dvd_length (h : IsArchive fields record input)
    (longer : IsArchive fields other (front ++ input)) : rootAlign fields ∣ front.length := by
  obtain ⟨root, length, aligned, _⟩ := h
  obtain ⟨root', length', aligned', _⟩ := longer
  have apart : root' = front.length + root := by
    rw [List.length_append] at length'
    omega
  subst apart
  exact (Nat.dvd_add_iff_left (Nat.dvd_of_mod_eq_zero aligned)).mpr
    (Nat.dvd_of_mod_eq_zero aligned')

/-- Reading an input with bytes in front of an archive gives the record of the archive if they keep
the alignment of the root, and nothing otherwise. -/
theorem decode?_append_left (h : decode? fields input = some record)
    (bodies : ∀ field ∈ fields, field.bodyAlign ∣ rootAlign fields) (front : Bytes) :
    decode? fields (front ++ input) =
      if rootAlign fields ∣ front.length then some record else none := by
  have archive := decode?_eq_some_iff.mp h
  split
  · next whole => exact decode?_eq_some_iff.mpr (archive.append_left bodies whole)
  · next part =>
    apply Option.eq_none_iff_forall_ne_some.mpr
    intro other read
    exact part (archive.dvd_length (decode?_eq_some_iff.mp read))

end RpcMethod.Archive
