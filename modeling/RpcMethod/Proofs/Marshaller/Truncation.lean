import RpcMethod.Proofs.Marshaller.LeadingBytes
import RpcMethod.Proofs.Marshaller.Lengths

/-!
# Truncated messages

An archive is read from its end and carries neither its length nor a checksum. So what is left of a
message that was cut off is judged for what it is by itself: mostly it is no archive and is refused,
but what a text or a list holds may happen to be one. It is never taken for the message that was
cut off, since no archive of a message is shorter than the one that was sent (`parse_of_truncated`).
-/

namespace RpcMethod

open Archive (IsArchive)

namespace MessageType

/-- The message has nothing outside its root. -/
def InRoot : (t : MessageType) → t.Value → Prop
  | bytes, v => v = []
  | unit, _ => True
  | text, v => v.utf8ByteSize ≤ 8
  | word32, _ => True
  | order, v => v.symbol.utf8ByteSize ≤ 8 ∧ v.quantities = []
  | greeting, v => v.name.utf8ByteSize ≤ 8
  | bench, v => v.name.utf8ByteSize ≤ 8 ∧ v.payload = []

theorem archiveLength_of_inRoot {t : MessageType} {v : t.Value} (h : t.InRoot v) :
    t.archiveLength v = Archive.rootSize t.fields := by
  cases t with
  | bytes =>
    obtain rfl := h
    rfl
  | unit => rfl
  | text =>
    rw [archiveLength, Archive.outOfLine_of_le h]
    rfl
  | word32 => rfl
  | order =>
    obtain ⟨short, none⟩ := h
    rw [archiveLength, Archive.outOfLine_of_le short, none]
    rfl
  | greeting =>
    rw [archiveLength, Archive.outOfLine_of_le h]
    rfl
  | bench =>
    obtain ⟨short, none⟩ := h
    rw [archiveLength, Archive.outOfLine_of_le short, none]
    rfl

theorem alignment_dvd_rootSize (t : MessageType) : t.alignment ∣ Archive.rootSize t.fields := by
  cases t <;> decide

end MessageType

namespace Marshaller

variable {t : MessageType} {limit : SizeLimit} {sample? : Option t.Value} {v : t.Value}
  {bytes part : Bytes}

theorem rootSize_le_of_isArchive {record : Archive.Record t.fields}
    (h : IsArchive t.fields record part) : Archive.rootSize t.fields ≤ part.length := by
  obtain ⟨root, length, _⟩ := h
  omega

theorem alignment_dvd_of_isArchive {record : Archive.Record t.fields}
    (h : IsArchive t.fields record part) : t.alignment ∣ part.length := by
  obtain ⟨root, length, aligned, _⟩ := h
  rw [t.rootAlign_fields] at aligned
  rw [length]
  exact Nat.dvd_add (Nat.dvd_of_mod_eq_zero aligned) t.alignment_dvd_rootSize

/-- What is left of the bytes of `v` is judged by itself: it is refused if it is no archive, and read
as what it is if it is one, which is a shorter message than `v`. It is no archive if it has not even
the length of a root, if its length is not a multiple of the alignment, or if all of `v` stands in
the root. -/
structure JudgedByItself (m : Marshaller t) (v : t.Value) (part : Bytes) : Prop where
  refuses_iff : Refuses m part ↔ ∀ w, ¬ IsArchive t.fields (t.pack w) part
  parse_iff : ∀ w, m.parse part = pure (.ok w) ↔ IsArchive t.fields (t.pack w) part
  another : ∀ w, m.parse part = pure (.ok w) → w ≠ v ∧ t.archiveLength w ≤ part.length
  refuses_of_short : part.length < Archive.rootSize t.fields → Refuses m part
  refuses_of_unaligned : ¬ t.alignment ∣ part.length → Refuses m part
  refuses_of_inRoot : t.InRoot v → Refuses m part

/-- Whatever is cut off from the end of a message that was sent, the rest is refused, unless it is
an archive in its own right; the message itself is never read from it. -/
theorem parse_of_truncated (sent : ((archived limit sample?).stream v).value = .ok bytes)
    (cut : part <+: bytes) (strict : part ≠ bytes) :
    JudgedByItself (archived limit sample?) v part := by
  obtain ⟨written, within⟩ := stream_archived_eq_ok_iff.mp sent
  have length : bytes.length = t.archiveLength v :=
    (Archive.length_encode? written).trans (t.encodedSize_pack v)
  have shorter : part.length < bytes.length :=
    Nat.lt_of_le_of_ne cut.length_le fun same => strict (cut.eq_of_length same)
  have fits : part.length ≤ limit.max := by omega
  have refused : Refuses (archived limit sample?) part ↔ _ := refuses_iff_no_archive fits
  have read (w : t.Value) : (archived limit sample?).parse part = pure (.ok w) ↔ _ :=
    parse_eq_ok_iff_archive fits
  have short (h : part.length < Archive.rootSize t.fields) :
      Refuses (archived limit sample?) part := by
    apply refused.mpr
    intro w archive
    exact Nat.not_le.mpr h (rootSize_le_of_isArchive archive)
  refine ⟨refused, read, ?_, short, ?_, ?_⟩
  · intro w taken
    have least := ((read w).mp taken).encodedSize_le
    rw [t.encodedSize_pack] at least
    refine ⟨?_, least⟩
    rintro rfl
    omega
  · intro unaligned
    apply refused.mpr
    intro w archive
    exact unaligned (alignment_dvd_of_isArchive archive)
  · intro inRoot
    have root := MessageType.archiveLength_of_inRoot inRoot
    exact short (by omega)

/-- The quantities of an order can be an order themselves: an order that is cut off behind them is
read as the inner one, and one that is cut off four bytes later is refused. -/
theorem parse_of_truncated_order :
    let m : Marshaller .order := archived {} none
    let order : Order := ⟨7, "", [9, 0, 0xffffffff, 0xffffffff, 0xfffffff0, 0]⟩
    let inner : Bytes := [9, 0, 0, 0, 0, 0, 0, 0, 255, 255, 255, 255, 255, 255, 255, 255,
      240, 255, 255, 255, 0, 0, 0, 0]
    let root : Bytes := [7, 0, 0, 0, 0, 0, 0, 0, 255, 255, 255, 255, 255, 255, 255, 255,
      216, 255, 255, 255, 6, 0, 0, 0]
    ((m.stream order).value = .ok (inner ++ root) ∧
      (inner <+: inner ++ root ∧ inner ≠ inner ++ root) ∧
      (inner ++ root.take 4 <+: inner ++ root ∧ inner ++ root.take 4 ≠ inner ++ root)) ∧
    m.parse inner = pure (.ok ⟨9, "", []⟩) ∧ JudgedByItself m order inner ∧
      Refuses m (inner ++ root.take 4) := by
  intro m order inner root
  have sent : (m.stream order).value = .ok (inner ++ root) :=
    stream_archived_eq_ok_iff.mpr ⟨by decide +kernel, by decide +kernel⟩
  have cut : inner <+: inner ++ root ∧ inner ≠ inner ++ root :=
    ⟨List.prefix_append inner root, by decide +kernel⟩
  have cut' : inner ++ root.take 4 <+: inner ++ root ∧ inner ++ root.take 4 ≠ inner ++ root :=
    ⟨(List.prefix_append_right_inj inner).mpr (List.take_prefix 4 root), by decide +kernel⟩
  have decoded : Archive.decode? MessageType.order.fields inner =
      some (MessageType.order.pack ⟨9, "", []⟩) := by
    decide +kernel
  have read : m.parse inner = pure (.ok ⟨9, "", []⟩) := by
    rw [parse_archived decoded]
    exact SizeLimit.guard_of_le (by decide +kernel) _
  have judged := parse_of_truncated sent cut'.1 cut'.2
  exact ⟨⟨sent, cut, cut'⟩, read, parse_of_truncated sent cut.1 cut.2,
    judged.refuses_of_unaligned (by decide +kernel)⟩

/-- The first eight bytes of a text are an archive of these bytes as a text. -/
theorem not_refuses_of_truncated :
    let m : Marshaller .text := archived {} none
    let bytes : Bytes := Bytes.ofText "all paid but one" ++ [144, 0, 0, 0, 240, 255, 255, 255]
    let part : Bytes := Bytes.ofText "all paid"
    (m.stream "all paid but one").value = .ok bytes ∧ part <+: bytes ∧ part ≠ bytes ∧
      m.parse part = pure (.ok "all paid") ∧ ¬ Refuses m part := by
  intro m bytes part
  have sent : (m.stream "all paid but one").value = .ok bytes :=
    stream_archived_eq_ok_iff.mpr ⟨by decide +kernel, by decide +kernel⟩
  have decoded : Archive.decode? MessageType.text.fields part =
      some (MessageType.text.pack "all paid") := by
    decide +kernel
  have fits : part.length ≤ 16777216 := by decide +kernel
  have read : m.parse part = pure (.ok "all paid") := by
    rw [parse_archived decoded]
    exact SizeLimit.guard_of_le fits _
  refine ⟨sent, by decide +kernel, by decide +kernel, read, ?_⟩
  rw [refuses_archived_iff fits, decoded]
  rintro ⟨⟩

end Marshaller

end RpcMethod
