import RpcMethod.Proofs.Archive.Shifting
import RpcMethod.Proofs.Marshaller.Delivery

/-!
# Bytes in front of a message

A receiver that gets bytes in front of an archive reads the message as if they were not there, if
their number is a multiple of the root's alignment; otherwise it refuses the whole. It does not
matter who wrote the archive, nor what the bytes are (`parse_append_left`).
-/

namespace RpcMethod

/-- What the place of a message's root is a multiple of. -/
def MessageType.alignment : MessageType → Nat
  | unit => 1
  | bytes | text | word32 | greeting => 4
  | order | bench => 8

theorem MessageType.rootAlign_fields (t : MessageType) :
    Archive.rootAlign t.fields = t.alignment := by
  cases t <;> rfl

/-- Messages have no items that are aligned more than their roots. -/
theorem MessageType.bodyAlign_dvd (t : MessageType) :
    ∀ field ∈ t.fields, field.bodyAlign ∣ Archive.rootAlign t.fields := by
  cases t <;> decide

namespace Marshaller

variable {t : MessageType} {limit : SizeLimit} {sample? : Option t.Value} {v : t.Value}
  {front bytes : Bytes}

/-- Bytes in front of a message, as far as the limit allows them, do no harm if they keep its
alignment, and are always noticed if they do not. -/
theorem parse_append_left (read : ((archived limit sample?).parse bytes).value = .ok v)
    (fits : front.length + bytes.length ≤ limit.max) :
    (t.alignment ∣ front.length →
      (archived limit sample?).parse (front ++ bytes) = pure (.ok v)) ∧
    (¬ t.alignment ∣ front.length → Refuses (archived limit sample?) (front ++ bytes)) := by
  have decoded := (parse_archived_eq_ok_iff.mp read).2
  have moved := Archive.decode?_append_left decoded t.bodyAlign_dvd front
  have total : (front ++ bytes).length ≤ limit.max := by simpa using fits
  rw [t.rootAlign_fields] at moved
  constructor
  · intro whole
    rw [if_pos whole] at moved
    rw [parse_archived moved, SizeLimit.guard_of_le total]
  · intro part
    rw [if_neg part] at moved
    exact (refuses_archived_iff total).mpr moved

/-- Twelve bytes keep the words of an order aligned, but not its root. -/
theorem parse_append_left_order :
    let m : Marshaller .order := archived ⟨52⟩ none
    let order : Order := ⟨7, "ninebytes", [1]⟩
    let bytes : Bytes := Bytes.ofText "ninebytes" ++
      [5, 5, 5, 1, 0, 0, 0, 7, 0, 0, 0, 0, 0, 0, 0, 137, 0, 0, 0, 232, 255, 255, 255,
        236, 255, 255, 255, 1, 0, 0, 0]
    let eight : Bytes := List.replicate 8 6
    let twelve : Bytes := List.replicate 12 6
    ((m.parse bytes).value = .ok order ∧ eight.length + bytes.length ≤ 52 ∧
      twelve.length + bytes.length ≤ 52) ∧
    m.parse (eight ++ bytes) = pure (.ok order) ∧ Refuses m (twelve ++ bytes) := by
  intro m order bytes eight twelve
  have read : (m.parse bytes).value = .ok order :=
    parse_archived_eq_ok_iff.mpr ⟨by decide +kernel, by decide +kernel⟩
  have fits : eight.length + bytes.length ≤ 52 := by decide +kernel
  have fits' : twelve.length + bytes.length ≤ 52 := by decide +kernel
  have whole := (parse_append_left read fits).1 (by decide)
  have part := (parse_append_left read fits').2 (by decide)
  exact ⟨⟨read, fits, fits'⟩, whole, part⟩

end Marshaller

end RpcMethod
