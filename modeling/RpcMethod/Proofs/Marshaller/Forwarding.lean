import RpcMethod.Proofs.Archive.Shortest
import RpcMethod.Proofs.Marshaller.Delivery

/-!
# Forwarding what was received

A peer that has read a message can send it on through the same marshaller, in the writer's own form,
which no archive of the message undercuts. From then on the bytes stay as they are.
-/

namespace RpcMethod.Marshaller

variable {t : MessageType}

/-- The marshaller sends `v` as bytes that come back as `v`, and that it would send again for
whatever they come back as. -/
def Settles (m : Marshaller t) (v : t.Value) (bytes : Bytes) : Prop :=
  m.stream v = pure (.ok bytes) ∧ m.parse bytes = pure (.ok v) ∧
    ∀ w : t.Value, (m.parse bytes).value = .ok w → m.stream w = pure (.ok bytes)

theorem settles_archived {limit : SizeLimit} {sample? : Option t.Value} {v : t.Value}
    {bytes : Bytes} (written : Archive.encode? t.fields (t.pack v) = some bytes)
    (fits : bytes.length ≤ limit.max) : Settles (archived limit sample?) v bytes := by
  have sent : (archived limit sample?).stream v = pure (.ok bytes) := by
    rw [stream_archived written, SizeLimit.guard_of_le fits]
  have read : (archived limit sample?).parse bytes = pure (.ok v) :=
    (parse_eq_ok_iff_archive fits).mpr (Archive.isArchive_of_encode? written)
  refine ⟨sent, read, ?_⟩
  intro w again
  rw [read] at again
  obtain rfl := Except.ok.inj again
  exact sent

/-- What was read can be sent on, in no more bytes than it came in, and those bytes are settled.
Nothing in the input makes the message larger than the input: not even the content of its texts and
lists is. -/
theorem stream_of_parse {limit : SizeLimit} {sample? : Option t.Value} {v : t.Value} {input : Bytes}
    (small : input.length < 2 ^ 30) (read : ((archived limit sample?).parse input).value = .ok v) :
    ∃ bytes : Bytes, bytes.length ≤ input.length ∧ Settles (archived limit sample?) v bytes ∧
      Archive.contentSize t.fields (t.pack v) ≤ bytes.length := by
  obtain ⟨fits, decoded⟩ := parse_archived_eq_ok_iff.mp read
  have shortest := (Archive.decode?_eq_some_iff.mp decoded).encodedSize_le
  obtain ⟨bytes, written⟩ := Archive.exists_encode? (Nat.lt_of_le_of_lt shortest small)
  have size := Archive.length_encode? written
  have paid := Archive.contentSize_le_encodedSize t.fields (t.pack v)
  rw [← size] at shortest paid
  exact ⟨bytes, shortest, settles_archived written (Nat.le_trans shortest fits), paid⟩

/-- A greeting with four bytes before its name and three behind it that mean nothing. -/
theorem stream_of_parse_greeting :
    let input : Bytes := [1, 2, 3, 4] ++ Bytes.ofText "ninebytes" ++
      [5, 6, 7, 137, 0, 0, 0, 244, 255, 255, 255]
    (input.length < 2 ^ 30 ∧
      (archived ⟨24⟩ none : Marshaller .greeting).parse input = pure (.ok ⟨"ninebytes"⟩)) ∧
    ∃ bytes : Bytes, bytes.length ≤ input.length ∧
      Settles (archived ⟨24⟩ none : Marshaller .greeting) ⟨"ninebytes"⟩ bytes ∧
        Archive.contentSize MessageType.greeting.fields ("ninebytes", ()) ≤ bytes.length := by
  intro input
  have small : input.length < 2 ^ 30 := by decide +kernel
  have decoded : Archive.decode? MessageType.greeting.fields input =
      some (MessageType.greeting.pack ⟨"ninebytes"⟩) := by
    decide +kernel
  have read : (archived ⟨24⟩ none : Marshaller .greeting).parse input =
      pure (.ok ⟨"ninebytes"⟩) := by
    rw [parse_archived decoded]
    exact SizeLimit.guard_of_le (by decide +kernel) _
  exact ⟨⟨small, read⟩, stream_of_parse small (congrArg Traced.value read)⟩

end RpcMethod.Marshaller
