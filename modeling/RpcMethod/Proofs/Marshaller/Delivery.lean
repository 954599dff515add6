import RpcMethod.Marshaller
import RpcMethod.Proofs.Archive.RoundTrip

/-!
# Delivery between peers

When the marshaller of a peer succeeds, and what it gives: archives written and read within the
limit, and anything else within the limit refused as no message. A receiver with a limit of its own
gets the very message that was sent, or refuses the bytes for their size and for nothing else
(`parse_stream`).
-/

namespace RpcMethod

theorem SizeLimit.guard_eq_ok_iff {α : Type} {limit : SizeLimit} {size : Nat} {a : α}
    {next : Unit → Except CodecError α} :
    (limit.guard size next).value = .ok a ↔ size ≤ limit.max ∧ next () = .ok a := by
  by_cases fits : size ≤ limit.max
  · rw [guard_of_le fits, Traced.value_pure]
    exact ⟨fun h => ⟨fits, h⟩, fun h => h.2⟩
  · rw [guard_of_lt (Nat.not_le.mp fits)]
    constructor
    · intro h
      cases h
    · intro h
      exact absurd h.1 fits

namespace Marshaller

variable {t : MessageType} {limit : SizeLimit} {sample? : Option t.Value} {v : t.Value}
  {bytes : Bytes}

theorem stream_archived (written : Archive.encode? t.fields (t.pack v) = some bytes) :
    (archived limit sample?).stream v = limit.guard bytes.length fun _ => .ok bytes := by
  rw [stream, written]

theorem parse_archived (read : Archive.decode? t.fields bytes = some (t.pack v)) :
    (archived limit sample?).parse bytes = limit.guard bytes.length fun _ => .ok v := by
  rw [parse, read]
  dsimp only
  rw [t.unpack_pack]

theorem stream_archived_eq_ok_iff :
    ((archived limit sample?).stream v).value = .ok bytes ↔
      Archive.encode? t.fields (t.pack v) = some bytes ∧ bytes.length ≤ limit.max := by
  cases written : Archive.encode? t.fields (t.pack v) with
  | none =>
    rw [stream, written]
    constructor
    · intro h
      cases h
    · rintro ⟨⟨⟩, _⟩
  | some content =>
    rw [stream_archived written, SizeLimit.guard_eq_ok_iff]
    constructor
    · rintro ⟨fits, same⟩
      obtain rfl := Except.ok.inj same
      exact ⟨rfl, fits⟩
    · rintro ⟨same, fits⟩
      obtain rfl := Option.some.inj same
      exact ⟨fits, rfl⟩

theorem parse_archived_eq_ok_iff :
    ((archived limit sample?).parse bytes).value = .ok v ↔
      bytes.length ≤ limit.max ∧ Archive.decode? t.fields bytes = some (t.pack v) := by
  rw [parse, SizeLimit.guard_eq_ok_iff]
  cases read : Archive.decode? t.fields bytes with
  | none =>
    constructor
    · rintro ⟨_, ⟨⟩⟩
    · rintro ⟨_, ⟨⟩⟩
  | some record =>
    constructor
    · rintro ⟨fits, same⟩
      obtain rfl := Except.ok.inj same
      exact ⟨fits, congrArg some (t.pack_unpack record).symm⟩
    · rintro ⟨fits, same⟩
      obtain rfl := Option.some.inj same
      exact ⟨fits, congrArg Except.ok (t.unpack_pack v)⟩

/-- The marshaller finds that the bytes are no message. -/
def Refuses (m : Marshaller t) (bytes : Bytes) : Prop :=
  ∃ reason : String, m.parse bytes = pure (.error (.deserialization reason))

theorem refuses_archived_iff (fits : bytes.length ≤ limit.max) :
    Refuses (archived limit sample?) bytes ↔ Archive.decode? t.fields bytes = none := by
  rw [Refuses, parse, SizeLimit.guard_of_le fits]
  cases Archive.decode? t.fields bytes with
  | none => exact ⟨fun _ => rfl, fun _ => ⟨"malformed archive", rfl⟩⟩
  | some record =>
    constructor
    · rintro ⟨reason, ⟨⟩⟩
    · rintro ⟨⟩

/-- Within its limit a marshaller refuses what is no archive of any message. -/
theorem refuses_iff_no_archive (fits : bytes.length ≤ limit.max) :
    Refuses (archived limit sample?) bytes ↔
      ∀ w : t.Value, ¬ Archive.IsArchive t.fields (t.pack w) bytes := by
  rw [refuses_archived_iff fits, Archive.decode?_eq_none_iff]
  constructor
  · intro none w
    exact none (t.pack w)
  · intro none record archive
    rw [← t.pack_unpack record] at archive
    exact none (t.unpack record) archive

/-- Within its limit a marshaller reads the archives of a message as that message. -/
theorem parse_eq_ok_iff_archive (fits : bytes.length ≤ limit.max) :
    (archived limit sample?).parse bytes = pure (.ok v) ↔
      Archive.IsArchive t.fields (t.pack v) bytes := by
  rw [← Archive.decode?_eq_some_iff]
  constructor
  · intro read
    exact (parse_archived_eq_ok_iff.mp (congrArg Traced.value read)).2
  · intro decoded
    rw [parse_archived decoded, SizeLimit.guard_of_le fits]

/-- What a receiver makes of the bytes of `v`: within its limit the message itself, and beyond it a
refusal with size and limit, which is logged with the same numbers. -/
def Received {α : Type} (receiver : SizeLimit) (v : α) (bytes : Bytes)
    (outcome : Traced (Except CodecError α)) : Prop :=
  (bytes.length ≤ receiver.max → outcome = pure (.ok v)) ∧
    (receiver.max < bytes.length →
      outcome = ⟨[.messageTooLarge bytes.length receiver.max],
        .error (.messageTooLarge bytes.length receiver.max)⟩)

theorem received_guard {α : Type} (receiver : SizeLimit) (v : α) (bytes : Bytes) :
    Received receiver v bytes (receiver.guard bytes.length fun _ => .ok v) :=
  ⟨fun fits => SizeLimit.guard_of_le fits _, fun large => SizeLimit.guard_of_lt large _⟩

/-- Whatever a peer sends, another peer receives, each under its own limit: as an archive of any
message type, and as verbatim bytes. What is sent keeps the sender's limit. -/
theorem parse_stream (sender receiver : SizeLimit) :
    (∀ (t : MessageType) (sent? expected? : Option t.Value) (v : t.Value) (bytes : Bytes),
      ((archived sender sent?).stream v).value = .ok bytes →
        Received receiver v bytes ((archived receiver expected?).parse bytes) ∧
          bytes.length ≤ sender.max ∧ (sender = {} → bytes.length < 2 ^ 30)) ∧
    ∀ payload bytes : Bytes,
      ((verbatim sender).stream payload).value = .ok bytes →
        Received receiver payload bytes ((verbatim receiver).parse bytes) := by
  constructor
  · intro t sent? expected? v bytes sent
    obtain ⟨written, fits⟩ := stream_archived_eq_ok_iff.mp sent
    rw [parse_archived (Archive.decode?_encode? written)]
    refine ⟨received_guard receiver v bytes, fits, ?_⟩
    rintro rfl
    have max : bytes.length ≤ 16777216 := fits
    omega
  · intro payload bytes sent
    rw [stream, SizeLimit.guard_eq_ok_iff] at sent
    obtain rfl := Except.ok.inj sent.2
    rw [parse]
    exact received_guard receiver payload payload

/-- Forty bytes that one receiver can take and the other cannot. -/
theorem parse_stream_order :
    let order : Order := ⟨7, "ninebytes", [1]⟩
    let bytes : Bytes := Bytes.ofText "ninebytes" ++
      [0, 0, 0, 1, 0, 0, 0, 7, 0, 0, 0, 0, 0, 0, 0, 137, 0, 0, 0, 232, 255, 255, 255,
        236, 255, 255, 255, 1, 0, 0, 0]
    (((archived {} none : Marshaller .order).stream order).value = .ok bytes ∧
      (archived ⟨40⟩ none : Marshaller .order).parse bytes = pure (.ok order) ∧
      (archived ⟨39⟩ none : Marshaller .order).parse bytes =
        ⟨[.messageTooLarge 40 39], .error (.messageTooLarge 40 39)⟩) ∧
    ((verbatim {}).stream bytes).value = .ok bytes ∧
      (verbatim ⟨40⟩).parse bytes = pure (.ok bytes) := by
  intro order bytes
  have sent : ((archived {} none : Marshaller .order).stream order).value = .ok bytes :=
    stream_archived_eq_ok_iff.mpr ⟨by decide +kernel, by decide +kernel⟩
  have copied : ((verbatim {}).stream bytes).value = .ok bytes :=
    SizeLimit.guard_eq_ok_iff.mpr ⟨by decide +kernel, rfl⟩
  have within := ((parse_stream {} ⟨40⟩).1 .order none none order bytes sent).1
  have beyond := ((parse_stream {} ⟨39⟩).1 .order none none order bytes sent).1
  have kept := (parse_stream {} ⟨40⟩).2 bytes bytes copied
  exact ⟨⟨sent, within.1 (by decide +kernel), beyond.2 (by decide +kernel)⟩, copied,
    kept.1 (by decide +kernel)⟩

end Marshaller

end RpcMethod
