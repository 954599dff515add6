import RpcMethod.Proofs.RawNames.Uses

/-!
# Encoding once

A name is encoded only when it is asked for and not there. Then it is there, and it stays: so no
transport has a name encoded twice, whatever else is done with the raw names and however many
encoders the transport has.
-/

namespace RpcMethod

/-- The transport whose encoder a use may ask. -/
def NameUse.transport? : NameUse → Option Transport
  | .resolve encoder _ => some encoder.transport
  | _ => none

namespace Descriptor

variable {Req Resp : MessageType}

/-- How often encoders of a transport are asked in a sequence of uses. -/
def encodings (d : Descriptor Req Resp) (t : Transport) : List NameUse → Nat
  | [] => 0
  | use :: rest =>
    (if use.transport? = some t then (d.use use).encodings else 0) +
      (d.use use).descriptor.encodings t rest

/-- What asking for a name does: the encoder is asked if the name is missing, and then the name is
what it gave; a name that is there is given and nothing else happens. Either way the answer is the
object that is in the slot afterwards, and the other slots are left alone. -/
structure ResolvesFrugally (d : Descriptor Req Resp) (encoder : NameEncoder) (number : Nat) :
    Prop where
  asks : d.rawNames.get encoder.transport.slot = none →
    (d.use (.resolve encoder number)).encodings = 1 ∧
      (d.use (.resolve encoder number)).answer = .raw ⟨number, encoder.encode d.name⟩
  reuses : ∀ raw, d.rawNames.get encoder.transport.slot = some raw →
    d.use (.resolve encoder number) = ⟨.raw raw, d, 0⟩
  gives : ∃ raw, (d.use (.resolve encoder number)).answer = .raw raw ∧
    (d.use (.resolve encoder number)).descriptor.rawNames.get encoder.transport.slot = some raw
  spares : ∀ slot, slot ≠ encoder.transport.slot →
    (d.use (.resolve encoder number)).descriptor.rawNames.get slot = d.rawNames.get slot

theorem resolves_frugally (d : Descriptor Req Resp) (encoder : NameEncoder) (number : Nat) :
    d.ResolvesFrugally encoder number := by
  constructor
  · intro missing
    rw [d.use_resolve_of_none encoder number missing]
    exact ⟨rfl, rfl⟩
  · intro raw held
    exact d.use_resolve_of_some encoder number held
  · exact ⟨_, rfl, d.rawNames.get_resolve encoder d.name number⟩
  · intro slot apart
    cases held : d.rawNames.get encoder.transport.slot with
    | some raw => rw [d.use_resolve_of_some encoder number held]
    | none =>
      rw [d.use_resolve_of_none encoder number held]
      exact RawNames.get_set_of_ne d.rawNames _ apart

theorem transport?_eq_some {use : NameUse} {t : Transport} (h : use.transport? = some t) :
    ∃ encoder number, use = .resolve encoder number ∧ encoder.transport = t := by
  cases use with
  | resolve encoder number => exact ⟨encoder, number, rfl, Option.some.inj h⟩
  | set slot raw => cases h
  | trySet index raw => cases h
  | get slot => cases h
  | tryGet index => cases h
  | outline => cases h

theorem encodings_resolve_le_one (d : Descriptor Req Resp) (encoder : NameEncoder) (number : Nat) :
    (d.use (.resolve encoder number)).encodings ≤ 1 := by
  have frugal := d.resolves_frugally encoder number
  cases held : d.rawNames.get encoder.transport.slot with
  | some raw =>
    rw [frugal.reuses raw held]
    exact Nat.zero_le 1
  | none => exact Nat.le_of_eq (frugal.asks held).1

theorem encodings_of_transport?_eq_none {d : Descriptor Req Resp} {use : NameUse}
    (h : use.transport? = none) : (d.use use).encodings = 0 := by
  cases use with
  | resolve encoder number => cases h
  | set slot raw => rfl
  | trySet index raw =>
    cases position : Transport.slot? index with
    | none => rw [d.use_trySet_of_none raw position]
    | some slot =>
      rw [d.use_trySet_of_some raw position]
      rfl
  | get slot => rfl
  | tryGet index =>
    cases position : Transport.slot? index with
    | none => rw [d.use_tryGet_of_none position]
    | some slot =>
      rw [d.use_tryGet_of_some position]
      rfl
  | outline => rfl

/-- Once a transport's name is there, its encoders are not asked any more. -/
theorem encodings_of_filled {d : Descriptor Req Resp} {t : Transport} (uses : List NameUse)
    (h : (d.rawNames.get t.slot).isSome) : d.encodings t uses = 0 := by
  induction uses generalizing d with
  | nil => rfl
  | cons use rest ih =>
    rw [encodings, ih (filled_use h), Nat.add_zero]
    split
    · next asking =>
      obtain ⟨encoder, number, rfl, rfl⟩ := transport?_eq_some asking
      obtain ⟨raw, held⟩ := Option.isSome_iff_exists.mp h
      rw [(d.resolves_frugally encoder number).reuses raw held]
    · rfl

theorem encodings_le_one (d : Descriptor Req Resp) (t : Transport) (uses : List NameUse) :
    d.encodings t uses ≤ 1 := by
  induction uses generalizing d with
  | nil => exact Nat.zero_le 1
  | cons use rest ih =>
    rw [encodings]
    split
    · next asking =>
      obtain ⟨encoder, number, rfl, rfl⟩ := transport?_eq_some asking
      obtain ⟨raw, _, held⟩ := (d.resolves_frugally encoder number).gives
      rw [encodings_of_filled rest (Option.isSome_of_eq_some held)]
      exact d.encodings_resolve_le_one encoder number
    · rw [Nat.zero_add]
      exact ih _

/-- What a sequence of uses does with the encoders of a descriptor, at each of its places: slots
that are filled stay filled, only asking for a name can ask an encoder, and an encoder of a
transport is asked once at most, and never after the transport's slot was written. -/
structure EncodesOnce (d : Descriptor Req Resp) (uses : List NameUse) : Prop where
  keeps : ∀ earlier later slot, uses = earlier ++ later →
    ((d.after earlier).rawNames.get slot).isSome → ((d.after uses).rawNames.get slot).isSome
  resolves : ∀ earlier encoder number later, uses = earlier ++ .resolve encoder number :: later →
    (d.after earlier).ResolvesFrugally encoder number
  silent : ∀ earlier use later, uses = earlier ++ use :: later → use.transport? = none →
    ((d.after earlier).use use).encodings = 0
  once : ∀ t, d.encodings t uses ≤ 1
  never : ∀ earlier use later t raw, uses = earlier ++ use :: later →
    (d.after earlier).written? use = some (t.slot, raw) →
      (d.after (earlier ++ [use])).encodings t later = 0

/-- Whatever is done with the raw names of a descriptor, in whatever order and by whatever encoders:
each transport has the name encoded at most once. -/
theorem encodes_once (d : Descriptor Req Resp) (uses : List NameUse) : d.EncodesOnce uses := by
  constructor
  · rintro earlier later slot rfl filled
    rw [after_append]
    exact filled_after later filled
  · intro earlier encoder number later _
    exact (d.after earlier).resolves_frugally encoder number
  · intro earlier use later _ silent
    exact encodings_of_transport?_eq_none silent
  · intro t
    exact d.encodings_le_one t uses
  · intro earlier use later t raw _ written
    rw [after_append]
    exact encodings_of_filled later (Option.isSome_of_eq_some (get_of_written written))

/-- Two encoders of one transport and an object put over the first one's name. -/
example (method : MethodSpec Req Resp) :
    (Descriptor.mk method .empty).encodings .uds
      [.resolve (.upper .uds) 1, .set 1 ⟨2, .text "a"⟩, .resolve (.path .uds) 3] = 1 :=
  rfl

end Descriptor

end RpcMethod
