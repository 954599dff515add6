import RpcMethod.Proofs.Archive.Grammar
import RpcMethod.Proofs.Marshaller.Delivery

/-!
# What marshallers of archives accept

A marshaller recognises a grammar when it accepts what the grammar derives, as long as its limit
allows, and refuses everything else as malformed. The messages with a number, a text and a list are
recognised by the grammar of two-part archives.
-/

namespace RpcMethod.Marshaller

open Archive (Grammar IsArchive)

variable {t : MessageType}

/-- The marshaller accepts what the grammar derives and nothing else, and it tells whoever sent
something else within the limit that it cannot be read. -/
structure Recognises (m : Marshaller t) (limit : SizeLimit) (grammar : t.Value → Bytes → Prop) :
    Prop where
  accepted_iff : ∀ (v : t.Value) (bytes : Bytes),
    (m.parse bytes).value = .ok v ↔ bytes.length ≤ limit.max ∧ grammar v bytes
  refused : ∀ bytes : Bytes, bytes.length ≤ limit.max → (∀ v : t.Value, ¬ grammar v bytes) →
    ∃ reason : String, m.parse bytes = pure (.error (.deserialization reason))

theorem recognises_archived (limit : SizeLimit) (sample? : Option t.Value)
    {grammar : t.Value → Bytes → Prop}
    (h : ∀ (v : t.Value) (bytes : Bytes), IsArchive t.fields (t.pack v) bytes ↔ grammar v bytes) :
    Recognises (archived limit sample?) limit grammar := by
  constructor
  · intro v bytes
    rw [parse_archived_eq_ok_iff, Archive.decode?_eq_some_iff, h]
  · intro bytes fits underived
    apply (refuses_iff_no_archive fits).mpr
    intro v archive
    exact underived v ((h v bytes).mp archive)

/-- Orders and benchmark messages are accepted exactly in the form of the grammar, their items as
words of four bytes and as single bytes. -/
theorem parse_recognises_grammar (limit : SizeLimit) (order? : Option Order)
    (bench? : Option Bench) :
    Recognises (t := .order) (archived limit order?) limit
        (fun v => Grammar .word32 v.id v.symbol v.quantities) ∧
      Recognises (t := .bench) (archived limit bench?) limit
        (fun v => Grammar .byte v.id v.name v.payload) := by
  constructor
  · apply recognises_archived
    intro v bytes
    exact Archive.isArchive_iff_grammar
  · apply recognises_archived
    intro v bytes
    exact Archive.isArchive_iff_grammar

/-- An order with its text out of line, with junk around the text and no gap before the root: the
grammar derives it, so it is accepted. -/
theorem parse_recognises_grammar_linked :
    let order : Order := ⟨42, "all paid but one", [7]⟩
    let bytes : Bytes := [0xaa, 0xbb] ++ Bytes.ofText "all paid but one" ++ [0, 1] ++ [7, 0, 0, 0] ++
      [42, 0, 0, 0, 0, 0, 0, 0, 0x90, 0, 0, 0, 0xe2, 0xff, 0xff, 0xff,
        0xec, 0xff, 0xff, 0xff, 1, 0, 0, 0]
    Grammar .word32 order.id order.symbol order.quantities bytes ∧
      ((archived {} none : Marshaller .order).parse bytes).value = .ok order := by
  intro order bytes
  have text : Archive.TextForm order.symbol 2 32 (Bytes.ofText order.symbol)
      [0x90, 0, 0, 0, 0xe2, 0xff, 0xff, 0xff] :=
    .inr ⟨rfl, by decide, by decide, [0xe2, 0xff, 0xff, 0xff], ⟨rfl, by decide⟩, by decide⟩
  have derived : Grammar .word32 order.id order.symbol order.quantities bytes :=
    ⟨[0xaa, 0xbb], Bytes.ofText order.symbol, [0, 1], [], _, [0xec, 0xff, 0xff, 0xff], 20, 24,
      by decide, by decide, by decide, by decide, by decide, text, ⟨rfl, by decide⟩, by decide⟩
  have fits : bytes.length ≤ ({} : SizeLimit).max := by decide
  have recognises := (parse_recognises_grammar {} none none).1
  exact ⟨derived, (recognises.accepted_iff order bytes).mpr ⟨fits, derived⟩⟩

end RpcMethod.Marshaller
