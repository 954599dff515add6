import RpcMethod.Proofs.SpanNames
import RpcMethod.Proofs.SpanRegistry.Requests

/-!
# Both sides of methods

A registry takes names one at a time, so a method whose two names come to a registry with one place
left is cut: its client is sampled and its server is not. That is all that can happen to a registry
that is offered the names of whole methods only. Until then its names are the pairs of some methods,
as two methods share both names or none; and then it is full and stays as it is
(`paired_register`).
-/

namespace RpcMethod

open MethodName (spans dotted labelled)

namespace SpanRegistry

variable {registry : SpanRegistry} {methods : List String} {last text : String} {side : Side}

/-- The names of a registry are those of both sides of some methods, or it is full and has in
addition the client's name of one more. -/
inductive Paired (registry : SpanRegistry) : Prop where
  | whole (methods : List String) (names : registry.names = methods.flatMap spans)
  | cut (methods : List String) (last : String)
      (names : registry.names = methods.flatMap spans ++ [MethodName.span .client last])
      (full : registry.size = registry.capacity)

theorem paired_empty (capacity : Nat) : ({ capacity } : SpanRegistry).Paired := .whole [] rfl

/-- Of a method that has neither of its names in the registry, both are taken up, the client's
alone, or none. -/
theorem paired_of_new (names : registry.names = methods.flatMap spans) {method : String}
    (new : ∀ side, MethodName.span side method ∉ registry.names) :
    (registry.register (spans method)).value.Paired := by
  by_cases room : registry.size < registry.capacity
  · have client := offer_of_room (new .client) room
    have server : MethodName.span .server method ∉
        (registry.add (MethodName.span .client method)).names := by
      rw [names_add, List.mem_append, List.mem_singleton]
      rintro (there | same)
      · exact new .server there
      · exact MethodName.labelled_client_ne_server _ _ same.symm
    change ((registry.offer (MethodName.span .client method)).value.offer
      (MethodName.span .server method)).value.Paired
    rw [client]
    by_cases more : registry.size + 1 < registry.capacity
    · rw [offer_of_room server (by simpa using more)]
      apply Paired.whole (methods ++ [method])
      simp [names, spans]
    · rw [value_offer_of_full (by simpa using more)]
      apply Paired.cut methods method
      · rw [names_add, names]
      · rw [size_add, capacity_add]
        omega
  · rw [value_register_of_full (Nat.le_of_not_lt room)]
    exact .whole methods names

theorem register_of_known {method : String}
    (known : ∀ side, MethodName.span side method ∈ registry.names) :
    registry.register (spans method) = pure registry := by
  apply register_of_subset
  simp [spans, known]

/-- Offering a method keeps names in pairs: before it both of its names are there, from a method that
is written alike with dots, or neither is. -/
theorem paired_register (h : registry.Paired) (method : String) :
    (registry.register (spans method)).value.Paired := by
  cases h with
  | whole methods names =>
    have sides : ∀ side, MethodName.span side method ∈ registry.names ↔
        dotted method ∈ methods.map dotted := by
      intro side
      rw [names]
      exact MethodName.labelled_mem_flatMap_iff
    by_cases known : dotted method ∈ methods.map dotted
    · rw [register_of_known fun side => (sides side).mpr known]
      exact .whole methods names
    · exact paired_of_new names fun side there => known ((sides side).mp there)
  | cut methods last names full =>
    rw [value_register_of_full (Nat.le_of_eq full.symm)]
    exact .cut methods last names full

/-- One side of a method is sampled and the other is not; the text is the name of the method as span
names have it. -/
def Parts (registry : SpanRegistry) (text : String) : Prop :=
  registry.isSampled ("Sent." ++ text) ≠ registry.isSampled ("Recv." ++ text)

instance (registry : SpanRegistry) (text : String) : Decidable (registry.Parts text) :=
  inferInstanceAs (Decidable (_ ≠ _))

/-- The sides of methods are sampled together; only if the capacity is odd can there be a method,
and only one, whose client is sampled alone, and then the registry is full. -/
structure SamplesTogether (registry : SpanRegistry) (capacity : Nat) : Prop where
  even : capacity % 2 = 0 → ∀ text,
    registry.isSampled ("Sent." ++ text) = registry.isSampled ("Recv." ++ text)
  parts_unique : ∀ a b, registry.Parts a → registry.Parts b → a = b
  parts_client : ∀ text, registry.Parts text →
    registry.isSampled ("Sent." ++ text) = true ∧ registry.isSampled ("Recv." ++ text) = false
  parts_full : ∀ text, registry.Parts text → registry.size = capacity

theorem isSampled_of_whole (names : registry.names = methods.flatMap spans) :
    registry.isSampled (labelled side text) = true ↔ text ∈ methods.map dotted := by
  rw [isSampled_iff, names]
  exact MethodName.labelled_mem_flatMap_iff

theorem isSampled_of_cut
    (names : registry.names = methods.flatMap spans ++ [MethodName.span .client last]) :
    registry.isSampled (labelled side text) = true ↔
      text ∈ methods.map dotted ∨ side = .client ∧ text = dotted last := by
  rw [isSampled_iff, names, List.mem_append, List.mem_singleton, MethodName.span_eq_labelled,
    MethodName.labelled_mem_flatMap_iff, MethodName.labelled_inj]

theorem together_of_whole (names : registry.names = methods.flatMap spans) (text : String) :
    registry.isSampled ("Sent." ++ text) = registry.isSampled ("Recv." ++ text) := by
  rw [← MethodName.labelled_client, ← MethodName.labelled_server]
  exact Bool.eq_iff_iff.mpr ((isSampled_of_whole names).trans (isSampled_of_whole names).symm)

/-- Only the method that came last is parted. -/
theorem parts_of_cut
    (names : registry.names = methods.flatMap spans ++ [MethodName.span .client last])
    (h : registry.Parts text) :
    text = dotted last ∧ registry.isSampled ("Sent." ++ text) = true ∧
      registry.isSampled ("Recv." ++ text) = false := by
  rw [Parts, ← MethodName.labelled_client, ← MethodName.labelled_server] at h
  rw [← MethodName.labelled_client, ← MethodName.labelled_server]
  by_cases known : text ∈ methods.map dotted
  · have sampled : ∀ side, registry.isSampled (labelled side text) = true :=
      fun side => (isSampled_of_cut names).mpr (.inl known)
    exact absurd ((sampled .client).trans (sampled .server).symm) h
  · have server : registry.isSampled (labelled .server text) = false := by
      apply Bool.eq_false_iff.mpr
      intro sampled
      rcases (isSampled_of_cut names).mp sampled with there | ⟨client, _⟩
      · exact known there
      · cases client
    have client : registry.isSampled (labelled .client text) = true := by
      rw [server] at h
      exact Bool.ne_false_iff.mp h
    have last := ((isSampled_of_cut names).mp client).resolve_left known
    exact ⟨last.2, client, server⟩

theorem samplesTogether_of_paired {capacity : Nat} (h : registry.Paired)
    (bound : registry.capacity = capacity) : registry.SamplesTogether capacity := by
  cases h with
  | whole methods names =>
    have together := together_of_whole names
    constructor
    · intro _ text
      exact together text
    · intro a b parted
      exact absurd (together a) parted
    · intro text parted
      exact absurd (together text) parted
    · intro text parted
      exact absurd (together text) parted
  | cut methods last names full =>
    have odd : capacity = 2 * methods.length + 1 := by
      rw [← bound, ← full, size, names, List.length_append, List.length_singleton,
        MethodName.length_flatMap_spans]
    constructor
    · intro even
      omega
    · intro a b partedA partedB
      exact (parts_of_cut names partedA).1.trans (parts_of_cut names partedB).1.symm
    · intro text parted
      exact (parts_of_cut names parted).2
    · intro text _
      exact full.trans bound

end SpanRegistry

end RpcMethod
