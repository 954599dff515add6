import RpcMethod.Proofs.SpanRegistry.Requests

/-!
# Registries as bounded sets

A registry can be asked for its size, for its names in order, whether it samples a name, whether it
is empty, and by giving up a name whether it had it. At any time all of these speak of one set of no
more names than the registry may have (`Consistent`), and a name leaves that set only by being given
up (`never_evicts`).
-/

namespace RpcMethod

namespace SpanRegistry

variable {registry : SpanRegistry} {capacity : Nat}

/-- What can be seen of a registry is what can be seen of a set of at most `capacity` names. -/
structure Consistent (registry : SpanRegistry) (capacity : Nat) : Prop where
  size_le : registry.size ≤ capacity
  ascending : registry.sorted.Pairwise (· < ·)
  length_sorted : registry.sorted.length = registry.size
  mem_sorted_iff : ∀ name, name ∈ registry.sorted ↔ registry.isSampled name = true
  isEmpty_iff : registry.isEmpty = true ↔ registry.size = 0
  unregister_iff : ∀ name, (registry.unregister name).1 = true ↔ registry.isSampled name = true
  unregister_removes : ∀ name other, (registry.unregister name).2.isSampled other = true ↔
    other ≠ name ∧ registry.isSampled other = true

theorem sorted_perm (registry : SpanRegistry) : registry.sorted.Perm registry.names :=
  List.mergeSort_perm registry.names _

/-- Sorting puts names that are all different into strictly ascending order. -/
theorem pairwise_lt_sorted (h : registry.names.Nodup) : registry.sorted.Pairwise (· < ·) := by
  have ordered : registry.sorted.Pairwise fun a b => decide (a ≤ b) = true := by
    apply List.pairwise_mergeSort
    · intro a b c first second
      exact decide_eq_true (String.le_trans (of_decide_eq_true first) (of_decide_eq_true second))
    · intro a b
      simpa using String.le_total a b
  have different : registry.sorted.Nodup := registry.sorted_perm.nodup_iff.mpr h
  apply (ordered.and different).imp
  rintro a b ⟨le, ne⟩
  apply String.not_le.mp
  intro ge
  exact ne (String.le_antisymm (of_decide_eq_true le) ge)

theorem consistent_of_bounded (h : registry.Bounded) (bound : registry.capacity = capacity) :
    registry.Consistent capacity := by
  constructor
  · exact bound ▸ h.size_le
  · exact pairwise_lt_sorted h.nodup
  · exact registry.sorted_perm.length_eq
  · intro name
    rw [isSampled_iff]
    exact registry.sorted_perm.mem_iff
  · rw [isEmpty, List.isEmpty_iff, size, List.length_eq_zero_iff]
  · intro name
    exact Iff.rfl
  · intro name other
    rw [isSampled_iff, isSampled_iff]
    exact mem_unregister_iff h

/-- What a registry that was empty shows in the course of some requests: at each of their places it
is a set within its bound, and the names that it has it keeps through all requests but the one to
give them up. -/
structure NeverEvicts (capacity : Nat) (requests : List SpanRequest) : Prop where
  consistent : ∀ earlier later, requests = earlier ++ later →
    (({ capacity } : SpanRegistry).after earlier).Consistent capacity
  keeps : ∀ earlier between later name, requests = earlier ++ between ++ later →
    .unregister name ∉ between →
    (({ capacity } : SpanRegistry).after earlier).isSampled name = true →
      (({ capacity } : SpanRegistry).after (earlier ++ between)).isSampled name = true

/-- Whatever is registered and unregistered, in whatever order: a registry is a set of names that is
bounded by its capacity and from which nothing is ever dropped. -/
theorem never_evicts (capacity : Nat) (requests : List SpanRequest) :
    NeverEvicts capacity requests := by
  constructor
  · intro earlier later _
    have bounded := bounded_after (bounded_empty capacity) earlier
    exact consistent_of_bounded bounded (capacity_after { capacity } earlier)
  · intro earlier between later name _ kept sampled
    rw [after_append, isSampled_iff]
    exact mem_after (isSampled_iff.mp sampled) kept

/-- A full registry turns a name away, has room for it when another one is given up, and does not
mind names that it has. -/
example : (({ capacity := 2 } : SpanRegistry).after
    [.register ["b", "c", "a"], .unregister "b", .register ["c", "a"]]).sorted = ["a", "c"] := by
  cbv

end SpanRegistry

end RpcMethod
