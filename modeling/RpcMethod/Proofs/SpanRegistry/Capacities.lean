import RpcMethod.Proofs.SpanRegistry.Requests

/-!
# Registries of different capacities

Two registries that are asked the same things differ in what they turn away. That the larger one
has all names of the smaller one does not carry over from one offer to the next by itself: the
larger one could be full when the smaller one takes up a name. It does together with the fact that
the larger one has no less room left (`Within`). So raising the capacity never costs a name
(`sampled_of_capacity_le`).
-/

namespace RpcMethod

namespace SpanRegistry

variable {small large registry : SpanRegistry} {name : String}

/-- One registry has only names that the other has too, and no more room for new ones. -/
structure Within (small large : SpanRegistry) : Prop where
  names : small.names ⊆ large.names
  free_le : (small.capacity : Int) - small.size ≤ large.capacity - large.size

/-- The smaller registry takes up a name: the larger one has it already, or has room for it. -/
theorem within_of_taken (h : small.Within large) (room : small.size < small.capacity)
    (name : String) : (small.add name).Within (large.offer name).value := by
  have more := h.free_le
  by_cases there : name ∈ large.names
  · rw [offer_of_mem there, Traced.value_pure]
    constructor
    · apply List.append_subset.mpr
      exact ⟨h.names, List.cons_subset.mpr ⟨there, List.nil_subset large.names⟩⟩
    · rw [size_add, capacity_add]
      omega
  · rw [offer_of_room there (by omega)]
    constructor
    · apply List.append_subset.mpr
      exact ⟨List.subset_append_of_subset_left _ h.names, List.subset_append_right _ _⟩
    · rw [size_add, capacity_add, size_add, capacity_add]
      omega

/-- The smaller registry is full: the larger one cannot have less room, whatever it takes up. -/
theorem within_of_full (h : small.Within large) (full : small.capacity ≤ small.size)
    (name : String) : small.Within (large.offer name).value := by
  rcases large.offer_cases name with ⟨_, same⟩ | ⟨_, room, taken⟩ | ⟨_, _, refused⟩
  · rw [same]
    exact h
  · rw [taken]
    constructor
    · exact List.subset_append_of_subset_left [name] h.names
    · rw [size_add, capacity_add]
      omega
  · rw [refused]
    exact h

theorem within_offer (h : small.Within large) (name : String) :
    (small.offer name).value.Within (large.offer name).value := by
  rcases small.offer_cases name with ⟨there, same⟩ | ⟨_, room, taken⟩ | ⟨_, full, refused⟩
  · rw [same, offer_of_mem (h.names there)]
    exact h
  · rw [taken]
    exact within_of_taken h room name
  · rw [refused]
    exact within_of_full h full name

theorem size_unregister_of_mem (h : name ∈ registry.names) :
    (registry.unregister name).2.size + 1 = registry.size := by
  have removed : (registry.names.erase name).length = registry.names.length - 1 :=
    List.length_erase_of_mem h
  have some : 0 < registry.names.length := List.length_pos_of_mem h
  simp only [unregister, size]
  omega

theorem size_unregister_le (registry : SpanRegistry) (name : String) :
    (registry.unregister name).2.size ≤ registry.size :=
  List.erase_sublist.length_le

/-- If the smaller registry gives up a name that it has, so does the larger one; otherwise only the
larger one can gain room. -/
theorem within_unregister (h : small.Within large) (bounded : small.Bounded) (name : String) :
    (small.unregister name).2.Within (large.unregister name).2 := by
  constructor
  · intro other there
    obtain ⟨apart, old⟩ := (mem_unregister_iff bounded).mp there
    exact mem_unregister (h.names old) apart
  · have more := h.free_le
    change (small.capacity : Int) - (small.unregister name).2.size ≤
      large.capacity - (large.unregister name).2.size
    by_cases there : name ∈ small.names
    · have fewer := size_unregister_of_mem there
      have fewerLarge := size_unregister_of_mem (h.names there)
      omega
    · have same : (small.unregister name).2.size = small.size :=
        congrArg List.length (List.erase_of_not_mem there)
      have fewerLarge := large.size_unregister_le name
      omega

theorem within_register (h : small.Within large) (names : List String) :
    (small.register names).value.Within (large.register names).value := by
  induction names generalizing small large with
  | nil => exact h
  | cons name rest ih => exact ih (within_offer h name)

theorem within_after (h : small.Within large) (bounded : small.Bounded)
    (requests : List SpanRequest) : (small.after requests).Within (large.after requests) := by
  induction requests generalizing small large with
  | nil => exact h
  | cons request rest ih =>
    cases request with
    | register names =>
      exact ih (within_register h names) (bounded_register bounded names)
    | unregister name =>
      exact ih (within_unregister h bounded name) (bounded_unregister bounded name)

/-- Of two registries that start empty and are asked the same, the one of larger capacity samples at
all times whatever the other one samples, and has at least as many places left. -/
theorem sampled_of_capacity_le {smaller larger : Nat} (h : smaller ≤ larger)
    (requests : List SpanRequest) :
    let small := ({ capacity := smaller } : SpanRegistry).after requests
    let large := ({ capacity := larger } : SpanRegistry).after requests
    (∀ name, small.isSampled name = true → large.isSampled name = true) ∧
      (smaller : Int) - small.size ≤ larger - large.size := by
  intro small large
  have within : small.Within large := by
    apply within_after
    · constructor
      · exact List.nil_subset []
      · simpa [size] using h
    · exact bounded_empty smaller
  constructor
  · intro name sampled
    exact isSampled_iff.mpr (within.names (isSampled_iff.mp sampled))
  · have free := within.free_le
    rw [capacity_after, capacity_after] at free
    exact free

/-- The smaller registry turns `b` away, and has room for `c` once `a` is given up. -/
theorem sampled_of_capacity_le_refilled :
    let requests : List SpanRequest := [.register ["a", "b"], .unregister "a", .register ["c"]]
    let small := ({ capacity := 1 } : SpanRegistry).after requests
    let large := ({ capacity := 2 } : SpanRegistry).after requests
    1 ≤ 2 ∧ small.names = ["c"] ∧ large.names = ["b", "c"] ∧
      (∀ name, small.isSampled name = true → large.isSampled name = true) ∧
      ((1 : Nat) : Int) - small.size ≤ (2 : Nat) - large.size := by
  intro requests small large
  exact ⟨by decide, by decide, by decide, sampled_of_capacity_le (by decide) requests⟩

end SpanRegistry

end RpcMethod
