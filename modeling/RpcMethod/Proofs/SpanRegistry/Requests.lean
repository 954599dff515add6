import RpcMethod.SpanRegistry

/-!
# Requests to a span registry

Names are offered to a registry and names are given up, and nothing else changes it. An offer ends
in one of three ways (`offer_cases`); so what every offer and every giving up preserves is preserved
by all requests (`after_induction`). In this way a registry never has a name twice nor more names
than it may have (`bounded_after`), and a name that is not given up stays (`mem_after`).
-/

namespace RpcMethod

namespace SpanRegistry

variable {registry : SpanRegistry} {name other : String}

theorem isSampled_eq_false_iff : registry.isSampled name = false ↔ name ∉ registry.names := by
  rw [Bool.eq_false_iff, ne_eq, isSampled_iff]

/-- The registry with one name more. -/
def add (registry : SpanRegistry) (name : String) : SpanRegistry :=
  { registry with names := registry.names ++ [name] }

@[simp] theorem names_add (registry : SpanRegistry) (name : String) :
    (registry.add name).names = registry.names ++ [name] := rfl

@[simp] theorem capacity_add (registry : SpanRegistry) (name : String) :
    (registry.add name).capacity = registry.capacity := rfl

@[simp] theorem size_add (registry : SpanRegistry) (name : String) :
    (registry.add name).size = registry.size + 1 := by
  simp [size]

theorem offer_of_mem (h : name ∈ registry.names) : registry.offer name = pure registry :=
  if_pos (isSampled_iff.mpr h)

theorem offer_of_room (new : name ∉ registry.names) (room : registry.size < registry.capacity) :
    registry.offer name = ⟨[.spanSampled name], registry.add name⟩ := by
  have unsampled : ¬ registry.isSampled name = true := fun h => new (isSampled_iff.mp h)
  exact (if_neg unsampled).trans (if_pos room)

theorem offer_of_full (new : name ∉ registry.names) (full : registry.capacity ≤ registry.size) :
    registry.offer name = ⟨[.registryFull name registry.capacity], registry⟩ := by
  have unsampled : ¬ registry.isSampled name = true := fun h => new (isSampled_iff.mp h)
  exact (if_neg unsampled).trans (if_neg (Nat.not_lt.mpr full))

/-- A name that is offered is there, is taken up, or is turned away. -/
theorem offer_cases (registry : SpanRegistry) (name : String) :
    (name ∈ registry.names ∧ registry.offer name = pure registry) ∨
      (name ∉ registry.names ∧ registry.size < registry.capacity ∧
        registry.offer name = ⟨[.spanSampled name], registry.add name⟩) ∨
      (name ∉ registry.names ∧ registry.capacity ≤ registry.size ∧
        registry.offer name = ⟨[.registryFull name registry.capacity], registry⟩) := by
  by_cases there : name ∈ registry.names
  · exact .inl ⟨there, offer_of_mem there⟩
  · by_cases room : registry.size < registry.capacity
    · exact .inr (.inl ⟨there, room, offer_of_room there room⟩)
    · have full := Nat.le_of_not_lt room
      exact .inr (.inr ⟨there, full, offer_of_full there full⟩)

/-- A full registry is not changed by what it is offered. -/
theorem value_offer_of_full (full : registry.capacity ≤ registry.size) (name : String) :
    (registry.offer name).value = registry := by
  by_cases there : name ∈ registry.names
  · rw [offer_of_mem there, Traced.value_pure]
  · rw [offer_of_full there full]

theorem capacity_offer (registry : SpanRegistry) (name : String) :
    (registry.offer name).value.capacity = registry.capacity := by
  rcases registry.offer_cases name with ⟨_, same⟩ | ⟨_, _, taken⟩ | ⟨_, _, refused⟩
  · rw [same, Traced.value_pure]
  · rw [taken, capacity_add]
  · rw [refused]

/-- An offer takes no name away. -/
theorem mem_offer (h : name ∈ registry.names) (offered : String) :
    name ∈ (registry.offer offered).value.names := by
  rcases registry.offer_cases offered with ⟨_, same⟩ | ⟨_, _, taken⟩ | ⟨_, _, refused⟩
  · rw [same]
    exact h
  · rw [taken]
    exact List.mem_append_left [offered] h
  · rw [refused]
    exact h

/-- What is true of a registry and kept by every offer is true of it after it was offered names. -/
theorem register_induction {P : SpanRegistry → Prop}
    (offered : ∀ registry name, P registry → P (registry.offer name).value) (h : P registry)
    (names : List String) : P (registry.register names).value := by
  induction names generalizing registry with
  | nil => exact h
  | cons name rest ih => exact ih (offered registry name h)

theorem capacity_register (registry : SpanRegistry) (names : List String) :
    (registry.register names).value.capacity = registry.capacity := by
  apply register_induction (P := fun later => later.capacity = registry.capacity)
  · intro later name same
    exact (later.capacity_offer name).trans same
  · rfl

theorem mem_register (h : name ∈ registry.names) (names : List String) :
    name ∈ (registry.register names).value.names := by
  apply register_induction (P := fun later => name ∈ later.names)
  · intro later offered there
    exact mem_offer there offered
  · exact h

theorem isSampled_register (h : registry.isSampled name = true) (names : List String) :
    (registry.register names).value.isSampled name = true :=
  isSampled_iff.mpr (mem_register (isSampled_iff.mp h) names)

/-- Names that are all there change nothing, and nothing is logged for them. -/
theorem register_of_subset {names : List String} (known : names ⊆ registry.names) :
    registry.register names = pure registry := by
  induction names with
  | nil => rfl
  | cons name rest ih =>
    obtain ⟨there, others⟩ := List.cons_subset.mp known
    rw [register_cons, offer_of_mem there]
    exact ih others

theorem value_register_of_full (full : registry.capacity ≤ registry.size) (names : List String) :
    (registry.register names).value = registry := by
  apply register_induction (P := fun later => later = registry)
  · rintro _ name rfl
    exact value_offer_of_full full name
  · rfl

/-- How many more names the registry takes up. -/
def free (registry : SpanRegistry) : Nat := registry.capacity - registry.size

/-- How many of some names are not sampled yet. -/
def missing (registry : SpanRegistry) (names : List String) : Nat :=
  names.countP fun name => !registry.isSampled name

theorem missing_cons_of_mem (h : name ∈ registry.names) (rest : List String) :
    registry.missing (name :: rest) = registry.missing rest := by
  apply List.countP_cons_of_neg
  simpa using isSampled_iff.mpr h

theorem missing_cons_of_new (new : name ∉ registry.names) (rest : List String) :
    registry.missing (name :: rest) = registry.missing rest + 1 := by
  apply List.countP_cons_of_pos
  simpa using isSampled_eq_false_iff.mpr new

theorem missing_offer_le (registry : SpanRegistry) (name : String) (names : List String) :
    (registry.offer name).value.missing names ≤ registry.missing names := by
  apply List.countP_mono_left
  intro other _ missing
  simp only [Bool.not_eq_true', isSampled_eq_false_iff] at *
  exact fun there => missing (mem_offer there name)

section Room

variable {rest : List String} (room : registry.missing (name :: rest) ≤ registry.free)
include room

theorem mem_offer_self : name ∈ (registry.offer name).value.names := by
  by_cases there : name ∈ registry.names
  · exact mem_offer there name
  · rw [missing_cons_of_new there, free] at room
    rw [offer_of_room there (by omega)]
    exact List.mem_append_right registry.names List.mem_cons_self

/-- An offer takes a place only for a name that was missing, so there is room for the others. -/
theorem room_offer :
    (registry.offer name).value.missing rest ≤ (registry.offer name).value.free := by
  by_cases there : name ∈ registry.names
  · rw [missing_cons_of_mem there] at room
    rw [offer_of_mem there]
    exact room
  · rw [missing_cons_of_new there, free] at room
    have fewer := registry.missing_offer_le name rest
    rw [offer_of_room there (by omega)] at fewer ⊢
    rw [free, size_add, capacity_add]
    omega

end Room

/-- If there is room for all names that are missing, then all names are sampled. -/
theorem mem_register_of_room {names : List String}
    (room : registry.missing names ≤ registry.free) :
    ∀ name ∈ names, name ∈ (registry.register names).value.names := by
  induction names generalizing registry with
  | nil => exact List.forall_mem_nil _
  | cons first rest ih =>
    intro name mem
    rcases List.mem_cons.mp mem with rfl | later
    · exact mem_register (mem_offer_self room) rest
    · exact ih (room_offer room) name later

/-- No name is there twice, and there are no more names than there may be. -/
structure Bounded (registry : SpanRegistry) : Prop where
  nodup : registry.names.Nodup
  size_le : registry.size ≤ registry.capacity

theorem bounded_empty (capacity : Nat) : ({ capacity } : SpanRegistry).Bounded :=
  ⟨List.nodup_nil, Nat.zero_le capacity⟩

theorem bounded_add (h : registry.Bounded) (new : name ∉ registry.names)
    (room : registry.size < registry.capacity) : (registry.add name).Bounded := by
  constructor
  · apply List.nodup_append.mpr
    refine ⟨h.nodup, List.pairwise_singleton _ name, ?_⟩
    intro old there added mem same
    obtain rfl := List.mem_singleton.mp mem
    exact new (same ▸ there)
  · rw [size_add, capacity_add]
    exact room

theorem bounded_offer (h : registry.Bounded) (name : String) :
    (registry.offer name).value.Bounded := by
  rcases registry.offer_cases name with ⟨_, same⟩ | ⟨new, room, taken⟩ | ⟨_, _, refused⟩
  · rw [same]
    exact h
  · rw [taken]
    exact bounded_add h new room
  · rw [refused]
    exact h

theorem bounded_register (h : registry.Bounded) (names : List String) :
    (registry.register names).value.Bounded := by
  apply register_induction
  · intro later name bounded
    exact bounded_offer bounded name
  · exact h

theorem bounded_unregister (h : registry.Bounded) (name : String) :
    (registry.unregister name).2.Bounded := by
  constructor
  · exact h.nodup.erase name
  · exact Nat.le_trans List.erase_sublist.length_le h.size_le

/-- Giving up a name takes away that name and no other. -/
theorem mem_unregister_iff (h : registry.Bounded) :
    other ∈ (registry.unregister name).2.names ↔ other ≠ name ∧ other ∈ registry.names :=
  h.nodup.mem_erase_iff

theorem mem_unregister (h : other ∈ registry.names) (apart : other ≠ name) :
    other ∈ (registry.unregister name).2.names :=
  (List.mem_erase_of_ne apart).mpr h

end SpanRegistry

/-- A change asked of a registry. -/
inductive SpanRequest where
  | register (names : List String)
  | unregister (name : String)

namespace SpanRegistry

def serve (registry : SpanRegistry) : SpanRequest → SpanRegistry
  | .register names => (registry.register names).value
  | .unregister name => (registry.unregister name).2

/-- The registry after a sequence of requests. -/
def after (registry : SpanRegistry) (requests : List SpanRequest) : SpanRegistry :=
  requests.foldl serve registry

variable {registry : SpanRegistry} {name : String} {requests : List SpanRequest}

theorem after_append (registry : SpanRegistry) (earlier later : List SpanRequest) :
    registry.after (earlier ++ later) = (registry.after earlier).after later :=
  List.foldl_append

/-- What is true of a registry and kept by every offer and by giving up any of the names that are to
be given up is true of it after all requests. -/
theorem after_induction {P : SpanRegistry → Prop}
    (offered : ∀ registry name, P registry → P (registry.offer name).value)
    (givenUp : ∀ registry name, .unregister name ∈ requests → P registry →
      P (registry.unregister name).2)
    (h : P registry) : P (registry.after requests) := by
  induction requests generalizing registry with
  | nil => exact h
  | cons request rest ih =>
    apply ih
    · intro later name mem
      exact givenUp later name (List.mem_cons_of_mem request mem)
    · cases request with
      | register names => exact register_induction offered h names
      | unregister name => exact givenUp registry name List.mem_cons_self h

theorem capacity_after (registry : SpanRegistry) (requests : List SpanRequest) :
    (registry.after requests).capacity = registry.capacity := by
  apply after_induction (P := fun later => later.capacity = registry.capacity)
  · intro later name same
    exact (later.capacity_offer name).trans same
  · intro later name _ same
    exact same
  · rfl

theorem bounded_after (h : registry.Bounded) (requests : List SpanRequest) :
    (registry.after requests).Bounded := by
  apply after_induction
  · intro later name bounded
    exact bounded_offer bounded name
  · intro later name _ bounded
    exact bounded_unregister bounded name
  · exact h

/-- A name stays until it is given up itself. -/
theorem mem_after (h : name ∈ registry.names) (kept : .unregister name ∉ requests) :
    name ∈ (registry.after requests).names := by
  apply after_induction (P := fun later => name ∈ later.names)
  · intro later offered there
    exact mem_offer there offered
  · intro later other mem there
    apply mem_unregister there
    rintro rfl
    exact kept mem
  · exact h

end SpanRegistry

end RpcMethod
