import Mathlib.Data.Finset.Card
import RpcMethod.Proofs.Draft.Announcing
import RpcMethod.Proofs.SpanRegistry.Admission

/-!
# The same names in another order

Which names a registry takes up depends on the order in which they come, once there is not room for
all of them. How many it takes up does not, and neither does anything else if there is room: what a
registry comes to then is the union of what it had and what it was offered. After that it is full
or has all names of the list, so the same names in any order change nothing any more. Building
methods is offering their names, and so the same is true of the order of builds
(`registered_in_any_order`).
-/

namespace RpcMethod

namespace SpanRegistry

variable {registry : SpanRegistry} {name : String} {names others : List String}

/-- The sampled names as a set. -/
def sampled (registry : SpanRegistry) : Finset String := registry.names.toFinset

/-- What would be sampled after some names were offered if there were room for all of them. -/
def wanted (registry : SpanRegistry) (names : List String) : Finset String :=
  registry.sampled ∪ names.toFinset

theorem mem_sampled : name ∈ registry.sampled ↔ name ∈ registry.names := List.mem_toFinset

theorem mem_wanted : name ∈ registry.wanted names ↔ name ∈ registry.names ∨ name ∈ names := by
  simp [wanted, mem_sampled]

theorem card_sampled (bounded : registry.Bounded) : registry.sampled.card = registry.size :=
  List.toFinset_card_of_nodup bounded.nodup

theorem wanted_cons_of_mem (there : name ∈ registry.names) (rest : List String) :
    registry.wanted (name :: rest) = registry.wanted rest := by
  have old : name ∈ registry.wanted rest := mem_wanted.mpr (.inl there)
  simpa [wanted] using Finset.insert_eq_of_mem old

theorem wanted_add (registry : SpanRegistry) (name : String) (rest : List String) :
    (registry.add name).wanted rest = registry.wanted (name :: rest) := by
  ext other
  simp [mem_wanted, or_assoc]

theorem size_le_card_wanted (bounded : registry.Bounded) (names : List String) :
    registry.size ≤ (registry.wanted names).card := by
  rw [← card_sampled bounded]
  exact Finset.card_le_card Finset.subset_union_left

/-- A registry takes up as many of the names that it lacks as it has places for. -/
theorem size_register (bounded : registry.Bounded) (names : List String) :
    (registry.register names).value.size = min registry.capacity (registry.wanted names).card := by
  induction names generalizing registry with
  | nil =>
    have none : (registry.wanted []).card = registry.size := by
      simp [wanted, card_sampled bounded]
    rw [none]
    exact (Nat.min_eq_right bounded.size_le).symm
  | cons name rest ih =>
    rcases registry.offer_cases name with ⟨there, same⟩ | ⟨new, room, taken⟩ | ⟨_, full, _⟩
    · rw [register_cons, same, wanted_cons_of_mem there]
      exact ih bounded
    · have next := ih (bounded_add bounded new room)
      rw [wanted_add, capacity_add] at next
      rw [register_cons, taken]
      exact next
    · have enough := Nat.le_trans full (size_le_card_wanted bounded (name :: rest))
      rw [value_register_of_full full, Nat.min_eq_left enough]
      exact Nat.le_antisymm bounded.size_le full

theorem mem_of_mem_admitted (h : name ∈ registry.admitted names) : name ∈ names := by
  have new : name ∈ registry.newcomers names := List.take_subset _ _ h
  rw [newcomers, List.mem_eraseDups] at new
  exact (List.mem_filter.mp new).1

theorem sampled_register_subset (registry : SpanRegistry) (names : List String) :
    (registry.register names).value.sampled ⊆ registry.wanted names := by
  intro name there
  rw [mem_sampled, value_register_eq_withAdmitted] at there
  rcases List.mem_append.mp there with old | admitted
  · exact mem_wanted.mpr (.inl old)
  · exact mem_wanted.mpr (.inr (mem_of_mem_admitted admitted))

/-- With room for all names that are wanted there is only one set of as many of them. -/
theorem sampled_register (bounded : registry.Bounded)
    (room : (registry.wanted names).card ≤ registry.capacity) :
    (registry.register names).value.sampled = registry.wanted names := by
  have size := size_register bounded names
  rw [Nat.min_eq_right room, ← card_sampled (bounded_register bounded names)] at size
  exact Finset.eq_of_subset_of_card_le (registry.sampled_register_subset names) size.ge

/-- What was offered once does no more, in whatever order it is offered again. -/
theorem register_again (bounded : registry.Bounded) (again : others ⊆ names) :
    ((registry.register names).value.register others).value = (registry.register names).value := by
  rcases Nat.le_total (registry.wanted names).card registry.capacity with room | full
  · have known : others ⊆ (registry.register names).value.names := by
      intro name offered
      apply mem_sampled.mp
      rw [sampled_register bounded room]
      exact mem_wanted.mpr (.inr (again offered))
    rw [register_of_subset known, Traced.value_pure]
  · apply value_register_of_full
    rw [size_register bounded names, Nat.min_eq_left full, capacity_register]

theorem wanted_perm (registry : SpanRegistry) (reordered : names.Perm others) :
    registry.wanted names = registry.wanted others :=
  congrArg (registry.sampled ∪ ·) (List.toFinset_eq_of_perm names others reordered)

/-- Two registries that came of one, which was offered the same names in different orders: they have
as many names as there are places for, and the same names if there is a place for each. -/
structure OfferedAlike (registry : SpanRegistry) (names : List String) (a b : SpanRegistry) :
    Prop where
  size_left : a.size = min registry.capacity (registry.wanted names).card
  size_right : b.size = min registry.capacity (registry.wanted names).card
  sampled_eq : (registry.wanted names).card ≤ registry.capacity → a.sampled = b.sampled

theorem offeredAlike_of_perm (bounded : registry.Bounded) (reordered : names.Perm others) :
    registry.OfferedAlike names (registry.register names).value
      (registry.register others).value := by
  have same := registry.wanted_perm reordered
  constructor
  · exact size_register bounded names
  · rw [same]
    exact size_register bounded others
  · intro room
    have roomOthers : (registry.wanted others).card ≤ registry.capacity := same ▸ room
    rw [sampled_register bounded room, sampled_register bounded roomOthers, same]

end SpanRegistry

variable {registry : SpanRegistry} {registrars : Registrars} {number : Nat}
  {drafts reordered : List AnyDraft}

/-- The names that building the drafts tells the registrar of a number: those of the methods that
are built for it with tracing. -/
def namesFor (drafts : List AnyDraft) (number : Nat) : List String :=
  (drafts.flatMap fun any => any.draft.calls number).flatten

theorem namesFor_perm (h : drafts.Perm reordered) (number : Nat) :
    (namesFor drafts number).Perm (namesFor reordered number) :=
  (h.flatMap_right _).flatten

theorem get?_buildAll_of_sampling (held : registrars.get? number = some (.sampling registry))
    (drafts : List AnyDraft) :
    (registrars.buildAll drafts).value.get? number =
      some (.sampling (registry.register (namesFor drafts number)).value) := by
  rw [registrars.get?_buildAll drafts number, held]
  rfl

namespace SpanRegistry

/-- The order of names does not matter to how many are sampled, nor to which if there is room for
all, and names that come again do not matter at all. It is the same with the order of builds for one
registry, where builds that fail or are not traced add no names. -/
theorem registered_in_any_order (bounded : registry.Bounded) :
    (∀ names others : List String, names.Perm others →
      ((registry.register names).value.register others).value = (registry.register names).value ∧
      registry.OfferedAlike names (registry.register names).value
        (registry.register others).value) ∧
    ∀ (registrars : Registrars) (number : Nat) (drafts reordered : List AnyDraft),
      registrars.get? number = some (.sampling registry) → drafts.Perm reordered →
        ∃ first second,
          (registrars.buildAll drafts).value.get? number = some (.sampling first) ∧
          (registrars.buildAll reordered).value.get? number = some (.sampling second) ∧
          ((registrars.buildAll drafts).value.buildAll reordered).value.get? number =
            some (.sampling first) ∧
          registry.OfferedAlike (namesFor drafts number) first second := by
  constructor
  · intro names others reordered
    exact ⟨register_again bounded reordered.symm.subset, offeredAlike_of_perm bounded reordered⟩
  · intro registrars number drafts reordered held h
    have names := namesFor_perm h number
    have first := get?_buildAll_of_sampling held drafts
    refine ⟨_, _, first, get?_buildAll_of_sampling held reordered, ?_,
      offeredAlike_of_perm bounded names⟩
    rw [get?_buildAll_of_sampling first reordered, register_again bounded names.symm.subset]

/-- With one place for three names, and then for four, the first in line takes it. -/
theorem registered_in_any_order_last_place :
    let registry : SpanRegistry := ⟨2, ["a"]⟩
    let names := ["b", "a", "c", "b"]
    let others := ["c", "b", "b", "a"]
    let draft (name : String) : AnyDraft := ⟨({
      cardinality? := some .unary, name? := some name, request? := some ⟨0, .void⟩
      response? := some ⟨1, .void⟩, traced := true, registrar? := some 0 } : Draft .unit .unit)⟩
    let drafts := [draft "pkg.Echo/Call", draft "pkg.Echo/Ring"]
    let reordered := [draft "pkg.Echo/Ring", draft "pkg.Echo/Call"]
    let registrars : Registrars := ⟨[.sampling registry]⟩
    registry.Bounded ∧ names.Perm others ∧ drafts.Perm reordered ∧
      (registry.register names).value = ⟨2, ["a", "b"]⟩ ∧
      (registry.register others).value = ⟨2, ["a", "c"]⟩ ∧
      ((registry.register names).value.register others).value = ⟨2, ["a", "b"]⟩ ∧
      registry.OfferedAlike names ⟨2, ["a", "b"]⟩ ⟨2, ["a", "c"]⟩ ∧
      (registrars.buildAll drafts).value.get? 0 =
        some (.sampling ⟨2, ["a", "Sent.pkg.Echo.Call"]⟩) ∧
      (registrars.buildAll reordered).value.get? 0 =
        some (.sampling ⟨2, ["a", "Sent.pkg.Echo.Ring"]⟩) ∧
      registry.OfferedAlike (namesFor drafts 0) ⟨2, ["a", "Sent.pkg.Echo.Call"]⟩
        ⟨2, ["a", "Sent.pkg.Echo.Ring"]⟩ := by
  intro registry names others draft drafts reordered registrars
  have bounded : registry.Bounded := ⟨by decide, by decide⟩
  have shuffled : names.Perm others := by decide
  have swapped : drafts.Perm reordered := .swap _ _ []
  have first : (registry.register names).value = ⟨2, ["a", "b"]⟩ := by decide
  have second : (registry.register others).value = ⟨2, ["a", "c"]⟩ := by decide
  obtain ⟨offers, builds⟩ := registered_in_any_order bounded
  obtain ⟨again, alike⟩ := offers names others shuffled
  obtain ⟨called, rung, heldFirst, heldSecond, _, alikeBuilt⟩ :=
    builds registrars 0 drafts reordered rfl swapped
  have callFirst : (registrars.buildAll drafts).value.get? 0 =
      some (.sampling ⟨2, ["a", "Sent.pkg.Echo.Call"]⟩) := by decide
  have ringFirst : (registrars.buildAll reordered).value.get? 0 =
      some (.sampling ⟨2, ["a", "Sent.pkg.Echo.Ring"]⟩) := by decide
  obtain rfl := Registrar.sampling.inj (Option.some.inj (heldFirst.symm.trans callFirst))
  obtain rfl := Registrar.sampling.inj (Option.some.inj (heldSecond.symm.trans ringFirst))
  rw [first, second] at alike
  exact ⟨bounded, shuffled, swapped, first, second, again.trans first, alike, callFirst, ringFirst,
    alikeBuilt⟩

end SpanRegistry

end RpcMethod
