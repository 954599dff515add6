import Mathlib.Data.List.Infix
import RpcMethod.Proofs.SpanRegistry.Requests

/-!
# Who is admitted

A registry that is offered a list of names decides name by name, and what it decides about one
changes what it finds at the next. The outcome can be told from the list as a whole: the first names
that are new are admitted, as many as there are places, and every other new name is turned away each
time that it comes (`register_closed_form`).
-/

namespace RpcMethod.SpanRegistry

variable {registry : SpanRegistry} {name : String}

/-- The names of the list that the registry does not have, each once, in the order in which they
first occur. -/
def newcomers (registry : SpanRegistry) (names : List String) : List String :=
  (names.filter fun name => !registry.isSampled name).eraseDups

/-- The newcomers that there are places for. -/
def admitted (registry : SpanRegistry) (names : List String) : List String :=
  (registry.newcomers names).take registry.free

/-- The registry with the newcomers that there are places for. -/
def withAdmitted (registry : SpanRegistry) (names : List String) : SpanRegistry :=
  { registry with names := registry.names ++ registry.admitted names }

/-- What is logged for a name of a list when the `earlier` names of it have had their turn: nothing
if the name is there by then, as the registry had it from the beginning or admitted it earlier. -/
def report (registry : SpanRegistry) (admitted earlier : List String) (name : String) :
    List Event :=
  if name ∈ registry.names then []
  else if name ∉ admitted then [.registryFull name registry.capacity]
  else if name ∈ earlier then []
  else [.spanSampled name]

/-- What is logged for the names of a list, each of which comes after those before it. -/
def reports (registry : SpanRegistry) (names : List String) : List Event :=
  (names.inits.zip names).flatMap fun (earlier, name) =>
    registry.report (registry.admitted names) earlier name

theorem newcomers_cons_of_mem (h : name ∈ registry.names) (rest : List String) :
    registry.newcomers (name :: rest) = registry.newcomers rest := by
  have known : registry.isSampled name = true := isSampled_iff.mpr h
  simp [newcomers, known]

theorem isSampled_add (registry : SpanRegistry) (name other : String) :
    (registry.add name).isSampled other = (other == name || registry.isSampled other) := by
  rw [Bool.eq_iff_iff]
  simp [isSampled_iff, or_comm]

/-- A newcomer comes before all others and is not a newcomer any more once it is added. -/
theorem newcomers_cons_of_new (new : name ∉ registry.names) (rest : List String) :
    registry.newcomers (name :: rest) = name :: (registry.add name).newcomers rest := by
  have unknown : registry.isSampled name = false := isSampled_eq_false_iff.mpr new
  simp [newcomers, unknown, List.eraseDups_cons, List.filter_filter, isSampled_add]

theorem admitted_of_full (full : registry.capacity ≤ registry.size) (names : List String) :
    registry.admitted names = [] := by
  simp [admitted, free, Nat.sub_eq_zero_of_le full]

theorem admitted_cons_of_mem (h : name ∈ registry.names) (rest : List String) :
    registry.admitted (name :: rest) = registry.admitted rest := by
  simp [admitted, newcomers_cons_of_mem h]

/-- A newcomer that finds a place leaves one place less to those that come later. -/
theorem admitted_cons_of_room (new : name ∉ registry.names)
    (room : registry.size < registry.capacity) (rest : List String) :
    registry.admitted (name :: rest) = name :: (registry.add name).admitted rest := by
  have places : registry.free = (registry.add name).free + 1 := by
    simp only [free, size_add, capacity_add]
    omega
  simp [admitted, newcomers_cons_of_new new, places]

/-- Whether a name came earlier makes no difference once the registry has it. -/
theorem report_cons_of_mem (h : name ∈ registry.names) (admitted earlier : List String)
    (other : String) :
    registry.report admitted (name :: earlier) other = registry.report admitted earlier other := by
  by_cases same : other = name
  · simp [report, same, h]
  · simp [report, same]

/-- A name that was admitted earlier is like one that the registry had from the beginning. -/
theorem report_cons_of_new (new : name ∉ registry.names) (admitted earlier : List String)
    (other : String) :
    registry.report (name :: admitted) (name :: earlier) other =
      (registry.add name).report admitted earlier other := by
  by_cases same : other = name
  · simp [report, same, new]
  · simp [report, same]

theorem flatMap_inits_cons {α : Type} (f : List String → String → List α) (name : String)
    (rest : List String) :
    (((name :: rest).inits.zip (name :: rest)).flatMap fun (earlier, other) => f earlier other) =
      f [] name ++ (rest.inits.zip rest).flatMap fun (earlier, other) => f (name :: earlier) other := by
  simp [List.zip_map_left, List.flatMap_map]

theorem value_register_eq_withAdmitted (registry : SpanRegistry) (names : List String) :
    (registry.register names).value = registry.withAdmitted names := by
  induction names generalizing registry with
  | nil => simp [withAdmitted, admitted, newcomers]
  | cons name rest ih =>
    rw [register_cons, Traced.value_bind, ih]
    rcases registry.offer_cases name with ⟨there, same⟩ | ⟨new, room, taken⟩ | ⟨_, full, refused⟩
    · simp [same, withAdmitted, admitted_cons_of_mem there]
    · simp [taken, withAdmitted, add, admitted_cons_of_room new room]
    · simp [refused, withAdmitted, admitted_of_full full]

theorem events_register_eq_reports (registry : SpanRegistry) (names : List String) :
    (registry.register names).events = registry.reports names := by
  induction names generalizing registry with
  | nil => rfl
  | cons name rest ih =>
    rw [register_cons, Traced.events_bind, ih, reports, reports, flatMap_inits_cons]
    rcases registry.offer_cases name with ⟨there, same⟩ | ⟨new, room, taken⟩ | ⟨new, full, refused⟩
    · simp only [admitted_cons_of_mem there, report_cons_of_mem there]
      simp [same, report, there]
    · simp only [admitted_cons_of_room new room, report_cons_of_new new]
      simp [taken, report, new]
    · simp [refused, report, new, admitted_of_full full]

/-- An event tells of a name that is admitted, or warns of one that is not. -/
theorem of_mem_reports {names : List String} {event : Event} (h : event ∈ registry.reports names) :
    (event.level = .debug ∧ ∃ name ∈ registry.admitted names, event = .spanSampled name) ∨
      (event.level = .warn ∧ ∃ name ∉ registry.admitted names,
        event = .registryFull name registry.capacity) := by
  obtain ⟨⟨earlier, name⟩, _, told⟩ := List.mem_flatMap.mp h
  simp only [report] at told
  split at told
  · cases told
  · split at told
    · next outside =>
      obtain rfl := List.mem_singleton.mp told
      exact Or.inr ⟨rfl, name, outside, rfl⟩
    · next inside =>
      split at told
      · cases told
      · obtain rfl := List.mem_singleton.mp told
        exact Or.inl ⟨rfl, name, not_not.mp inside, rfl⟩

/-- What registering a list comes to, told from the list as a whole. -/
theorem register_closed_form (registry : SpanRegistry) (names : List String) :
    registry.register names = ⟨registry.reports names, registry.withAdmitted names⟩ ∧
      ∀ event ∈ registry.reports names,
        (event.level = .debug ∧ ∃ name ∈ registry.admitted names, event = .spanSampled name) ∨
          (event.level = .warn ∧ ∃ name ∉ registry.admitted names,
            event = .registryFull name registry.capacity) := by
  constructor
  · apply Traced.ext
    · exact registry.events_register_eq_reports names
    · exact registry.value_register_eq_withAdmitted names
  · intro event mem
    exact of_mem_reports mem

/-- The registry has a place for one of two newcomers. Nothing is logged for the names that it has
by then, although it is full. -/
example : (⟨2, ["a"]⟩ : SpanRegistry).register ["b", "a", "c", "b", "c"] =
    ⟨[.spanSampled "b", .registryFull "c" 2, .registryFull "c" 2], ⟨2, ["a", "b"]⟩⟩ := by
  decide

end RpcMethod.SpanRegistry
