import RpcMethod.Proofs.SpanRegistry.Sides
import RpcMethod.Proofs.Workshop.Runs

/-!
# Registries in a workshop

Of all that is done in a workshop only building reaches a registry, and a build offers it the two
names of one method or nothing. So what is preserved by offering methods is true of a registry at
all times (`holds_after`). In particular both sides of a method are sampled or neither is, but for
one method that came to a registry of odd capacity when it was nearly full
(`sides_sampled_together`).
-/

namespace RpcMethod

open MethodName (spans)

variable {Req Resp : MessageType} {number : Nat} {P : SpanRegistry → Prop}

/-- The registrar of a number is a registry, and this is true of it. -/
def Registrars.Holds (registrars : Registrars) (number : Nat) (P : SpanRegistry → Prop) : Prop :=
  ∃ registry, registrars.get? number = some (.sampling registry) ∧ P registry

/-- What is true of a registry stays true when it is told more, if the names it is told preserve
it. -/
theorem Registrars.holds_of_told {registrars later : Registrars} {calls : List (List String)}
    (h : registrars.Holds number P)
    (told : later.get? number = (registrars.get? number).map (Registrar.told calls))
    (kept : ∀ registry, P registry → P (registry.register calls.flatten).value) :
    later.Holds number P := by
  obtain ⟨registry, held, holds⟩ := h
  rw [held, Option.map_some] at told
  exact ⟨_, told, kept registry holds⟩

/-- A build tells a registrar of one method or of none. -/
theorem Draft.calls_cases (draft : Draft Req Resp) (number : Nat) :
    draft.calls number = [] ∨ ∃ method, draft.calls number = [spans method] := by
  cases assembled : draft.assemble with
  | error e => exact .inl (calls_of_error number assembled)
  | ok d =>
    rw [calls_of_ok number assembled]
    split
    · exact .inr ⟨d.name, rfl⟩
    · exact .inl rfl

namespace Workshop

variable {w : Workshop}

theorem registrars_build (w : Workshop) (any : AnyDraft) :
    (w.build any).registrars = (any.draft.build w.registrars).value.2 := by
  rw [build]
  split
  · rfl
  · rfl

/-- Only building changes the registrars. -/
theorem registrars_act (w : Workshop) (action : Action) :
    (w.act action).registrars = w.registrars ∨
      ∃ any : AnyDraft, (w.act action).registrars = (any.draft.build w.registrars).value.2 := by
  cases action with
  | start Req Resp => exact .inl rfl
  | startWith request response => exact .inl rfl
  | create cardinality name request response => exact .inl rfl
  | copy place =>
    rw [act]
    split
    · exact .inl rfl
    · exact .inl rfl
  | convert place request response =>
    rw [act]
    split
    · exact .inl rfl
    · exact .inl rfl
  | set place setting => exact .inl rfl
  | build place =>
    rw [act]
    split
    · next any _ => exact .inr ⟨any, registrars_build _ any⟩
    · exact .inl rfl
  | use place use => exact .inl rfl

/-- What offering the names of a method preserves, every action preserves. -/
theorem holds_act
    (kept : ∀ registry method, P registry → P (registry.register (spans method)).value)
    (h : w.registrars.Holds number P) (action : Action) :
    (w.act action).registrars.Holds number P := by
  rcases w.registrars_act action with same | ⟨any, built⟩
  · rw [same]
    exact h
  · rw [built]
    apply Registrars.holds_of_told h (any.draft.get?_build w.registrars number)
    intro registry holds
    rcases any.draft.calls_cases number with none | ⟨method, one⟩
    · rw [none]
      exact holds
    · rw [one, List.flatten_singleton]
      exact kept registry method holds

theorem holds_after
    (kept : ∀ registry method, P registry → P (registry.register (spans method)).value)
    (h : w.registrars.Holds number P) (actions : List Action) :
    (w.after actions).registrars.Holds number P := by
  induction actions generalizing w with
  | nil => exact h
  | cons action rest ih => exact ih (holds_act kept h action)

/-- Whatever is built and with whatever success: a registry that is empty at first and that only
builds write to samples the two sides of a method together, and so it always is if its capacity is
even. If it is odd, the client of one method may be sampled alone, once the registry is full. -/
theorem sides_sampled_together {capacity : Nat}
    (h : w.registrars.get? number = some (.sampling { capacity })) (actions : List Action) :
    (w.after actions).registrars.Holds number
      fun registry => registry.SamplesTogether capacity := by
  have paired : (w.after actions).registrars.Holds number fun registry =>
      registry.Paired ∧ registry.capacity = capacity := by
    apply holds_after
    · rintro registry method ⟨paired, same⟩
      exact ⟨SpanRegistry.paired_register paired method,
        (registry.capacity_register (spans method)).trans same⟩
    · exact ⟨_, h, SpanRegistry.paired_empty capacity, rfl⟩
  obtain ⟨registry, held, paired, same⟩ := paired
  exact ⟨registry, held, SpanRegistry.samplesTogether_of_paired paired same⟩

/-- Of the second method that is built only the client fits in, between a build that fails and one
that finds the registry full. -/
theorem sides_sampled_together_cut :
    let w : Workshop := { registrars := ⟨[.sampling { capacity := 3 }]⟩ }
    let building (name : String) (cardinality : Cardinality) : List Action :=
      let settings : List (Setting .unit .unit) :=
        [.cardinality cardinality, .name name, .safe true, .traced true, .registrar 0]
      .startWith ⟨0, .void⟩ ⟨1, .void⟩ :: settings.map (.set 0) ++ [.build 0]
    let actions := building "pkg.Echo/Call" .unary ++ building "pkg.Echo/Feed" .serverStreaming ++
      building "pkg.Echo/Ring" .unary ++ building "pkg.Echo/Stop" .unary
    w.registrars.get? 0 = some (.sampling { capacity := 3 }) ∧
      (w.after actions).registrars.Holds 0 fun registry =>
        registry.SamplesTogether 3 ∧ registry.Parts "pkg.Echo.Ring" := by
  intro w building actions
  have empty : w.registrars.get? 0 = some (.sampling { capacity := 3 }) := rfl
  obtain ⟨registry, held, together⟩ := sides_sampled_together empty actions
  have names : (w.after actions).registrars.get? 0 = some (.sampling
      ⟨3, ["Sent.pkg.Echo.Call", "Recv.pkg.Echo.Call", "Sent.pkg.Echo.Ring"]⟩) := by
    decide
  obtain rfl := Registrar.sampling.inj (Option.some.inj (held.symm.trans names))
  exact ⟨empty, _, names, together, by decide⟩

end Workshop

end RpcMethod
