import RpcMethod.Proofs.Draft.Outcome

/-!
# Announcing what is built

A build that fails has no effect at all. One that succeeds tells one registrar at most, once, and
only if the draft asks for it and has a registrar to tell. So after any number of builds a registrar
is as if it had been told the span names of exactly those methods, in the order in which they were
built (`announces_all_or_nothing`).
-/

namespace RpcMethod

variable {Req Resp : MessageType}

/-- The event tells of building a method, and not of what a registry does with its span names. -/
def Event.announces : Event → Bool
  | registeringSpans .. | registrarMissing _ => true
  | spanSampled _ | registryFull .. | messageTooLarge .. => false

namespace SpanRegistry

theorem announces_of_mem_offer {registry : SpanRegistry} {name : String} {event : Event}
    (h : event ∈ (registry.offer name).events) : event.announces = false := by
  rw [offer] at h
  split at h
  · cases h
  · split at h
    · obtain rfl := List.mem_singleton.mp h
      rfl
    · obtain rfl := List.mem_singleton.mp h
      rfl

theorem announces_of_mem_register {registry : SpanRegistry} {names : List String} {event : Event}
    (h : event ∈ (registry.register names).events) : event.announces = false := by
  induction names generalizing registry with
  | nil => cases h
  | cons name rest ih =>
    rw [register_cons, Traced.events_bind] at h
    rcases List.mem_append.mp h with first | later
    · exact announces_of_mem_offer first
    · exact ih later

theorem register_append (registry : SpanRegistry) (earlier later : List String) :
    (registry.register (earlier ++ later)).value =
      ((registry.register earlier).value.register later).value := by
  induction earlier generalizing registry with
  | nil => rfl
  | cons name rest ih => exact ih (registry.offer name).value

end SpanRegistry

namespace Registrar

/-- A registrar after some calls: a registry was offered all their names one after the other, and a
recorder has noted the calls. -/
def told (calls : List (List String)) : Registrar → Registrar
  | sampling registry => sampling (registry.register calls.flatten).value
  | recorder noted => recorder (noted ++ calls)

theorem told_nil (registrar : Registrar) : registrar.told [] = registrar := by
  cases registrar with
  | sampling registry => rfl
  | recorder noted => rw [told, List.append_nil]

theorem map_told_nil (registrar? : Option Registrar) : registrar?.map (told []) = registrar? := by
  rw [funext told_nil]
  exact Option.map_id'

theorem told_append (registrar : Registrar) (earlier later : List (List String)) :
    registrar.told (earlier ++ later) = (registrar.told earlier).told later := by
  cases registrar with
  | sampling registry => rw [told, told, told, List.flatten_append, SpanRegistry.register_append]
  | recorder noted => rw [told, told, told, List.append_assoc]

theorem value_register (registrar : Registrar) (names : List String) :
    (registrar.register names).value = registrar.told [names] := by
  cases registrar with
  | sampling registry =>
    rw [told, List.flatten_cons, List.flatten_nil, List.append_nil]
    rfl
  | recorder noted => rfl

theorem announces_of_mem_register {registrar : Registrar} {names : List String} {event : Event}
    (h : event ∈ (registrar.register names).events) : event.announces = false := by
  cases registrar with
  | sampling registry =>
    rw [register, Traced.events_bind, Traced.events_pure, List.append_nil] at h
    exact SpanRegistry.announces_of_mem_register h
  | recorder noted => cases h

end Registrar

namespace Registrars

variable {registrars : Registrars} {number other : Nat}

theorem get?_put_self {old : Registrar} (registrar : Registrar)
    (h : registrars.get? number = some old) :
    (registrars.put number registrar).get? number = some registrar := by
  obtain ⟨within, _⟩ := List.getElem?_eq_some_iff.mp h
  exact List.getElem?_set_self within

theorem get?_put_of_ne (registrar : Registrar) (h : other ≠ number) :
    (registrars.put number registrar).get? other = registrars.get? other :=
  List.getElem?_set_ne h.symm

/-- Only the registrar of the number is told, and just once. -/
theorem get?_register (registrars : Registrars) (number other : Nat) (names : List String) :
    (registrars.register number names).value.get? other =
      (registrars.get? other).map (Registrar.told (if number = other then [names] else [])) := by
  by_cases same : number = other
  · subst same
    rw [if_pos rfl, register]
    cases held : registrars.get? number with
    | none => exact held
    | some registrar =>
      rw [Option.map_some, ← Registrar.value_register]
      exact get?_put_self _ held
  · rw [if_neg same, Registrar.map_told_nil, register]
    cases registrars.get? number with
    | none => rfl
    | some registrar => exact get?_put_of_ne _ (Ne.symm same)

theorem announces_of_mem_register {names : List String} {event : Event}
    (h : event ∈ (registrars.register number names).events) : event.announces = false := by
  rw [register] at h
  cases held : registrars.get? number with
  | none =>
    rw [held] at h
    cases h
  | some registrar =>
    rw [held] at h
    dsimp only at h
    rw [Traced.events_bind, Traced.events_pure, List.append_nil] at h
    exact Registrar.announces_of_mem_register h

end Registrars

namespace Draft

/-- The calls that building makes to the registrar of a number. -/
def calls (draft : Draft Req Resp) (number : Nat) : List (List String) :=
  match draft.assemble with
  | .ok d =>
    if draft.traced = true ∧ draft.registrar? = some number then
      [[MethodName.span .client d.name, MethodName.span .server d.name]]
    else []
  | .error _ => []

/-- A build either fails and does nothing, or succeeds and announces the method as the draft wants
it. -/
structure AllOrNothing (draft : Draft Req Resp) (registrars : Registrars) : Prop where
  refused : ∀ e, (draft.build registrars).value.1 = .error e →
    draft.build registrars = pure (.error e, registrars)
  untraced : ∀ d, (draft.build registrars).value.1 = .ok d → draft.traced = false →
    draft.build registrars = pure (.ok d, registrars)
  unheard : ∀ d, (draft.build registrars).value.1 = .ok d → draft.traced = true →
    draft.registrar? = none →
      draft.build registrars = ⟨[.registrarMissing d.name], .ok d, registrars⟩ ∧
        (Event.registrarMissing d.name).level = .warn
  heard : ∀ d number, (draft.build registrars).value.1 = .ok d → draft.traced = true →
    draft.registrar? = some number →
      let client := MethodName.span .client d.name
      let server := MethodName.span .server d.name
      let call := registrars.register number [client, server]
      draft.build registrars =
          ⟨.registeringSpans d.name client server :: call.events, .ok d, call.value⟩ ∧
        (Event.registeringSpans d.name client server).level = .debug ∧
        ∀ event ∈ call.events, event.announces = false

variable {draft : Draft Req Resp} {d : Descriptor Req Resp}

theorem build_of_error {e : DescriptorError} (registrars : Registrars)
    (h : draft.assemble = .error e) : draft.build registrars = pure (.error e, registrars) := by
  rw [build, h]

theorem build_of_ok (registrars : Registrars) (h : draft.assemble = .ok d) :
    draft.build registrars =
      draft.announce d.name registrars >>= fun after => pure (.ok d, after) := by
  rw [build, h]

theorem build_untraced (registrars : Registrars) (h : draft.assemble = .ok d)
    (untraced : draft.traced = false) : draft.build registrars = pure (.ok d, registrars) := by
  rw [build_of_ok registrars h, announce, untraced]
  rfl

theorem build_unheard (registrars : Registrars) (h : draft.assemble = .ok d)
    (traced : draft.traced = true) (unheard : draft.registrar? = none) :
    draft.build registrars = ⟨[.registrarMissing d.name], .ok d, registrars⟩ := by
  rw [build_of_ok registrars h, announce, traced, unheard]
  rfl

theorem build_heard {number : Nat} (registrars : Registrars) (h : draft.assemble = .ok d)
    (traced : draft.traced = true) (heard : draft.registrar? = some number) :
    draft.build registrars =
      ⟨.registeringSpans d.name (MethodName.span .client d.name) (MethodName.span .server d.name) ::
          (registrars.register number (MethodName.spans d.name)).events,
        .ok d, (registrars.register number (MethodName.spans d.name)).value⟩ := by
  rw [build_of_ok registrars h, announce, traced, heard]
  ext1
  · simp
  · rfl

theorem all_or_nothing (draft : Draft Req Resp) (registrars : Registrars) :
    draft.AllOrNothing registrars := by
  constructor
  · intro e failed
    exact build_of_error registrars (draft.value_build registrars ▸ failed)
  · intro d built untraced
    exact build_untraced registrars (draft.value_build registrars ▸ built) untraced
  · intro d built traced unheard
    exact ⟨build_unheard registrars (draft.value_build registrars ▸ built) traced unheard, rfl⟩
  · intro d number built traced heard
    refine ⟨build_heard registrars (draft.value_build registrars ▸ built) traced heard, rfl, ?_⟩
    exact fun event => Registrars.announces_of_mem_register

theorem calls_of_error {e : DescriptorError} (number : Nat) (h : draft.assemble = .error e) :
    draft.calls number = [] := by
  rw [calls, h]

theorem calls_of_ok (number : Nat) (h : draft.assemble = .ok d) :
    draft.calls number = if draft.traced = true ∧ draft.registrar? = some number then
      [MethodName.spans d.name] else [] := by
  rw [calls, h]
  rfl

/-- After a build every registrar is as if it had been told what the build has to tell it, and no
more. -/
theorem get?_build (draft : Draft Req Resp) (registrars : Registrars) (number : Nat) :
    (draft.build registrars).value.2.get? number =
      (registrars.get? number).map (Registrar.told (draft.calls number)) := by
  cases assembled : draft.assemble with
  | error e =>
    rw [build_of_error registrars assembled, calls_of_error number assembled,
      Registrar.map_told_nil]
    rfl
  | ok d =>
    rw [calls_of_ok number assembled]
    cases traced : draft.traced with
    | false =>
      rw [build_untraced registrars assembled traced]
      exact (Registrar.map_told_nil _).symm
    | true =>
      cases listener : draft.registrar? with
      | none =>
        rw [build_unheard registrars assembled traced listener]
        exact (Registrar.map_told_nil _).symm
      | some target =>
        rw [build_heard registrars assembled traced listener, Registrars.get?_register]
        simp only [true_and, Option.some_inj]

end Draft

/-- A draft of a method for messages of some types. -/
structure AnyDraft where
  {Req : MessageType}
  {Resp : MessageType}
  draft : Draft Req Resp

/-- Builds the drafts one after the other, whether or not those before have failed. -/
def Registrars.buildAll (registrars : Registrars) : List AnyDraft → Traced Registrars
  | [] => pure registrars
  | ⟨draft⟩ :: rest => do
    let (_, registrars) ← draft.build registrars
    registrars.buildAll rest

theorem Registrars.get?_buildAll (registrars : Registrars) (drafts : List AnyDraft) (number : Nat) :
    (registrars.buildAll drafts).value.get? number =
      (registrars.get? number).map
        (Registrar.told (drafts.flatMap fun any => any.draft.calls number)) := by
  induction drafts generalizing registrars with
  | nil => exact (Registrar.map_told_nil _).symm
  | cons any rest ih =>
    have first := any.draft.get?_build registrars number
    have later := ih (any.draft.build registrars).value.2
    rw [first, Option.map_map] at later
    rw [List.flatMap_cons]
    refine later.trans (congrArg (Option.map · (registrars.get? number)) ?_)
    funext registrar
    exact (registrar.told_append _ _).symm

/-- A build has all the effects that its draft asks for, or none. So after any number of builds,
successful or not, a registry has been offered the names of the methods that were built for it with
tracing, in order, and nothing else; and a recorder has noted just these calls. -/
theorem announces_all_or_nothing :
    (∀ (Req Resp : MessageType) (draft : Draft Req Resp) (registrars : Registrars),
        draft.AllOrNothing registrars) ∧
      ∀ (registrars : Registrars) (drafts : List AnyDraft) (number : Nat),
        (registrars.buildAll drafts).value.get? number =
          (registrars.get? number).map
            (Registrar.told (drafts.flatMap fun any => any.draft.calls number)) :=
  ⟨fun _ _ draft registrars => draft.all_or_nothing registrars, Registrars.get?_buildAll⟩

end RpcMethod
