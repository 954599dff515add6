import RpcMethod.Proofs.Workshop.Sampling

/-!
# Finding spans in a registry

A span carries the name that its method was registered with, and so do the spans of all copies of
the method that have its name. So if there was room for the names when the method was built, the
registry samples the spans of all of them, whatever else happens to it, until the name in question
is unregistered (`spans_found`).
-/

namespace RpcMethod

open MethodName (spans)
open Setting (lastWritten?)

variable {Req Resp : MessageType}

/-- The name that a span is searched by. -/
def Span.otelName? (span : Span) : Option String :=
  match span.fields.lookup "otel.name" with
  | some (.text name) => some name
  | _ => none

theorem Descriptor.otelName?_span (d : Descriptor Req Resp) (side : Side) :
    (d.span side).otelName? = some (MethodName.span side d.name) := rfl

/-- The settings leave a method its name, or give it the same one in the end. -/
def Setting.KeepName (name : String) (settings : List (Setting Req Resp)) : Prop :=
  ∀ written, lastWritten? .name settings = some written → written = some name

/-- The methods that come of a method by copying and converting it over and over, with any changes
but one of the name, and by using their raw names. -/
inductive AnyDescriptor.Copies (m : AnyDescriptor) : AnyDescriptor → Prop where
  | self : m.Copies m
  | used {c : AnyDescriptor} (use : NameUse) : m.Copies c → m.Copies (c.use use)
  | copied {c : AnyDescriptor} (settings : List (Setting c.Req c.Resp)) (registrars : Registrars)
      (copy : Descriptor c.Req c.Resp) :
      m.Copies c → Setting.KeepName c.descriptor.name settings →
      ((c.descriptor.toDraft.setAll settings).build registrars).value.1 = .ok copy →
        m.Copies ⟨copy⟩
  | converted {c : AnyDescriptor} {Req Resp : MessageType} (request : Shared (Marshaller Req))
      (response : Shared (Marshaller Resp)) (settings : List (Setting Req Resp))
      (registrars : Registrars) (copy : Descriptor Req Resp) :
      m.Copies c → Setting.KeepName c.descriptor.name settings →
      (((c.descriptor.toDraftWith request response).setAll settings).build registrars).value.1 =
        .ok copy →
        m.Copies ⟨copy⟩

theorem Descriptor.name_converted {NewReq NewResp : MessageType} {d : Descriptor Req Resp}
    {request : Shared (Marshaller NewReq)} {response : Shared (Marshaller NewResp)}
    {settings : List (Setting NewReq NewResp)} {registrars : Registrars}
    {copy : Descriptor NewReq NewResp} (keep : Setting.KeepName d.name settings)
    (built : (((d.toDraftWith request response).setAll settings).build registrars).value.1 =
      .ok copy) :
    copy.name = d.name := by
  rw [Draft.value_build] at built
  obtain ⟨made, _⟩ := Draft.assemble_eq_ok built
  have last := (d.toDraftWith request response).get_setAll settings .name
  apply Option.some.inj
  refine made.name.symm.trans (last.trans ?_)
  cases written : lastWritten? .name settings with
  | none => rfl
  | some name => exact keep name written

theorem AnyDescriptor.Copies.name_eq {m c : AnyDescriptor} (h : m.Copies c) :
    c.descriptor.name = m.descriptor.name := by
  induction h with
  | self => rfl
  | used use _ ih => exact (AnyDescriptor.name_use _ use).trans ih
  | copied settings registrars copy _ keep built ih =>
    exact (Descriptor.name_converted keep built).trans ih
  | converted request response settings registrars copy _ keep built ih =>
    exact (Descriptor.name_converted keep built).trans ih

/-- Gives up a name; a recorder has none to give up. -/
def Registrar.unregister (name : String) : Registrar → Registrar
  | sampling registry => sampling (registry.unregister name).2
  | recorder calls => recorder calls

/-- Gives up a name in the registry of a number. -/
def Registrars.unregister (registrars : Registrars) (number : Nat) (name : String) : Registrars :=
  match registrars.get? number with
  | none => registrars
  | some registrar => registrars.put number (registrar.unregister name)

namespace Workshop

/-- Anything that can change a registrar: what is done in the workshop, and what is asked of the
registrar itself. -/
inductive Step where
  | act (action : Action)
  | register (number : Nat) (names : List String)
  | unregister (number : Nat) (name : String)

def step (w : Workshop) : Step → Workshop
  | .act action => w.act action
  | .register number names =>
    { w with registrars := (w.registrars.register number names).value }
  | .unregister number name => { w with registrars := w.registrars.unregister number name }

/-- The workshop after a sequence of steps. -/
def run (w : Workshop) (steps : List Step) : Workshop := steps.foldl step w

/-- The registrar of a number is a registry that samples the name. -/
def Samples (w : Workshop) (number : Nat) (name : String) : Prop :=
  w.registrars.Holds number fun registry => registry.isSampled name = true

variable {w : Workshop} {number : Nat} {name : String}

theorem samples_unregister (h : w.Samples number name) {target : Nat} {other : String}
    (apart : target = number → other ≠ name) :
    (w.step (.unregister target other)).Samples number name := by
  obtain ⟨registry, held, sampled⟩ := h
  change (w.registrars.unregister target other).Holds number _
  rw [Registrars.unregister]
  by_cases here : target = number
  · subst here
    rw [held]
    refine ⟨_, Registrars.get?_put_self _ held, ?_⟩
    apply SpanRegistry.isSampled_iff.mpr
    exact SpanRegistry.mem_unregister (SpanRegistry.isSampled_iff.mp sampled) (apart rfl).symm
  · cases w.registrars.get? target with
    | none => exact ⟨registry, held, sampled⟩
    | some registrar =>
      exact ⟨registry, (Registrars.get?_put_of_ne _ (Ne.symm here)).trans held, sampled⟩

theorem samples_step (h : w.Samples number name) {step : Step}
    (apart : step ≠ .unregister number name) : (w.step step).Samples number name := by
  cases step with
  | act action =>
    apply holds_act _ h
    intro registry method sampled
    exact SpanRegistry.isSampled_register sampled (spans method)
  | register target names =>
    exact Registrars.holds_of_told h (w.registrars.get?_register target number names)
      fun _ sampled => SpanRegistry.isSampled_register sampled _
  | unregister target other =>
    apply samples_unregister h
    rintro rfl rfl
    exact apart rfl

/-- A name that is sampled stays sampled until it is unregistered. -/
theorem samples_run (h : w.Samples number name) {steps : List Step}
    (kept : .unregister number name ∉ steps) : (w.run steps).Samples number name := by
  induction steps generalizing w with
  | nil => exact h
  | cons step rest ih =>
    apply ih
    · apply samples_step h
      rintro rfl
      exact kept List.mem_cons_self
    · exact fun later => kept (List.mem_cons_of_mem step later)

/-- Building a method with tracing tells the registry the names of its two spans, in this order. If
there is room for those of them that are missing, then the spans of all copies of the method are
sampled from then on, each until its name is unregistered. -/
structure FindsSpans (w : Workshop) (place number : Nat) (registry : SpanRegistry)
    (d : Descriptor Req Resp) : Prop where
  registers : ∃ client server, (d.span .client).otelName? = some client ∧
    (d.span .server).otelName? = some server ∧
    (w.act (.build place)).registrars.get? number =
      some (.sampling (registry.register [client, server]).value)
  finds : registry.missing (spans d.name) ≤ registry.free →
    ∀ copy side, (AnyDescriptor.mk d).Copies copy →
      ∃ name, (copy.descriptor.span side).otelName? = some name ∧
        ∀ steps, .unregister number name ∉ steps →
          ((w.act (.build place)).run steps).Samples number name

theorem get?_act_build {place : Nat} {draft : Draft Req Resp} {d : Descriptor Req Resp}
    {registry : SpanRegistry} (held : w.registrars.get? number = some (.sampling registry))
    (drafted : w.drafts[place]? = some ⟨draft⟩)
    (built : (draft.build w.registrars).value.1 = .ok d) (traced : draft.traced = true)
    (heard : draft.registrar? = some number) :
    (w.act (.build place)).registrars.get? number =
      some (.sampling (registry.register (spans d.name)).value) := by
  have assembled : draft.assemble = .ok d := (draft.value_build w.registrars).symm.trans built
  have told := draft.get?_build w.registrars number
  rw [held, Draft.calls_of_ok number assembled, if_pos ⟨traced, heard⟩, Option.map_some,
    Registrar.told, List.flatten_singleton] at told
  rw [act, drafted]
  change (({ w with drafts := w.drafts.eraseIdx place }.build ⟨draft⟩).registrars.get? number) = _
  rw [registrars_build]
  exact told

/-- A span that is opened for a method, or for any copy of it that has its name, is found in the
registry with which the method was built, provided that there was room for it. -/
theorem spans_found {place : Nat} {draft : Draft Req Resp} {d : Descriptor Req Resp}
    {registry : SpanRegistry} (held : w.registrars.get? number = some (.sampling registry))
    (drafted : w.drafts[place]? = some ⟨draft⟩)
    (built : (draft.build w.registrars).value.1 = .ok d) (traced : draft.traced = true)
    (heard : draft.registrar? = some number) :
    w.FindsSpans place number registry d := by
  have registered := get?_act_build held drafted built traced heard
  constructor
  · exact ⟨_, _, d.otelName?_span .client, d.otelName?_span .server, registered⟩
  · intro room copy side copies
    refine ⟨_, copy.descriptor.otelName?_span side, ?_⟩
    intro steps kept
    apply samples_run _ kept
    refine ⟨_, registered, SpanRegistry.isSampled_iff.mpr ?_⟩
    apply SpanRegistry.mem_register_of_room room
    rw [copies.name_eq]
    exact MethodName.labelled_mem_spans_iff.mpr rfl

/-- The client's name is there already and the server's takes the last place. A copy streams and has
other messages; its server's spans are found after names were registered and unregistered. -/
theorem spans_found_last_place :
    let registry : SpanRegistry := ⟨2, ["Sent.pkg.Echo.Call"]⟩
    let draft : Draft .unit .unit :=
      { cardinality? := some .unary, name? := some "pkg.Echo/Call", request? := some ⟨0, .void⟩
        response? := some ⟨1, .void⟩, safe := true, traced := true, registrar? := some 0 }
    let w : Workshop := { drafts := [⟨draft⟩], registrars := ⟨[.sampling registry]⟩ }
    let d : Descriptor .unit .unit :=
      ⟨⟨.unary, "pkg.Echo/Call", ⟨0, .void⟩, ⟨1, .void⟩, none, false, true⟩, .empty⟩
    let copy : Descriptor .bytes .unit :=
      ⟨⟨.serverStreaming, "pkg.Echo/Call", ⟨2, .verbatim ⟨8⟩⟩, ⟨1, .void⟩, none, false, false⟩,
        .empty⟩
    let steps : List Step :=
      [.register 0 ["Sent.pkg.Echo.Ring"], .unregister 0 "Sent.pkg.Echo.Call",
        .register 0 ["Sent.pkg.Echo.Ring"]]
    (draft.build w.registrars).value.1 = .ok d ∧
      (AnyDescriptor.mk d).Copies ⟨copy⟩ ∧
      (copy.span .server).otelName? = some "Recv.pkg.Echo.Call" ∧
      ((w.act (.build 0)).run steps).Samples 0 "Recv.pkg.Echo.Call" := by
  intro registry draft w d copy steps
  have built : (draft.build w.registrars).value.1 = .ok d := rfl
  have found : w.FindsSpans 0 0 registry d := spans_found rfl rfl built rfl rfl
  have copies : (AnyDescriptor.mk d).Copies ⟨copy⟩ := by
    apply AnyDescriptor.Copies.converted ⟨2, .verbatim ⟨8⟩⟩ ⟨1, .void⟩
      [.cardinality .serverStreaming, .safe false] {} copy .self
    · intro written last
      cases last
    · rfl
  have shown : (copy.span .server).otelName? = some "Recv.pkg.Echo.Call" := by decide
  obtain ⟨name, named, sampled⟩ := found.finds (by decide) ⟨copy⟩ .server copies
  obtain rfl := Option.some.inj (named.symm.trans shown)
  exact ⟨built, copies, shown, sampled steps (by simp [steps])⟩

end Workshop

end RpcMethod
