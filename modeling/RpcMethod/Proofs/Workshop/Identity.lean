import RpcMethod.Proofs.Workshop.Runs

/-!
# Equal methods

Descriptors are equal when they describe the same method with the very same marshallers and schema,
whatever raw names they have: equal descriptors are those that uses of their raw names can make one.
That objects are the same is told by their numbers. This is right as long as no number is given
twice, and a run that takes its objects from a table in which each number has one object never makes
methods of any others (`from_after`). Equal descriptors behave alike, and so do their copies
(`equality_laws`).
-/

namespace RpcMethod

open Transport (Slot)

variable {Req Resp NewReq NewResp : MessageType}

namespace Descriptor

variable {a b : Descriptor Req Resp}

theorem beq_equivalence : Equivalence fun a b : Descriptor Req Resp => (a == b) = true := by
  constructor
  · intro a
    exact beq_iff.mpr rfl
  · intro a b same
    exact beq_iff.mpr (beq_iff.mp same).symm
  · intro a b c first second
    exact beq_iff.mpr ((beq_iff.mp first).trans (beq_iff.mp second))

theorem beq_after (a b : Descriptor Req Resp) (uses others : List NameUse) :
    (a.after uses == b.after others) = (a == b) := by
  rw [Bool.eq_iff_iff, beq_iff, beq_iff, toMethodSpec_after, toMethodSpec_after]

/-- The uses that put an object into every slot. -/
def fill (raw : Shared Payload) : List NameUse := Transport.all.map fun t => .set t.slot raw

theorem get_after_fill (d : Descriptor Req Resp) (raw : Shared Payload) (slot : Slot) :
    (d.after (fill raw)).rawNames.get slot = some raw := by
  change (((d.rawNames.set Transport.tcp.slot raw).set Transport.uds.slot raw).set
    Transport.tls.slot raw).get slot = some raw
  simp only [RawNames.get_set]
  match slot with
  | 0 => rfl
  | 1 => rfl
  | 2 => rfl

/-- Equal descriptors differ in what their slots hold, and the slots can be filled alike. -/
theorem beq_iff_after : a == b ↔ ∃ uses others, a.after uses = b.after others := by
  constructor
  · intro same
    have raw : Shared Payload := ⟨0, .bytes []⟩
    have spec : (a.after (fill raw)).toMethodSpec = (b.after (fill raw)).toMethodSpec := by
      rw [toMethodSpec_after, toMethodSpec_after]
      exact beq_iff.mp same
    have names : (a.after (fill raw)).rawNames = (b.after (fill raw)).rawNames := by
      ext1 slot
      rw [get_after_fill, get_after_fill]
    refine ⟨fill raw, fill raw, ?_⟩
    calc a.after (fill raw)
        = ⟨(a.after (fill raw)).toMethodSpec, (a.after (fill raw)).rawNames⟩ := rfl
      _ = ⟨(b.after (fill raw)).toMethodSpec, (b.after (fill raw)).rawNames⟩ := by rw [spec, names]
  · rintro ⟨uses, others, one⟩
    rw [← beq_after a b uses others, one]
    exact beq_equivalence.refl _

end Descriptor

/-- Objects with one number are one object if both are what a table has for their number. -/
theorem Shared.eq_of_number {α : Type} {table : Nat → α} {x y : Shared α}
    (hx : x.value = table x.number) (hy : y.value = table y.number)
    (same : x.number = y.number) : x = y := by
  obtain ⟨number, value⟩ := x
  obtain rfl : number = y.number := same
  exact congrArg (Shared.mk y.number) (hx.trans hy.symm)

/-- What was made, by number. -/
structure Objects where
  marshaller : (t : MessageType) → Nat → Marshaller t
  payload : Nat → Payload

namespace Objects

variable {objects : Objects} {t : MessageType}

def HasMarshaller (objects : Objects) (x : Shared (Marshaller t)) : Prop :=
  x.value = objects.marshaller t x.number

def HasPayload (objects : Objects) (x : Shared Payload) : Prop :=
  x.value = objects.payload x.number

end Objects

/-- The marshallers and the schema of a method are from a table. -/
structure MethodSpec.From (spec : MethodSpec Req Resp) (objects : Objects) : Prop where
  request : objects.HasMarshaller spec.request
  response : objects.HasMarshaller spec.response
  schema : ∀ x, spec.schema? = some x → objects.HasPayload x

/-- The descriptors agree in everything but raw names; of objects only the numbers are compared. -/
structure Descriptor.Identical (a b : Descriptor Req Resp) : Prop where
  cardinality : a.cardinality = b.cardinality
  name : a.name = b.name
  idempotent : a.idempotent = b.idempotent
  safe : a.safe = b.safe
  request : a.request.number = b.request.number
  response : a.response.number = b.response.number
  schema : a.schema?.map Shared.number = b.schema?.map Shared.number

attribute [ext] MethodSpec

theorem Descriptor.identical_of_beq {a b : Descriptor Req Resp} (same : a == b) :
    a.Identical b := by
  obtain ⟨spec, names⟩ := a
  obtain rfl : spec = b.toMethodSpec := beq_iff.mp same
  exact ⟨rfl, rfl, rfl, rfl, rfl, rfl, rfl⟩

theorem Descriptor.beq_iff_identical {objects : Objects} {a b : Descriptor Req Resp}
    (ha : a.From objects) (hb : b.From objects) : a == b ↔ a.Identical b := by
  constructor
  · exact identical_of_beq
  · intro same
    have schema : a.schema? = b.schema? := by
      have numbers := same.schema
      cases left : a.schema? with
      | none =>
        have absent : b.schema? = none := by simpa [left] using numbers.symm
        exact absent.symm
      | some x =>
        cases right : b.schema? with
        | none => simp [left, right] at numbers
        | some y =>
          have number : x.number = y.number := by simpa [left, right] using numbers
          rw [Shared.eq_of_number (ha.schema x left) (hb.schema y right) number]
    apply beq_iff.mpr
    exact MethodSpec.ext same.cardinality same.name
      (Shared.eq_of_number ha.request hb.request same.request)
      (Shared.eq_of_number ha.response hb.response same.response) schema same.idempotent
      same.safe

/-- All objects that a setting mentions are from a table. -/
def Setting.From (objects : Objects) : Setting Req Resp → Prop
  | .request value => objects.HasMarshaller value
  | .response value => objects.HasMarshaller value
  | .schema value => objects.HasPayload value
  | .cardinality _ | .name _ | .noSchema => True
  | .idempotent _ | .safe _ | .traced _ | .registrar _ => True

/-- All objects that an action makes methods of are from a table. -/
def Action.From (objects : Objects) : Action → Prop
  | .startWith request response => objects.HasMarshaller request ∧ objects.HasMarshaller response
  | .create _ _ request response => objects.HasMarshaller request ∧ objects.HasMarshaller response
  | .convert _ request response => objects.HasMarshaller request ∧ objects.HasMarshaller response
  | .set _ setting => setting.From objects
  | .start .. | .copy _ | .build _ | .use .. => True

structure Draft.From (draft : Draft Req Resp) (objects : Objects) : Prop where
  request : ∀ x, draft.request? = some x → objects.HasMarshaller x
  response : ∀ x, draft.response? = some x → objects.HasMarshaller x
  schema : ∀ x, draft.schema? = some x → objects.HasPayload x

structure Workshop.From (w : Workshop) (objects : Objects) : Prop where
  drafts : ∀ any ∈ w.drafts, any.draft.From objects
  methods : ∀ m ∈ w.methods, m.descriptor.From objects

variable {objects : Objects}

namespace Draft

theorem from_set {draft : Draft Req Resp} {setting : Setting Req Resp} (h : draft.From objects)
    (value : setting.From objects) : (draft.set setting).From objects := by
  obtain ⟨request, response, schema⟩ := h
  cases setting with
  | request x => exact ⟨fun _ same => Option.some.inj same ▸ value, response, schema⟩
  | response x => exact ⟨request, fun _ same => Option.some.inj same ▸ value, schema⟩
  | schema x => exact ⟨request, response, fun _ same => Option.some.inj same ▸ value⟩
  | noSchema => exact ⟨request, response, nofun⟩
  | _ => exact ⟨request, response, schema⟩

theorem from_assemble {draft : Draft Req Resp} {d : Descriptor Req Resp} (h : draft.From objects)
    (built : draft.assemble = .ok d) : d.From objects := by
  obtain ⟨made, _⟩ := assemble_eq_ok built
  constructor
  · exact h.request _ made.request
  · exact h.response _ made.response
  · exact fun x same => h.schema x (made.schema.trans same)

end Draft

theorem Descriptor.from_toDraftWith {d : Descriptor Req Resp} {request : Shared (Marshaller NewReq)}
    {response : Shared (Marshaller NewResp)} (h : d.From objects)
    (hRequest : objects.HasMarshaller request) (hResponse : objects.HasMarshaller response) :
    (d.toDraftWith request response).From objects := by
  constructor
  · exact fun _ same => Option.some.inj same ▸ hRequest
  · exact fun _ same => Option.some.inj same ▸ hResponse
  · exact h.schema

theorem AnyDraft.from_set {any : AnyDraft} {setting : Setting Req Resp}
    (h : any.draft.From objects) (value : setting.From objects) :
    (any.set setting).draft.From objects := by
  by_cases same : any.Req = Req ∧ any.Resp = Resp
  · obtain ⟨rfl, rfl⟩ := same
    rw [AnyDraft.set_mk any.draft setting]
    exact Draft.from_set h value
  · rw [AnyDraft.set, dif_neg same]
    exact h

namespace Workshop

variable {w : Workshop}

theorem forall_mem_modify {α : Type} {P : α → Prop} {f : α → α} {l : List α}
    (h : ∀ x ∈ l, P x) (kept : ∀ x, P x → P (f x)) (place : Nat) :
    ∀ x ∈ l.modify place f, P x := by
  induction l generalizing place with
  | nil => simp
  | cons first rest ih =>
    obtain ⟨head, tail⟩ := List.forall_mem_cons.mp h
    cases place with
    | zero => simpa using ⟨kept first head, tail⟩
    | succ place => simpa using ⟨head, ih tail place⟩

theorem from_addDraft {draft : Draft Req Resp} (h : w.From objects) (new : draft.From objects) :
    (w.addDraft draft).From objects := by
  constructor
  · exact List.forall_mem_append.mpr ⟨h.drafts, by simpa using new⟩
  · exact h.methods

theorem from_addMethod {d : Descriptor Req Resp} (h : w.From objects) (new : d.From objects) :
    (w.addMethod d).From objects := by
  constructor
  · exact h.drafts
  · exact List.forall_mem_append.mpr ⟨h.methods, by simpa using new⟩

theorem from_build {any : AnyDraft} (h : w.From objects) (new : any.draft.From objects) :
    (w.build any).From objects := by
  have value := any.draft.value_build w.registrars
  cases assembled : any.draft.assemble with
  | error e =>
    rw [build, value, assembled]
    exact ⟨h.drafts, h.methods⟩
  | ok d =>
    rw [build, value, assembled]
    exact from_addMethod ⟨h.drafts, h.methods⟩ (Draft.from_assemble new assembled)

theorem from_act {action : Action} (h : w.From objects) (objectsOf : action.From objects) :
    (w.act action).From objects := by
  cases action with
  | start Req Resp => exact from_addDraft h ⟨nofun, nofun, nofun⟩
  | startWith request response =>
    apply from_addDraft h
    exact ⟨fun _ same => Option.some.inj same ▸ objectsOf.1,
      fun _ same => Option.some.inj same ▸ objectsOf.2, nofun⟩
  | create cardinality name request response =>
    exact from_addMethod h ⟨objectsOf.1, objectsOf.2, nofun⟩
  | copy place =>
    rw [act]
    split
    · next m held =>
      have known := h.methods m (List.mem_of_getElem? held)
      exact from_addDraft h (Descriptor.from_toDraftWith known known.request known.response)
    · exact h
  | convert place request response =>
    rw [act]
    split
    · next m held =>
      have known := h.methods m (List.mem_of_getElem? held)
      exact from_addDraft h (Descriptor.from_toDraftWith known objectsOf.1 objectsOf.2)
    · exact h
  | set place setting =>
    constructor
    · exact forall_mem_modify h.drafts (fun _ known => AnyDraft.from_set known objectsOf) place
    · exact h.methods
  | build place =>
    rw [act]
    split
    · next any held =>
      apply from_build _ (h.drafts any (List.mem_of_getElem? held))
      exact ⟨fun other mem => h.drafts other (List.mem_of_mem_eraseIdx mem), h.methods⟩
    · exact h
  | use place use =>
    constructor
    · exact h.drafts
    · apply forall_mem_modify h.methods
      intro m known
      have same := m.descriptor.toMethodSpec_use use
      exact same ▸ known

theorem from_after {actions : List Action} (h : w.From objects)
    (objectsOf : ∀ action ∈ actions, action.From objects) : (w.after actions).From objects := by
  induction actions generalizing w with
  | nil => exact h
  | cons action rest ih =>
    obtain ⟨first, others⟩ := List.forall_mem_cons.mp objectsOf
    exact ih (from_act h first) others

end Workshop

namespace Descriptor

/-- Both have failed for the same reason, or both have given a method and these are equal. -/
inductive Alike : Except DescriptorError (Descriptor Req Resp) →
    Except DescriptorError (Descriptor Req Resp) → Prop where
  | failed (e : DescriptorError) : Alike (.error e) (.error e)
  | built {a b : Descriptor Req Resp} : a == b → Alike (.ok a) (.ok b)

theorem Alike.refl (x : Except DescriptorError (Descriptor Req Resp)) : Alike x x := by
  cases x with
  | error e => exact .failed e
  | ok d => exact .built (beq_equivalence.refl d)

/-- Nothing but raw names tells the descriptors apart, and the same is true of their copies, whoever
hears of them. -/
structure Indistinct (a b : Descriptor Req Resp) : Prop where
  observes : ∀ (α : Type) (observe : Descriptor Req Resp → α),
    (∀ d uses, observe (d.after uses) = observe d) → observe a = observe b
  service : a.service? = b.service?
  method : a.method? = b.method?
  spanNames : ∀ side, MethodName.span side a.name = MethodName.span side b.name
  spans : ∀ side, a.span side = b.span side
  streamRequest : ∀ v, a.streamRequest v = b.streamRequest v
  parseRequest : ∀ bytes, a.parseRequest bytes = b.parseRequest bytes
  streamResponse : ∀ v, a.streamResponse v = b.streamResponse v
  parseResponse : ∀ bytes, a.parseResponse bytes = b.parseResponse bytes
  copies : ∀ settings registrars others,
    Alike ((a.toDraft.setAll settings).build registrars).value.1
      ((b.toDraft.setAll settings).build others).value.1
  conversions : ∀ (NewReq NewResp : MessageType) (request : Shared (Marshaller NewReq))
    (response : Shared (Marshaller NewResp)) settings registrars others,
    Alike (((a.toDraftWith request response).setAll settings).build registrars).value.1
      (((b.toDraftWith request response).setAll settings).build others).value.1

theorem alike_build (draft : Draft Req Resp) (registrars others : Registrars) :
    Alike (draft.build registrars).value.1 (draft.build others).value.1 := by
  rw [draft.value_build, draft.value_build]
  exact .refl _

theorem indistinct_of_beq {a b : Descriptor Req Resp} (same : a == b) : a.Indistinct b := by
  obtain ⟨uses, others, one⟩ := beq_iff_after.mp same
  obtain ⟨spec, names⟩ := a
  obtain rfl : spec = b.toMethodSpec := beq_iff.mp same
  constructor
  · intro α observe ignores
    calc observe ⟨b.toMethodSpec, names⟩
        = observe (after ⟨b.toMethodSpec, names⟩ uses) := (ignores _ uses).symm
      _ = observe (b.after others) := congrArg observe one
      _ = observe b := ignores b others
  · rfl
  · rfl
  · exact fun _ => rfl
  · exact fun _ => rfl
  · exact fun _ => rfl
  · exact fun _ => rfl
  · exact fun _ => rfl
  · exact fun _ => rfl
  · intro settings
    exact alike_build (b.toDraft.setAll settings)
  · intro NewReq NewResp request response settings
    exact alike_build ((b.toDraftWith request response).setAll settings)

end Descriptor

/-- What equality of the methods for some messages is. -/
structure EqualityLaws (Req Resp : MessageType) : Prop where
  equivalence : Equivalence fun a b : Descriptor Req Resp => (a == b) = true
  uses : ∀ (a b : Descriptor Req Resp) uses others, (a.after uses == b.after others) = (a == b)
  rawNames : ∀ a b : Descriptor Req Resp,
    a == b ↔ ∃ uses others, a.after uses = b.after others
  identity : ∀ objects (a b : Descriptor Req Resp), a.From objects → b.From objects →
    (a == b ↔ a.Identical b)
  objects : ∀ objects registrars actions, (∀ action ∈ actions, Action.From objects action) →
    ∀ d : Descriptor Req Resp, ⟨d⟩ ∈ (({ registrars } : Workshop).after actions).methods →
      d.From objects
  congruence : ∀ a b : Descriptor Req Resp, a == b → a.Indistinct b

/-- Equality of methods is identity of everything but raw names, and equal methods behave alike. -/
theorem equality_laws (Req Resp : MessageType) : EqualityLaws Req Resp := by
  constructor
  · exact Descriptor.beq_equivalence
  · exact Descriptor.beq_after
  · intro a b
    exact Descriptor.beq_iff_after
  · intro objects a b
    exact Descriptor.beq_iff_identical
  · intro objects registrars actions objectsOf d made
    have blank : ({ registrars } : Workshop).From objects :=
      ⟨List.forall_mem_nil _, List.forall_mem_nil _⟩
    exact (Workshop.from_after blank objectsOf).methods ⟨d⟩ made
  · intro a b
    exact Descriptor.indistinct_of_beq

/-- Marshallers that do the same are not the same, so the two methods are different; a use of raw
names makes no difference. -/
theorem equality_laws_twins :
    let objects : Objects := ⟨fun _ _ => .archived {} none, fun _ => .text "echo"⟩
    let one : Shared (Marshaller .order) := ⟨0, .archived {} none⟩
    let twin : Shared (Marshaller .order) := ⟨1, .archived {} none⟩
    let response : Shared (Marshaller .unit) := ⟨2, .archived {} none⟩
    let a : Descriptor .order .unit := .create .unary "pkg.Echo/Call" one response
    let b : Descriptor .order .unit := .create .unary "pkg.Echo/Call" twin response
    a.From objects ∧ b.From objects ∧ one.value = twin.value ∧ (a == b) = false ∧
      (a.after [.set 0 ⟨3, .text "call"⟩] == a) = true := by
  intro objects one twin response a b
  have laws := equality_laws .order .unit
  have ha : a.From objects := ⟨rfl, rfl, nofun⟩
  have hb : b.From objects := ⟨rfl, rfl, nofun⟩
  have differ : (a == b) = false := by
    apply Bool.eq_false_iff.mpr
    intro same
    exact absurd ((laws.identity objects a b ha hb).mp same).request (by decide)
  have used := laws.uses a a [.set 0 ⟨3, .text "call"⟩] []
  exact ⟨ha, hb, rfl, differ, used.trans (laws.equivalence.refl a)⟩

end RpcMethod
