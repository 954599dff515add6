import RpcMethod.Proofs.Workshop.Runs

/-!
# Copies of methods

No way of making a method makes one that is safe and not unary, and no use of a method changes what
it is. So a draft of a method can always be built, as it is or with other marshallers, and what it
builds is the method again; only a change of its cardinality stands in the way of that, as long as
the copy is to be safe (`methods_copied_safely`).
-/

namespace RpcMethod

open Draft (overclaimed)
open Setting (lastWritten?)

variable {Req Resp NewReq NewResp : MessageType}

namespace Descriptor

/-- The method is safe only if it is unary. -/
def Modest (d : Descriptor Req Resp) : Prop := d.safe = true → d.cardinality = .unary

theorem modest_of_isNew {m : AnyDescriptor} (h : m.IsNew) : m.descriptor.Modest := by
  rcases h with ⟨cardinality, name, request, response, created⟩ | ⟨draft, built⟩
  · rw [created]
    intro safe
    cases safe
  · obtain ⟨made, modest⟩ := Draft.assemble_eq_ok built
    exact made.not_overclaims_iff.mp modest

theorem modest_use {d : Descriptor Req Resp} (h : d.Modest) (use : NameUse) :
    (d.use use).descriptor.Modest := by
  have same := d.toMethodSpec_use use
  intro safe
  exact (congrArg MethodSpec.cardinality same).trans
    (h ((congrArg MethodSpec.safe same).symm.trans safe))

/-- The method with other marshallers, and no raw names yet. -/
def withMarshallers (d : Descriptor Req Resp) (request : Shared (Marshaller NewReq))
    (response : Shared (Marshaller NewResp)) : Descriptor NewReq NewResp where
  cardinality := d.cardinality
  name := d.name
  request := request
  response := response
  schema? := d.schema?
  idempotent := d.idempotent
  safe := d.safe

/-- Copies of a method can be built, and only a safe copy has to stay unary. A plain copy is one
that has the method's own marshallers. -/
structure CopiedSafely (d : Descriptor Req Resp) : Prop where
  modest : d.safe = true → d.cardinality = .unary
  copies : ∀ registrars,
    d.toDraft.build registrars = pure (.ok ⟨d.toMethodSpec, .empty⟩, registrars)
  converts : ∀ (NewReq NewResp : MessageType) (request : Shared (Marshaller NewReq))
    (response : Shared (Marshaller NewResp)) registrars,
    (d.toDraftWith request response).build registrars =
      pure (.ok (d.withMarshallers request response), registrars)
  changes : ∀ (NewReq NewResp : MessageType) (request : Shared (Marshaller NewReq))
    (response : Shared (Marshaller NewResp)) (settings : List (Setting NewReq NewResp)) cardinality
    registrars, d.safe = true → lastWritten? .cardinality settings = some (some cardinality) →
    cardinality ≠ .unary →
      let draft := (d.toDraftWith request response).setAll settings
      (lastWritten? .safe settings ≠ some false →
        draft.build registrars = pure (.error overclaimed, registrars)) ∧
      (lastWritten? .safe settings = some false →
        ∃ copy, (draft.build registrars).value.1 = .ok copy ∧ copy.cardinality = cardinality)

theorem makes_toDraftWith (d : Descriptor Req Resp) (request : Shared (Marshaller NewReq))
    (response : Shared (Marshaller NewResp)) :
    (d.toDraftWith request response).Makes (d.withMarshallers request response) :=
  ⟨rfl, rfl, rfl, rfl, rfl, rfl, rfl, rfl⟩

theorem complete_copy (d : Descriptor Req Resp) (request : Shared (Marshaller NewReq))
    (response : Shared (Marshaller NewResp)) (settings : List (Setting NewReq NewResp)) :
    ((d.toDraftWith request response).setAll settings).Complete :=
  Draft.complete_setAll (d.makes_toDraftWith request response).complete settings

variable {d : Descriptor Req Resp}

theorem build_toDraftWith (h : d.Modest) (request : Shared (Marshaller NewReq))
    (response : Shared (Marshaller NewResp)) (registrars : Registrars) :
    (d.toDraftWith request response).build registrars =
      pure (.ok (d.withMarshallers request response), registrars) := by
  have made := d.makes_toDraftWith request response
  rcases made.assemble_eq with ⟨excess, _⟩ | ⟨_, built⟩
  · exact absurd excess (made.not_overclaims_iff.mpr h)
  · exact Draft.build_untraced registrars built rfl

section Retyping

variable {request : Shared (Marshaller NewReq)} {response : Shared (Marshaller NewResp)}
  {settings : List (Setting NewReq NewResp)} {cardinality : Cardinality}

/-- A safe method that is not to be unary any more is refused while its copy is called safe. -/
theorem build_of_kept (registrars : Registrars) (safe : d.safe = true)
    (retyped : lastWritten? .cardinality settings = some (some cardinality))
    (streaming : cardinality ≠ .unary) (kept : lastWritten? .safe settings ≠ some false) :
    ((d.toDraftWith request response).setAll settings).build registrars =
      pure (.error overclaimed, registrars) := by
  have type := (d.toDraftWith request response).get_setAll_of_written retyped
  have claim := (d.toDraftWith request response).get_setAll settings .safe
  have excess : ((d.toDraftWith request response).setAll settings).Overclaims := by
    constructor
    · refine claim.trans ?_
      cases last : lastWritten? .safe settings with
      | none => exact safe
      | some value =>
        cases value with
        | false => exact absurd last kept
        | true => rfl
    · intro unary
      exact streaming (Option.some.inj (type.symm.trans unary))
  have complete := d.complete_copy request response settings
  exact Draft.build_of_error registrars
    ((Draft.outcome_assemble _).invalid_iff _ |>.mpr ⟨complete, excess, rfl⟩)

/-- With that cleared, the copy has its new cardinality, whatever that is. -/
theorem build_of_cleared (registrars : Registrars)
    (retyped : lastWritten? .cardinality settings = some (some cardinality))
    (cleared : lastWritten? .safe settings = some false) :
    ∃ copy : Descriptor NewReq NewResp,
      (((d.toDraftWith request response).setAll settings).build registrars).value.1 = .ok copy ∧
        copy.cardinality = cardinality := by
  have type := (d.toDraftWith request response).get_setAll_of_written retyped
  have claim := (d.toDraftWith request response).get_setAll_of_written cleared
  have modest : ¬ ((d.toDraftWith request response).setAll settings).Overclaims := by
    intro excess
    exact Bool.false_ne_true (claim.symm.trans excess.1)
  have complete := d.complete_copy request response settings
  obtain ⟨copy, built⟩ := (Draft.outcome_assemble _).ok_iff.mpr ⟨complete, modest⟩
  obtain ⟨made, _⟩ := Draft.assemble_eq_ok built
  refine ⟨copy, (Draft.value_build _ registrars).trans built, ?_⟩
  exact Option.some.inj (made.cardinality.symm.trans type)

end Retyping

theorem copiedSafely_of_modest (h : d.Modest) : d.CopiedSafely := by
  constructor
  · exact h
  · exact build_toDraftWith h d.request d.response
  · intro NewReq NewResp request response registrars
    exact build_toDraftWith h request response registrars
  · intro NewReq NewResp request response settings cardinality registrars safe retyped streaming
    exact ⟨build_of_kept registrars safe retyped streaming, build_of_cleared registrars retyped⟩

end Descriptor

/-- However methods are made, copied, converted and used: every one of them is safe only if it is
unary, and so it can always be copied. -/
theorem methods_copied_safely (registrars : Registrars) (actions : List Action) :
    ∀ m ∈ (({ registrars } : Workshop).after actions).methods, m.descriptor.CopiedSafely := by
  intro m mem
  obtain ⟨place, there⟩ := List.mem_iff_getElem?.mp mem
  apply Descriptor.copiedSafely_of_modest
  refine Workshop.method_after (P := fun m => m.descriptor.Modest) ?_ ?_ ?_ m there
  · intro _ m isNew
    exact Descriptor.modest_of_isNew isNew
  · intro m use _ modest
    exact Descriptor.modest_use modest use
  · intro m held
    cases held

/-- A safe method that is built from its parts: no copy of it can be a stream unless it is no longer
called safe. -/
theorem methods_copied_safely_streaming :
    let request : Shared (Marshaller .unit) := ⟨0, .void⟩
    let response : Shared (Marshaller .unit) := ⟨1, .void⟩
    let settings : List (Setting .unit .unit) :=
      [.safe true, .name "pkg.Echo/Call", .cardinality .unary]
    let actions : List Action := .startWith request response :: settings.map (.set 0) ++ [.build 0]
    let d : Descriptor .unit .unit :=
      ⟨⟨.unary, "pkg.Echo/Call", request, response, none, false, true⟩, .empty⟩
    ⟨d⟩ ∈ (({} : Workshop).after actions).methods ∧
      (d.toDraft.set (.cardinality .serverStreaming)).build {} = pure (.error overclaimed, {}) := by
  intro request response settings actions d
  have made : ⟨d⟩ ∈ (({} : Workshop).after actions).methods := .head []
  have copied := methods_copied_safely {} actions ⟨d⟩ made
  have changed := copied.changes .unit .unit request response [.cardinality .serverStreaming]
    .serverStreaming {} rfl rfl nofun
  exact ⟨made, changed.1 nofun⟩

end RpcMethod
