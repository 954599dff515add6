import RpcMethod.Proofs.Draft.Fields

/-!
# The outcome of building

What a draft builds is decided by what its fields hold in the end, and that by the settings alone:
the last write to each field, or else what the draft began with. A method has exactly these
contents; a draft that lacks a part is refused for the first one it lacks, and a complete one only
for calling safe what is not unary (`build_outcome`).
-/

namespace RpcMethod

variable {Req Resp : MessageType}

namespace Draft

/-- The parts that a draft lacks, in the order in which they are asked for. -/
def missing (draft : Draft Req Resp) : List String :=
  ([("type", draft.cardinality?.isNone), ("full_method_name", draft.name?.isNone),
    ("request_marshaller", draft.request?.isNone),
    ("response_marshaller", draft.response?.isNone)].filter Prod.snd).map Prod.fst

/-- The draft has every part that a method needs. -/
def Complete (draft : Draft Req Resp) : Prop :=
  draft.cardinality?.isSome ∧ draft.name?.isSome ∧ draft.request?.isSome ∧ draft.response?.isSome

/-- The draft calls a method safe that may not be. -/
def Overclaims (draft : Draft Req Resp) : Prop :=
  draft.safe = true ∧ draft.cardinality? ≠ some .unary

/-- What a draft that overclaims is told. -/
def overclaimed : DescriptorError :=
  .invalidConfiguration "only unary methods can be specified safe"

/-- The descriptor has the contents of the draft, each in its own place, and no raw names. -/
structure Makes (draft : Draft Req Resp) (d : Descriptor Req Resp) : Prop where
  cardinality : draft.cardinality? = some d.cardinality
  name : draft.name? = some d.name
  request : draft.request? = some d.request
  response : draft.response? = some d.response
  schema : draft.schema? = d.schema?
  idempotent : draft.idempotent = d.idempotent
  safe : draft.safe = d.safe
  rawNames : d.rawNames = .empty

/-- Either something is missing, and the draft is refused for the first such part, or there is a
descriptor with the contents of the draft. -/
theorem missing_or_makes (draft : Draft Req Resp) :
    (∃ label rest, draft.missing = label :: rest ∧
      draft.assemble = .error (.missingField label)) ∨ ∃ d, draft.Makes d := by
  obtain ⟨cardinality?, name?, request?, response?, schema?, idempotent, safe, _, _⟩ := draft
  cases cardinality? with
  | none => exact .inl ⟨_, _, rfl, rfl⟩
  | some cardinality =>
    cases name? with
    | none => exact .inl ⟨_, _, rfl, rfl⟩
    | some name =>
      cases request? with
      | none => exact .inl ⟨_, _, rfl, rfl⟩
      | some request =>
        cases response? with
        | none => exact .inl ⟨_, _, rfl, rfl⟩
        | some response =>
          exact .inr ⟨⟨⟨cardinality, name, request, response, schema?, idempotent, safe⟩, .empty⟩,
            rfl, rfl, rfl, rfl, rfl, rfl, rfl, rfl⟩

variable {draft : Draft Req Resp} {d : Descriptor Req Resp}

theorem missing_eq_nil_iff : draft.missing = [] ↔ draft.Complete := by
  simp [missing, Complete]

theorem Makes.complete (made : draft.Makes d) : draft.Complete := by
  rw [Complete, made.cardinality, made.name, made.request, made.response]
  exact ⟨rfl, rfl, rfl, rfl⟩

/-- A draft that does not overclaim is one for a method that is safe only if it is unary. -/
theorem Makes.not_overclaims_iff (made : draft.Makes d) :
    ¬ draft.Overclaims ↔ (d.safe = true → d.cardinality = .unary) := by
  rw [Overclaims, made.safe, made.cardinality, Ne, Option.some_inj]
  exact Decidable.not_and_not_right

/-- A draft with the contents of a descriptor assembles to it, unless it overclaims. -/
theorem Makes.assemble_eq (made : draft.Makes d) :
    (draft.Overclaims ∧ draft.assemble = .error overclaimed) ∨
      (¬ draft.Overclaims ∧ draft.assemble = .ok d) := by
  have content : (⟨⟨d.cardinality, d.name, d.request, d.response, draft.schema?, draft.idempotent,
      draft.safe⟩, .empty⟩ : Descriptor Req Resp) = d := by
    rw [made.schema, made.idempotent, made.safe, ← made.rawNames]
  rw [Overclaims, assemble, made.cardinality, made.name, made.request, made.response]
  by_cases claim : draft.safe = true ∧ d.cardinality ≠ .unary
  · refine .inl ⟨⟨claim.1, ?_⟩, if_pos claim⟩
    exact fun unary => claim.2 (Option.some.inj unary)
  · refine .inr ⟨?_, (if_neg claim).trans (congrArg Except.ok content)⟩
    exact fun excess => claim ⟨excess.1, fun unary => excess.2 (congrArg some unary)⟩

/-- The three ways in which assembling ends. -/
theorem assemble_cases (draft : Draft Req Resp) :
    (∃ label rest, draft.missing = label :: rest ∧
        draft.assemble = .error (.missingField label)) ∨
      (draft.Complete ∧ draft.Overclaims ∧ draft.assemble = .error overclaimed) ∨
      ∃ d, draft.Makes d ∧ ¬ draft.Overclaims ∧ draft.assemble = .ok d := by
  rcases draft.missing_or_makes with refused | ⟨d, made⟩
  · exact .inl refused
  · rcases made.assemble_eq with ⟨excess, refused⟩ | ⟨modest, built⟩
    · exact .inr (.inl ⟨made.complete, excess, refused⟩)
    · exact .inr (.inr ⟨d, made, modest, built⟩)

theorem assemble_eq_ok (h : draft.assemble = .ok d) : draft.Makes d ∧ ¬ draft.Overclaims := by
  rcases draft.assemble_cases with
    ⟨_, _, _, refused⟩ | ⟨_, _, refused⟩ | ⟨other, made, modest, built⟩
  · cases refused.symm.trans h
  · cases refused.symm.trans h
  · obtain rfl := Except.ok.inj (built.symm.trans h)
    exact ⟨made, modest⟩

/-- No setting takes a part away that every method needs. -/
theorem complete_set (h : draft.Complete) (setting : Setting Req Resp) :
    (draft.set setting).Complete := by
  obtain ⟨cardinality, name, request, response⟩ := h
  cases setting with
  | cardinality value => exact ⟨rfl, name, request, response⟩
  | name value => exact ⟨cardinality, rfl, request, response⟩
  | request value => exact ⟨cardinality, name, rfl, response⟩
  | response value => exact ⟨cardinality, name, request, rfl⟩
  | schema value => exact ⟨cardinality, name, request, response⟩
  | noSchema => exact ⟨cardinality, name, request, response⟩
  | idempotent value => exact ⟨cardinality, name, request, response⟩
  | safe value => exact ⟨cardinality, name, request, response⟩
  | traced value => exact ⟨cardinality, name, request, response⟩
  | registrar number => exact ⟨cardinality, name, request, response⟩

theorem complete_setAll (h : draft.Complete) (settings : List (Setting Req Resp)) :
    (draft.setAll settings).Complete := by
  induction settings generalizing draft with
  | nil => exact h
  | cons setting rest ih => exact ih (complete_set h setting)

/-- Whether and what a draft builds, and why not. -/
structure Outcome (draft : Draft Req Resp) (result : Except DescriptorError (Descriptor Req Resp)) :
    Prop where
  ok_iff : (∃ d, result = .ok d) ↔ draft.Complete ∧ ¬ draft.Overclaims
  makes : ∀ d, result = .ok d → draft.Makes d
  missing_iff : ∀ label, result = .error (.missingField label) ↔ draft.missing.head? = some label
  invalid_iff : ∀ reason, result = .error (.invalidConfiguration reason) ↔
    draft.Complete ∧ draft.Overclaims ∧ reason = "only unary methods can be specified safe"
  in_range : ∀ index count, result ≠ .error (.slotOutOfRange index count)

theorem outcome_assemble (draft : Draft Req Resp) : draft.Outcome draft.assemble := by
  rcases draft.assemble_cases with
    ⟨label, rest, lacks, refused⟩ | ⟨complete, excess, refused⟩ | ⟨d, made, modest, built⟩
  · have incomplete : ¬ draft.Complete := by
      rw [← missing_eq_nil_iff, lacks]
      exact List.cons_ne_nil label rest
    rw [refused]
    constructor
    · simp [incomplete]
    · simp
    · simp [lacks]
    · simp [incomplete]
    · simp
  · have whole := missing_eq_nil_iff.mpr complete
    rw [refused, overclaimed]
    constructor
    · simp [excess]
    · simp
    · simp [whole]
    · simp [complete, excess, eq_comm]
    · simp
  · have whole := missing_eq_nil_iff.mpr made.complete
    rw [built]
    constructor
    · simp [made.complete, modest]
    · rintro _ ⟨⟩
      exact made
    · simp [whole]
    · simp [modest]
    · simp

theorem value_build (draft : Draft Req Resp) (registrars : Registrars) :
    (draft.build registrars).value.1 = draft.assemble := by
  rw [build]
  cases draft.assemble with
  | error e => rfl
  | ok d => rfl

/-- The draft whose fields hold the given contents. -/
def ofFields (content : (field : Field) → field.Content Req Resp) : Draft Req Resp where
  cardinality? := content .cardinality
  name? := content .name
  request? := content .request
  response? := content .response
  schema? := content .schema
  idempotent := content .idempotent
  safe := content .safe
  traced := content .traced
  registrar? := content .registrar

/-- What a draft begins with. -/
inductive Origin (Req Resp : MessageType) where
  | blank
  | marshallers (request : Shared (Marshaller Req)) (response : Shared (Marshaller Resp))
  | copy (d : Descriptor Req Resp)
  /-- A copy with other marshallers, perhaps of a method for other messages. -/
  | converted {OldReq OldResp : MessageType} (d : Descriptor OldReq OldResp)
      (request : Shared (Marshaller Req)) (response : Shared (Marshaller Resp))

namespace Origin

def begin : Origin Req Resp → Draft Req Resp
  | blank => {}
  | marshallers request response => ofMarshallers request response
  | copy d => d.toDraft
  | converted d request response => d.toDraftWith request response

/-- What a method hands on to its copies, with the marshallers that they are to have. -/
def inherited {OldReq OldResp : MessageType} (d : Descriptor OldReq OldResp)
    (request : Shared (Marshaller Req)) (response : Shared (Marshaller Resp)) :
    (field : Field) → field.Content Req Resp
  | .cardinality => some d.cardinality
  | .name => some d.name
  | .request => some request
  | .response => some response
  | .schema => d.schema?
  | .idempotent => d.idempotent
  | .safe => d.safe
  | .traced => false
  | .registrar => none

/-- What a field holds before anything is set. -/
def initial : Origin Req Resp → (field : Field) → field.Content Req Resp
  | marshallers request _, .request => some request
  | marshallers _ response, .response => some response
  | copy d, field => inherited d d.request d.response field
  | converted d request response, field => inherited d request response field
  | _, .cardinality | _, .name | _, .request | _, .response | _, .schema | _, .registrar => none
  | _, .idempotent | _, .safe | _, .traced => false

theorem get_begin (origin : Origin Req Resp) (field : Field) :
    origin.begin.get field = origin.initial field := by
  cases origin <;> cases field <;> rfl

end Origin

/-- Whatever a draft comes from and whatever is set, in whatever order and however often: what it
builds is decided by the last value written to each field, or the initial one. -/
theorem build_outcome (origin : Origin Req Resp) (settings : List (Setting Req Resp))
    (registrars : Registrars) :
    (ofFields fun field =>
        (Setting.lastWritten? field settings).getD (origin.initial field)).Outcome
      ((origin.begin.setAll settings).build registrars).value.1 := by
  have final : (ofFields fun field =>
      (Setting.lastWritten? field settings).getD (origin.initial field)) =
        origin.begin.setAll settings := by
    simp only [← Origin.get_begin, ← get_setAll]
    rfl
  rw [final, value_build]
  exact outcome_assemble (origin.begin.setAll settings)

end Draft

end RpcMethod
