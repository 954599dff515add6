import RpcMethod.Draft

/-!
# Fields of a draft

A draft has nine fields, and a setting writes one of them. Whatever the settings are and in whatever
order they come, a field holds the last value that one of them wrote to it, and what it held before
if none of them did (`get_setAll`).
-/

namespace RpcMethod

namespace Draft

inductive Field where
  | cardinality
  | name
  | request
  | response
  | schema
  | idempotent
  | safe
  | traced
  | registrar

/-- What a field holds. -/
def Field.Content (Req Resp : MessageType) : Field → Type
  | .cardinality => Option Cardinality
  | .name => Option String
  | .request => Option (Shared (Marshaller Req))
  | .response => Option (Shared (Marshaller Resp))
  | .schema => Option (Shared Payload)
  | .idempotent => Bool
  | .safe => Bool
  | .traced => Bool
  | .registrar => Option Nat

end Draft

open Draft (Field)

variable {Req Resp : MessageType}

/-- What a setting writes to a field; `none` if it writes another one. -/
def Setting.written? : (field : Field) → Setting Req Resp → Option (field.Content Req Resp)
  | .cardinality, .cardinality value => some (some value)
  | .name, .name value => some (some value)
  | .request, .request value => some (some value)
  | .response, .response value => some (some value)
  | .schema, .schema value => some (some value)
  | .schema, .noSchema => some none
  | .idempotent, .idempotent value => some value
  | .safe, .safe value => some value
  | .traced, .traced value => some value
  | .registrar, .registrar number => some (some number)
  | _, _ => none

/-- The last value that settings write to a field, if they write it at all. -/
def Setting.lastWritten? (field : Field) (settings : List (Setting Req Resp)) :
    Option (field.Content Req Resp) :=
  (settings.filterMap (written? field)).getLast?

theorem Setting.lastWritten?_cons (field : Field) (setting : Setting Req Resp)
    (rest : List (Setting Req Resp)) :
    lastWritten? field (setting :: rest) =
      (lastWritten? field rest).or (setting.written? field) := by
  simp [lastWritten?, List.getLast?_filterMap, List.findSome?_append]

namespace Draft

def get (draft : Draft Req Resp) : (field : Field) → field.Content Req Resp
  | .cardinality => draft.cardinality?
  | .name => draft.name?
  | .request => draft.request?
  | .response => draft.response?
  | .schema => draft.schema?
  | .idempotent => draft.idempotent
  | .safe => draft.safe
  | .traced => draft.traced
  | .registrar => draft.registrar?

theorem get_set (draft : Draft Req Resp) (setting : Setting Req Resp) (field : Field) :
    (draft.set setting).get field = (setting.written? field).getD (draft.get field) := by
  cases setting <;> cases field <;> rfl

theorem get_setAll (draft : Draft Req Resp) (settings : List (Setting Req Resp)) (field : Field) :
    (draft.setAll settings).get field =
      (Setting.lastWritten? field settings).getD (draft.get field) := by
  induction settings generalizing draft with
  | nil => rfl
  | cons setting rest ih =>
    rw [Setting.lastWritten?_cons, Option.getD_or, ← get_set]
    exact ih (draft.set setting)

theorem get_setAll_of_written {settings : List (Setting Req Resp)} {field : Field}
    {value : field.Content Req Resp} (draft : Draft Req Resp)
    (h : Setting.lastWritten? field settings = some value) :
    (draft.setAll settings).get field = value := by
  rw [get_setAll, h, Option.getD_some]

end Draft

end RpcMethod
