import RpcMethod.Proofs.Draft.Announcing
import RpcMethod.Proofs.RawNames.Uses

/-!
# Workshops

Everything that makes and uses methods, in whatever mixture: drafts are begun, set and built,
methods are created, copied and converted, and their raw names are used, all with the same
registrars. A method enters a workshop in one of two ways, from the four things that every method
needs or from a draft; then it stays at its place, and only its raw names change (`held_act`). So
what is true of new methods and is kept by their uses is true of a method at all times
(`method_after`). Copying a method with changes is building the draft that the changes make of it
(`after_copying`).
-/

namespace RpcMethod

/-- A method for messages of some types. -/
structure AnyDescriptor where
  {Req : MessageType}
  {Resp : MessageType}
  descriptor : Descriptor Req Resp

def AnyDescriptor.use (m : AnyDescriptor) (use : NameUse) : AnyDescriptor :=
  ⟨(m.descriptor.use use).descriptor⟩

theorem AnyDescriptor.name_use (m : AnyDescriptor) (use : NameUse) :
    (m.use use).descriptor.name = m.descriptor.name :=
  congrArg MethodSpec.name (m.descriptor.toMethodSpec_use use)

/-- Changes a draft, if it is for the messages that the setting is for. -/
def AnyDraft.set {Req Resp : MessageType} (any : AnyDraft) (setting : Setting Req Resp) :
    AnyDraft :=
  if same : any.Req = Req ∧ any.Resp = Resp then ⟨any.draft.set (same.1 ▸ same.2 ▸ setting)⟩
  else any

@[simp] theorem AnyDraft.set_mk {Req Resp : MessageType} (draft : Draft Req Resp)
    (setting : Setting Req Resp) : (AnyDraft.mk draft).set setting = ⟨draft.set setting⟩ :=
  dif_pos ⟨rfl, rfl⟩

/-- The drafts and the methods that there are, each at its place, and the registrars. -/
structure Workshop where
  drafts : List AnyDraft := []
  methods : List AnyDescriptor := []
  registrars : Registrars := {}

inductive Action where
  | start (Req Resp : MessageType)
  | startWith {Req Resp : MessageType} (request : Shared (Marshaller Req))
      (response : Shared (Marshaller Resp))
  | create {Req Resp : MessageType} (cardinality : Cardinality) (name : String)
      (request : Shared (Marshaller Req)) (response : Shared (Marshaller Resp))
  /-- Begins a draft of the method at a place. -/
  | copy (place : Nat)
  /-- Begins a draft of the method at a place with other marshallers. -/
  | convert (place : Nat) {Req Resp : MessageType} (request : Shared (Marshaller Req))
      (response : Shared (Marshaller Resp))
  | set (place : Nat) {Req Resp : MessageType} (setting : Setting Req Resp)
  /-- Builds the draft at a place, which is used up. -/
  | build (place : Nat)
  | use (place : Nat) (use : NameUse)

namespace Workshop

def addDraft {Req Resp : MessageType} (w : Workshop) (draft : Draft Req Resp) : Workshop :=
  { w with drafts := w.drafts ++ [⟨draft⟩] }

def addMethod {Req Resp : MessageType} (w : Workshop) (d : Descriptor Req Resp) : Workshop :=
  { w with methods := w.methods ++ [⟨d⟩] }

/-- Builds a draft. If that succeeds, there is one more method. -/
def build (w : Workshop) (any : AnyDraft) : Workshop :=
  let built := (any.draft.build w.registrars).value
  let after := { w with registrars := built.2 }
  match built.1 with
  | .ok d => after.addMethod d
  | .error _ => after

/-- The workshop after an action. A draft or method that is made goes behind those that are there, a
draft that is built is taken away, and an action at a place where nothing is changes nothing. -/
def act (w : Workshop) : Action → Workshop
  | .start Req Resp => w.addDraft ({} : Draft Req Resp)
  | .startWith request response => w.addDraft (.ofMarshallers request response)
  | .create cardinality name request response =>
    w.addMethod (.create cardinality name request response)
  | .copy place =>
    match w.methods[place]? with
    | some m => w.addDraft m.descriptor.toDraft
    | none => w
  | .convert place request response =>
    match w.methods[place]? with
    | some m => w.addDraft (m.descriptor.toDraftWith request response)
    | none => w
  | .set place setting => { w with drafts := w.drafts.modify place (·.set setting) }
  | .build place =>
    match w.drafts[place]? with
    | some any => { w with drafts := w.drafts.eraseIdx place }.build any
    | none => w
  | .use place use => { w with methods := w.methods.modify place (·.use use) }

/-- The workshop after a sequence of actions. -/
def after (w : Workshop) (actions : List Action) : Workshop := actions.foldl act w

theorem after_cons (w : Workshop) (action : Action) (rest : List Action) :
    w.after (action :: rest) = (w.act action).after rest := rfl

theorem after_append (w : Workshop) (earlier later : List Action) :
    w.after (earlier ++ later) = (w.after earlier).after later :=
  List.foldl_append

end Workshop

/-- The method has just been made. -/
def AnyDescriptor.IsNew (m : AnyDescriptor) : Prop :=
  (∃ cardinality name request response,
      m.descriptor = .create cardinality name request response) ∨
    ∃ draft : Draft m.Req m.Resp, draft.assemble = .ok m.descriptor

namespace Workshop

theorem methods_build_of_ok {Req Resp : MessageType} (w : Workshop) {draft : Draft Req Resp}
    {d : Descriptor Req Resp} (h : draft.assemble = .ok d) :
    (w.build ⟨draft⟩).methods = w.methods ++ [⟨d⟩] := by
  have built := (draft.value_build w.registrars).trans h
  simp only [build, built, addMethod]

theorem methods_build_of_error {Req Resp : MessageType} (w : Workshop) {draft : Draft Req Resp}
    {e : DescriptorError} (h : draft.assemble = .error e) :
    (w.build ⟨draft⟩).methods = w.methods := by
  have refused := (draft.value_build w.registrars).trans h
  simp only [build, refused]

theorem methods_build (w : Workshop) (any : AnyDraft) :
    (w.build any).methods = w.methods ∨
      ∃ m : AnyDescriptor, m.IsNew ∧ (w.build any).methods = w.methods ++ [m] := by
  cases assembled : any.draft.assemble with
  | ok d => exact .inr ⟨⟨d⟩, .inr ⟨any.draft, assembled⟩, w.methods_build_of_ok assembled⟩
  | error e => exact .inl (w.methods_build_of_error assembled)

/-- An action changes no method, or adds one that is new, or uses one. -/
theorem methods_act (w : Workshop) (action : Action) :
    (w.act action).methods = w.methods ∨
      (∃ m : AnyDescriptor, m.IsNew ∧ (w.act action).methods = w.methods ++ [m]) ∨
      ∃ place use, action = .use place use ∧
        (w.act action).methods = w.methods.modify place (·.use use) := by
  cases action with
  | start Req Resp => exact .inl rfl
  | startWith request response => exact .inl rfl
  | create cardinality name request response =>
    exact .inr (.inl ⟨⟨.create cardinality name request response⟩, .inl ⟨_, _, _, _, rfl⟩, rfl⟩)
  | copy place =>
    rw [act]
    split
    · exact .inl rfl
    · exact .inl rfl
  | convert place request response =>
    rw [act]
    split
    · exact .inl rfl
    · exact .inl rfl
  | set place setting => exact .inl rfl
  | build place =>
    rw [act]
    split
    · next any _ =>
      rcases methods_build { w with drafts := w.drafts.eraseIdx place } any with same | added
      · exact .inl same
      · exact .inr (.inl added)
    · exact .inl rfl
  | use place use => exact .inr (.inr ⟨place, use, rfl, rfl⟩)

variable {w : Workshop} {action : Action} {actions earlier later : List Action} {place : Nat}
  {m : AnyDescriptor} {use : NameUse} {P : AnyDescriptor → Prop}

/-- A method stays at its place, and only a use of it changes it. -/
theorem held_act (h : w.methods[place]? = some m) (action : Action) :
    (w.act action).methods[place]? = some m ∨
      ∃ use, action = .use place use ∧ (w.act action).methods[place]? = some (m.use use) := by
  rcases w.methods_act action with same | ⟨made, _, added⟩ | ⟨target, use, rfl, changed⟩
  · rw [same]
    exact .inl h
  · obtain ⟨within, _⟩ := List.getElem?_eq_some_iff.mp h
    rw [added, List.getElem?_append_left within]
    exact .inl h
  · rw [changed, List.getElem?_modify, h]
    by_cases here : target = place
    · subst here
      exact .inr ⟨use, rfl, congrArg some (if_pos rfl)⟩
    · exact .inl (congrArg some (if_neg here))

/-- What comes to a place that was empty is new. -/
theorem isNew_of_act (h : w.methods[place]? = none)
    (there : (w.act action).methods[place]? = some m) : m.IsNew := by
  rcases w.methods_act action with same | ⟨made, isNew, added⟩ | ⟨target, use, rfl, changed⟩
  · rw [same, h] at there
    cases there
  · have beyond := List.getElem?_eq_none_iff.mp h
    rw [added, List.getElem?_append_right beyond] at there
    obtain rfl := List.mem_singleton.mp (List.mem_of_getElem? there)
    exact isNew
  · rw [changed, List.getElem?_modify, h] at there
    cases there

theorem empty_of_act (h : (w.act action).methods[place]? = none) : w.methods[place]? = none := by
  cases before : w.methods[place]? with
  | none => rfl
  | some m =>
    rcases held_act before action with same | ⟨use, _, changed⟩
    · cases same.symm.trans h
    · cases changed.symm.trans h

/-- In the course of the actions, the method that is then at a place is used. -/
def Uses (w : Workshop) (actions : List Action) (place : Nat) (m : AnyDescriptor) (use : NameUse) :
    Prop :=
  ∃ earlier later, actions = earlier ++ .use place use :: later ∧
    (w.after earlier).methods[place]? = some m

theorem not_uses_nil : ¬ w.Uses [] place m use := by
  rintro ⟨earlier, later, split, _⟩
  exact List.append_ne_nil_of_right_ne_nil earlier (List.cons_ne_nil _ later) split.symm

theorem uses_cons_iff :
    w.Uses (action :: later) place m use ↔
      action = .use place use ∧ w.methods[place]? = some m ∨
        (w.act action).Uses later place m use := by
  constructor
  · rintro ⟨before, behind, split, held⟩
    cases before with
    | nil => exact .inl ⟨(List.cons.inj split).1, held⟩
    | cons first rest =>
      obtain ⟨rfl, tail⟩ := List.cons.inj split
      exact .inr ⟨rest, behind, tail, held⟩
  · rintro (⟨rfl, held⟩ | ⟨before, behind, rfl, held⟩)
    · exact ⟨[], later, rfl, held⟩
    · exact ⟨action :: before, behind, rfl, held⟩

theorem Uses.append_right (h : w.Uses earlier place m use) (later : List Action) :
    w.Uses (earlier ++ later) place m use := by
  obtain ⟨before, behind, rfl, held⟩ := h
  exact ⟨before, behind ++ later, List.append_assoc before _ later, held⟩

theorem Uses.append_left (h : (w.after earlier).Uses later place m use) :
    w.Uses (earlier ++ later) place m use := by
  obtain ⟨before, behind, rfl, held⟩ := h
  refine ⟨earlier ++ before, behind, (List.append_assoc earlier before _).symm, ?_⟩
  rw [after_append]
  exact held

/-- What is true of the method at a place after some actions: anything that is true of the one that
is there, or of new methods if none is, and that its uses preserve. -/
theorem method_after (new : w.methods[place]? = none → ∀ m : AnyDescriptor, m.IsNew → P m)
    (used : ∀ m use, w.Uses actions place m use → P m → P (m.use use))
    (h : ∀ m, w.methods[place]? = some m → P m) :
    ∀ m, (w.after actions).methods[place]? = some m → P m := by
  induction actions generalizing w with
  | nil => exact h
  | cons action rest ih =>
    apply ih
    · intro empty
      exact new (empty_of_act empty)
    · intro m use later kept
      exact used m use (uses_cons_iff.mpr (.inr later)) kept
    · intro m there
      cases before : w.methods[place]? with
      | none => exact new before m (isNew_of_act before there)
      | some old =>
        have kept := h old before
        rcases held_act before action with same | ⟨use, rfl, changed⟩
        · obtain rfl := Option.some.inj (same.symm.trans there)
          exact kept
        · obtain rfl := Option.some.inj (changed.symm.trans there)
          exact used old use (uses_cons_iff.mpr (.inl ⟨rfl, before⟩)) kept

/-- What is true of new methods and kept by their uses is true of all methods of a workshop that
began with none. -/
theorem methods_after (new : ∀ m : AnyDescriptor, m.IsNew → P m)
    (used : ∀ m use, P m → P (m.use use)) (registrars : Registrars) (actions : List Action) :
    ∀ m, (({ registrars } : Workshop).after actions).methods[place]? = some m → P m := by
  apply method_after
  · exact fun _ => new
  · exact fun m use _ => used m use
  · intro m held
    cases held

/-- A method keeps its name. -/
theorem name_after (h : w.methods[place]? = some m) (actions : List Action) :
    ∀ later, (w.after actions).methods[place]? = some later →
      later.descriptor.name = m.descriptor.name := by
  apply method_after
  · intro empty
    cases empty.symm.trans h
  · intro old use _ same
    exact (old.name_use use).trans same
  · intro held there
    obtain rfl := Option.some.inj (there.symm.trans h)
    rfl

/-- The actions that copy the method at a place with changes, where there are `drafts` drafts. -/
def copying {Req Resp : MessageType} (source drafts : Nat) (settings : List (Setting Req Resp)) :
    List Action :=
  .copy source :: settings.map (.set drafts) ++ [.build drafts]

theorem after_settings {Req Resp : MessageType} {before : List AnyDraft} {draft : Draft Req Resp}
    (h : w.drafts = before ++ [⟨draft⟩]) (settings : List (Setting Req Resp)) :
    w.after (settings.map (.set before.length)) =
      { w with drafts := before ++ [⟨draft.setAll settings⟩] } := by
  induction settings generalizing w draft with
  | nil =>
    rw [Draft.setAll, List.foldl_nil, ← h]
    rfl
  | cons setting rest ih =>
    have first : (w.act (.set before.length setting)).drafts = before ++ [⟨draft.set setting⟩] := by
      rw [act, h, List.modify_eq_take_drop]
      simp
    exact ih first

/-- Copying with changes is building the draft that these changes make of the method. -/
theorem after_copying (h : w.methods[place]? = some m) (settings : List (Setting m.Req m.Resp)) :
    w.after (copying place w.drafts.length settings) =
      w.build ⟨m.descriptor.toDraft.setAll settings⟩ := by
  have begun : w.act (.copy place) = w.addDraft m.descriptor.toDraft := by
    rw [act, h]
  rw [copying, List.cons_append, after_cons, begun, after_append, after_settings rfl]
  simp [after, act, addDraft, List.eraseIdx_append_of_length_le]

theorem methods_copying (h : w.methods[place]? = some m) {settings : List (Setting m.Req m.Resp)}
    {copy : Descriptor m.Req m.Resp}
    (built : (m.descriptor.toDraft.setAll settings).assemble = .ok copy) :
    (w.after (copying place w.drafts.length settings)).methods = w.methods ++ [⟨copy⟩] := by
  rw [after_copying h settings]
  exact w.methods_build_of_ok built

end Workshop

end RpcMethod
