import RpcMethod.Proofs.Workshop.Copies

/-!
# Chains of copies

Copies can be copied in their turn, as they are or with other marshallers, and their raw names can
be used in between. However long such a chain is, building its copies never fails and has no effect,
not even for a method that was announced when it was built; and what comes out is the method at the
beginning of the chain, with the marshallers of its last conversion and without raw names. From then
on a method and its copies have nothing to do with each other (`copies_lose_nothing`).
-/

namespace RpcMethod

variable {Req Resp NewReq NewResp : MessageType}

/-- How a method is copied: as it is, or with other marshallers, perhaps for other messages. -/
inductive CopyKind where
  | plain
  | converted {Req Resp : MessageType} (request : Shared (Marshaller Req))
      (response : Shared (Marshaller Resp))

/-- A link of a chain of copies: how the raw names of a method are used, and how it is copied
then. -/
structure Link where
  uses : List NameUse
  kind : CopyKind

namespace AnyDescriptor

def after (m : AnyDescriptor) (uses : List NameUse) : AnyDescriptor := ⟨m.descriptor.after uses⟩

/-- The draft that a copy is built from. -/
def draft (m : AnyDescriptor) : CopyKind → AnyDraft
  | .plain => ⟨m.descriptor.toDraft⟩
  | .converted request response => ⟨m.descriptor.toDraftWith request response⟩

/-- Copies a method, then its copy, and so on, up to the first draft that cannot be built. -/
def chain (m : AnyDescriptor) (registrars : Registrars) :
    List Link → Traced (Except DescriptorError AnyDescriptor × Registrars)
  | [] => pure (.ok m, registrars)
  | link :: rest => do
    let (built, registrars) ← ((m.after link.uses).draft link.kind).draft.build registrars
    match built with
    | .ok copy => (AnyDescriptor.mk copy).chain registrars rest
    | .error e => return (.error e, registrars)

/-- The method as it is after copying. -/
def copied (m : AnyDescriptor) : CopyKind → AnyDescriptor
  | .plain => ⟨m.descriptor.withMarshallers m.descriptor.request m.descriptor.response⟩
  | .converted request response => ⟨m.descriptor.withMarshallers request response⟩

def copiedAll (m : AnyDescriptor) (kinds : List CopyKind) : AnyDescriptor := kinds.foldl copied m

variable {m : AnyDescriptor}

/-- Raw names do not count in copying. -/
theorem copied_after (m : AnyDescriptor) (uses : List NameUse) (kind : CopyKind) :
    (m.after uses).copied kind = m.copied kind := by
  have same := m.descriptor.toMethodSpec_after uses
  cases kind with
  | plain => simp only [copied, after, Descriptor.withMarshallers, same]
  | converted request response => simp only [copied, after, Descriptor.withMarshallers, same]

theorem modest_after (h : m.descriptor.Modest) (uses : List NameUse) :
    (m.after uses).descriptor.Modest := by
  have same := m.descriptor.toMethodSpec_after uses
  simpa only [Descriptor.Modest, after, same] using h

theorem modest_copied (h : m.descriptor.Modest) (kind : CopyKind) :
    (m.copied kind).descriptor.Modest := by
  cases kind with
  | plain => exact h
  | converted request response => exact h

/-- A link of a chain copies the method and does nothing else. -/
theorem chain_cons (h : m.descriptor.Modest) (registrars : Registrars) (link : Link)
    (rest : List Link) :
    m.chain registrars (link :: rest) = (m.copied link.kind).chain registrars rest := by
  obtain ⟨uses, kind⟩ := link
  have modest := modest_after h uses
  rw [← m.copied_after uses kind]
  cases kind with
  | plain =>
    have built := Descriptor.build_toDraftWith modest (m.after uses).descriptor.request
      (m.after uses).descriptor.response registrars
    simp only [chain, draft, Descriptor.toDraft, built, Traced.pure_bind, copied]
  | converted request response =>
    have built := Descriptor.build_toDraftWith modest request response registrars
    simp only [chain, draft, built, Traced.pure_bind, copied]

theorem chain_eq (h : m.descriptor.Modest) (registrars : Registrars) (links : List Link) :
    m.chain registrars links = pure (.ok (m.copiedAll (links.map Link.kind)), registrars) := by
  induction links generalizing m with
  | nil => rfl
  | cons link rest ih =>
    rw [chain_cons h]
    exact ih (modest_copied h link.kind)

theorem copiedAll_of_plain {kinds : List CopyKind} (plain : ∀ kind ∈ kinds, kind = .plain) :
    (m.copied .plain).copiedAll kinds = m.copied .plain := by
  induction kinds with
  | nil => rfl
  | cons kind rest ih =>
    obtain ⟨rfl, others⟩ := List.forall_mem_cons.mp plain
    exact ih others

/-- Of the conversions of a chain only the last one counts. -/
theorem copiedAll_concat (m : AnyDescriptor) (kinds : List CopyKind)
    (request : Shared (Marshaller Req)) (response : Shared (Marshaller Resp)) :
    m.copiedAll (kinds ++ [.converted request response]) =
      m.copied (.converted request response) := by
  induction kinds generalizing m with
  | nil => rfl
  | cons kind rest ih =>
    refine (ih (m.copied kind)).trans ?_
    cases kind with
    | plain => rfl
    | converted _ _ => rfl

theorem chain_of_plain (h : m.descriptor.Modest) (registrars : Registrars) {first : Link}
    {rest : List Link} (plain : ∀ link ∈ first :: rest, link.kind = .plain) :
    m.chain registrars (first :: rest) = pure (.ok (m.copied .plain), registrars) := by
  obtain ⟨kind, others⟩ := List.forall_mem_cons.mp plain
  have all : m.copiedAll (.plain :: rest.map Link.kind) = m.copied .plain :=
    copiedAll_of_plain (List.forall_mem_map.mpr others)
  rw [chain_eq h, List.map_cons, kind, all]

theorem chain_concat (h : m.descriptor.Modest) (registrars : Registrars) (links : List Link)
    (uses : List NameUse) (request : Shared (Marshaller Req))
    (response : Shared (Marshaller Resp)) :
    m.chain registrars (links ++ [⟨uses, .converted request response⟩]) =
      pure (.ok ⟨m.descriptor.withMarshallers request response⟩, registrars) := by
  have last := m.copiedAll_concat (links.map Link.kind) request response
  rw [chain_eq h, List.map_append, List.map_singleton, last]
  rfl

end AnyDescriptor

/-- The use that an action makes of the method at a place, if it makes one. -/
def Action.useAt? (place : Nat) : Action → Option NameUse
  | .use target own => if target = place then some own else none
  | _ => none

theorem Action.useAt?_eq_some_iff {place : Nat} {action : Action} {use : NameUse} :
    action.useAt? place = some use ↔ action = .use place use := by
  cases action with
  | use target other => simp [useAt?]
  | _ => simp [useAt?]

/-- The actions that copy the method at a place, where there are `drafts` drafts. -/
def CopyKind.actions (source drafts : Nat) : CopyKind → List Action
  | .plain => [.copy source, .build drafts]
  | .converted request response => [.convert source request response, .build drafts]

namespace Workshop

variable {w : Workshop} {place source : Nat} {m : AnyDescriptor}

/-- The uses of the method at a place, of all that is done. -/
def usesAt (place : Nat) (actions : List Action) : List NameUse :=
  actions.filterMap (Action.useAt? place)

theorem held_use (h : w.methods[place]? = some m) (use : NameUse) :
    (w.act (.use place use)).methods[place]? = some (m.use use) := by
  simp [act, h]

/-- A method is what its own uses make of it, whatever else is done. -/
theorem held_after (h : w.methods[place]? = some m) (actions : List Action) :
    (w.after actions).methods[place]? = some (m.after (usesAt place actions)) := by
  induction actions generalizing w m with
  | nil => exact h
  | cons action rest ih =>
    cases used : action.useAt? place with
    | none =>
      rw [usesAt, List.filterMap_cons_none used]
      rcases held_act h action with same | ⟨use, own, _⟩
      · exact ih same
      · simp [Action.useAt?_eq_some_iff.mpr own] at used
    | some use =>
      rw [usesAt, List.filterMap_cons_some used]
      obtain rfl := Action.useAt?_eq_some_iff.mp used
      exact ih (held_use h use)

/-- Copying a method adds the copy and changes nothing else. -/
theorem after_copy (h : w.methods[source]? = some m) (modest : m.descriptor.Modest)
    (kind : CopyKind) :
    w.after (kind.actions source w.drafts.length) =
      { w with methods := w.methods ++ [m.copied kind] } := by
  cases kind with
  | plain =>
    have built := Descriptor.build_toDraftWith modest m.descriptor.request m.descriptor.response
      w.registrars
    simp [CopyKind.actions, after, act, h, addDraft, build, Descriptor.toDraft, built, addMethod,
      AnyDescriptor.copied, List.eraseIdx_append_of_length_le]
  | converted request response =>
    have built := Descriptor.build_toDraftWith modest request response w.registrars
    simp [CopyKind.actions, after, act, h, addDraft, build, built, addMethod,
      AnyDescriptor.copied, List.eraseIdx_append_of_length_le]

end Workshop

/-- A conversion keeps everything of a method but the marshallers, which are those given, and the
raw names, of which there are none. -/
structure Descriptor.Converts (d : Descriptor Req Resp) (request : Shared (Marshaller NewReq))
    (response : Shared (Marshaller NewResp)) (copy : Descriptor NewReq NewResp) : Prop where
  cardinality : copy.cardinality = d.cardinality
  name : copy.name = d.name
  idempotent : copy.idempotent = d.idempotent
  safe : copy.safe = d.safe
  schema : copy.schema? = d.schema?
  request : copy.request = request
  response : copy.response = response
  rawNames : ∀ slot, copy.rawNames.get slot = none

theorem Descriptor.converts_withMarshallers (d : Descriptor Req Resp)
    (request : Shared (Marshaller NewReq)) (response : Shared (Marshaller NewResp)) :
    d.Converts request response (d.withMarshallers request response) :=
  ⟨rfl, rfl, rfl, rfl, rfl, rfl, rfl, RawNames.get_empty⟩

/-- The chain gives a method that is equal to the first one and has no raw names; nothing is logged
and no registrar hears of it. -/
def AnyDescriptor.ReturnsBy (m : AnyDescriptor) (links : List Link) : Prop :=
  ∀ registrars, ∃ copy : Descriptor m.Req m.Resp,
    m.chain registrars links = pure (.ok ⟨copy⟩, registrars) ∧ copy == m.descriptor ∧
      ∀ slot, copy.rawNames.get slot = none

theorem AnyDescriptor.returnsBy_of_eq {m : AnyDescriptor} {links : List Link}
    (h : ∀ registrars, m.chain registrars links =
      pure (.ok ⟨m.descriptor.withMarshallers m.descriptor.request m.descriptor.response⟩,
        registrars)) :
    m.ReturnsBy links :=
  fun registrars => ⟨_, h registrars, Descriptor.beq_iff.mpr rfl, RawNames.get_empty⟩

/-- Copying a method leaves the registrars alone, and from then on the method and the copy are each
what their own uses make of them. -/
structure Workshop.KeepsApart (w : Workshop) (source : Nat) (m : AnyDescriptor) (kind : CopyKind)
    (later : List Action) : Prop where
  registrars : (w.after (kind.actions source w.drafts.length)).registrars = w.registrars
  original : ((w.after (kind.actions source w.drafts.length)).after later).methods[source]? =
    some (m.after (usesAt source later))
  copy : ((w.after (kind.actions source w.drafts.length)).after later).methods[w.methods.length]? =
    some ((m.copied kind).after (usesAt w.methods.length later))

theorem Workshop.keepsApart_of_held {w : Workshop} {source : Nat} {m : AnyDescriptor}
    (held : w.methods[source]? = some m) (modest : m.descriptor.Modest) (kind : CopyKind)
    (later : List Action) : w.KeepsApart source m kind later := by
  have added := after_copy held modest kind
  obtain ⟨within, _⟩ := List.getElem?_eq_some_iff.mp held
  constructor
  · rw [added]
  · apply held_after
    rw [added, List.getElem?_append_left within]
    exact held
  · apply held_after
    rw [added]
    exact List.getElem?_concat_length

/-- Chains of copies of a method always succeed and have no effect. Plain copies are equal to the
method, and so is what is converted back to its own marshallers, whatever it was converted to in
between. -/
structure CopiesFaithfully (w : Workshop) (source : Nat) (m : AnyDescriptor) : Prop where
  copies : ∀ first rest, (∀ link ∈ first :: rest, link.kind = .plain) →
    m.ReturnsBy (first :: rest)
  converts : ∀ registrars links uses (Req Resp : MessageType) (request : Shared (Marshaller Req))
    (response : Shared (Marshaller Resp)), ∃ copy : Descriptor Req Resp,
      m.chain registrars (links ++ [⟨uses, .converted request response⟩]) =
          pure (.ok ⟨copy⟩, registrars) ∧
        m.descriptor.Converts request response copy
  returns : ∀ links uses,
    m.ReturnsBy (links ++ [⟨uses, .converted m.descriptor.request m.descriptor.response⟩])
  apart : ∀ kind later, w.KeepsApart source m kind later

/-- However a method was made, announced and used: copying it over and over loses nothing of it and
leaks nothing to it. -/
theorem copies_lose_nothing (registrars : Registrars) (actions : List Action) {source : Nat}
    {m : AnyDescriptor}
    (held : (({ registrars } : Workshop).after actions).methods[source]? = some m) :
    CopiesFaithfully (({ registrars } : Workshop).after actions) source m := by
  have modest : m.descriptor.Modest :=
    Workshop.methods_after (fun _ => Descriptor.modest_of_isNew)
      (fun _ use kept => Descriptor.modest_use kept use) registrars actions m held
  constructor
  · intro first rest plain
    apply AnyDescriptor.returnsBy_of_eq
    exact fun registrars => AnyDescriptor.chain_of_plain modest registrars plain
  · intro registrars links uses Req Resp request response
    exact ⟨_, AnyDescriptor.chain_concat modest registrars links uses request response,
      m.descriptor.converts_withMarshallers request response⟩
  · intro links uses
    apply AnyDescriptor.returnsBy_of_eq
    exact fun registrars => AnyDescriptor.chain_concat modest registrars links uses _ _
  · exact Workshop.keepsApart_of_held held modest

/-- A method that was announced and has a raw name is copied, converted to other messages, and
converted back. The recorder hears nothing of that, and the method nothing of a copy's names. -/
theorem copies_lose_nothing_announced :
    let request : Shared (Marshaller .unit) := ⟨0, .void⟩
    let response : Shared (Marshaller .unit) := ⟨1, .void⟩
    let schema : Shared Payload := ⟨2, .text "echo"⟩
    let settings : List (Setting .unit .unit) := [.schema schema, .traced true, .registrar 0]
    let actions : List Action := .create .unary "pkg.Echo/Call" request response ::
      Workshop.copying 0 0 settings ++ [.use 1 (.set 0 ⟨3, .text "call"⟩)]
    let w := ({ registrars := ⟨[.recorder []]⟩ } : Workshop).after actions
    let d : Descriptor .unit .unit :=
      ⟨⟨.unary, "pkg.Echo/Call", request, response, some schema, false, false⟩,
        RawNames.empty.set 0 ⟨3, .text "call"⟩⟩
    let bytes : Shared (Marshaller .bytes) := ⟨4, .verbatim {}⟩
    let text : Shared (Marshaller .text) := ⟨5, .utf8 true⟩
    let ring : Shared Payload := ⟨6, .text "ring"⟩
    let links : List Link := [⟨[], .plain⟩, ⟨[.set 1 ring], .converted bytes text⟩]
    w.methods[1]? = some ⟨d⟩ ∧
      w.registrars = ⟨[.recorder [["Sent.pkg.Echo.Call", "Recv.pkg.Echo.Call"]]]⟩ ∧
      (∃ copy : Descriptor .unit .unit, copy == d ∧
        (AnyDescriptor.mk d).chain w.registrars (links ++ [⟨[], .converted request response⟩]) =
          pure (.ok ⟨copy⟩, w.registrars)) ∧
      ((w.after (CopyKind.actions 1 0 .plain)).after [.use 2 (.set 0 ring)]).methods[1]? =
        some ⟨d⟩ := by
  intro request response schema settings actions w d bytes text ring links
  have held : w.methods[1]? = some ⟨d⟩ := rfl
  have faithful : CopiesFaithfully w 1 ⟨d⟩ := copies_lose_nothing _ actions held
  obtain ⟨copy, built, same, _⟩ := faithful.returns links [] w.registrars
  have original := (faithful.apart .plain [.use 2 (.set 0 ring)]).original
  exact ⟨held, by decide, ⟨copy, same, built⟩, original⟩

end RpcMethod
