import RpcMethod.Proofs.Workshop.Runs

/-!
# Recomputing raw names

As long as all that is written into the slot of a transport is the one form that the transport gives
to the name of the method, keeping raw names makes no difference: whoever asks for a name gets what
computing it then would give, and whoever reads a slot finds it empty or finds that
(`names_as_computed`). It takes no care with copies: a copy starts with no raw names, so a new name
is never answered with what was computed for the old one.
-/

namespace RpcMethod

open Transport (Slot)

variable {forms : Transport → String → Payload}

/-- Every raw name that is there is the form that its transport gives to the name of the method. -/
def RawNames.Agree (names : RawNames) (forms : Transport → String → Payload) (method : String) :
    Prop :=
  ∀ slot raw, names.get slot = some raw → raw.value = forms (.ofSlot slot) method

/-- The use gives the name of the method only the form that belongs to the transport: an encoder
computes it, or an object is written that has it. -/
def NameUse.Honours (forms : Transport → String → Payload) (method : String) : NameUse → Prop
  | .resolve encoder _ => encoder.encode method = forms encoder.transport method
  | .set slot raw => raw.value = forms (.ofSlot slot) method
  | .trySet index raw =>
    ∀ slot, Transport.slot? index = some slot → raw.value = forms (.ofSlot slot) method
  | .get _ | .tryGet _ | .outline => True

/-- What was read is nothing or has the form. -/
def NameAnswer.ReadsAs (form : Payload) (answer : NameAnswer) : Prop :=
  ∃ raw?, answer = .held raw? ∧ ∀ raw, raw? = some raw → raw.value = form

/-- The answer is as good as one for which the name was computed anew. -/
def NameUse.AnsweredAfresh (forms : Transport → String → Payload) (method : String) :
    NameUse → NameAnswer → Prop
  | .resolve encoder _, answer =>
    ∃ raw, answer = .raw raw ∧ raw.value = forms encoder.transport method
  | .get slot, answer => answer.ReadsAs (forms (.ofSlot slot) method)
  | .tryGet index, answer =>
    ∀ slot, Transport.slot? index = some slot → answer.ReadsAs (forms (.ofSlot slot) method)
  | .set .., _ | .trySet .., _ | .outline, _ => True

theorem RawNames.agree_empty (method : String) : RawNames.empty.Agree forms method := by
  intro slot raw held
  rw [RawNames.get_empty] at held
  cases held

namespace Descriptor

variable {Req Resp : MessageType} {d : Descriptor Req Resp} {use : NameUse}

/-- Whatever a use writes, its own object or what an encoder gives for an empty slot, has the form of
the slot's transport. -/
theorem value_of_written {slot : Slot} {raw : Shared Payload} (honours : use.Honours forms d.name)
    (h : d.written? use = some (slot, raw)) : raw.value = forms (.ofSlot slot) d.name := by
  cases use with
  | resolve encoder number =>
    rw [written?] at h
    split at h
    · cases h
    · obtain ⟨rfl, rfl⟩ := Prod.mk.inj (Option.some.inj h)
      rw [Transport.ofSlot_slot]
      exact honours
  | set target object =>
    obtain ⟨rfl, rfl⟩ := Prod.mk.inj (Option.some.inj h)
    exact honours
  | trySet index object =>
    obtain ⟨target, position, same⟩ := Option.map_eq_some_iff.mp h
    obtain ⟨rfl, rfl⟩ := Prod.mk.inj same
    exact honours target position
  | get target => cases h
  | tryGet index => cases h
  | outline => cases h

theorem agree_use (agree : d.rawNames.Agree forms d.name) (honours : use.Honours forms d.name) :
    (d.use use).descriptor.rawNames.Agree forms d.name := by
  intro slot raw held
  by_cases written : ∃ object, d.written? use = some (slot, object)
  · obtain ⟨object, written⟩ := written
    obtain rfl := Option.some.inj ((get_of_written written).symm.trans held)
    exact value_of_written honours written
  · rw [get_of_not_written fun object same => written ⟨object, same⟩] at held
    exact agree slot raw held

/-- What is asked for is what the slot holds afterwards, and that agrees; what is read was there
before. -/
theorem answered_use (agree : d.rawNames.Agree forms d.name) (honours : use.Honours forms d.name) :
    use.AnsweredAfresh forms d.name (d.use use).answer := by
  cases use with
  | resolve encoder number =>
    have after := agree_use agree honours
    have held := d.rawNames.get_resolve encoder d.name number
    refine ⟨_, rfl, ?_⟩
    rw [← Transport.ofSlot_slot encoder.transport]
    exact after encoder.transport.slot _ held
  | get slot => exact ⟨_, rfl, agree slot⟩
  | tryGet index =>
    intro slot position
    rw [d.use_tryGet_of_some position]
    exact ⟨_, rfl, agree slot⟩
  | set slot raw => trivial
  | trySet index raw => trivial
  | outline => trivial

end Descriptor

namespace AnyDescriptor

/-- Asking for the path of the method gives the path of a name: a slash and the bytes of the
name. -/
def GivesPath (m : AnyDescriptor) (t : Transport) (number : Nat) (name : String) : Prop :=
  ∃ raw, (m.descriptor.use (.resolve (.path t) number)).answer = .raw raw ∧
    raw.value = .bytes (0x2f :: Bytes.ofText name)

variable {m : AnyDescriptor}

/-- No two names have the same path. -/
theorem GivesPath.name_eq {t : Transport} {number : Nat} {a b : String}
    (ha : m.GivesPath t number a) (hb : m.GivesPath t number b) : a = b := by
  obtain ⟨raw, given, value⟩ := ha
  obtain ⟨other, again, clash⟩ := hb
  obtain rfl := NameAnswer.raw.inj (given.symm.trans again)
  have paths := Payload.bytes.inj (value.symm.trans clash)
  have same : Bytes.ofText a = Bytes.ofText b := (List.cons.inj paths).2
  have read := Bytes.text?_ofText a
  rw [same, Bytes.text?_ofText] at read
  exact (Option.some.inj read).symm

theorem rawNames_of_isNew (h : m.IsNew) : m.descriptor.rawNames = .empty := by
  rcases h with ⟨cardinality, name, request, response, created⟩ | ⟨draft, built⟩
  · rw [created]
    rfl
  · obtain ⟨made, _⟩ := Draft.assemble_eq_ok built
    exact made.rawNames

end AnyDescriptor

namespace Workshop

/-- All uses of the method at a place give its name the form that belongs to the transport. -/
def Honours (w : Workshop) (actions : List Action) (place : Nat)
    (forms : Transport → String → Payload) : Prop :=
  ∀ m use, w.Uses actions place m use → use.Honours forms m.descriptor.name

/-- The raw names of the method at a place are at all times as if they were computed then, and so
are all answers about them. If the method is a copy with a new name, they are the new name's, and no
path is that of the old one. -/
structure AsComputed (w : Workshop) (actions : List Action) (place : Nat)
    (forms : Transport → String → Payload) : Prop where
  names : ∀ earlier later m, actions = earlier ++ later →
    (w.after earlier).methods[place]? = some m →
      m.descriptor.rawNames.Agree forms m.descriptor.name
  answers : ∀ m use, w.Uses actions place m use →
    use.AnsweredAfresh forms m.descriptor.name (m.descriptor.use use).answer
  paths : ∀ m t number, w.Uses actions place m (.resolve (.path t) number) →
    m.GivesPath t number m.descriptor.name
  copies : ∀ earlier source original settings later copy name,
    (w.after earlier).methods[source]? = some original →
    actions = earlier ++ (copying source (w.after earlier).drafts.length settings ++ later) →
    (original.descriptor.toDraft.setAll settings).assemble = .ok copy →
    Setting.lastWritten? .name settings = some (some name) →
    place = (w.after earlier).methods.length →
      let copied := (w.after earlier).after
        (copying source (w.after earlier).drafts.length settings)
      copied.methods[place]? = some ⟨copy⟩ ∧ copy.name = name ∧ copy.rawNames = .empty ∧
        (∀ m use, copied.Uses later place m use →
          use.AnsweredAfresh forms name (m.descriptor.use use).answer) ∧
        ∀ m t number, copied.Uses later place m (.resolve (.path t) number) →
          m.GivesPath t number name ∧
            (name ≠ original.descriptor.name → ¬ m.GivesPath t number original.descriptor.name)

variable {w : Workshop} {actions earlier later : List Action} {place : Nat} {m : AnyDescriptor}

theorem Honours.append_right (h : w.Honours (earlier ++ later) place forms) :
    w.Honours earlier place forms :=
  fun m use used => h m use (used.append_right later)

theorem agree_after (empty : w.methods[place]? = none) (honours : w.Honours actions place forms) :
    ∀ m, (w.after actions).methods[place]? = some m →
      m.descriptor.rawNames.Agree forms m.descriptor.name := by
  apply method_after
  · intro _ m isNew
    rw [AnyDescriptor.rawNames_of_isNew isNew]
    exact RawNames.agree_empty m.descriptor.name
  · intro m use used agree
    rw [m.name_use]
    exact Descriptor.agree_use agree (honours m use used)
  · intro m held
    cases empty.symm.trans held

theorem answered_after (empty : w.methods[place]? = none) (honours : w.Honours actions place forms)
    {use : NameUse} (used : w.Uses actions place m use) :
    use.AnsweredAfresh forms m.descriptor.name (m.descriptor.use use).answer := by
  have kept := honours m use used
  obtain ⟨earlier, later, rfl, held⟩ := used
  exact Descriptor.answered_use (agree_after empty honours.append_right m held) kept

theorem givesPath_after (empty : w.methods[place]? = none) (honours : w.Honours actions place forms)
    {t : Transport} {number : Nat} (used : w.Uses actions place m (.resolve (.path t) number)) :
    m.GivesPath t number m.descriptor.name := by
  obtain ⟨raw, given, value⟩ := answered_after empty honours used
  have path : .bytes (0x2f :: Bytes.ofText m.descriptor.name) = forms t m.descriptor.name :=
    honours m (.resolve (.path t) number) used
  exact ⟨raw, given, value.trans path.symm⟩

/-- A method that is used has the name with which it came to its place. -/
theorem name_of_uses {made : AnyDescriptor} {use : NameUse} (there : w.methods[place]? = some made)
    (used : w.Uses actions place m use) : m.descriptor.name = made.descriptor.name := by
  obtain ⟨earlier, later, _, held⟩ := used
  exact name_after there earlier m held

end Workshop

/-- Whatever is done with all the methods that there are: if the uses of the one at a place give its
name the form that belongs to each transport, its raw names are as if computed for every use. -/
theorem names_as_computed (forms : Transport → String → Payload) (registrars : Registrars)
    (actions : List Action) (place : Nat)
    (honours : ({ registrars } : Workshop).Honours actions place forms) :
    ({ registrars } : Workshop).AsComputed actions place forms := by
  constructor
  · rintro earlier later m rfl there
    exact Workshop.agree_after rfl honours.append_right m there
  · intro m use used
    exact Workshop.answered_after rfl honours used
  · intro m t number used
    exact Workshop.givesPath_after rfl honours used
  · rintro earlier source original settings later copy name held rfl built renamed here copied
    obtain ⟨made, _⟩ := Draft.assemble_eq_ok built
    have there : copied.methods[place]? = some ⟨copy⟩ := by
      rw [Workshop.methods_copying held built, here]
      exact List.getElem?_concat_length
    have named : copy.name = name :=
      Option.some.inj (made.name.symm.trans (Draft.get_setAll_of_written _ renamed))
    refine ⟨there, named, made.rawNames, ?_, ?_⟩
    · intro m use used
      have kept : m.descriptor.name = name := (Workshop.name_of_uses there used).trans named
      rw [← kept]
      exact Workshop.answered_after rfl honours used.append_left.append_left
    · intro m t number used
      have kept : m.descriptor.name = name := (Workshop.name_of_uses there used).trans named
      have path := Workshop.givesPath_after rfl honours used.append_left.append_left
      rw [kept] at path
      exact ⟨path, fun differs old => differs (path.name_eq old)⟩

/-- A path that is kept, and a copy under another name: one of its paths is written, the others are
asked for. -/
theorem names_as_computed_renamed :
    let workshop : Workshop := {}
    let forms := fun t => (NameEncoder.path t).encode
    let earlier : List Action :=
      [.create .unary "pkg.Echo/Call" ⟨0, .void⟩ ⟨1, .void⟩, .use 0 (.resolve (.path .tcp) 2)]
    let settings : List (Setting .unit .unit) := [.name "pkg.Echo/Ring"]
    let later : List Action :=
      [.use 1 (.set 0 ⟨3, .bytes (0x2f :: Bytes.ofText "pkg.Echo/Ring")⟩),
        .use 1 (.resolve (.path .tls) 4)]
    let actions := earlier ++ (Workshop.copying 0 0 settings ++ later)
    workshop.Honours actions 1 forms ∧
      ∃ m, workshop.Uses actions 1 m (.resolve (.path .tls) 4) ∧
        m.GivesPath .tls 4 "pkg.Echo/Ring" ∧ ¬ m.GivesPath .tls 4 "pkg.Echo/Call" := by
  intro workshop forms earlier settings later actions
  have honours : workshop.Honours actions 1 forms := by
    intro m use used
    simp only [actions, earlier, settings, later, Workshop.copying, List.cons_append,
      List.nil_append, List.map_cons, List.map_nil, Workshop.uses_cons_iff,
      Workshop.not_uses_nil, reduceCtorEq, Action.use.injEq, Nat.zero_ne_one, true_and, false_and,
      or_false, false_or] at used
    rcases used with ⟨rfl, held⟩ | ⟨rfl, held⟩
    · cases held
      rfl
    · rfl
  have computed := names_as_computed forms {} actions 1 honours
  obtain ⟨_, _, _, _, paths⟩ :=
    computed.copies earlier 0 _ settings later _ "pkg.Echo/Ring" rfl rfl rfl rfl rfl
  have asked : ((workshop.after earlier).after (Workshop.copying 0 0 settings)).Uses later 1 _
      (.resolve (.path .tls) 4) := ⟨[later.head (by decide)], [], rfl, rfl⟩
  obtain ⟨path, old⟩ := paths _ _ _ asked
  exact ⟨honours, _, asked.append_left.append_left, path, old (by decide)⟩

end RpcMethod
