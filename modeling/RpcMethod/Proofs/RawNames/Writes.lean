import RpcMethod.RawNames

/-!
# Writes of raw names

The slots of raw names are written in two ways, by the slot of a transport and by any number. A
number that is no slot is refused and nothing happens; any other number is as good as the slot that
it stands for. Each slot keeps the last object that was written to it in either way, whatever the
other slots are written, and both ways of reading find that object (`stores_writes`).
-/

namespace RpcMethod

open Transport (Slot)

/-- A write of a raw name into a slot, or at any position, which is checked. -/
inductive NameWrite where
  | set (slot : Slot) (raw : Shared Payload)
  | trySet (position : Nat) (raw : Shared Payload)

namespace NameWrite

/-- The object that a write puts into a slot; `none` if it goes elsewhere or nowhere. -/
def puts? (slot : Slot) : NameWrite → Option (Shared Payload)
  | .set target raw => if target = slot then some raw else none
  | .trySet position raw => if position = slot then some raw else none

/-- The object that was put into a slot last. -/
def lastPut? (slot : Slot) (writes : List NameWrite) : Option (Shared Payload) :=
  (writes.filterMap (puts? slot)).getLast?

theorem lastPut?_cons (slot : Slot) (write : NameWrite) (rest : List NameWrite) :
    lastPut? slot (write :: rest) = (lastPut? slot rest).or (write.puts? slot) := by
  simp [lastPut?, List.getLast?_filterMap, List.findSome?_append]

theorem isSome_lastPut? (slot : Slot) (writes : List NameWrite) :
    (lastPut? slot writes).isSome = writes.any fun write => (write.puts? slot).isSome := by
  rw [lastPut?, List.getLast?_filterMap, List.isSome_findSome?, List.any_reverse]

end NameWrite

open NameWrite (puts? lastPut?)

namespace RawNames

variable {position : Nat}

def write (names : RawNames) : NameWrite → Except DescriptorError RawNames
  | .set slot raw => .ok (names.set slot raw)
  | .trySet position raw => names.trySet position raw

/-- The names after a write; one that is refused leaves them as they are. -/
def written (names : RawNames) (write : NameWrite) : RawNames :=
  match names.write write with
  | .ok after => after
  | .error _ => names

/-- The names after a sequence of writes. -/
def after (names : RawNames) (writes : List NameWrite) : RawNames := writes.foldl written names

theorem checkedSlot_val (slot : Slot) : checkedSlot slot = .ok slot := by
  simp [checkedSlot, Transport.slot?]

theorem checkedSlot_of_le (beyond : Transport.count ≤ position) :
    checkedSlot position = .error (.slotOutOfRange position Transport.count) := by
  simp [checkedSlot, Transport.slot?, Nat.not_lt.mpr beyond]

section Checked

variable (names : RawNames) (slot : Slot) (raw : Shared Payload)

theorem tryGet_val : names.tryGet slot = .ok (names.get slot) := by
  simp [tryGet, checkedSlot_val, Except.map]

theorem tryGet_of_le (beyond : Transport.count ≤ position) :
    names.tryGet position = .error (.slotOutOfRange position Transport.count) := by
  simp [tryGet, checkedSlot_of_le beyond, Except.map]

theorem trySet_val : names.trySet slot raw = .ok (names.set slot raw) := by
  simp [trySet, checkedSlot_val, Except.map]

theorem trySet_of_le (beyond : Transport.count ≤ position) :
    names.trySet position raw = .error (.slotOutOfRange position Transport.count) := by
  simp [trySet, checkedSlot_of_le beyond, Except.map]

theorem written_set : names.written (.set slot raw) = names.set slot raw := rfl

theorem written_trySet_val : names.written (.trySet slot raw) = names.set slot raw := by
  simp [written, write, trySet_val]

theorem written_trySet_of_le (beyond : Transport.count ≤ position) :
    names.written (.trySet position raw) = names := by
  simp [written, write, trySet_of_le names raw beyond]

end Checked

/-- A write changes the slot that it puts its object into and no other. -/
theorem get_written (names : RawNames) (write : NameWrite) (slot : Slot) :
    (names.written write).get slot = (write.puts? slot).or (names.get slot) := by
  cases write with
  | set target raw => exact names.get_set target slot raw
  | trySet position raw =>
    rcases Nat.lt_or_ge position Transport.count with within | beyond
    · have same : puts? slot (.trySet position raw) = puts? slot (.set ⟨position, within⟩ raw) := by
        simp [puts?, Fin.ext_iff]
      rw [same, names.written_trySet_val ⟨position, within⟩ raw]
      exact names.get_set ⟨position, within⟩ slot raw
    · have elsewhere : position ≠ slot := by omega
      simp [names.written_trySet_of_le raw beyond, puts?, elsewhere]

/-- A slot holds what was put into it last, and otherwise what it held before. -/
theorem get_after (names : RawNames) (writes : List NameWrite) (slot : Slot) :
    (names.after writes).get slot = (lastPut? slot writes).or (names.get slot) := by
  induction writes generalizing names with
  | nil => rfl
  | cons write rest ih =>
    have later := ih (names.written write)
    rw [get_written, ← Option.or_assoc, ← NameWrite.lastPut?_cons] at later
    exact later

theorem get_after_empty (writes : List NameWrite) (slot : Slot) :
    (empty.after writes).get slot = lastPut? slot writes := by
  simp [get_after]

theorem after_concat (names : RawNames) (writes : List NameWrite) (write : NameWrite) :
    names.after (writes ++ [write]) = (names.after writes).written write :=
  List.foldl_append

theorem toList_eq (names : RawNames) :
    names.toList = (List.finRange Transport.count).map names.get := by
  apply List.ext_getElem
  · simp [toList]
  · intro i _ _
    simp [toList, get]

/-- What a sequence of writes does to names that were empty, at each of its places, and what can be
read and seen of them at the end. -/
structure StoresWrites (writes : List NameWrite) : Prop where
  refuses : ∀ earlier position raw later, writes = earlier ++ .trySet position raw :: later →
    3 ≤ position →
      (empty.after earlier).trySet position raw = .error (.slotOutOfRange position 3) ∧
        empty.after (earlier ++ [.trySet position raw]) = empty.after earlier
  accepts : ∀ earlier position raw later, writes = earlier ++ .trySet position raw :: later →
    position < 3 → ∃ t : Transport, t.slot.val = position ∧
      (empty.after earlier).trySet position raw = .ok ((empty.after earlier).set t.slot raw) ∧
        empty.after (earlier ++ [.trySet position raw]) =
          empty.after (earlier ++ [.set t.slot raw])
  get_eq : ∀ slot, (empty.after writes).get slot = lastPut? slot writes
  tryGet_eq : ∀ position (within : position < 3),
    (empty.after writes).tryGet position = .ok (lastPut? ⟨position, within⟩ writes)
  tryGet_refuses : ∀ position, 3 ≤ position →
    (empty.after writes).tryGet position = .error (.slotOutOfRange position 3)
  shows : (empty.after writes).outline = .record "RawNameCache"
    [("filled", .list ((List.finRange 3).map fun slot =>
      .flag (writes.any fun write => (write.puts? slot).isSome)))] false

/-- Whatever is written, in whatever order and in either way: the slots do not touch one another,
each keeps the last object that was written to it, and what is refused has no effect. -/
theorem stores_writes (writes : List NameWrite) : StoresWrites writes := by
  constructor
  · intro earlier position raw later _ beyond
    refine ⟨trySet_of_le _ raw beyond, ?_⟩
    rw [after_concat]
    exact written_trySet_of_le _ raw beyond
  · intro earlier position raw later _ within
    have place := Transport.slot_ofSlot ⟨position, within⟩
    refine ⟨.ofSlot ⟨position, within⟩, congrArg Fin.val place, ?_, ?_⟩
    · rw [place]
      exact trySet_val _ ⟨position, within⟩ raw
    · rw [after_concat, after_concat, place, written_set]
      exact written_trySet_val _ ⟨position, within⟩ raw
  · exact get_after_empty writes
  · intro position within
    rw [← get_after_empty]
    exact tryGet_val _ ⟨position, within⟩
  · intro position beyond
    exact tryGet_of_le _ beyond
  · simp only [outline, toList_eq, List.map_map, Function.comp_def, get_after_empty,
      NameWrite.isSome_lastPut?]

/-- The first slot is not written and the second one is, in both ways. -/
example : (empty.after [.trySet 1 ⟨0, .text "a"⟩, .trySet 3 ⟨1, .text "b"⟩,
    .set 1 ⟨2, .text "c"⟩]).outline.line =
      "RawNameCache \x7b filled: [false, true, false] \x7d" := by
  cbv

end RawNames

end RpcMethod
