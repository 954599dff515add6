import RpcMethod.MethodName
import RpcMethod.Proofs.Bytes

/-!
# Taking method names apart

A full name is taken apart at its last separator. Every name that has one is the full name of its
parts, and a service and a method come back from their full name just when there is no separator in
the method; one that is there takes what stands before it over to the service. In UTF-8 a separator
is a byte that is part of no other character, so the two parts are also the texts that stand before
and behind the last such byte (`ComesApart`, `inverse_at_last_separator`).
-/

namespace RpcMethod.MethodName

section Chars

variable {name before after : List Char}

theorem splitLast?_append (last : separator ∉ after) :
    splitLast? (before ++ separator :: after) = some (before, after) := by
  induction before with
  | nil => simp [splitLast?, splitLast?_eq_none_iff.mpr last]
  | cons c rest ih => rw [List.cons_append, splitLast?, ih]

/-- The separator that a name is split at has no other one behind it. -/
theorem separator_notMem_of_splitLast? (h : splitLast? name = some (before, after)) :
    separator ∉ after := by
  induction name generalizing before with
  | nil => cases h
  | cons c rest ih =>
    rw [splitLast?] at h
    split at h
    · next b a split =>
      obtain ⟨_, rfl⟩ := Prod.mk.inj (Option.some.inj h)
      exact ih split
    · next none =>
      split at h
      · obtain ⟨_, rfl⟩ := Prod.mk.inj (Option.some.inj h)
        exact splitLast?_eq_none_iff.mp none
      · cases h

theorem splitLast?_eq_some_iff :
    splitLast? name = some (before, after) ↔
      name = before ++ separator :: after ∧ separator ∉ after := by
  constructor
  · intro h
    exact ⟨append_of_splitLast? h, separator_notMem_of_splitLast? h⟩
  · rintro ⟨rfl, last⟩
    exact splitLast?_append last

end Chars

section Texts

variable {name service method : String}

theorem full_eq (service method : String) : full service method = service ++ "/" ++ method := rfl

theorem full_full (service before after : String) :
    full service (full before after) = full (full service before) after := by
  simp only [full_eq, String.append_assoc]

theorem toList_full (service method : String) :
    (full service method).toList = service.toList ++ separator :: method.toList := by
  simp [full]

theorem split?_eq_some_iff :
    split? name = some (service, method) ↔
      name = full service method ∧ separator ∉ method.toList := by
  have chars : split? name = some (service, method) ↔
      splitLast? name.toList = some (service.toList, method.toList) := by
    rw [split?, Option.map_eq_some_iff]
    constructor
    · rintro ⟨⟨before, after⟩, split, parts⟩
      obtain ⟨rfl, rfl⟩ := Prod.mk.inj parts
      simpa using split
    · intro split
      exact ⟨_, split, by simp⟩
  rw [chars, splitLast?_eq_some_iff, ← toList_full, String.toList_inj]

theorem split?_eq_none_iff : split? name = none ↔ separator ∉ name.toList := by
  rw [split?, Option.map_eq_none_iff, splitLast?_eq_none_iff]

theorem service?_eq_none_iff : service? name = none ↔ separator ∉ name.toList := by
  rw [service?, Option.map_eq_none_iff, split?_eq_none_iff]

theorem method?_eq_none_iff : method? name = none ↔ separator ∉ name.toList := by
  rw [method?, Option.map_eq_none_iff, split?_eq_none_iff]

theorem parts_eq_some_iff :
    service? name = some service ∧ method? name = some method ↔
      split? name = some (service, method) := by
  rw [service?, method?]
  cases split? name with
  | none => simp
  | some parts => simp [Prod.ext_iff]

/-- A name with a separator is the full name of two parts, the second of which has none. -/
theorem exists_eq_full (h : separator ∈ name.toList) :
    ∃ service method, name = full service method ∧ separator ∉ method.toList := by
  cases split : split? name with
  | none => exact absurd h (split?_eq_none_iff.mp split)
  | some parts => exact ⟨parts.1, parts.2, split?_eq_some_iff.mp split⟩

end Texts

section Slices

variable {service method : String}

/-- The place among bytes where the last separator stands. -/
structure LastSeparatorAt (bytes : Bytes) (place : Nat) : Prop where
  stands : bytes[place]? = some 0x2f
  last : ∀ later, place < later → bytes[later]? ≠ some 0x2f

theorem lastSeparatorAt_append {before after : Bytes} (last : 0x2f ∉ after) :
    LastSeparatorAt (before ++ 0x2f :: after) before.length := by
  constructor
  · simp
  · intro later behind same
    obtain ⟨distance, rfl⟩ := Nat.exists_eq_add_of_lt behind
    have there : after[distance]? = some 0x2f := by
      simpa [List.getElem?_append_right, Nat.add_assoc] using same
    exact last (List.mem_of_getElem? there)

theorem ofText_full (service method : String) :
    Bytes.ofText (full service method) = Bytes.ofText service ++ 0x2f :: Bytes.ofText method := by
  have slash : Bytes.ofText (String.singleton separator) = [0x2f] := by
    rw [Bytes.ofText_eq_flatMap, String.toList_singleton]
    rfl
  rw [full, Bytes.ofText_append, Bytes.ofText_append, slash, List.append_assoc,
    List.singleton_append]

/-- How a name comes apart: both parts are found and make up the name, there is no separator in the
second, and they are the texts of the bytes before and behind the last separator. -/
structure ComesApart (name service method : String) : Prop where
  service_eq : service? name = some service
  method_eq : method? name = some method
  whole : full service method = name
  last : '/' ∉ method.toList
  slices : ∃ place, LastSeparatorAt (Bytes.ofText name) place ∧
    Bytes.text? ((Bytes.ofText name).take place) = some service ∧
      Bytes.text? ((Bytes.ofText name).drop (place + 1)) = some method

/-- A separator's byte is part of no other character, so in bytes too the last separator is the one
between service and method. -/
theorem comesApart_full (last : separator ∉ method.toList) :
    ComesApart (full service method) service method := by
  have split : split? (full service method) = some (service, method) :=
    split?_eq_some_iff.mpr ⟨rfl, last⟩
  have found := parts_eq_some_iff.mpr split
  have noneBehind : 0x2f ∉ Bytes.ofText method := fun there =>
    last (Bytes.mem_toList_of_mem_ofText (show separator.toNat < 128 by decide) there)
  refine ⟨found.1, found.2, rfl, last, (Bytes.ofText service).length, ?_⟩
  rw [ofText_full]
  refine ⟨lastSeparatorAt_append noneBehind, ?_, ?_⟩
  · rw [List.take_left, Bytes.text?_ofText]
  · rw [← List.drop_drop, List.drop_left, List.drop_one, List.tail_cons, Bytes.text?_ofText]

end Slices

/-- Splitting undoes composing and composing undoes splitting, each of them just where it can. A
name has parts if there is a separator in it, and then it is their full name. A service and a method
are the parts of their full name if there is no separator in the method; otherwise the service is
followed by what the method has before its last one. -/
theorem inverse_at_last_separator :
    (∀ name : String,
      (service? name = none ↔ '/' ∉ name.toList) ∧ (method? name = none ↔ '/' ∉ name.toList) ∧
        ('/' ∈ name.toList ↔ ∃ service method, ComesApart name service method)) ∧
    ∀ service method : String,
      (service? (full service method) = some service ∧
          method? (full service method) = some method ↔ '/' ∉ method.toList) ∧
        ('/' ∈ method.toList ↔ ∃ before after, method = before ++ "/" ++ after ∧
          ComesApart (full service method) (service ++ "/" ++ before) after) := by
  constructor
  · intro name
    refine ⟨service?_eq_none_iff, method?_eq_none_iff, ?_, ?_⟩
    · intro mem
      obtain ⟨service, method, rfl, last⟩ := exists_eq_full mem
      exact ⟨service, method, comesApart_full last⟩
    · rintro ⟨service, method, apart⟩
      simp [← apart.whole, toList_full, separator]
  · intro service method
    refine ⟨?_, ?_, ?_⟩
    · rw [parts_eq_some_iff, split?_eq_some_iff]
      exact and_iff_right rfl
    · intro mem
      obtain ⟨before, after, rfl, last⟩ := exists_eq_full mem
      refine ⟨before, after, rfl, ?_⟩
      rw [full_full]
      exact comesApart_full last
    · rintro ⟨before, after, rfl, _⟩
      simp

/-- A separator in the method ends up in the service. -/
example : split? (full "größe" "a//ß") = some ("größe/a/", "ß") := by decide

end RpcMethod.MethodName
