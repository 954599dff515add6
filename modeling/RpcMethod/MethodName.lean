/-!
# Method names

The full name of a method is its service and its own name with a slash between them. A full name
is taken apart at its last slash, so a service may contain slashes and a method may not. Span names
are full names behind the label of their side, with dots for slashes.
-/

namespace RpcMethod

/-- The two ends of a call. -/
inductive Side where
  | client
  | server
deriving DecidableEq, Repr

/-- What the span names of a side start with. -/
def Side.label : Side → String
  | .client => "Sent"
  | .server => "Recv"

namespace MethodName

def separator : Char := '/'

/-- The full name of a method of a service. -/
def full (service method : String) : String := service ++ String.singleton separator ++ method

/-- What stands before and after the last separator. -/
def splitLast? : List Char → Option (List Char × List Char)
  | [] => none
  | c :: rest =>
    match splitLast? rest with
    | some (before, after) => some (c :: before, after)
    | none => if c = separator then some ([], rest) else none

/-- The service and the method of a full name, if it has a separator. -/
def split? (name : String) : Option (String × String) :=
  (splitLast? name.toList).map fun (service, method) =>
    (String.ofList service, String.ofList method)

def service? (name : String) : Option String := (split? name).map Prod.fst

def method? (name : String) : Option String := (split? name).map Prod.snd

/-- A character of a full name as span names have it. -/
def spanChar (c : Char) : Char := if c = separator then '.' else c

/-- The name of the span that a side opens for a method. -/
def span (side : Side) (name : String) : String :=
  side.label ++ "." ++ String.ofList (name.toList.map spanChar)

/-- The span names of both sides, the client's first. -/
def spans (name : String) : List String := [span .client name, span .server name]

/-- Splitting is undone by putting the separator back. -/
theorem append_of_splitLast? {name before after : List Char}
    (h : splitLast? name = some (before, after)) : name = before ++ separator :: after := by
  induction name generalizing before after with
  | nil => cases h
  | cons c rest ih =>
    rw [splitLast?] at h
    split at h
    · next b a split =>
      obtain ⟨rfl, rfl⟩ := Prod.mk.inj (Option.some.inj h)
      rw [ih split, List.cons_append]
    · split at h
      · next same =>
        obtain ⟨rfl, rfl⟩ := Prod.mk.inj (Option.some.inj h)
        rw [same, List.nil_append]
      · cases h

theorem splitLast?_eq_none_iff {name : List Char} : splitLast? name = none ↔ separator ∉ name := by
  induction name with
  | nil => simp [splitLast?]
  | cons c rest ih =>
    rw [splitLast?]
    split
    · next split =>
      have mem : separator ∈ rest := by simp [append_of_splitLast? split]
      simp [mem]
    · next split => simp [ih.mp split, eq_comm]

end MethodName

end RpcMethod
