import RpcMethod.MethodName

/-!
# Span names

A span name is the label of a side, a dot, and the name of the method with dots for slashes. The
label can be told from the rest, so two span names are equal just when their sides are and their
methods are written alike with dots (`labelled_inj`); in particular no client's name is a server's.
Methods are written alike just when their names are as long and differ at most in slashes of the one
that are dots of the other (`spans_collide_exactly`).
-/

namespace RpcMethod.MethodName

variable {side : Side} {text : String} {methods : List String}

/-- A full name as span names have it. -/
def dotted (name : String) : String := String.ofList (name.toList.map spanChar)

/-- A text behind the label of a side. -/
def labelled (side : Side) (text : String) : String := side.label ++ "." ++ text

theorem span_eq_labelled (side : Side) (name : String) :
    span side name = labelled side (dotted name) :=
  rfl

theorem labelled_client (text : String) : labelled .client text = "Sent." ++ text := rfl

theorem labelled_server (text : String) : labelled .server text = "Recv." ++ text := rfl

theorem labelled_client_ne_server (a b : String) : labelled .client a ≠ labelled .server b := by
  intro same
  have front := congrArg (fun text => text.toList.head?) same
  simp [labelled, Side.label] at front

theorem labelled_inj {a b : Side} {x y : String} :
    labelled a x = labelled b y ↔ a = b ∧ x = y := by
  constructor
  · intro same
    have sides : a = b := by
      cases a with
      | client =>
        cases b with
        | client => rfl
        | server => exact absurd same (labelled_client_ne_server x y)
      | server =>
        cases b with
        | client => exact absurd same.symm (labelled_client_ne_server y x)
        | server => rfl
    subst sides
    exact ⟨rfl, (String.append_right_inj _).mp same⟩
  · rintro ⟨rfl, rfl⟩
    rfl

/-- Of the two span names of a method, one has the label of a given side. -/
theorem labelled_mem_spans_iff {name : String} :
    labelled side text ∈ spans name ↔ text = dotted name := by
  simp only [spans, span_eq_labelled, List.mem_cons, List.not_mem_nil, labelled_inj]
  cases side with
  | client => simp
  | server => simp

theorem labelled_mem_flatMap_iff :
    labelled side text ∈ methods.flatMap spans ↔ text ∈ methods.map dotted := by
  simp only [List.mem_flatMap, List.mem_map, labelled_mem_spans_iff, eq_comm]

theorem length_flatMap_spans (methods : List String) :
    (methods.flatMap spans).length = 2 * methods.length := by
  induction methods with
  | nil => rfl
  | cons method rest ih =>
    rw [List.flatMap_cons, List.length_append, ih, List.length_cons, spans]
    simp only [List.length_cons, List.length_nil]
    omega

/-- Span names do not tell two characters apart if both are slashes or dots. -/
def SameInSpans (c d : Char) : Prop := c = d ∨ c ∈ ['/', '.'] ∧ d ∈ ['/', '.']

theorem spanChar_eq_dot_iff {c : Char} : spanChar c = '.' ↔ c ∈ ['/', '.'] := by
  by_cases slash : c = '/'
  · simp [spanChar, separator, slash]
  · simp [spanChar, separator, slash]

theorem spanChar_of_ne_dot {c : Char} (h : spanChar c ≠ '.') : spanChar c = c := by
  rw [spanChar] at h ⊢
  split
  · next slash => exact absurd (if_pos slash) h
  · rfl

theorem spanChar_eq_iff {c d : Char} : spanChar c = spanChar d ↔ SameInSpans c d := by
  constructor
  · intro same
    by_cases dot : spanChar c = '.'
    · exact .inr ⟨spanChar_eq_dot_iff.mp dot, spanChar_eq_dot_iff.mp (same ▸ dot)⟩
    · have kept := spanChar_of_ne_dot dot
      rw [same] at dot kept
      exact .inl (kept.symm.trans (spanChar_of_ne_dot dot))
  · rintro (rfl | ⟨first, second⟩)
    · rfl
    · rw [spanChar_eq_dot_iff.mpr first, spanChar_eq_dot_iff.mpr second]

/-- The names are as long as each other and have the same characters in spans at every place. -/
structure WrittenAlike (first second : String) : Prop where
  length_eq : first.length = second.length
  same : ∀ i (hfirst : i < first.toList.length) (hsecond : i < second.toList.length),
    SameInSpans first.toList[i] second.toList[i]

theorem dotted_eq_iff {first second : String} :
    dotted first = dotted second ↔ WrittenAlike first second := by
  rw [dotted, dotted, String.ofList_inj, List.ext_getElem_iff]
  simp only [List.length_map, List.getElem_map, spanChar_eq_iff, String.length_toList]
  constructor
  · rintro ⟨long, each⟩
    exact ⟨long, each⟩
  · rintro ⟨long, each⟩
    exact ⟨long, each⟩

theorem dotted_full (service method : String) :
    dotted (full service method) = dotted service ++ "." ++ dotted method := by
  simp [dotted, full, spanChar, String.ofList_append, String.append_assoc]

theorem span_full (side : Side) (service method : String) :
    span side (full service method) = span side service ++ "." ++ dotted method := by
  simp only [span_eq_labelled, dotted_full, labelled, String.append_assoc]

theorem spanChar_ne_separator (c : Char) : spanChar c ≠ separator := by
  rw [spanChar]
  split
  · decide
  · assumption

theorem separator_notMem_span (side : Side) (name : String) :
    separator ∉ (span side name).toList := by
  simp only [span, String.toList_append, String.toList_ofList, List.mem_append, List.mem_map]
  rintro ((label | dot) | ⟨c, _, same⟩)
  · cases side with
    | client => simp [Side.label, separator] at label
    | server => simp [Side.label, separator] at label
  · simp [separator] at dot
  · exact spanChar_ne_separator c same

/-- Two span names are equal only for the same side and for methods whose names differ at most in
slashes and dots. So the names of the two sides never meet. No span name has a slash, and the span
name of a method in a service is that of the service, a dot, and the method with dots for slashes. -/
theorem spans_collide_exactly :
    (∀ (a b : Side) (first second : String),
      span a first = span b second ↔ a = b ∧ WrittenAlike first second) ∧
    (∀ first second : String, span .client first ≠ span .server second) ∧
    (∀ (side : Side) (name : String), '/' ∉ (span side name).toList) ∧
    ∀ (side : Side) (service method : String),
      span side (full service method) = span side service ++ "." ++
        String.ofList (method.toList.map fun c => if c = '/' then '.' else c) := by
  refine ⟨?_, ?_, separator_notMem_span, span_full⟩
  · intro a b first second
    rw [span_eq_labelled, span_eq_labelled, labelled_inj, dotted_eq_iff]
  · intro first second
    exact labelled_client_ne_server _ _

/-- Methods of two services may have one span name. -/
example : span .client "pkg/Greeter.v1/Get" = span .client "pkg.Greeter/v1.Get" := by decide

end RpcMethod.MethodName
