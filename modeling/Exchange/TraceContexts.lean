import Exchange.Lib.Numbered
import Exchange.Observability

/-!
# Trace contexts

`child_context` makes the context of a span from that of its parent, and a root from an empty one. A root is named
after its component and number, and a child by its number behind a dot, so an id is a path through the trace:
`derive_ids` reads off which contexts share one. The components of the children do not occur in it.
-/

namespace Exchange.Observability

def childContext (parent : TraceContext) (component : String) (sequence : UInt64) : TraceContext where
  traceId := if parent.traceId = "" then component ++ "-trace-" ++ toString sequence else parent.traceId
  spanId := if parent.spanId = "" then component ++ "-span-" ++ toString sequence
    else parent.spanId ++ "." ++ toString sequence
  parentSpanId := parent.spanId
  component := component

/-- The arguments of a call of `child_context`, but for the parent. -/
structure ChildCall where
  component : String
  sequence : UInt64
deriving DecidableEq

namespace TraceContext

def empty : TraceContext := ⟨"", "", "", ""⟩

/-- The context that the calls make one after the other, each from the context before. -/
def derive (calls : List ChildCall) : TraceContext :=
  calls.foldl (fun parent call => childContext parent call.component call.sequence) empty

/-- What the span id shows of the calls: the component of the first and the numbers of all. -/
def origin (calls : List ChildCall) : Option String × List UInt64 :=
  (calls.head?.map ChildCall.component, calls.map ChildCall.sequence)

variable {calls calls' : List ChildCall} {call call' : ChildCall}

theorem toList_toString (n : UInt64) : (toString n).toList = Nat.toDigits 10 n.toNat := Nat.toList_repr

theorem derive_concat (calls : List ChildCall) (call : ChildCall) :
    derive (calls ++ [call]) = childContext (derive calls) call.component call.sequence := by
  rw [derive, List.foldl_append]
  rfl

def rootId (kind : String) (call : ChildCall) : List Char :=
  (call.component ++ kind).toList ++ '-' :: Nat.toDigits 10 call.sequence.toNat

theorem rootId_ne_nil (kind : String) (call : ChildCall) (rest : List Char) : rootId kind call ++ rest ≠ [] := by
  simp [rootId]

theorem rootId_inj {kind : String} : rootId kind call = rootId kind call' ↔ call = call' := by
  have hcomponent : call.component ++ kind = call'.component ++ kind ↔ call.component = call'.component := by
    rw [← String.toList_inj, String.toList_append, String.toList_append, List.append_cancel_right_eq, String.toList_inj]
  rw [rootId, rootId, Numbered.append_toDigits_inj rfl rfl, String.toList_inj, hcomponent, UInt64.toNat_inj,
    eq_self_iff_true, true_and, ChildCall.mk.injEq]

theorem rooted_rootId (kind : String) (call : ChildCall) : Numbered.Rooted '.' (rootId kind call) :=
  Numbered.Rooted.numbered rfl (by decide) _ _

theorem spanId_derive (call : ChildCall) (calls : List ChildCall) : (derive (call :: calls)).spanId.toList =
    rootId "-span" call ++ Numbered.path '.' ((calls.map ChildCall.sequence).map UInt64.toNat) := by
  induction calls using List.reverseRecOn with
  | nil =>
    show (call.component ++ "-span-" ++ toString call.sequence).toList = _
    simp [rootId, Numbered.path, toList_toString]
  | append_singleton calls last ih =>
    have hne : (derive (call :: calls)).spanId ≠ "" := by
      intro h
      exact rootId_ne_nil "-span" call _ (ih.symm.trans (congrArg String.toList h))
    rw [← List.cons_append, derive_concat, childContext, if_neg hne, List.map_append, List.map_append, List.map_singleton,
      List.map_singleton, Numbered.path_concat, String.toList_append, String.toList_append, ih, toList_toString,
      List.append_assoc, List.append_assoc]
    rfl

theorem traceId_derive (call : ChildCall) (calls : List ChildCall) :
    (derive (call :: calls)).traceId.toList = rootId "-trace" call := by
  induction calls using List.reverseRecOn with
  | nil =>
    show (call.component ++ "-trace-" ++ toString call.sequence).toList = _
    simp [rootId, toList_toString]
  | append_singleton calls last ih =>
    have hne : (derive (call :: calls)).traceId ≠ "" := by
      intro h
      exact rootId_ne_nil "-trace" call [] (by rw [List.append_nil, ← ih, h]; rfl)
    rw [← List.cons_append, derive_concat, childContext, if_neg hne, ih]

/-! ### Ids and calls -/

theorem spanId_ne_empty (call : ChildCall) (calls : List ChildCall) : (derive (call :: calls)).spanId ≠ "" := fun h =>
  rootId_ne_nil "-span" call _ ((spanId_derive call calls).symm.trans (congrArg String.toList h))

theorem traceId_ne_empty (call : ChildCall) (calls : List ChildCall) : (derive (call :: calls)).traceId ≠ "" := fun h =>
  rootId_ne_nil "-trace" call [] (by rw [List.append_nil, ← traceId_derive call calls, h]; rfl)

theorem spanId_inj : (derive calls).spanId = (derive calls').spanId ↔ origin calls = origin calls' := by
  cases calls with
  | nil =>
    cases calls' with
    | nil => exact iff_of_true rfl rfl
    | cons call' calls' => exact iff_of_false (spanId_ne_empty call' calls').symm nofun
  | cons call calls =>
    cases calls' with
    | nil => exact iff_of_false (spanId_ne_empty call calls) nofun
    | cons call' calls' =>
      have hnumbers : Function.Injective (List.map UInt64.toNat) :=
        List.map_injective_iff.2 fun a b h => UInt64.toNat_inj.1 h
      rw [← String.toList_inj, spanId_derive, spanId_derive,
        Numbered.append_path_inj rfl (rooted_rootId _ call) (rooted_rootId _ call'), rootId_inj, hnumbers.eq_iff]
      obtain ⟨component, sequence⟩ := call
      obtain ⟨component', sequence'⟩ := call'
      simp [origin, and_assoc]

theorem traceId_inj : (derive calls).traceId = (derive calls').traceId ↔ calls.head? = calls'.head? := by
  cases calls with
  | nil =>
    cases calls' with
    | nil => exact iff_of_true rfl rfl
    | cons call' calls' => exact iff_of_false (traceId_ne_empty call' calls').symm nofun
  | cons call calls =>
    cases calls' with
    | nil => exact iff_of_false (traceId_ne_empty call calls) nofun
    | cons call' calls' =>
      rw [← String.toList_inj, traceId_derive, traceId_derive, rootId_inj, List.head?_cons, List.head?_cons,
        Option.some.injEq]

theorem parentSpanId_derive (calls : List ChildCall) : (derive calls).parentSpanId = (derive calls.dropLast).spanId := by
  rcases List.eq_nil_or_concat calls with rfl | ⟨calls, call, rfl⟩
  · rfl
  · rw [List.concat_eq_append, derive_concat, List.dropLast_concat]
    rfl

/-- Whatever the components are: two contexts have one span id exactly if their roots have one component and all
numbers agree, the parent's id is that of the context before, and the trace id tells the roots apart. -/
theorem derive_ids (calls calls' : List ChildCall) :
    ((derive calls).spanId = (derive calls').spanId ↔ origin calls = origin calls') ∧
    ((derive calls).parentSpanId = (derive calls').spanId ↔ origin calls.dropLast = origin calls') ∧
    ((derive calls).traceId = (derive calls').traceId ↔ calls.head? = calls'.head?) :=
  ⟨spanId_inj, by rw [parentSpanId_derive, spanId_inj], traceId_inj⟩

/-- Siblings of one number have one span id, though their components differ. -/
example : (derive [⟨"gateway", 1⟩, ⟨"risk", 7⟩]).spanId = (derive [⟨"gateway", 1⟩, ⟨"matching", 7⟩]).spanId := by decide +kernel

end TraceContext

end Exchange.Observability
