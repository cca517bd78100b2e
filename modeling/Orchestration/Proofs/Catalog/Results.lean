import Orchestration.Proofs.Catalog.Agreement
import Orchestration.Proofs.TypeExpr.Surface

/-!
# Names of result types

A catalog keeps the innermost name of an operation's result, which it finds in the shape of the first
output. The fields of an output are kept as text, and theirs is read off the text. The two ways give
one name for one expression.
-/

namespace Orchestration

/-! ## Results of signatures -/

namespace OperationShape

variable {outputs : List TypeShape} {result : ResultShape} {name : String} {s : Signature}

theorem formOf_inside (shape : TypeShape) :
    (formOf shape).2.innermost = shape.innermost ∧ (formOf shape).2.baseName = shape.baseName := by
  unfold formOf
  split <;> exact ⟨rfl, rfl⟩

/-- A result that can be used is the first of several outputs, and has its innermost name. What is
innermost is a composite or a plain value. -/
theorem exists_first_of_resultOf (h : resultOf outputs = (result, none))
    (hvalue : result.isErrorOnly = false) :
    ∃ first rest, outputs = first :: rest ∧ result.typeName = first.baseName ∧
      ((∃ name fields, first.innermost = .struct name fields) ∨
        ∃ name, first.innermost = .scalar name) := by
  match outputs, h with
  | [], h => cases h
  | [_], h =>
    cases h
    cases hvalue
  | first :: second :: rest, h =>
    refine ⟨first, second :: rest, rfl, ?_⟩
    obtain ⟨hinnermost, hbase⟩ := formOf_inside first
    rw [← hinnermost, ← hbase]
    unfold resultOf at h
    dsimp only at h
    split at h
    · next name fields htarget =>
      cases h
      rw [htarget]
      exact ⟨rfl, Or.inl ⟨name, fields, rfl⟩⟩
    · next name htarget =>
      cases h
      rw [htarget]
      exact ⟨rfl, Or.inr ⟨name, rfl⟩⟩
    · cases h

theorem resultOf_of_ofSignature (h : (ofSignature name s).fault = none) :
    resultOf s.outputs = ((ofSignature name s).result, none) := by
  unfold ofSignature at h ⊢
  split at h
  · cases h
  · next hresult =>
    rw [hresult]
    split at h
    · cases h
    · rfl

end OperationShape

open TypeExpr

/-- The type of a result that can be used is named by the text of the first output. -/
theorem Catalog.typeName_of_get? {d : Descriptor} {name expr : String} {entry : OperationEntry}
    {rest : List String} {op : OperationShape} (hentry : d.operations.get? name = some entry)
    (houtputs : entry.outputs = expr :: rest) (hop : (ofDescriptor d).get? name = some op)
    (hfault : op.fault = none) (hvalue : op.result.isErrorOnly = false) :
    op.result.typeName = bareName expr := by
  unfold ofDescriptor at hop
  rw [get?_ofRegistry, Registry.resolve_ofDescriptor, hentry] at hop
  split at hop
  · cases hop
  obtain rfl := Option.some.inj hop
  obtain ⟨first, others, hfirst, hname, hinside⟩ :=
    OperationShape.exists_first_of_resultOf (OperationShape.resultOf_of_ofSignature hfault) hvalue
  dsimp only at hfirst
  rw [houtputs, List.map_cons] at hfirst
  obtain ⟨rfl, -⟩ := List.cons.inj hfirst
  rw [hname]
  have hknown : ∀ text, parse (Registry.typesOf d.types) expr ≠ .unknown text := by
    intro text hunknown
    rw [hunknown] at hinside
    rcases hinside with ⟨_, _, h⟩ | ⟨_, h⟩ <;> cases h
  refine (bareName_of_known hknown ?_ ?_).symm
  · intro hcontext
    rw [hcontext] at hinside
    rcases hinside with ⟨_, _, h⟩ | ⟨_, h⟩ <;> cases h
  · intro herror
    rw [herror] at hinside
    rcases hinside with ⟨_, _, h⟩ | ⟨_, h⟩ <;> cases h

/-- **The innermost name of a text is that of the shape it denotes.** It is found on every text, in no
more rounds than the text has characters. If the text denotes something other than the context or the
error slot at the innermost, it is the innermost name of the shape; so it is the name that the catalog
keeps for the result of an operation whose first output is written so. -/
theorem bareName_agrees (d : Descriptor) (expr : String) :
    (∃ rounds ≤ expr.toList.length, ∀ n core,
        Unwraps n expr.toList core ↔ n = rounds ∧ core = (bareName expr).toList) ∧
      ((∀ text, parse (Catalog.ofDescriptor d).types expr ≠ .unknown text) →
        (parse (Catalog.ofDescriptor d).types expr).innermost ≠ .context →
        (parse (Catalog.ofDescriptor d).types expr).innermost ≠ .error →
          bareName expr = (parse (Catalog.ofDescriptor d).types expr).baseName) ∧
      ∀ name entry rest op, d.operations.get? name = some entry → entry.outputs = expr :: rest →
        (Catalog.ofDescriptor d).get? name = some op → op.fault = none →
          op.result.isErrorOnly = false → op.result.typeName = bareName expr := by
  refine ⟨?_, bareName_of_known, fun _ _ _ _ => Catalog.typeName_of_get?⟩
  obtain ⟨rounds, hle, hrounds⟩ := exists_unwraps expr.toList
  refine ⟨rounds, hle, fun n core => ?_⟩
  rw [bareName, String.toList_ofList]
  constructor
  · exact fun h => h.unique hrounds
  · rintro ⟨rfl, rfl⟩
    exact hrounds

/-- A descriptor of posts, with an operation that lists them. -/
def postDescriptor : Descriptor :=
  { scope := "db"
    types := Table.ofList [("Post", Table.ofList [("id", "i64")])]
    operations := Table.ofList [("ListPosts", ⟨["ctx"], [" Vec<\u3000& Post > ", "error"]⟩)] }

theorem bareName_agrees_posts :
    let c := Catalog.ofDescriptor postDescriptor
    let expr := " Vec<\u3000& Post > "
    let post := Table.ofList [("id", "i64")]
    parse c.types expr = .list (.ref (.struct "Post" post)) ∧
      bareName expr = (parse c.types expr).baseName ∧
      c.get? "ListPosts" = some ⟨"ListPosts", .none, .value .collection "Post" post, none⟩ ∧
      "Post" = bareName expr ∧ ∃ rounds ≤ expr.toList.length, ∀ n core,
        Unwraps n expr.toList core ↔ n = rounds ∧ core = "Post".toList := by
  intro c expr post
  have hshape : parse c.types expr = .list (.ref (.struct "Post" post)) := by decide +kernel
  have hop : c.get? "ListPosts" = some ⟨"ListPosts", .none, .value .collection "Post" post, none⟩ := by
    decide +kernel
  obtain ⟨hends, hbase, hresult⟩ := bareName_agrees postDescriptor expr
  have hname : "Post" = bareName expr :=
    hresult "ListPosts" ⟨["ctx"], [expr, "error"]⟩ ["error"] _ (by decide +kernel) rfl hop rfl rfl
  rw [← hname] at hends
  exact ⟨hshape, hbase (by rw [hshape]; nofun) (by rw [hshape]; nofun) (by rw [hshape]; nofun), hop,
    hname, hends⟩

end Orchestration
