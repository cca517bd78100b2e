import Orchestration.Proofs.Catalog.Arguments
import Orchestration.Proofs.Plan.Bindings

/-!
# The type that gathers the parameters

Two parameters or more are gathered in a type that is named after the schema alone. The parameters of a
plan keep the printed types of arguments, and these have the innermost names that the signatures write.
So the new type has a name of its own exactly if no argument that is brought in, and no output, is
named so.
-/

namespace Orchestration

open TypeExpr

/-- Some member brings in a parameter whose type has the given innermost name. -/
def BringsType (d : Descriptor) (s : ResolvedSchema) (name : String) : Prop :=
  ∃ m ∈ s.members, ∃ op sig shape, (Catalog.ofDescriptor d).get? m.operation = some op ∧
    (broughtParam? m op).isSome = true ∧ (Registry.ofDescriptor d).resolve m.operation = some sig ∧
      sig.inputs = [.context, shape] ∧ shape.baseName = name

/-! ## The types of arguments -/

/-- The type of a parameter has the innermost name of the argument that it is brought in for. -/
theorem exists_shape_of_brought {d : Descriptor} {m : ResolvedMember} {op : OperationShape}
    {q : Param} (hop : (Catalog.ofDescriptor d).get? m.operation = some op)
    (hq : broughtParam? m op = some q) :
    ∃ sig shape, (Registry.ofDescriptor d).resolve m.operation = some sig ∧
      sig.inputs = [.context, shape] ∧
        (parse (Catalog.ofDescriptor d).types q.typeName).baseName = shape.baseName := by
  have hfault := fault_eq_none_of_brought hq
  obtain ⟨hargument, htype, -, -⟩ := argument_of_brought hq
  obtain ⟨sig, shape, denoted, hsig, hinputs, -, hbase, -, hparse⟩ :=
    Catalog.exists_shape_of_argument hop hfault hargument
  exact ⟨sig, shape, hsig, hinputs, by rw [htype, hparse, hbase]⟩

/-! ## Fresh names -/

variable {catalog : Catalog} {d : Descriptor} {s : ResolvedSchema} {scope : String} {p : Plan}

theorem outputTypeName_of_compile (h : s.compile catalog scope = .ok p) :
    p.outputTypeName = s.output.typeName := by
  obtain ⟨groups, st, -, rfl⟩ := compile_eq_ok_iff_groups.1 h
  rfl

/-- Parameters that are gathered are gathered in a type with the name of the schema in front. -/
theorem paramTypeName_of_wrapped (h : s.compile catalog scope = .ok p)
    (hwrapped : p.useParamStruct = true) : p.paramTypeName = s.name ++ "Params" := by
  have hwrap := wrapped_of_compile h
  rw [hwrapped] at hwrap
  match hentries : p.params.entries with
  | [] =>
    rw [wrapParams_of_none hentries] at hwrap
    cases hwrap
  | [entry] =>
    rw [wrapParams_of_one hentries] at hwrap
    cases hwrap
  | first :: second :: rest =>
    rw [wrapParams_of_more (by simp [hentries])] at hwrap
    exact congrArg (fun w => w.2.2) hwrap

/-- The innermost names among the parameters of a plan are those of the types brought in. -/
theorem exists_param_iff_bringsType (h : s.compile (.ofDescriptor d) scope = .ok p)
    (name : String) :
    (∃ q ∈ p.params.values, (parse (Catalog.ofDescriptor d).types q.typeName).baseName = name) ↔
      BringsType d s name := by
  constructor
  · rintro ⟨q, hq, rfl⟩
    obtain ⟨m, hm, op, hop, hbrought⟩ := exists_brought_of_mem_params h hq
    obtain ⟨sig, shape, hsig, hinputs, hbase⟩ := exists_shape_of_brought hop hbrought
    exact ⟨m, hm, op, sig, shape, hop, Option.isSome_of_eq_some hbrought, hsig, hinputs, hbase.symm⟩
  · rintro ⟨m, hm, op, sig, shape, hop, hsome, hsig, hinputs, rfl⟩
    obtain ⟨q, hbrought⟩ := Option.isSome_iff_exists.1 hsome
    obtain ⟨e, he, htype⟩ :=
      exists_entry_of_brought h (Compile.mem_broughtParams.2 ⟨m, hm, op, hop, hbrought⟩)
    obtain ⟨sig', shape', hsig', hinputs', hbase⟩ := exists_shape_of_brought hop hbrought
    obtain rfl : sig' = sig := Option.some.inj (hsig'.symm.trans hsig)
    obtain rfl : shape' = shape := by simpa using hinputs'.symm.trans hinputs
    exact ⟨e, List.mem_map.2 ⟨_, Table.mem_entries_iff_get?.2 he, rfl⟩, by rw [htype, hbase]⟩

/-- **The type that gathers the parameters has a name of its own exactly if no type that is brought in,
and no output, is named so.** The name is made from the name of the schema alone, and nothing keeps it
apart from the types of the catalog. -/
theorem wrapper_fresh_iff (h : s.compile (.ofDescriptor d) scope = .ok p)
    (hwrapped : p.useParamStruct = true) :
    ((∀ q ∈ p.params.values,
        p.paramTypeName ≠ (parse (Catalog.ofDescriptor d).types q.typeName).baseName) ∧
      p.paramTypeName ≠ p.outputTypeName) ↔
      ¬ BringsType d s (s.name ++ "Params") ∧ s.output.typeName ≠ s.name ++ "Params" := by
  rw [paramTypeName_of_wrapped h hwrapped, outputTypeName_of_compile h,
    ← exists_param_iff_bringsType h]
  push Not
  exact and_congr (forall₂_congr fun q _ => ne_comm) ne_comm

/-- Users, and a search for posts with a composite as its argument. -/
def searchDescriptor : Descriptor :=
  { scope := "db"
    types := Table.ofList
      [("User", Table.ofList [("id", "i64")]), ("Post", Table.ofList [("id", "i64")]),
       ("PostsParams", Table.ofList [("limit", "i64")])]
    operations := Table.ofList
      [("GetUser", ⟨["Context", "i64"], ["User", "Error"]⟩),
       ("GetPosts", ⟨["Context", "&PostsParams"], ["[Post]", "Error"]⟩)] }

/-- A user with some posts, under the given name. -/
def searchSchema (name : String) : ResolvedSchema :=
  { name := name
    output := ⟨"Page", false, Table.ofList [("user", "User"), ("posts", "[Post]")]⟩
    groups := [⟨false, [⟨"GetUser", none, none, none, .bind⟩, ⟨"GetPosts", none, none, none, .bind⟩]⟩]
    outFile := "page" }

theorem wrapper_fresh_iff_search :
    ∃ p, (searchSchema "GetPage").compile (.ofDescriptor searchDescriptor) "db" = .ok p ∧
      p.useParamStruct = true ∧ p.paramTypeName = "GetPageParams" ∧
        ¬ BringsType searchDescriptor (searchSchema "GetPage") "GetPageParams" ∧
          ∀ q ∈ p.params.values, p.paramTypeName ≠
            (parse (Catalog.ofDescriptor searchDescriptor).types q.typeName).baseName := by
  have hplan : ∃ p, (searchSchema "GetPage").compile (.ofDescriptor searchDescriptor) "db" = .ok p ∧
      p.useParamStruct = true ∧ p.paramTypeName = "GetPageParams" ∧
        (∀ q ∈ p.params.values, p.paramTypeName ≠
          (parse (Catalog.ofDescriptor searchDescriptor).types q.typeName).baseName) ∧
        p.paramTypeName ≠ p.outputTypeName :=
    exists_plan_of_any (by decide +kernel)
  obtain ⟨p, hp, hwrapped, hname, hfresh⟩ := hplan
  exact ⟨p, hp, hwrapped, hname, ((wrapper_fresh_iff hp hwrapped).1 hfresh).1, hfresh.1⟩

/-- The type that gathers the parameters can have the name of a type among them. -/
theorem wrapper_hides_argument :
    ∃ p, (searchSchema "Posts").compile (.ofDescriptor searchDescriptor) "db" = .ok p ∧
      p.useParamStruct = true ∧ ∃ q ∈ p.params.values, q.fieldName = "posts_params" ∧
        p.paramTypeName =
          (parse (Catalog.ofDescriptor searchDescriptor).types q.typeName).baseName :=
  exists_plan_of_any (by decide +kernel)

end Orchestration
