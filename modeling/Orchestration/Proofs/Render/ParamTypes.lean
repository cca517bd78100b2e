import Orchestration.Proofs.Catalog.Arguments
import Orchestration.Proofs.Plan.Bindings
import Orchestration.Proofs.TypeExpr.Owned
import Orchestration.Render.MultiQuery

/-!
# Types of parameters in generated code

Parameters that are gathered stand in lines of their own, a parameter that is alone stands in the head
of the method. Either way the text gives it the owned type of the shape that its argument has, in which
nothing is left of how shapes are printed.
-/

namespace Orchestration.Render.MultiQuery

open TypeExpr

variable {d : Descriptor} {catalog : Catalog} {s : ResolvedSchema} {scope : String} {p : Plan}
  {q : Param} {frame : Frame}

/-! ## Statements -/

/-- The text gives a parameter of the plan the type. A parameter that is alone and has no name does not
occur in the text. -/
structure GivesType (p : Plan) (frame : Frame) (q : Param) (type : String) : Prop where
  /-- In a line of the type that gathers the parameters. -/
  gathered : p.useParamStruct = true → "    pub " ++ q.fieldName ++ ": " ++ type ++ "," ∈ lines p frame
  /-- In the head of the method. -/
  alone : p.useParamStruct = false → q.fieldName ≠ "" →
    "    pub async fn " ++ Naming.snakeCase p.name ++ "(&self, cx: &Cancellation" ++
      (", " ++ q.fieldName ++ ": " ++ type) ++ ") -> Result<" ++ outputType p ++
        ", AggregateError> \x7b" ∈ lines p frame

/-! ## Lines of the text -/

theorem mem_lines_of_paramStruct {line : String} (h : line ∈ paramStruct p frame) :
    line ∈ lines p frame := by
  simp [lines, h]

theorem mem_lines_of_opening {line : String} (h : line ∈ opening p frame) : line ∈ lines p frame := by
  simp [lines, h]

/-- Without a type that gathers them, there is no parameter but one, and the method takes it. -/
theorem parameter_of_alone (h : s.compile catalog scope = .ok p) (hq : q ∈ p.params.values)
    (halone : p.useParamStruct = false) (hname : q.fieldName ≠ "") :
    parameter p = ", " ++ q.fieldName ++ ": " ++ owned q.typeName := by
  have hwrap := wrapped_of_compile h
  unfold Table.values at hq
  match hentries : p.params.entries with
  | [] =>
    rw [hentries] at hq
    cases hq
  | [(k, only)] =>
    rw [hentries, List.map_singleton, List.mem_singleton] at hq
    subst hq
    rw [wrapParams_of_one hentries, Prod.mk.injEq, Prod.mk.injEq] at hwrap
    obtain ⟨-, hparam, htype⟩ := hwrap
    rw [parameter, hparam, if_neg hname, halone, if_neg Bool.false_ne_true, htype]
  | first :: second :: rest =>
    rw [wrapParams_of_more (by simp [hentries]), halone] at hwrap
    cases hwrap

theorem givesType_owned (h : s.compile catalog scope = .ok p) (hq : q ∈ p.params.values) :
    GivesType p frame q (owned q.typeName) where
  gathered hgathered := by
    refine mem_lines_of_paramStruct ?_
    rw [paramStruct, if_pos hgathered]
    exact List.mem_append_left _ (List.mem_append_right _ (List.mem_map.2 ⟨q, hq, rfl⟩))
  alone halone hname := by
    refine mem_lines_of_opening ?_
    rw [opening, parameter_of_alone h hq halone hname]
    simp

/-! ## Shapes of parameters -/

/-- The type of a parameter is the printed form of what it denotes. -/
theorem exists_shape_of_param (h : s.compile (.ofDescriptor d) scope = .ok p)
    (hq : q ∈ p.params.values) :
    (∀ text, parse (Catalog.ofDescriptor d).types q.typeName ≠ .unknown text) ∧
      (parse (Catalog.ofDescriptor d).types q.typeName).display = q.typeName := by
  obtain ⟨m, -, op, hop, hbrought⟩ := exists_brought_of_mem_params h hq
  obtain ⟨hargument, htype, -, -⟩ := argument_of_brought hbrought
  obtain ⟨_, _, denoted, -, -, hknown, -, hshape, hparse⟩ :=
    Catalog.exists_shape_of_argument hop (fault_eq_none_of_brought hbrought) hargument
  rw [htype, hparse]
  constructor
  · rintro text rfl
    exact hknown
  · rw [hshape, TypeShape.typeName_asArgument]

/-- **Printed types become the owned types of their shapes.** This holds of every expression that denotes
something. So the text of a plan gives each parameter the owned type of its shape, and no mark of a
reference or of a collection is left in it. -/
theorem owned_of_display (d : Descriptor) (expr : String) :
    ((∀ text, parse (Catalog.ofDescriptor d).types expr ≠ .unknown text) →
        owned (parse (Catalog.ofDescriptor d).types expr).display =
          (parse (Catalog.ofDescriptor d).types expr).ownedType) ∧
      ∀ (s : ResolvedSchema) (scope : String) (p : Plan),
        s.compile (.ofDescriptor d) scope = .ok p → ∀ frame, ∀ q ∈ p.params.values,
          GivesType p frame q (parse (Catalog.ofDescriptor d).types q.typeName).ownedType ∧
            Unmarked (parse (Catalog.ofDescriptor d).types q.typeName).ownedType := by
  refine ⟨owned_display, fun s scope p h frame q hq => ?_⟩
  obtain ⟨hknown, hdisplay⟩ := exists_shape_of_param h hq
  refine ⟨?_, unmarked_ownedType hknown⟩
  have howned := owned_display hknown
  rw [hdisplay] at howned
  rw [← howned]
  exact givesType_owned h hq

/-- Users that are found by names and stored. -/
def userDescriptor : Descriptor :=
  { scope := "db"
    types := Table.ofList [("User", Table.ofList [("id", "i64")])]
    operations := Table.ofList
      [("FindUsers", ⟨["Context", " Vec< Option<&str> > "], ["[User]", "Error"]⟩),
       ("SaveUser", ⟨["Context", "&User"], ["Error"]⟩)] }

/-- A schema that finds users and stores one. -/
def userSchema : ResolvedSchema :=
  { name := "Refresh"
    output := ⟨"Page", false, Table.ofList [("users", "[User]")]⟩
    groups := [⟨false, [⟨"FindUsers", none, none, none, .bind⟩]⟩,
      ⟨false, [⟨"SaveUser", none, none, none, .bind⟩]⟩]
    outFile := "refresh" }

theorem owned_of_display_users :
    let types := (Catalog.ofDescriptor userDescriptor).types
    let expr := " Vec< Option<&str> > "
    (∀ text, parse types expr ≠ .unknown text) ∧ owned "[&&str]" = "Vec<String>" ∧
      ∃ p, userSchema.compile (.ofDescriptor userDescriptor) "db" = .ok p ∧
        ∀ frame, "    pub find_users_arg: Vec<String>," ∈ lines p frame := by
  intro types expr
  have hshape : parse types expr = .list (.ref (.ref (.scalar "str"))) := by decide +kernel
  have hknown : ∀ text, parse types expr ≠ .unknown text := by
    rw [hshape]
    exact nofun
  have hprinted : parse types "[&&str]" = .list (.ref (.ref (.scalar "str"))) := by decide +kernel
  obtain ⟨hdisplay, htypes⟩ := owned_of_display userDescriptor expr
  have howned := hdisplay hknown
  rw [hshape] at howned
  obtain ⟨p, hp, hgathered, hparam⟩ :
      ∃ p, userSchema.compile (.ofDescriptor userDescriptor) "db" = .ok p ∧
        p.useParamStruct = true ∧
          ⟨"find_users_arg", "[&&str]", Table.ofList [("", "[&&str]")], false⟩ ∈ p.params.values :=
    exists_plan_of_any (by decide +kernel)
  refine ⟨hknown, howned, p, hp, fun frame => ?_⟩
  have hline := (htypes userSchema "db" p hp frame _ hparam).1.gathered hgathered
  rw [hprinted] at hline
  exact hline

end Orchestration.Render.MultiQuery
