import Orchestration.Proofs.Plan.Walk

/-!
# Parameters and bindings of a plan

The parameters of a plan stand under their own names, in the order in which members first bring them
in. What a member was bound to during the walk is still there at the end: later members only add
parameters, and they bring in one that is there with the same type. How many parameters there are
decides what the new operation takes, and with it how the expression of every argument starts.
-/

namespace Orchestration

open Compile

variable {catalog : Catalog} {s : ResolvedSchema} {scope : String} {p : Plan} {m : ResolvedMember}
  {op : OperationShape} {before after : List ResolvedMember} {k : String} {e : Param}

/-! ## Statements -/

/-- Where an operation's argument may be taken from, given the parameters of the plan and the members
before the one that calls the operation. -/
inductive TakesFrom (catalog : Catalog) (params : Table Param) (before : List ResolvedMember)
    (op : OperationShape) : Binding → Prop where
  /-- An operation without an argument needs no parameter. -/
  | none (noArgument : op.argument = .none) : TakesFrom catalog params before op .none
  /-- The argument is a parameter of its type. -/
  | field {name : String} {e : Param} (hasArgument : op.argument ≠ .none)
      (entry : params.get? name = some e) (sameType : e.typeName = op.argument.typeName) :
      TakesFrom catalog params before op (.field name)
  /-- The argument is reached from a parameter that an earlier member brought in. -/
  | shared {root : String} {path : List String} {e : Param} (hasArgument : op.argument ≠ .none)
      (earlier : ∃ q ∈ broughtParams catalog before, q.fieldName = root)
      (entry : params.get? root = some e)
      (leads : ∀ field rest, path = field :: rest → e.composite = true ∧ field ∈ e.fields.keys) :
      TakesFrom catalog params before op (.shared root path)

/-- The parameter that a binding starts at. -/
def Binding.root? : Binding → Option String
  | none => Option.none
  | field name => some name
  | shared root _ => some root

/-- The fields that a binding goes on to. -/
def Binding.path : Binding → List String
  | shared _ path => path
  | _ => []

/-- The fields of a path, each with a dot before it. -/
def dotted (path : List String) : String :=
  path.foldr (fun field rest => "." ++ field ++ rest) ""

/-- How the parameters of a plan and the bindings of its members fit together. -/
structure WellBound (catalog : Catalog) (s : ResolvedSchema) (p : Plan) : Prop where
  /-- No name is there twice. -/
  keysDistinct : p.params.keys.Nodup
  /-- Every parameter stands under its own name. -/
  keyed : ∀ k e, p.params.get? k = some e → e.fieldName = k
  /-- No parameter has a reserved name. -/
  unreserved : ∀ k ∈ p.params.keys, Naming.isReserved k = false
  /-- The names stand in the order in which members first bring them in. -/
  inOrder : p.params.keys = ((broughtParams catalog s.members).map Param.fieldName).eraseDups
  /-- The plan has a member for each one of the schema. -/
  sameLength : p.members.length = s.members.length
  /-- Each of them takes its argument from the parameters. -/
  bound : ∀ before m after, s.members = before ++ m :: after →
    ∃ op pm, catalog.get? m.operation = some op ∧ p.members[before.length]? = some pm ∧
      pm.operation = m.operation ∧ TakesFrom catalog p.params before op pm.binding
  /-- Every parameter is the whole argument of some member. -/
  used : ∀ k ∈ p.params.keys, ∃ pm ∈ p.members, pm.binding = .field k
  /-- Without parameters the new operation takes none. -/
  takesNone : p.params.entries = [] →
    p.useParamStruct = false ∧ p.paramName = "" ∧ p.paramTypeName = ""
  /-- The only parameter is taken as it is. -/
  takesOne : ∀ k e, p.params.entries = [(k, e)] →
    p.useParamStruct = false ∧ p.paramName = k ∧ p.paramTypeName = e.typeName
  /-- Several parameters are gathered in a type named after the schema. -/
  takesStruct : 1 < p.params.entries.length →
    p.useParamStruct = true ∧ p.paramName = "params" ∧ p.paramTypeName = s.name ++ "Params"
  /-- The expression of an argument starts at what the new operation takes: at the only parameter, or
  at a field of the type that gathers them. -/
  rooted : ∀ pm ∈ p.members, ∀ k, pm.binding.root? = some k → k ∈ p.params.keys ∧
    ((p.params.entries.length = 1 ∧ k = p.paramName ∧
        p.bindingExpr pm.binding = some (p.paramName ++ dotted pm.binding.path)) ∨
      (1 < p.params.entries.length ∧
        p.bindingExpr pm.binding = some (p.paramName ++ "." ++ k ++ dotted pm.binding.path)))

/-! ## Parameters -/

theorem get?_collected_append {ps : List Param} (qs : List Param)
    (h : (collected ps).get? k = some e) : (collected (ps ++ qs)).get? k = some e := by
  rw [get?_collected] at h ⊢
  rw [List.find?_append, h, Option.some_or]

/-- Every parameter of a plan stands under its own name. -/
theorem fieldName_of_get?_params (h : s.compile catalog scope = .ok p)
    (he : p.params.get? k = some e) : e.fieldName = k := by
  rw [params_of_compile h] at he
  exact (mem_of_get?_collected he).2

/-- Every parameter of a plan is brought in by a member. -/
theorem exists_brought_of_mem_params (h : s.compile catalog scope = .ok p) {q : Param}
    (hq : q ∈ p.params.values) :
    ∃ m ∈ s.members, ∃ op, catalog.get? m.operation = some op ∧ broughtParam? m op = some q := by
  obtain ⟨⟨k, q⟩, hentry, rfl⟩ := List.mem_map.1 hq
  have hget := Table.mem_entries_iff_get?.1 hentry
  rw [params_of_compile h] at hget
  exact mem_broughtParams.1 (mem_of_get?_collected hget).1

/-- Every parameter that is brought in has an entry of its type at the end. -/
theorem exists_entry_of_brought (h : s.compile catalog scope = .ok p) {q : Param}
    (hq : q ∈ broughtParams catalog s.members) :
    ∃ e, p.params.get? q.fieldName = some e ∧ e.typeName = q.typeName := by
  obtain ⟨e, he⟩ := Table.mem_keys_iff.1 (mem_keys_collected.2 ⟨q, hq, rfl⟩)
  refine ⟨e, ?_, (walk_of_compile h).typeName_eq rfl hq he⟩
  rw [params_of_compile h]
  exact he

/-! ## Members -/

/-- What a member is bound to when it is compiled suits the parameters at the end. -/
theorem takesFrom_memberBinding (h : s.compile catalog scope = .ok p)
    (hs : s.members = before ++ m :: after) (hop : catalog.get? m.operation = some op)
    (hadm : Admits ((start catalog s).after catalog before) m op) :
    TakesFrom catalog p.params before op (memberBinding m op) := by
  rcases memberBinding_cases (m := m) hadm.analyzable with
    ⟨hnone, hbinding, -⟩ | ⟨htakes, q, hbrought, hbinding, htype⟩ |
      ⟨htakes, -, path, hpath, hbinding⟩
  · rw [hbinding]
    exact TakesFrom.none hnone
  · have hq : q ∈ broughtParams catalog s.members :=
      mem_broughtParams.2 ⟨m, by rw [hs]; simp, op, hop, hbrought⟩
    obtain ⟨e, he, hsame⟩ := exists_entry_of_brought h hq
    rw [hbinding]
    exact TakesFrom.field htakes he (hsame.trans htype)
  · obtain ⟨root, hroot, hleads⟩ := hadm.bindable.pathBound path hpath
    have hcollected : (collected (broughtParams catalog before)).get? path.root = some root := hroot
    have hearlier : ∃ q ∈ broughtParams catalog before, q.fieldName = path.root :=
      mem_keys_collected.1 (Table.mem_keys_iff.2 ⟨root, hcollected⟩)
    have hentry : p.params.get? path.root = some root := by
      rw [params_of_compile h, hs, broughtParams_append]
      exact get?_collected_append _ hcollected
    rw [hbinding]
    exact TakesFrom.shared htakes hearlier hentry hleads

/-- The member of the plan at the place of a member of the schema. -/
theorem exists_bound_member (h : s.compile catalog scope = .ok p)
    (hs : s.members = before ++ m :: after) :
    ∃ op pm, catalog.get? m.operation = some op ∧ p.members[before.length]? = some pm ∧
      pm.operation = m.operation ∧ TakesFrom catalog p.params before op pm.binding := by
  have hwalk := walk_of_compile h
  rw [hs] at hwalk
  obtain ⟨op, pms₁, pms₂, hop, hadm, hlen, hpms⟩ := hwalk.at
  refine ⟨op, planMember ((start catalog s).after catalog before).names m op, hop, ?_, rfl,
    takesFrom_memberBinding h hs hop hadm⟩
  rw [hpms, ← hlen, List.getElem?_append_right (Nat.le_refl _), Nat.sub_self]
  rfl

theorem TakesFrom.root_mem {params : Table Param} {b : Binding}
    (h : TakesFrom catalog params before op b) (hroot : b.root? = some k) : k ∈ params.keys := by
  cases h with
  | none => cases hroot
  | field _ entry =>
    cases hroot
    exact Table.mem_keys_iff.2 ⟨_, entry⟩
  | shared _ _ entry =>
    cases hroot
    exact Table.mem_keys_iff.2 ⟨_, entry⟩

theorem root_mem_keys (h : s.compile catalog scope = .ok p) {pm : PlanMember}
    (hpm : pm ∈ p.members) (hroot : pm.binding.root? = some k) : k ∈ p.params.keys := by
  obtain ⟨before, m, after, op, hs, hop, hadm, rfl⟩ := (walk_of_compile h).exists_of_mem hpm
  exact (takesFrom_memberBinding h hs hop hadm).root_mem hroot

theorem exists_field_binding (h : s.compile catalog scope = .ok p) (hk : k ∈ p.params.keys) :
    ∃ pm ∈ p.members, pm.binding = .field k := by
  rw [params_of_compile h] at hk
  obtain ⟨q, hq, rfl⟩ := mem_keys_collected.1 hk
  obtain ⟨_, _, _, _, -, hbrought, -, hmem⟩ := (walk_of_compile h).exists_of_brought hq
  exact ⟨_, hmem, memberBinding_of_brought hbrought⟩

/-! ## What the new operation takes -/

theorem wrapped_of_compile (h : s.compile catalog scope = .ok p) :
    (p.useParamStruct, p.paramName, p.paramTypeName) = wrapParams s.name p.params := by
  obtain ⟨groups, st, -, rfl⟩ := compile_eq_ok_iff_groups.1 h
  rfl

theorem dotted_cons (field : String) (rest : List String) :
    dotted (field :: rest) = "." ++ field ++ dotted rest := rfl

theorem foldl_dotted (path : List String) (start : String) :
    path.foldl (fun expr field => expr ++ "." ++ field) start = start ++ dotted path := by
  induction path generalizing start with
  | nil => simp [dotted]
  | cons field rest ih =>
    rw [List.foldl_cons, ih, dotted_cons]
    simp only [String.append_assoc]

/-- The expression of an argument, from the parameter that it starts at. -/
theorem bindingExpr_eq {b : Binding} (hroot : b.root? = some k) :
    p.bindingExpr b =
      some ((if p.useParamStruct then p.paramName ++ "." else "") ++ k ++ dotted b.path) := by
  cases b with
  | none => cases hroot
  | field name =>
    cases hroot
    simp [Plan.bindingExpr, Binding.path, dotted]
  | shared root path =>
    cases hroot
    simp [Plan.bindingExpr, Binding.path, foldl_dotted]

theorem wrapParams_of_none {name : String} {params : Table Param} (h : params.entries = []) :
    wrapParams name params = (false, "", "") := by
  simp only [wrapParams, Table.values, h, List.map_nil]

theorem wrapParams_of_one {name : String} {params : Table Param} (h : params.entries = [(k, e)]) :
    wrapParams name params = (false, e.fieldName, e.typeName) := by
  simp only [wrapParams, Table.values, h, List.map_cons, List.map_nil]

theorem wrapParams_of_more {name : String} {params : Table Param}
    (h : 1 < params.entries.length) :
    wrapParams name params = (true, "params", name ++ "Params") := by
  obtain ⟨x, y, rest, he⟩ : ∃ x y rest, params.entries = x :: y :: rest := by
    match hentries : params.entries with
    | [] => simp [hentries] at h
    | [_] => simp [hentries] at h
    | x :: y :: rest => exact ⟨x, y, rest, rfl⟩
  simp only [wrapParams, Table.values, he, List.map_cons, paramStructName]

theorem bindingExpr_rooted (h : s.compile catalog scope = .ok p) {b : Binding}
    (hroot : b.root? = some k) (hk : k ∈ p.params.keys) :
    (p.params.entries.length = 1 ∧ k = p.paramName ∧
        p.bindingExpr b = some (p.paramName ++ dotted b.path)) ∨
      (1 < p.params.entries.length ∧
        p.bindingExpr b = some (p.paramName ++ "." ++ k ++ dotted b.path)) := by
  have hwrap := wrapped_of_compile h
  have hexpr := bindingExpr_eq (p := p) hroot
  obtain ⟨e, he⟩ := Table.mem_keys_iff.1 hk
  have hentry := Table.mem_entries_iff_get?.2 he
  have hpos : 0 < p.params.entries.length := List.length_pos_of_mem hentry
  by_cases hone : p.params.entries.length = 1
  · obtain ⟨x, hx⟩ := List.length_eq_one_iff.1 hone
    rw [hx, List.mem_singleton] at hentry
    rw [wrapParams_of_one (hx.trans (by rw [← hentry]))] at hwrap
    obtain ⟨huse, hname, -⟩ := by simpa only [Prod.mk.injEq] using hwrap
    have hname : k = p.paramName := by rw [hname, fieldName_of_get?_params h he]
    refine Or.inl ⟨hone, hname, ?_⟩
    rw [hexpr, huse, ← hname]
    simp
  · have hmore : 1 < p.params.entries.length := by omega
    rw [wrapParams_of_more hmore] at hwrap
    obtain ⟨huse, -, -⟩ := by simpa only [Prod.mk.injEq] using hwrap
    refine Or.inr ⟨hmore, ?_⟩
    rw [hexpr, huse, if_pos rfl]

/-- **The parameters and bindings of every plan fit together.** -/
theorem wellBound_of_compile (h : s.compile catalog scope = .ok p) : WellBound catalog s p := by
  have hparams := params_of_compile h
  have hwalk := walk_of_compile h
  have hwrap := wrapped_of_compile h
  refine
    { keysDistinct := p.params.nodup_keys
      keyed := fun k e he => fieldName_of_get?_params h he
      unreserved := ?_
      inOrder := by rw [hparams, keys_collected]
      sameLength := hwalk.length_eq
      bound := fun before m after hs => exists_bound_member h hs
      used := fun k hk => exists_field_binding h hk
      takesNone := ?_
      takesOne := ?_
      takesStruct := ?_
      rooted := ?_ }
  · intro k hk
    rw [hparams] at hk
    obtain ⟨q, hq, rfl⟩ := mem_keys_collected.1 hk
    exact hwalk.fieldName_not_reserved hq
  · intro hnone
    rw [wrapParams_of_none hnone] at hwrap
    simpa only [Prod.mk.injEq] using hwrap
  · intro k e hone
    have hentry : (k, e) ∈ p.params.entries := by
      rw [hone]
      exact List.mem_singleton_self _
    have hname := fieldName_of_get?_params h (Table.mem_entries_iff_get?.1 hentry)
    rw [wrapParams_of_one hone, hname] at hwrap
    simpa only [Prod.mk.injEq] using hwrap
  · intro hmore
    rw [wrapParams_of_more hmore] at hwrap
    simpa only [Prod.mk.injEq] using hwrap
  · intro pm hpm k hroot
    have hk := root_mem_keys h hpm hroot
    exact ⟨hk, bindingExpr_rooted h hroot hk⟩

theorem wellBound_of_compile_report :
    ∃ p, reportSchema.compile reportCatalog "db" = .ok p ∧ WellBound reportCatalog reportSchema p := by
  obtain ⟨p, h⟩ := reportSchema_compiles
  exact ⟨p, h, wellBound_of_compile h⟩

end Orchestration
