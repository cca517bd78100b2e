import Orchestration.Plan.Params
import Orchestration.Proofs.Except
import Orchestration.Proofs.Naming.Identifier
import Orchestration.Proofs.Table
import Mathlib.Data.List.Induction
import Mathlib.Tactic.MkIffOfInductiveProp

/-!
# What members bring in

A member brings in at most one parameter, under a name that only the member and its operation decide.
Binding succeeds exactly if an explicit name is not reserved, a parameter of that name is not there
with another type, and a shared path starts at a parameter that is there. Collecting parameters keeps
the first of each name.
-/

namespace Orchestration

open PlanError (Cause)

/-! ## What a member asks for -/

/-- The name given to a plain argument. -/
def givenParamName? (m : ResolvedMember) (op : OperationShape) : Option String :=
  match op.argument with
  | .plain _ => m.paramName
  | _ => none

/-- The path that a member shares along: only a plain argument without a name of its own is shared. -/
def sharedPath? (m : ResolvedMember) (op : OperationShape) : Option ParamPath :=
  match op.argument, m.paramName with
  | .plain _, none => m.sharedParam
  | _, _ => none

/-- The parameter that a member brings in: a composite under the name of its type, or a plain one
under its given name or, if it is not shared either, under its operation's name. -/
def broughtParam? (m : ResolvedMember) (op : OperationShape) : Option Param :=
  if op.fault.isSome then none
  else
    match op.argument with
    | .none => none
    | .composite typeName fields => some ⟨compositeParamName typeName, typeName, fields, true⟩
    | .plain typeName =>
      match m.paramName, m.sharedParam with
      | some name, _ => some ⟨name, typeName, (Argument.plain typeName).fields, false⟩
      | none, some _ => none
      | none, none =>
        some ⟨defaultParamName op.name, typeName, (Argument.plain typeName).fields, false⟩

/-- Where a member takes its argument from. -/
def memberBinding (m : ResolvedMember) (op : OperationShape) : Binding :=
  match op.argument with
  | .none => .none
  | .composite typeName _ => .field (compositeParamName typeName)
  | .plain _ =>
    match m.paramName, m.sharedParam with
    | some name, _ => .field name
    | none, some path => .shared path.root path.rest
    | none, none => .field (defaultParamName op.name)

variable {params params' : Table Param} {m : ResolvedMember} {op : OperationShape} {b : Binding}

/-- The names announced for a schema are those of the parameters its members bring in. -/
theorem announcedParam?_eq (m : ResolvedMember) (op : OperationShape) :
    announcedParam? m op = (broughtParam? m op).map Param.fieldName := by
  unfold announcedParam? broughtParam?
  split
  · rfl
  · cases op.argument with
    | none => rfl
    | composite typeName fields => simp only [Option.map_some]
    | plain typeName =>
      cases m.paramName with
      | some name => rfl
      | none => cases m.sharedParam <;> simp only [Option.map_some, Option.map_none]

/-- A member of a usable operation takes no argument, takes it from the parameter that it brings in,
or shares it along its path. -/
theorem memberBinding_cases (hop : op.fault = none) :
    (op.argument = .none ∧ memberBinding m op = .none ∧ broughtParam? m op = none) ∨
      (op.argument ≠ .none ∧ ∃ p, broughtParam? m op = some p ∧
        memberBinding m op = .field p.fieldName ∧ p.typeName = op.argument.typeName) ∨
      (op.argument ≠ .none ∧ broughtParam? m op = none ∧ ∃ path, sharedPath? m op = some path ∧
        memberBinding m op = .shared path.root path.rest) := by
  unfold broughtParam? sharedPath? memberBinding
  rw [hop, Option.isSome_none, if_neg Bool.false_ne_true]
  cases op.argument with
  | none => exact Or.inl ⟨rfl, rfl, rfl⟩
  | composite typeName fields => exact Or.inr (Or.inl ⟨by simp, _, rfl, by dsimp only, rfl⟩)
  | plain typeName =>
    cases m.paramName with
    | some name => exact Or.inr (Or.inl ⟨by simp, _, rfl, rfl, rfl⟩)
    | none =>
      cases m.sharedParam with
      | some path => exact Or.inr (Or.inr ⟨by simp, rfl, path, rfl, rfl⟩)
      | none => exact Or.inr (Or.inl ⟨by simp, _, rfl, by dsimp only, rfl⟩)

theorem fault_eq_none_of_brought {p : Param} (h : broughtParam? m op = some p) :
    op.fault = none := by
  unfold broughtParam? at h
  split at h
  · cases h
  · rename_i hf
    simpa using hf

/-- A member that brings in a parameter takes its whole argument from it. -/
theorem memberBinding_of_brought {p : Param} (h : broughtParam? m op = some p) :
    memberBinding m op = .field p.fieldName := by
  rcases memberBinding_cases (m := m) (fault_eq_none_of_brought h) with
    ⟨-, -, hnone⟩ | ⟨-, q, hq, hbinding, -⟩ | ⟨-, hnone, -⟩
  · rw [hnone] at h
    cases h
  · rw [hq] at h
    cases h
    exact hbinding
  · rw [hnone] at h
    cases h

/-- A parameter has the data of the argument that it is brought in for. -/
theorem argument_of_brought {p : Param} (h : broughtParam? m op = some p) :
    op.argument ≠ .none ∧ p.typeName = op.argument.typeName ∧ p.fields = op.argument.fields ∧
      p.composite = op.argument.isComposite := by
  have hfault := fault_eq_none_of_brought h
  unfold broughtParam? at h
  rw [hfault, Option.isSome_none, if_neg Bool.false_ne_true] at h
  cases hargument : op.argument with
  | none =>
    rw [hargument] at h
    cases h
  | composite typeName fields =>
    rw [hargument] at h
    cases h
    exact ⟨by simp, rfl, rfl, rfl⟩
  | plain typeName =>
    rw [hargument] at h
    dsimp only at h
    split at h
    · cases h
      exact ⟨by simp, rfl, rfl, rfl⟩
    · cases h
    · cases h
      exact ⟨by simp, rfl, rfl, rfl⟩

theorem compositeParamName_not_reserved (typeName : String) :
    Naming.isReserved (compositeParamName typeName) = false := by
  unfold compositeParamName
  by_cases h : Naming.isReserved (Naming.snakeCase typeName) = true
  · simp only [if_pos h]
    exact Naming.isReserved_param _
  · simpa only [if_neg h, Bool.not_eq_true] using h

/-- Only a given name can be reserved: the names made from a type or an operation never are. -/
theorem fieldName_not_reserved {p : Param} (h : broughtParam? m op = some p)
    (hgiven : ∀ name, givenParamName? m op = some name → Naming.isReserved name = false) :
    Naming.isReserved p.fieldName = false := by
  have hop := fault_eq_none_of_brought h
  unfold broughtParam? at h
  unfold givenParamName? at hgiven
  rw [hop, Option.isSome_none, if_neg Bool.false_ne_true] at h
  cases ha : op.argument with
  | none =>
    rw [ha] at h
    cases h
  | composite typeName fields =>
    rw [ha] at h
    rw [← Option.some.inj h]
    simpa only using compositeParamName_not_reserved typeName
  | plain typeName =>
    rw [ha] at h hgiven
    cases hn : m.paramName with
    | some name =>
      rw [hn] at h
      cases h
      exact hgiven name hn
    | none =>
      cases hs : m.sharedParam with
      | some path =>
        rw [hn, hs] at h
        cases h
      | none =>
        rw [hn, hs] at h
        rw [← Option.some.inj h]
        exact Naming.isReserved_arg _

/-! ## Binding -/

/-- A path leads into a parameter if it ends there or goes on to a field of a composite. Only the
first field matters. -/
def ParamPath.LeadsInto (path : ParamPath) (root : Param) : Prop :=
  ∀ field rest, path.rest = field :: rest → root.composite = true ∧ field ∈ root.fields.keys

/-- What it takes to bind a member's argument when the parameters are `params`. -/
@[mk_iff]
structure Bindable (params : Table Param) (m : ResolvedMember) (op : OperationShape) : Prop where
  nameAllowed : ∀ name, givenParamName? m op = some name → Naming.isReserved name = false
  sameType : ∀ p, broughtParam? m op = some p →
    ∀ q, params.get? p.fieldName = some q → q.typeName = p.typeName
  pathBound : ∀ path, sharedPath? m op = some path →
    ∃ root, params.get? path.root = some root ∧ path.LeadsInto root

/-- The parameters with one more, unless its name is there. -/
def Table.collect (params : Table Param) (p : Param) : Table Param :=
  match params.get? p.fieldName with
  | none => params.insert p.fieldName p
  | some _ => params

theorem registerParam_eq_ok_iff {p : Param} :
    registerParam params p = .ok params' ↔
      (∀ q, params.get? p.fieldName = some q → q.typeName = p.typeName) ∧
        params' = params.collect p := by
  unfold registerParam Table.collect
  cases params.get? p.fieldName with
  | none => simp [eq_comm]
  | some q =>
    by_cases h : q.typeName = p.typeName
    · simp [h, eq_comm]
    · simp only [if_neg h, reduceCtorEq, false_iff, not_and]
      intro hall
      exact absurd (hall q rfl) h

theorem shareParam_eq_ok_iff {operation : String} {path : ParamPath} :
    shareParam params operation path = .ok b ↔
      (∃ root, params.get? path.root = some root ∧ path.LeadsInto root) ∧
        b = .shared path.root path.rest := by
  obtain ⟨start, rest⟩ := path
  unfold shareParam ParamPath.LeadsInto
  cases params.get? start with
  | none => simp
  | some root =>
    cases rest with
    | nil => simp [eq_comm (b := b)]
    | cons field rest =>
      by_cases h : root.composite = true ∧ field ∈ root.fields.keys
      · simp [Table.contains_eq_true_iff, h, eq_comm (b := b)]
      · simp [Table.contains_eq_true_iff, h]

theorem register_field_eq_ok_iff {p : Param} :
    (do return (← registerParam params p, Binding.field p.fieldName)) =
        (.ok (params', b) : Except Cause (Table Param × Binding)) ↔
      (∀ q, params.get? p.fieldName = some q → q.typeName = p.typeName) ∧
        params' = params.collect p ∧ b = .field p.fieldName := by
  rw [bind_eq_ok_iff]
  simp only [pure_eq_ok_iff, registerParam_eq_ok_iff, Prod.mk.injEq]
  constructor
  · rintro ⟨_, ⟨h, rfl⟩, rfl, rfl⟩
    exact ⟨h, rfl, rfl⟩
  · rintro ⟨h, rfl, rfl⟩
    exact ⟨_, ⟨h, rfl⟩, rfl, rfl⟩

/-- Binding succeeds exactly under the conditions of `Bindable`, and then collects what the member
brings in. -/
theorem bindArgument_eq_ok_iff (hop : op.fault = none) :
    bindArgument params m op = .ok (params', b) ↔
      Bindable params m op ∧ params' = (broughtParam? m op).toList.foldl Table.collect params ∧
        b = memberBinding m op := by
  rw [bindable_iff]
  unfold bindArgument givenParamName? broughtParam? sharedPath? memberBinding
  rw [hop, Option.isSome_none, if_neg Bool.false_ne_true]
  cases op.argument with
  | none =>
    simp only [Except.ok.injEq, Prod.mk.injEq]
    constructor
    · rintro ⟨rfl, rfl⟩
      simp
    · rintro ⟨-, rfl, rfl⟩
      exact ⟨rfl, rfl⟩
  | composite typeName fields =>
    refine register_field_eq_ok_iff.trans ?_
    simp
  | plain typeName =>
    cases m.paramName with
    | some name =>
      by_cases h : Naming.isReserved name = true
      · simp [h]
      · simp only [h]
        refine register_field_eq_ok_iff.trans ?_
        simp [h]
    | none =>
      cases m.sharedParam with
      | some path =>
        simp only [bind_eq_ok_iff, pure_eq_ok_iff, shareParam_eq_ok_iff, Prod.mk.injEq]
        constructor
        · rintro ⟨_, ⟨h, rfl⟩, rfl, rfl⟩
          simp [h]
        · rintro ⟨⟨-, -, h⟩, rfl, rfl⟩
          exact ⟨_, ⟨h path rfl, rfl⟩, rfl, rfl⟩
      | none =>
        refine register_field_eq_ok_iff.trans ?_
        simp

/-! ## What keeps an argument from being bound -/

section Failure

variable {cause : Cause}

theorem registerParam_eq_error_iff {p : Param} :
    registerParam params p = .error cause ↔
      ∃ q, params.get? p.fieldName = some q ∧ q.typeName ≠ p.typeName ∧
        cause = .conflictingParam p.fieldName q.typeName p.typeName := by
  unfold registerParam
  cases params.get? p.fieldName with
  | none => simp
  | some q =>
    by_cases h : q.typeName = p.typeName
    · simp [h]
    · simp [h, eq_comm (a := cause)]

/-- A path that leads nowhere is reported in full, with its first field if its root is there. -/
theorem shareParam_eq_error_iff {operation : String} {path : ParamPath} :
    shareParam params operation path = .error cause ↔
      (params.get? path.root = none ∧ cause = .unboundSharedParam operation path.display) ∨
        ∃ root, params.get? path.root = some root ∧ ¬path.LeadsInto root ∧
          ∃ field, path.rest.head? = some field ∧
            cause = .unknownSharedField operation path.display path.root field := by
  obtain ⟨start, rest⟩ := path
  unfold shareParam ParamPath.LeadsInto
  cases params.get? start with
  | none => simp [eq_comm (a := cause)]
  | some root =>
    cases rest with
    | nil => simp
    | cons field rest =>
      by_cases h : root.composite = true ∧ field ∈ root.fields.keys
      · simp [Table.contains_eq_true_iff, h]
      · simp [Table.contains_eq_true_iff, -not_and, h, eq_comm (a := cause)]

theorem register_field_eq_error_iff {p : Param} :
    (do return (← registerParam params p, Binding.field p.fieldName)) =
        (.error cause : Except Cause (Table Param × Binding)) ↔
      ∃ q, params.get? p.fieldName = some q ∧ q.typeName ≠ p.typeName ∧
        cause = .conflictingParam p.fieldName q.typeName p.typeName := by
  rw [bind_eq_error_iff, registerParam_eq_error_iff]
  simp [pure, Except.pure]

/-- Binding fails over a reserved name, over a parameter of another type, or over a shared path. -/
theorem bindArgument_eq_error_iff (hop : op.fault = none) :
    bindArgument params m op = .error cause ↔
      (∃ name, givenParamName? m op = some name ∧ Naming.isReserved name = true ∧
        cause = .reservedParamName op.name name) ∨
      ((∀ name, givenParamName? m op = some name → Naming.isReserved name = false) ∧
        ∃ p, broughtParam? m op = some p ∧ ∃ q, params.get? p.fieldName = some q ∧
          q.typeName ≠ p.typeName ∧
          cause = .conflictingParam p.fieldName q.typeName p.typeName) ∨
      ∃ path, sharedPath? m op = some path ∧ shareParam params op.name path = .error cause := by
  unfold bindArgument givenParamName? broughtParam? sharedPath?
  rw [hop, Option.isSome_none, if_neg Bool.false_ne_true]
  cases op.argument with
  | none => simp
  | composite typeName fields =>
    refine register_field_eq_error_iff.trans ?_
    simp
  | plain typeName =>
    cases m.paramName with
    | some name =>
      by_cases h : Naming.isReserved name = true
      · simp [h, eq_comm (a := cause)]
      · simp only [h]
        refine register_field_eq_error_iff.trans ?_
        simp [h]
    | none =>
      cases m.sharedParam with
      | some path =>
        simp [bind_eq_error_iff, pure, Except.pure]
      | none =>
        refine register_field_eq_error_iff.trans ?_
        simp

end Failure

/-! ## Collecting -/

/-- The parameters brought in one after another, the first of each name. -/
def collected (ps : List Param) : Table Param :=
  ps.foldl Table.collect ∅

theorem collected_append_singleton (ps : List Param) (p : Param) :
    collected (ps ++ [p]) = (collected ps).collect p := by
  simp [collected]

theorem Table.get?_collect (params : Table Param) (p : Param) (k : String) :
    (params.collect p).get? k =
      (params.get? k).or (if p.fieldName = k then some p else none) := by
  unfold Table.collect
  cases h : params.get? p.fieldName with
  | none =>
    by_cases hk : p.fieldName = k
    · subst hk
      simp [h]
    · simp [Table.get?_insert_of_ne (Ne.symm hk), hk]
  | some q =>
    by_cases hk : p.fieldName = k
    · subst hk
      simp [h]
    · simp [hk]

/-- What is collected under a name is the first parameter of that name. -/
theorem get?_collected (ps : List Param) (k : String) :
    (collected ps).get? k = ps.find? fun p => p.fieldName = k := by
  induction ps using List.reverseRecOn with
  | nil => rfl
  | append_singleton ps p ih =>
    rw [collected_append_singleton, Table.get?_collect, ih, List.find?_append, List.find?_singleton]
    simp

theorem mem_of_get?_collected {ps : List Param} {q : Param} {k : String}
    (h : (collected ps).get? k = some q) : q ∈ ps ∧ q.fieldName = k := by
  rw [get?_collected] at h
  exact ⟨List.mem_of_find?_eq_some h, by simpa using List.find?_some h⟩

theorem eraseDups_append_singleton (xs : List String) (x : String) :
    (xs ++ [x]).eraseDups = if x ∈ xs then xs.eraseDups else xs.eraseDups ++ [x] := by
  rw [List.eraseDups_append]
  by_cases h : x ∈ xs <;> simp [List.removeAll, List.eraseDups_cons, h]

/-- The names collected, in the order in which they first came. -/
theorem keys_collected (ps : List Param) :
    (collected ps).keys = (ps.map Param.fieldName).eraseDups := by
  induction ps using List.reverseRecOn with
  | nil => rfl
  | append_singleton ps p ih =>
    have hmem : p.fieldName ∈ ps.map Param.fieldName ↔ p.fieldName ∈ (collected ps).keys := by
      rw [ih, List.mem_eraseDups]
    rw [collected_append_singleton, List.map_append, List.map_singleton, eraseDups_append_singleton,
      ← ih]
    unfold Table.collect
    cases h : (collected ps).get? p.fieldName with
    | none =>
      have hp : p.fieldName ∉ (collected ps).keys := Table.get?_eq_none_iff.1 h
      rw [if_neg (fun hm => hp (hmem.1 hm))]
      exact Table.keys_insert_of_notMem hp
    | some q =>
      rw [if_pos (hmem.2 (Table.mem_keys_iff.2 ⟨q, h⟩))]

theorem mem_keys_collected {ps : List Param} {k : String} :
    k ∈ (collected ps).keys ↔ ∃ p ∈ ps, p.fieldName = k := by
  rw [keys_collected, List.mem_eraseDups, List.mem_map]

end Orchestration
