import Orchestration.Proofs.Plan.Walk

/-!
# When a schema compiles

Whether a schema has a plan is decided member by member, from the members before each of them and
the parameters that the whole schema brings in. The main statement, `exists_compile_iff`, says so
without the state of the walk.
-/

namespace Orchestration

open Compile

variable {catalog : Catalog} {s : ResolvedSchema} {scope : String} {m : ResolvedMember}
  {op : OperationShape} {before after : List ResolvedMember}

/-- What a member of a schema needs to compile, `before` being the members before it in declaration
order. -/
structure Compilable (catalog : Catalog) (s : ResolvedSchema) (before : List ResolvedMember)
    (m : ResolvedMember) (op : OperationShape) : Prop where
  /-- Its operation can be used. -/
  analyzable : op.fault = none
  /-- The name given to a plain argument is not reserved. -/
  nameAllowed : ∀ name, givenParamName? m op = some name → Naming.isReserved name = false
  /-- Whoever brought in a parameter of the same name before brought it in with the same type. -/
  sameType : ∀ p, broughtParam? m op = some p →
    ∀ q ∈ broughtParams catalog before, q.fieldName = p.fieldName → q.typeName = p.typeName
  /-- A shared path starts at a parameter brought in before, as it was first brought in, and leads
  into it. -/
  pathBound : ∀ path, sharedPath? m op = some path →
    ∃ root, (broughtParams catalog before).find? (fun p => p.fieldName = path.root) = some root ∧
      path.LeadsInto root
  /-- The name given for a bound result is neither one of the body nor a keyword, no member of the
  schema brings in a parameter of this name, and no member before claims it for its result. -/
  resultNameFree : ∀ name, givenResultName? m op = some name →
    name ∉ Naming.bodyNames ∧ name ∉ Naming.keywords ∧
      (∀ p ∈ broughtParams catalog s.members, p.fieldName ≠ name) ∧
      name ∉ claimedNames catalog (start catalog s).names before

theorem params_after_start (catalog : Catalog) (s : ResolvedSchema)
    (before : List ResolvedMember) :
    ((start catalog s).after catalog before).params = collected (broughtParams catalog before) := rfl

/-- The names that are free after some members of a schema. -/
theorem notMem_names_after_start {name : String} :
    name ∉ ((start catalog s).after catalog before).names.names ↔
      name ∉ Naming.bodyNames ∧ name ∉ Naming.keywords ∧
        (∀ p ∈ broughtParams catalog s.members, p.fieldName ≠ name) ∧
        name ∉ claimedNames catalog (start catalog s).names before := by
  rw [mem_after_names, mem_start_names]
  push Not
  tauto

theorem Compilable.admits (h : Compilable catalog s before m op) :
    Admits ((start catalog s).after catalog before) m op := by
  refine ⟨h.analyzable, ⟨h.nameAllowed, fun p hp q hq => ?_, fun path hpath => ?_⟩,
    fun name hname => notMem_names_after_start.2 (h.resultNameFree name hname)⟩
  · rw [params_after_start] at hq
    obtain ⟨hmem, hname⟩ := mem_of_get?_collected hq
    exact h.sameType p hp q hmem hname
  · rw [params_after_start]
    simpa only [get?_collected] using h.pathBound path hpath

theorem Compile.Admits.compilable {pms : List PlanMember} {st : Progress}
    (hwalk : Walk catalog (start catalog s) before pms st)
    (h : Admits ((start catalog s).after catalog before) m op) :
    Compilable catalog s before m op := by
  have hbind := h.bindable
  refine ⟨h.analyzable, hbind.nameAllowed, fun p hp q hq hname => ?_, fun path hpath => ?_,
    fun name hname => notMem_names_after_start.1 (h.nameFree name hname)⟩
  · obtain ⟨r, hr⟩ := Table.mem_keys_iff.1 (mem_keys_collected.2 ⟨q, hq, rfl⟩)
    have hrp : r.typeName = p.typeName := by
      refine hbind.sameType p hp r ?_
      rw [params_after_start, ← hname, hr]
    have hrq : r.typeName = q.typeName := hwalk.typeName_eq rfl hq hr
    rw [← hrq, hrp]
  · have hroot := hbind.pathBound path hpath
    rw [params_after_start] at hroot
    simpa only [get?_collected] using hroot

/-- **A schema compiles if and only if each of its members resolves and meets `Compilable`.** -/
theorem exists_compile_iff (catalog : Catalog) (s : ResolvedSchema) (scope : String) :
    (∃ p, s.compile catalog scope = .ok p) ↔
      ∀ before m after, s.members = before ++ m :: after →
        ∃ op, catalog.get? m.operation = some op ∧ Compilable catalog s before m op := by
  rw [exists_compile_iff_walk]
  constructor
  · rintro ⟨pms, st, h⟩ before m after he
    rw [he] at h
    obtain ⟨op, _, _, hop, hadm, -⟩ := h.at
    obtain ⟨_, _, _, -, hbefore, -⟩ := h.split
    exact ⟨op, hop, hadm.compilable hbefore⟩
  · intro h
    refine exists_walk_iff.2 fun before m after he => ?_
    obtain ⟨op, hop, hc⟩ := h before m after he
    exact ⟨op, hop, hc.admits⟩

end Orchestration
