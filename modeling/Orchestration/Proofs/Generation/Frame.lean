import Orchestration.Proofs.Catalog.Agreement
import Orchestration.Proofs.Generation.Batch
import Orchestration.Proofs.Schema.Resolved

/-!
# What a schema reads of a catalog

Resolving a schema and compiling it look up the operations that the schema calls, and types; nothing
else of the catalog is read. So catalogs that agree on these operations give one plan or one error, and
whatever is made of the plan is the same too.
-/

namespace Orchestration

/-- The operations that a schema calls. -/
def Schema.operations (s : Schema) : List String :=
  s.groups.flatMap fun g => g.members.map Member.operation

/-- The operations that a resolved schema calls. -/
def ResolvedSchema.operations (s : ResolvedSchema) : List String :=
  s.groups.flatMap fun g => g.members.map ResolvedMember.operation

/-- A generator with the catalog of a descriptor. -/
def Generator.over (g : Generator) (d : Descriptor) : Generator :=
  { g with catalog := Catalog.ofDescriptor d }

variable {c c' : Catalog} {names : List String} {scope : String}

/-! ## Resolving -/

theorem Schema.resolveOutput_congr (h : ∀ name, c.types.get? name = c'.types.get? name)
    (output : Option String) : resolveOutput c.types output = resolveOutput c'.types output := by
  unfold resolveOutput outputOf
  simp only [h]

theorem Member.resolve_congr {m : Member} (h : c.get? m.operation = c'.get? m.operation) :
    m.resolve c = m.resolve c' := by
  unfold resolve
  rw [h]

theorem Group.resolve_congr {g : Group}
    (h : ∀ m ∈ g.members, c.get? m.operation = c'.get? m.operation) :
    g.resolve c = g.resolve c' := by
  unfold resolve
  rw [mapM_congr fun m hm => Member.resolve_congr (h m hm)]

theorem Schema.resolve_congr {s : Schema} (h : c.AgreeOn s.operations c') :
    s.resolve c = s.resolve c' := by
  have hgroups : ∀ g ∈ s.groups, g.resolve c = g.resolve c' := by
    intro g hg
    refine Group.resolve_congr fun m hm => h.operations m.operation ?_
    exact List.mem_flatMap.2 ⟨g, hg, List.mem_map_of_mem hm⟩
  unfold resolve
  rw [resolveOutput_congr h.types, mapM_congr hgroups]

/-! ## The operations of a resolved schema -/

theorem Member.operation_of_resolve {m : Member} {r : ResolvedMember} (h : m.resolve c = .ok r) :
    r.operation = m.operation := by
  obtain ⟨-, path, -, rfl⟩ := resolve_eq_ok_iff.1 h
  rfl

theorem Group.operations_of_resolve {g : Group} {r : ResolvedGroup} (h : g.resolve c = .ok r) :
    r.members.map ResolvedMember.operation = g.members.map Member.operation := by
  obtain ⟨members, hmembers, hr⟩ := bind_eq_ok_iff.1 h
  rw [← pure_eq_ok_iff.1 hr]
  exact map_eq_of_mapM (fun _ _ => Member.operation_of_resolve) hmembers

/-- Resolving keeps the operations that are called. -/
theorem Schema.operations_of_resolve {s : Schema} {r : ResolvedSchema} (h : s.resolve c = .ok r) :
    r.operations = s.operations := by
  obtain ⟨output, -, h⟩ := bind_eq_ok_iff.1 (mapError_eq_ok_iff.1 h)
  obtain ⟨groups, hgroups, hr⟩ := bind_eq_ok_iff.1 h
  rw [← pure_eq_ok_iff.1 hr, ResolvedSchema.operations, operations, List.flatMap_def,
    List.flatMap_def, map_eq_of_mapM (fun _ _ => Group.operations_of_resolve) hgroups]

/-! ## Compiling -/

namespace Compile

theorem member_congr {m : ResolvedMember} (h : c.get? m.operation = c'.get? m.operation)
    (st : Progress) : member c st m = member c' st m := by
  unfold member
  rw [h]

theorem members_congr {ms : List ResolvedMember}
    (h : ∀ m ∈ ms, c.get? m.operation = c'.get? m.operation) (st : Progress) :
    members c st ms = members c' st ms := by
  induction ms generalizing st with
  | nil => rfl
  | cons m ms ih =>
    have hrest (st : Progress) : members c st ms = members c' st ms :=
      ih (fun m' hm' => h m' (List.mem_cons_of_mem m hm')) st
    unfold members
    simp only [member_congr (h m (List.mem_cons_self ..)), hrest]

theorem groups_congr {gs : List ResolvedGroup}
    (h : ∀ g ∈ gs, ∀ m ∈ g.members, c.get? m.operation = c'.get? m.operation) (st : Progress) :
    groups c st gs = groups c' st gs := by
  induction gs generalizing st with
  | nil => rfl
  | cons g gs ih =>
    have hrest (st : Progress) : groups c st gs = groups c' st gs :=
      ih (fun g' hg' => h g' (List.mem_cons_of_mem g hg')) st
    unfold groups
    simp only [members_congr (h g (List.mem_cons_self ..)), hrest]

theorem start_congr {s : ResolvedSchema}
    (h : ∀ g ∈ s.groups, ∀ m ∈ g.members, c.get? m.operation = c'.get? m.operation) :
    start c s = start c' s := by
  have hannounced : announcedParams c s = announcedParams c' s := by
    refine List.filterMap_congr fun m hm => ?_
    obtain ⟨g, hg, hmg⟩ := List.mem_flatMap.1 hm
    rw [h g hg m hmg]
  unfold start
  rw [hannounced]

end Compile

theorem ResolvedSchema.compile_congr {s : ResolvedSchema} (h : c.AgreeOn s.operations c') :
    s.compile c scope = s.compile c' scope := by
  have hcalled : ∀ g ∈ s.groups, ∀ m ∈ g.members, c.get? m.operation = c'.get? m.operation :=
    fun g hg m hm =>
      h.operations m.operation (List.mem_flatMap.2 ⟨g, hg, List.mem_map_of_mem hm⟩)
  unfold compile
  rw [Compile.start_congr hcalled, Compile.groups_congr hcalled]

theorem Schema.compile_congr {s : Schema} {r : ResolvedSchema} (h : c.AgreeOn s.operations c')
    (hr : s.resolve c = .ok r) : r.compile c scope = r.compile c' scope := by
  rw [← operations_of_resolve hr] at h
  exact ResolvedSchema.compile_congr h

/-! ## Generating -/

namespace Generator

variable {g : Generator} {d d' : Descriptor} {s : Schema}

theorem scope_over (h : d.AgreeOn names d') : (g.over d).scope = (g.over d').scope :=
  congrArg g.scope?.getD h.scope

theorem plan_over (h : d.AgreeOn s.operations d') : (g.over d).plan s = (g.over d').plan s := by
  have hagree := Catalog.agreeOn_ofDescriptor h
  have hresolve : s.resolve (g.over d).catalog = s.resolve (g.over d').catalog :=
    Schema.resolve_congr hagree
  unfold plan
  rw [← hresolve, ← scope_over h]
  split
  · rfl
  · next hresolved => exact Schema.compile_congr hagree hresolved

theorem draft_over (h : d.AgreeOn s.operations d') : (g.over d).draft s = (g.over d').draft s := by
  unfold draft
  rw [plan_over h]
  rfl

end Generator

/-- **A plan depends on nothing but the operations that its schema calls.** Descriptors that agree on
these give one resolved schema or one error, and this compiles to one plan or one error; so the
fingerprint and the text made of it are the same as well. -/
theorem generation_of_agreeOn {d d' : Descriptor} {s : Schema} (h : d.AgreeOn s.operations d') :
    s.resolve (.ofDescriptor d) = s.resolve (.ofDescriptor d') ∧
      (∀ resolved scope, s.resolve (.ofDescriptor d) = .ok resolved →
        resolved.compile (.ofDescriptor d) scope = resolved.compile (.ofDescriptor d') scope) ∧
      ∀ g : Generator, (g.over d).plan s = (g.over d').plan s ∧
        (g.over d).draft s = (g.over d').draft s := by
  have hagree := Catalog.agreeOn_ofDescriptor h
  exact ⟨Schema.resolve_congr hagree, fun _ _ => Schema.compile_congr hagree,
    fun g => ⟨Generator.plan_over h, Generator.draft_over h⟩⟩

/-- A descriptor of pages with a user, over some operations. -/
def pageDescriptor (operations : List (String × OperationEntry)) : Descriptor :=
  { scope := "db"
    types := Table.ofList
      [("User", Table.ofList [("id", "i64")]), ("Page", Table.ofList [("user", "User")])]
    operations := Table.ofList operations }

/-- The other operations are an ordinary one on the one side, an administrative one and one without a
usable signature on the other. -/
theorem generation_of_agreeOn_page :
    let d := pageDescriptor
      [("GetUser", ⟨["ctx", "i64"], ["User", "error"]⟩), ("DropUser", ⟨["ctx", "User"], ["error"]⟩)]
    let d' := pageDescriptor
      [("WithTx", ⟨["ctx", "Tx"], ["Queries"]⟩), ("Count", ⟨["i64"], ["map[string]int", "error"]⟩),
        ("GetUser", ⟨["ctx", "i64"], ["User", "error"]⟩)]
    let s := Schema.page "UserPage" "GetUser"
    let g := Generator.pageGenerator
    d.AgreeOn s.operations d' ∧
      (Catalog.ofDescriptor d).operations.keys = ["GetUser", "DropUser"] ∧
      (Catalog.ofDescriptor d').operations.keys = ["Count", "GetUser"] ∧
      ((g.over d).draft s).toOption.isSome = true ∧ (g.over d).draft s = (g.over d').draft s := by
  intro d d' s g
  have h : d.AgreeOn s.operations d' := ⟨rfl, fun _ => rfl, by decide +kernel⟩
  exact ⟨h, by decide +kernel, by decide +kernel, by decide +kernel,
    ((generation_of_agreeOn h).2.2 g).2⟩

end Orchestration
