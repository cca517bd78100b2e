import Orchestration.Proofs.Catalog.Arguments
import Orchestration.Proofs.Plan.Walk

/-!
# Parameters that several members bring in

A parameter that is there already is compared by the name of its type alone. In the catalog of a
descriptor this name decides the argument, and an argument with the name of a parameter decides the
parameter. So nothing is lost when a parameter is not collected again: it is the one that is there,
whichever member brought it in first, and paths into it lead to the same fields.
-/

namespace Orchestration

open Compile

variable {d : Descriptor} {m m' : ResolvedMember} {op op' : OperationShape} {p q : Param}
  {st st' : Progress} {ms ms' : List ResolvedMember} {pms : List PlanMember}

/-- A parameter is its name and the name of its type. -/
theorem brought_eq_of_typeName (hop : (Catalog.ofDescriptor d).get? m.operation = some op)
    (hop' : (Catalog.ofDescriptor d).get? m'.operation = some op') (hp : broughtParam? m op = some p)
    (hq : broughtParam? m' op' = some q) (hname : p.fieldName = q.fieldName)
    (htype : p.typeName = q.typeName) : p = q := by
  obtain ⟨hargument, hptype, hpfields, hpcomposite⟩ := argument_of_brought hp
  obtain ⟨hargument', hqtype, hqfields, hqcomposite⟩ := argument_of_brought hq
  have hsame : op.argument = op'.argument :=
    Catalog.argument_eq_of_typeName hop hop' (fault_eq_none_of_brought hp)
      (fault_eq_none_of_brought hq) hargument hargument' (hptype.symm.trans (htype.trans hqtype))
  have hfields : p.fields = q.fields := by rw [hpfields, hqfields, hsame]
  have hcomposite : p.composite = q.composite := by rw [hpcomposite, hqcomposite, hsame]
  cases p
  cases q
  rw [Param.mk.injEq]
  exact ⟨hname, htype, hfields, hcomposite⟩

theorem eq_of_mem_broughtParams (hp : p ∈ broughtParams (.ofDescriptor d) ms)
    (hq : q ∈ broughtParams (.ofDescriptor d) ms') (hname : p.fieldName = q.fieldName)
    (htype : p.typeName = q.typeName) : p = q := by
  obtain ⟨m, -, op, hop, hp⟩ := mem_broughtParams.1 hp
  obtain ⟨m', -, op', hop', hq⟩ := mem_broughtParams.1 hq
  exact brought_eq_of_typeName hop hop' hp hq hname htype

theorem Compile.Walk.params_eq (h : Walk (.ofDescriptor d) st ms pms st') (hst : st.params = ∅) :
    st'.params = collected (broughtParams (.ofDescriptor d) ms) := by
  rw [h.end_eq, Progress.after, hst]
  rfl

/-- A parameter that is there after a walk was brought in during the walk. -/
theorem Compile.Walk.mem_of_get? {k : String} (h : Walk (.ofDescriptor d) st ms pms st')
    (hst : st.params = ∅) (hq : st'.params.get? k = some q) :
    q ∈ broughtParams (.ofDescriptor d) ms ∧ q.fieldName = k := by
  rw [h.params_eq hst] at hq
  exact mem_of_get?_collected hq

/-- The parameter that is there after a walk is that of every member that brings one in under its
name. -/
theorem Compile.Walk.get?_of_brought (h : Walk (.ofDescriptor d) st ms pms st') (hst : st.params = ∅)
    (hp : p ∈ broughtParams (.ofDescriptor d) ms) : st'.params.get? p.fieldName = some p := by
  obtain ⟨q, hq⟩ := Table.mem_keys_iff.1 (mem_keys_collected.2 ⟨p, hp, rfl⟩)
  have htype := h.typeName_eq hst hp hq
  rw [← h.params_eq hst] at hq
  obtain ⟨hmem, hname⟩ := h.mem_of_get? hst hq
  rw [hq, eq_of_mem_broughtParams hmem hp hname htype]

/-- What a shared path leads to is decided by the parameter that it starts from. -/
theorem shareParam_congr {params params' : Table Param} {path : ParamPath} (operation : String)
    (h : params.get? path.root = params'.get? path.root) :
    shareParam params operation path = shareParam params' operation path := by
  unfold shareParam
  rw [h]

/-- **In the catalog of a descriptor the name of its type decides an argument.** So a parameter that is
brought in again with the type that is there is the one that is there, and a shared path is checked as
if any one of the members that brought its start in were the only one. -/
theorem argument_of_typeName (d : Descriptor) :
    (∀ name name' op op', (Catalog.ofDescriptor d).get? name = some op →
        (Catalog.ofDescriptor d).get? name' = some op' → op.fault = none → op'.fault = none →
          op.argument.typeName ≠ "" → op.argument.typeName = op'.argument.typeName →
            op.argument.isComposite = op'.argument.isComposite ∧
              op.argument.fields = op'.argument.fields) ∧
      ∀ s before pms st,
        Compile.members (.ofDescriptor d) (start (.ofDescriptor d) s) before = .ok (pms, st) →
          (∀ m op p q params, (Catalog.ofDescriptor d).get? m.operation = some op →
            broughtParam? m op = some p → st.params.get? p.fieldName = some q →
              registerParam st.params p = .ok params → p = q ∧ params = st.params) ∧
          ∀ p ∈ broughtParams (.ofDescriptor d) before, ∀ operation path, path.root = p.fieldName →
            shareParam st.params operation path =
              shareParam (Table.empty.insert p.fieldName p) operation path := by
  constructor
  · intro name name' op op' hop hop' hfault hfault' hne htype
    have hargument : op.argument ≠ .none := fun h => hne (by rw [h]; rfl)
    have hargument' : op'.argument ≠ .none := fun h => hne (by rw [htype, h]; rfl)
    rw [Catalog.argument_eq_of_typeName hop hop' hfault hfault' hargument hargument' htype]
    exact ⟨rfl, rfl⟩
  · intro s before pms st hmembers
    have hwalk := members_eq_ok_iff.1 hmembers
    constructor
    · intro m op p q params hop hp hq hregister
      obtain ⟨htype, rfl⟩ := registerParam_eq_ok_iff.1 hregister
      have hp' : p ∈ broughtParams (.ofDescriptor d) [m] :=
        mem_broughtParams.2 ⟨m, List.mem_singleton_self m, op, hop, hp⟩
      obtain ⟨hmem, hname⟩ := hwalk.mem_of_get? rfl hq
      refine ⟨eq_of_mem_broughtParams hp' hmem hname.symm (htype q hq).symm, ?_⟩
      rw [Table.collect, hq]
    · intro p hp operation path hroot
      refine shareParam_congr operation ?_
      rw [hroot, hwalk.get?_of_brought rfl hp, Table.get?_insert_self]

/-- Accounts, with operations that take a user by value and by reference. -/
def accountDescriptor : Descriptor :=
  { scope := "db"
    types := Table.ofList [("User", Table.ofList [("id", "i64"), ("name", "String")])]
    operations := Table.ofList
      [("SaveUser", ⟨["Context", "User"], ["Error"]⟩),
       ("TouchUser", ⟨["Context", "&User"], ["Error"]⟩)] }

theorem argument_of_typeName_accounts :
    let c := Catalog.ofDescriptor accountDescriptor
    let user : Fields := Table.ofList [("id", "i64"), ("name", "String")]
    let save : ResolvedMember := ⟨"SaveUser", none, none, none, .bind⟩
    let touch : ResolvedMember := ⟨"TouchUser", none, none, none, .bind⟩
    let schema : ResolvedSchema := ⟨"Save", ⟨"User", false, user⟩, [⟨false, [save, touch]⟩], "save"⟩
    ∃ saved touched pms st p q, c.get? "SaveUser" = some saved ∧ c.get? "TouchUser" = some touched ∧
      saved.argument.typeName = "User" ∧ touched.argument.typeName = "User" ∧
      saved.argument.fields = touched.argument.fields ∧
      Compile.members c (start c schema) [save] = .ok (pms, st) ∧
      broughtParam? touch touched = some p ∧ st.params.get? p.fieldName = some q ∧ p = q ∧
      shareParam st.params "Audit" ⟨"user", ["id"]⟩ =
        shareParam (Table.empty.insert "user" p) "Audit" ⟨"user", ["id"]⟩ := by
  intro c user save touch schema
  have hsaved : c.get? "SaveUser" =
      some ⟨"SaveUser", .composite "User" user, .errorOnly, none⟩ := by decide +kernel
  have htouched : c.get? "TouchUser" =
      some ⟨"TouchUser", .composite "User" user, .errorOnly, none⟩ := by decide +kernel
  have hbrought : broughtParam? touch ⟨"TouchUser", .composite "User" user, .errorOnly, none⟩ =
      some ⟨"user", "User", user, true⟩ := by decide +kernel
  have hmem : ⟨"user", "User", user, true⟩ ∈ broughtParams c [save] := by decide +kernel
  obtain ⟨⟨pms, st⟩, hmembers, hregister⟩ : ∃ r, Compile.members c (start c schema) [save] = .ok r ∧
      registerParam r.2.params ⟨"user", "User", user, true⟩ = .ok r.2.params :=
    exists_ok_of_any (by decide +kernel)
  obtain ⟨harguments, hwalks⟩ := argument_of_typeName accountDescriptor
  obtain ⟨-, hfields⟩ := harguments _ _ _ _ hsaved htouched rfl rfl (by decide) rfl
  obtain ⟨hregistered, hshared⟩ := hwalks schema [save] pms st hmembers
  obtain ⟨q, hq⟩ : ∃ q, st.params.get? "user" = some q :=
    ⟨_, (members_eq_ok_iff.1 hmembers).get?_of_brought rfl hmem⟩
  obtain ⟨hsame, -⟩ := hregistered touch _ _ q _ htouched hbrought hq hregister
  exact ⟨_, _, pms, st, _, q, hsaved, htouched, rfl, rfl, hfields, hmembers, hbrought, hq, hsame,
    hshared _ hmem "Audit" ⟨"user", ["id"]⟩ rfl⟩

end Orchestration
