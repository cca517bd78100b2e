import Orchestration.Proofs.Digest.Blocks
import Orchestration.Proofs.Plan.Bindings
import Orchestration.Proofs.Plan.Document

/-!
# Plans that differ in the order of tables

Two plans are alike if they are the same but for the order in which tables hold their entries. The
document of a plan keeps that order. The parameters of alike plans stand in one order all the same,
since the members decide it; the fields of a composite stand in the order of the catalog.
-/

namespace Orchestration

/-! ## Statements -/

/-- Whether two tables have the same names, with values that are the same in the eyes of `same`. The
order of the entries does not matter. -/
def Table.alike {α : Type} (same : α → α → Bool) (t u : Table α) : Bool :=
  t.size = u.size && t.entries.all fun e => (u.get? e.1).any (same e.2)

/-- Whether two parameters are the same but for the order of their fields. -/
def Param.alike (p q : Param) : Bool :=
  p.fieldName = q.fieldName && p.typeName = q.typeName
    && p.fields.alike (fun type type' => type = type') q.fields && p.composite = q.composite

/-- Whether two plans are the same but for the order of their parameters and of the fields of these. -/
def Plan.alike (p q : Plan) : Bool :=
  p.params.alike Param.alike q.params && { p with params := q.params } = q

/-- Parameters of one name list their fields in one order. -/
def Plan.SameFieldOrder (p q : Plan) : Prop :=
  ∀ k e e', p.params.get? k = some e → q.params.get? k = some e' → e.fields.keys = e'.fields.keys

/-- The argument of an operation. -/
def Catalog.argument? (c : Catalog) (operation : String) : Option Argument :=
  (c.get? operation).map OperationShape.argument

/-! ## What alike tables and plans share -/

theorem Table.same_of_alike {α : Type} {same : α → α → Bool} {t u : Table α} {k : String} {v w : α}
    (h : t.alike same u = true) (hv : t.get? k = some v) (hw : u.get? k = some w) :
    same v w = true := by
  unfold alike at h
  rw [Bool.and_eq_true, List.all_eq_true] at h
  have hentry := h.2 (k, v) (mem_entries_iff_get?.2 hv)
  rwa [hw] at hentry

theorem Param.eq_of_alike {p q : Param} (h : p.alike q = true)
    (hkeys : p.fields.keys = q.fields.keys) : p = q := by
  unfold Param.alike at h
  simp only [Bool.and_eq_true, decide_eq_true_eq] at h
  obtain ⟨⟨⟨hname, htype⟩, hfields⟩, hcomposite⟩ := h
  have hsame : p.fields = q.fields :=
    Table.eq_of_keys hkeys fun k v w hv hw => by simpa using Table.same_of_alike hfields hv hw
  obtain ⟨name, type, fields, composite⟩ := p
  obtain ⟨name', type', fields', composite'⟩ := q
  obtain rfl := hname
  obtain rfl := htype
  obtain rfl := hsame
  obtain rfl := hcomposite
  rfl

namespace Plan

variable {p q : Plan}

theorem members_of_alike (h : p.alike q = true) : p.members = q.members := by
  unfold alike at h
  rw [Bool.and_eq_true, decide_eq_true_eq] at h
  have hgroups : ({ p with params := q.params } : Plan).groups = q.groups := by rw [h.2]
  exact congrArg (List.flatMap PlanGroup.members) hgroups

/-- Alike plans with their parameters in one order are the same once the fields of these are. -/
theorem eq_iff_of_alike (h : p.alike q = true) (hkeys : p.params.keys = q.params.keys) :
    p = q ↔ p.SameFieldOrder q := by
  constructor
  · rintro rfl k e e' he he'
    rw [Option.some.inj (he.symm.trans he')]
  · intro horder
    unfold alike at h
    rw [Bool.and_eq_true, decide_eq_true_eq] at h
    have hparams : p.params = q.params :=
      Table.eq_of_keys hkeys fun k e e' he he' =>
        Param.eq_of_alike (Table.same_of_alike h.1 he he') (horder k e e' he he')
    rw [← h.2, ← hparams]

end Plan

/-! ## Parameters from members -/

/-- The parameter that a binding makes of the whole argument. -/
def Binding.ownName? : Binding → Option String
  | field name => some name
  | _ => Option.none

/-- The parameter that a compiled member has for itself, as the catalog describes its argument. -/
def PlanMember.ownParam? (catalog : Catalog) (pm : PlanMember) : Option Param :=
  pm.binding.ownName?.bind fun name => (catalog.argument? pm.operation).map fun argument =>
    ⟨name, argument.typeName, argument.fields, argument.isComposite⟩

section Members

open Compile

variable {catalog : Catalog} {st st' : Progress} {m : ResolvedMember} {op : OperationShape}
  {ms : List ResolvedMember} {pms : List PlanMember} {s : ResolvedSchema} {scope : String} {p : Plan}

theorem ownParam?_planMember (hop : catalog.get? m.operation = some op) (hfault : op.fault = none) :
    (planMember st.names m op).ownParam? catalog = broughtParam? m op := by
  have hargument : catalog.argument? m.operation = some op.argument := by
    rw [Catalog.argument?, hop, Option.map_some]
  unfold PlanMember.ownParam? planMember memberBinding broughtParam?
  dsimp only
  rw [hargument, hfault, Option.isSome_none, if_neg Bool.false_ne_true]
  cases ha : op.argument with
  | none => rfl
  | composite typeName fields => rfl
  | plain typeName =>
    cases m.paramName with
    | some name => rfl
    | none => cases m.sharedParam <;> rfl

theorem Compile.Walk.broughtParams_eq (h : Walk catalog st ms pms st') :
    broughtParams catalog ms = pms.filterMap (PlanMember.ownParam? catalog) := by
  induction h with
  | nil => rfl
  | cons hop hadm _ ih =>
    rw [broughtParams_cons hop, List.filterMap_cons, ownParam?_planMember hop hadm.analyzable, ih]
    cases broughtParam? _ _ <;> rfl

/-- The parameters of a plan can be read off its members and the arguments of their operations. -/
theorem params_eq_of_members (h : s.compile catalog scope = .ok p) :
    p.params = collected (p.members.filterMap (PlanMember.ownParam? catalog)) := by
  rw [params_of_compile h, (walk_of_compile h).broughtParams_eq]

/-- Their order can be read off the bindings alone. -/
theorem keys_params_eq_of_members (h : s.compile catalog scope = .ok p) :
    p.params.keys = (p.members.filterMap fun pm => pm.binding.ownName?).eraseDups := by
  rw [params_eq_of_members h, keys_collected, List.map_filterMap]
  refine congrArg List.eraseDups (List.filterMap_congr fun pm hpm => ?_)
  obtain ⟨_, m, _, op, _, hop, _, rfl⟩ := (walk_of_compile h).exists_of_mem hpm
  have hargument : catalog.argument? m.operation = some op.argument := by
    rw [Catalog.argument?, hop, Option.map_some]
  unfold PlanMember.ownParam? planMember
  dsimp only
  rw [hargument]
  cases memberBinding m op <;> rfl

end Members

/-! ## Fingerprints of alike plans -/

section Alike

variable {catalog catalog' : Catalog} {s s' : ResolvedSchema} {scope scope' : String} {p q : Plan}

theorem keys_params_of_alike (hp : s.compile catalog scope = .ok p)
    (hq : s'.compile catalog' scope' = .ok q) (h : p.alike q = true) :
    p.params.keys = q.params.keys := by
  rw [keys_params_eq_of_members hp, keys_params_eq_of_members hq, Plan.members_of_alike h]

theorem params_of_alike (hp : s.compile catalog scope = .ok p)
    (hq : s'.compile catalog' scope' = .ok q) (h : p.alike q = true)
    (harguments : ∀ pm ∈ p.members,
      catalog.argument? pm.operation = catalog'.argument? pm.operation) : p.params = q.params := by
  rw [params_eq_of_members hp, params_eq_of_members hq, ← Plan.members_of_alike h]
  refine congrArg collected (List.filterMap_congr fun pm hpm => ?_)
  unfold PlanMember.ownParam?
  rw [harguments pm hpm]

/-- **Alike plans have one fingerprint exactly if they list the fields of every parameter in one
order**, unless their texts collide. The parameters themselves always stand in one order, and if both
catalogs have the same arguments for the operations called, so do the fields. -/
theorem fingerprints_of_alike (hp : s.compile catalog scope = .ok p)
    (hq : s'.compile catalog' scope' = .ok q) (h : p.alike q = true) :
    p.params.keys = q.params.keys ∧
      (p.toJson.compact = q.toJson.compact ↔ p.SameFieldOrder q) ∧
      (Digest.ofPlan p = Digest.ofPlan q ↔ p.SameFieldOrder q ∨
        Digest.Blake3.Collide p.toJson.compact.toUTF8 q.toJson.compact.toUTF8) ∧
      ((∀ pm ∈ p.members, catalog.argument? pm.operation = catalog'.argument? pm.operation) →
        Digest.ofPlan p = Digest.ofPlan q) := by
  have hkeys := keys_params_of_alike hp hq h
  have hsame : p = q ↔ p.SameFieldOrder q := Plan.eq_iff_of_alike h hkeys
  have htext : p.toJson.compact = q.toJson.compact ↔ p.SameFieldOrder q :=
    Plan.compact_toJson_inj.trans hsame
  have hfingerprint : Digest.ofPlan p = Digest.ofPlan q ↔ _ := Digest.ofText_eq_iff
  refine ⟨hkeys, htext, by rw [hfingerprint, htext], fun harguments => ?_⟩
  have hparams := params_of_alike hp hq h harguments
  have horder : p.SameFieldOrder q := by
    intro k e e' he he'
    rw [hparams, he'] at he
    rw [Option.some.inj he]
  rw [hsame.2 horder]

end Alike

/-- An operation that takes a composite and only succeeds or fails, and the fields of the composite. -/
def keyDescriptor (fields : List (String × String)) : Descriptor :=
  { scope := "db"
    types := Table.ofList [("Key", Table.ofList fields)]
    operations := Table.ofList [("Drop", ⟨["ctx", "Key"], ["error"]⟩)] }

/-- The catalog with the fields in one order. -/
def keyCatalog : Catalog :=
  Catalog.ofDescriptor (keyDescriptor [("a", "i64"), ("b", "i64")])

/-- The catalog with the fields in the other order. -/
def turnedCatalog : Catalog :=
  Catalog.ofDescriptor (keyDescriptor [("b", "i64"), ("a", "i64")])

/-- A schema that calls the operation. -/
def keySchema : ResolvedSchema :=
  { name := "Clear"
    output := ⟨"Page", false, Table.ofList [("id", "i64")]⟩
    groups := [⟨false, [⟨"Drop", none, none, none, .bind⟩]⟩]
    outFile := "clear" }

theorem exists_plans_of_any {s : ResolvedSchema} {catalog catalog' : Catalog} {scope : String}
    {Q : Plan → Plan → Prop} [∀ p q, Decidable (Q p q)]
    (h : (s.compile catalog scope).toOption.any (fun p =>
      (s.compile catalog' scope).toOption.any fun q => decide (Q p q)) = true) :
    ∃ p q, s.compile catalog scope = .ok p ∧ s.compile catalog' scope = .ok q ∧ Q p q := by
  obtain ⟨p, hp, hany⟩ := exists_plan_of_any
    (Q := fun p => (s.compile catalog' scope).toOption.any (fun q => decide (Q p q)) = true)
    (by simpa only [Bool.decide_eq_true] using h)
  obtain ⟨q, hq, hpq⟩ := exists_plan_of_any hany
  exact ⟨p, q, hp, hq, hpq⟩

theorem fingerprints_of_alike_turned :
    ∃ p q, keySchema.compile keyCatalog "db" = .ok p ∧
      keySchema.compile turnedCatalog "db" = .ok q ∧ p.alike q = true ∧
      p.params.keys = q.params.keys ∧
      (p.toJson.compact = q.toJson.compact ↔ p.SameFieldOrder q) ∧
      (Digest.ofPlan p = Digest.ofPlan q ↔ p.SameFieldOrder q ∨
        Digest.Blake3.Collide p.toJson.compact.toUTF8 q.toJson.compact.toUTF8) ∧
      ((∀ pm ∈ p.members, keyCatalog.argument? pm.operation = turnedCatalog.argument? pm.operation) →
        Digest.ofPlan p = Digest.ofPlan q) := by
  obtain ⟨p, q, hp, hq, h⟩ : ∃ p q, keySchema.compile keyCatalog "db" = .ok p ∧
      keySchema.compile turnedCatalog "db" = .ok q ∧ p.alike q = true :=
    exists_plans_of_any (by decide +kernel)
  exact ⟨p, q, hp, hq, h, fingerprints_of_alike hp hq h⟩

open Digest.Blake3 in
theorem fingerprints_of_alike_differ :
    ∃ p q, keySchema.compile keyCatalog "db" = .ok p ∧
      keySchema.compile turnedCatalog "db" = .ok q ∧ p.alike q = true ∧
      Digest.ofPlan p ≠ Digest.ofPlan q := by
  -- the documents have 576 bytes each, nine blocks of a single chunk
  obtain ⟨p, q, hp, hq, h, hshort, hshort', hhash⟩ :
      ∃ p q, keySchema.compile keyCatalog "db" = .ok p ∧
        keySchema.compile turnedCatalog "db" = .ok q ∧ p.alike q = true ∧
        (utf8 p.toJson.compactText).length ≤ 1024 ∧ (utf8 q.toJson.compactText).length ≤ 1024 ∧
        shortHash (utf8 p.toJson.compactText) ≠ shortHash (utf8 q.toJson.compactText) :=
    exists_plans_of_any (by decide +kernel)
  exact ⟨p, q, hp, hq, h, fun hsame => hhash (shortHash_utf8_eq hshort hshort' hsame)⟩

end Orchestration
