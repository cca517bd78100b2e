import Orchestration.Proofs.Plan.Refusal
import Orchestration.Proofs.Schema.ParamPath

/-!
# Shared paths, given and reported

A path along which a member shares a parameter is written down twice: as the text that the schema
gives, and, if it leads nowhere, as the text that is reported. In between only the names along it are
kept. Both texts denote these names, and the reported one is the given one without the white space
around it.
-/

namespace Orchestration

open Compile
open PlanError (Cause)
open ParamPath (Dotted)

variable {catalog : Catalog} {r : ResolvedSchema} {scope printed : String} {st : Progress}
  {m : ResolvedMember} {p : ParamPath} {cause : Cause} {e : PlanError}

/-- The path that a cause prints. -/
def PlanError.Cause.printedPath? : Cause → Option String
  | .unboundSharedParam _ path => some path
  | .unknownSharedField _ path _ _ => some path
  | _ => none

/-- A cause is about a path: it prints the whole of it, and if it names parts of a path, then those are
the root and the first field of this one. -/
inductive PlanError.Cause.IsAbout (p : ParamPath) : Cause → Prop where
  | unbound (operation : String) : IsAbout p (.unboundSharedParam operation p.display)
  | unknownField (operation : String) {field : String} (first : p.rest.head? = some field) :
      IsAbout p (.unknownSharedField operation p.display p.root field)

/-- A path is written as a text, maybe with white space around it. -/
structure ParamPath.WrittenAs (p : ParamPath) (text : String) : Prop where
  /-- The text holds the names along the path, -/
  dotted : Dotted (Text.trimmed text) p.names
  /-- and is what the path is displayed as. -/
  display : p.display = Text.trimmed text

/-! ## Paths in causes -/

theorem PlanError.Cause.IsAbout.printedPath?_eq (h : cause.IsAbout p) :
    cause.printedPath? = some p.display := by
  cases h with
  | unbound => rfl
  | unknownField => rfl

theorem isAbout_of_shareParam {params : Table Param} {operation : String}
    (h : shareParam params operation p = .error cause) : cause.IsAbout p := by
  rcases shareParam_eq_error_iff.1 h with ⟨-, rfl⟩ | ⟨_, -, -, field, hfirst, rfl⟩
  · exact .unbound operation
  · exact .unknownField operation hfirst

theorem sharedParam_of_sharedPath {op : OperationShape} (h : sharedPath? m op = some p) :
    m.sharedParam = some p := by
  unfold sharedPath? at h
  split at h
  · exact h
  · cases h

/-- A member that fails with a path in the cause fails because it shares along that path. -/
theorem isAbout_of_member (h : member catalog st m = .error cause)
    (hprinted : cause.printedPath? = some printed) :
    ∃ p, m.sharedParam = some p ∧ cause.IsAbout p := by
  rcases member_eq_error_iff.1 h with
    ⟨-, rfl⟩ | ⟨op, -, ⟨_, -, rfl⟩ | ⟨hfault, hbind | ⟨-, hresult⟩⟩⟩
  · cases hprinted
  · cases hprinted
  · rcases (bindArgument_eq_error_iff hfault).1 hbind with
      ⟨_, -, -, rfl⟩ | ⟨-, _, -, _, -, -, rfl⟩ | ⟨p, hpath, hshare⟩
    · cases hprinted
    · cases hprinted
    · exact ⟨p, sharedParam_of_sharedPath hpath, isAbout_of_shareParam hshare⟩
  · obtain ⟨_, -, -, rfl⟩ := nameResult_eq_error_iff.1 hresult
    cases hprinted

/-- The path that a failed compilation prints is that of a member. -/
theorem isAbout_of_compile (h : r.compile catalog scope = .error e)
    (hprinted : e.cause.printedPath? = some printed) :
    ∃ m ∈ r.members, ∃ p, m.sharedParam = some p ∧ e.cause.IsAbout p := by
  obtain ⟨before, m, after, _, st, hms, -, hm⟩ :=
    members_eq_error_iff.1 (compile_eq_error_iff.1 h).2
  obtain ⟨p, hp, habout⟩ := isAbout_of_member hm hprinted
  refine ⟨m, ?_, p, hp, habout⟩
  rw [hms]
  exact List.mem_append_right before (List.mem_cons_self ..)

/-! ## Paths in schemas -/

theorem ParamPath.writtenAs_of_parse? {text : String} (h : parse? text = some p) :
    p.WrittenAs text :=
  ⟨parse?_eq_some_iff.1 h, display_of_parse? h⟩

theorem Member.sharedParam_of_resolve {m : Member} {m' : ResolvedMember}
    (h : m.resolve catalog = .ok m') :
    Option.Rel (fun text p => ParamPath.parse? text = some p) m.sharedParam m'.sharedParam := by
  obtain ⟨-, path, hread, rfl⟩ := resolve_eq_ok_iff.1 h
  exact hread

theorem Member.writtenAs_of_resolve {m : Member} {m' : ResolvedMember}
    (h : m.resolve catalog = .ok m') :
    Option.Rel (fun text p => p.WrittenAs text) m.sharedParam m'.sharedParam := by
  generalize hgiven : m.sharedParam = given, hkept : m'.sharedParam = kept
  have hread := sharedParam_of_resolve h
  rw [hgiven, hkept] at hread
  cases hread with
  | none => exact .none
  | some hparse => exact .some (ParamPath.writtenAs_of_parse? hparse)

/-- **Texts and paths denote each other.** A text denotes a path exactly if, less the white space around
it, it is one or more identifiers joined by single dots; the path is then displayed as just that text.
Every path of identifiers is denoted by its display. So what the members of a resolved schema keep of
the texts given for shared parameters can be written again as it was given, and a path that a failed
compilation prints denotes the path that the member at fault keeps. -/
theorem sharedPaths_as_given :
    (∀ text, (∃ p, ParamPath.parse? text = some p) ↔ ∃ ns, Dotted (Text.trimmed text) ns) ∧
      (∀ text p, ParamPath.parse? text = some p → p.WrittenAs text) ∧
      (∀ p : ParamPath, (∀ name ∈ p.names, Naming.IsIdentifier name) →
        ParamPath.parse? p.display = some p) ∧
      ∀ (catalog : Catalog) (s : Schema) (r : ResolvedSchema), s.resolve catalog = .ok r →
        List.Forall₂ (fun m m' => Option.Rel (fun text p => p.WrittenAs text)
          m.sharedParam m'.sharedParam) s.members r.members ∧
        ∀ scope e printed, r.compile catalog scope = .error e →
          e.cause.printedPath? = some printed →
            ∃ m ∈ s.members, ∃ m' ∈ r.members, ∃ text p, m.resolve catalog = .ok m' ∧
              m.sharedParam = some text ∧ m'.sharedParam = some p ∧ e.cause.IsAbout p ∧
              printed = Text.trimmed text ∧ ParamPath.parse? printed = some p := by
  refine ⟨fun text => ⟨?_, ?_⟩, fun text p => ParamPath.writtenAs_of_parse?,
    fun p => ParamPath.parse?_display, fun catalog s r hresolve => ⟨?_, ?_⟩⟩
  · rintro ⟨p, hp⟩
    exact ⟨p.names, ParamPath.parse?_eq_some_iff.1 hp⟩
  · rintro ⟨ns, hdotted⟩
    obtain ⟨p, rfl⟩ := hdotted.exists_path
    exact ⟨p, ParamPath.parse?_eq_some_iff.2 hdotted⟩
  · exact (Schema.forall₂_of_resolve hresolve).imp fun _ _ => Member.writtenAs_of_resolve
  · intro scope e printed hcompile hprinted
    obtain ⟨m', hm', p, hkept, habout⟩ := isAbout_of_compile hcompile hprinted
    obtain ⟨m, hm, hmember⟩ := (Schema.members_of_resolve hresolve).1 m' hm'
    have hread := Member.sharedParam_of_resolve hmember
    rw [hkept] at hread
    generalize hgiven : m.sharedParam = given at hread
    cases hread with
    | @some text _ hparse =>
      have hwritten := ParamPath.writtenAs_of_parse? hparse
      have hdisplay : printed = p.display :=
        Option.some.inj (hprinted.symm.trans habout.printedPath?_eq)
      refine ⟨m, hm, m', hm', text, p, hmember, hgiven, hkept, habout, ?_, ?_⟩
      · rw [hdisplay, hwritten.display]
      · rw [hdisplay]
        exact ParamPath.parse?_display hwritten.dotted.isIdentifier_of_mem

/-- The types of a report with a user. -/
def sharingCatalog : Catalog :=
  { reportCatalog with types := Table.ofList [("Report", Table.ofList [("user", "User")])] }

/-- A report whose second member shares a field that an order does not have, given on a line of its
own. -/
def sharingSchema : Schema :=
  { name := "Report"
    output := some "Report"
    groups :=
      [⟨false, [⟨"GetOrder", none, none, none, false, false⟩,
        ⟨"GetUser", none, some "\n  order_param.owner.id\n", none, false, false⟩]⟩]
    outFile := none }

theorem sharedPaths_as_given_report :
    ∃ r, sharingSchema.resolve sharingCatalog = .ok r ∧
      r.compile sharingCatalog "db" = .error ⟨"Report", .unknownSharedField "GetUser"
        "order_param.owner.id" "order_param" "owner"⟩ ∧
      (∃ m ∈ sharingSchema.members, ∃ m' ∈ r.members, ∃ text p,
        m.resolve sharingCatalog = .ok m' ∧ m.sharedParam = some text ∧ m'.sharedParam = some p ∧
          "order_param.owner.id" = Text.trimmed text ∧
          ParamPath.parse? "order_param.owner.id" = some p) ∧
      ParamPath.parse? (ParamPath.display ⟨"order_param", ["owner", "id"]⟩) =
        some ⟨"order_param", ["owner", "id"]⟩ := by
  obtain ⟨r, hresolve, hcompile⟩ : ∃ r, sharingSchema.resolve sharingCatalog = .ok r ∧
      r.compile sharingCatalog "db" = .error ⟨"Report", .unknownSharedField "GetUser"
        "order_param.owner.id" "order_param" "owner"⟩ :=
    exists_ok_of_any (by decide +kernel)
  obtain ⟨-, -, hread, hstored⟩ := sharedPaths_as_given
  obtain ⟨-, hreported⟩ := hstored sharingCatalog sharingSchema r hresolve
  obtain ⟨m, hm, m', hm', text, p, hmember, hgiven, hkept, -, htext, hparse⟩ :=
    hreported "db" _ _ hcompile rfl
  exact ⟨r, hresolve, hcompile,
    ⟨m, hm, m', hm', text, p, hmember, hgiven, hkept, htext, hparse⟩,
    hread ⟨"order_param", ["owner", "id"]⟩ (by decide)⟩

end Orchestration
