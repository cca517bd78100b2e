import Orchestration.Generation.Batch
import Orchestration.Proofs.Files.Path

/-!
# Names of artifacts

The built-in templates name an artifact by the stem of its schema and an extension of their own. So
the names of two artifacts are the same only if the stems are, and none of them is the name of a draft.
-/

namespace Orchestration

namespace Render.Template

variable {template : Template} {stem other : String}

/-- The name that a template gives to the artifact with a stem. -/
def fileName (template : Template) (stem : String) : String :=
  stem ++ "." ++ template.extension

/-- The last character of an artifact's name. -/
def lastChar : Template → Char
  | multiQuery => 's'
  | planJson => 'n'

theorem getLast?_fileName (template : Template) (stem : String) :
    (template.fileName stem).toList.getLast? = some template.lastChar := by
  cases template <;> simp [fileName, extension, lastChar]

theorem getLast?_draft (name : String) : (name ++ ".tmp").toList.getLast? = some 'p' := by
  simp

theorem isName_fileName (template : Template) (hslash : '/' ∉ stem.toList) :
    Path.IsName (template.fileName stem) := by
  refine Path.IsName.of_getLast? ?_ (getLast?_fileName template stem) ?_
  · cases template <;> simpa [fileName, extension] using hslash
  · cases template <;> decide

theorem isName_draft (template : Template) (hslash : '/' ∉ stem.toList) :
    Path.IsName (template.fileName stem ++ ".tmp") :=
  (template.isName_fileName hslash).append_tmp

theorem fileName_injective (h : template.fileName stem = template.fileName other) :
    stem = other := by
  unfold fileName at h
  rw [String.append_assoc, String.append_assoc] at h
  exact String.append_left_inj _ |>.1 h

/-- No artifact has the name of a draft. -/
theorem fileName_ne_draft (template : Template) (stem name : String) :
    template.fileName stem ≠ name ++ ".tmp" := by
  intro h
  have hlast := getLast?_fileName template stem
  rw [h, getLast?_draft] at hlast
  cases template <;> cases hlast

end Render.Template

namespace Generator

variable {g : Generator} {s : Schema} {d : Draft} {receiver cratePath : String}

/-- What is to be written for a schema lies in the directory under the name its template gives. -/
theorem exists_template_of_draft (hbuiltin : g.renderer = Renderer.builtin receiver cratePath)
    (h : g.draft s = .ok d) :
    ∃ template, Render.template g.template = .ok template ∧
      d.path = g.outDir.join (template.fileName s.stem) := by
  unfold draft at h
  split at h
  · cases h
  · rename_i p hplan
    cases htemplate : Render.template g.template with
    | error e =>
      unfold render at h
      rw [hbuiltin, Renderer.builtin] at h
      dsimp only at h
      rw [htemplate] at h
      cases h
    | ok template =>
      refine ⟨template, rfl, ?_⟩
      unfold render at h
      rw [hbuiltin, Renderer.builtin] at h
      dsimp only at h
      rw [htemplate] at h
      cases h
      rfl

end Generator

end Orchestration
