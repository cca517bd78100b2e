import Orchestration.Proofs.Naming.ModulePath
import Orchestration.Proofs.Plan.Walk
import Orchestration.Proofs.Text.Segments
import Orchestration.Render.MultiQuery

/-!
# Code and comments of the method template

The namespace of a plan, and the fingerprint that depends on it, stand in comments at the top of the
generated text. What a namespace brings in besides is what it holds after its first line break: those
lines are lines of the text, and those of them that are no comments are code.
-/

namespace Orchestration.Render.MultiQuery

open Text

variable {cs rest : List Char} {p : Plan} {frame : Frame}

/-! ## Lines of code -/

/-- Whether a line is something other than a comment. -/
def isCode (line : List Char) : Bool :=
  !(['/', '/'].isPrefixOf line)

/-- The lines of some characters that are no comments. -/
def codeOf (cs : List Char) : List (List Char) :=
  (segments '\n' cs).filter isCode

/-- The lines of a text that are no comments. -/
def codeLines (text : String) : List (List Char) :=
  codeOf text.toList

/-- The code that a text brings in when it stands at the end of a comment: its lines after the first,
less the comments among them. -/
def smuggled (text : String) : List (List Char) :=
  (segments '\n' text.toList).tail.filter isCode

theorem codeOf_append_newline (cs rest : List Char) :
    codeOf (cs ++ '\n' :: rest) = codeOf cs ++ codeOf rest := by
  rw [codeOf, segments_append_sep, List.filter_append]
  rfl

/-- The characters of lines that each end in a line break. -/
def ended (ls : List String) : List Char :=
  ls.flatMap fun l => l.toList ++ ['\n']

theorem codeOf_ended (ls : List String) :
    codeOf (ended ls) = (ls.flatMap fun l => codeOf l.toList) ++ [[]] := by
  induction ls with
  | nil => rfl
  | cons l ls ih =>
    have hcons : ended (l :: ls) = l.toList ++ '\n' :: ended ls := by
      simp [ended]
    rw [hcons, codeOf_append_newline, ih, List.flatMap_cons, List.append_assoc]

theorem toList_render (p : Plan) (frame : Frame) : (render p frame).toList = ended (lines p frame) := by
  simp [render, ended, String.toList_join, List.flatMap_map]

/-! ## Comments -/

/-- A text at the end of a comment brings in its lines after the first. -/
theorem codeOf_comment {mark : String} (hmark : ['/', '/'].isPrefixOf mark.toList = true)
    (hline : '\n' ∉ mark.toList) (text : String) : codeOf (mark ++ text).toList = smuggled text := by
  obtain ⟨first, hfirst⟩ := segments_append_of_notMem hline text.toList
  have hcomment : isCode (mark.toList ++ first) = false := by
    obtain ⟨rest, hrest⟩ := List.isPrefixOf_iff_prefix.1 hmark
    rw [← hrest]
    rfl
  rw [codeOf, String.toList_append, hfirst, List.filter_cons, hcomment]
  rfl

theorem smuggled_of_notMem {text : String} (h : '\n' ∉ text.toList) : smuggled text = [] := by
  rw [smuggled, segments_of_notMem h]
  rfl

/-- A path of identifiers is one line. -/
theorem smuggled_of_isModulePath {text : String} (h : Naming.isModulePath text.toList = true) :
    smuggled text = [] :=
  smuggled_of_notMem ((Naming.isModulePath_iff.1 h).notMem (by decide) (by decide))

theorem newline_notMem_hexByte (b : UInt8) : '\n' ∉ Digest.hexByte b := by
  have hdigit : ∀ n < 16, Json.hexDigit n ≠ '\n' := by decide
  have hbyte := b.toNat_lt
  rw [Digest.hexByte, List.mem_cons, List.mem_singleton, not_or]
  exact ⟨(hdigit _ (by omega)).symm, (hdigit _ (by omega)).symm⟩

theorem newline_notMem_fingerprint (p : Plan) : '\n' ∉ (Digest.ofPlan p).toList := by
  simp only [Digest.ofPlan, Digest.ofText, String.toList_append, String.toList_ofList,
    List.mem_append, not_or]
  refine ⟨by decide, fun hmem => ?_⟩
  obtain ⟨b, -, hb⟩ := List.mem_flatMap.1 hmem
  exact newline_notMem_hexByte b hb

/-! ## The namespace in the generated text -/

/-- The lines after the comments at the top. -/
def body (p : Plan) (frame : Frame) : List String :=
  imports frame ++ paramStruct p frame ++ opening p frame
    ++ (p.groups.zipIdx.flatMap fun e => group p frame e.1 e.2) ++ closing p

/-- The comment that names the generator and the schema. -/
def origin (p : Plan) : String :=
  "// Code generated by " ++ generatorName ++ " from schema " ++ p.name ++ ". DO NOT EDIT."

/-- What the namespace brings in is all that depends on it: the rest of the code is the same whatever
the namespace is. -/
theorem codeLines_render (p : Plan) (scope : String) (frame : Frame) :
    codeLines (render { p with scope := scope } frame) =
      codeOf (origin p).toList ++ (smuggled scope ++
        (smuggled (frame.output.fileName?.getD "") ++
          (([""] ++ body p frame).flatMap fun l => codeOf l.toList) ++ [[]])) := by
  have hlines : lines { p with scope := scope } frame =
      origin p :: ("// namespace: " ++ scope) :: ("// file: " ++ frame.output.fileName?.getD "") ::
        ("// plan: " ++ Digest.ofPlan { p with scope := scope }) :: ([""] ++ body p frame) := by
    simp only [lines, body, List.append_assoc]
    rfl
  have hplan : codeOf ("// plan: " ++ Digest.ofPlan { p with scope := scope }).toList = [] :=
    (codeOf_comment (by decide) (by decide) _).trans
      (smuggled_of_notMem (newline_notMem_fingerprint _))
  have hscope : codeOf ("// namespace: " ++ scope).toList = smuggled scope :=
    codeOf_comment (by decide) (by decide) _
  have hfile : codeOf ("// file: " ++ frame.output.fileName?.getD "").toList =
      smuggled (frame.output.fileName?.getD "") :=
    codeOf_comment (by decide) (by decide) _
  rw [codeLines, toList_render, codeOf_ended, hlines]
  simp only [List.flatMap_cons, hscope, hfile, hplan, List.nil_append, List.append_assoc]

/-- **Two plans that differ in their namespaces alone have the same code if and only if their
namespaces bring in the same code.** A namespace that a configuration may give brings in none. -/
theorem codeLines_render_eq_iff (p : Plan) (a b : String) (frame : Frame) :
    (codeLines (render { p with scope := a } frame) =
        codeLines (render { p with scope := b } frame) ↔ smuggled a = smuggled b) ∧
      (Naming.isModulePath a.toList = true → smuggled a = []) := by
  refine ⟨?_, smuggled_of_isModulePath⟩
  rw [codeLines_render, codeLines_render, List.append_cancel_left_eq, List.append_cancel_right_eq]

/-- The namespace is handed on to the plan as it is, and nothing else depends on it. -/
theorem compile_of_scope {catalog : Catalog} {s : ResolvedSchema} {a : String}
    (h : s.compile catalog a = .ok p) (b : String) :
    p = { p with scope := a } ∧ s.compile catalog b = .ok { p with scope := b } := by
  obtain ⟨groups, st, hgroups, rfl⟩ := compile_eq_ok_iff_groups.1 h
  exact ⟨rfl, compile_eq_ok_iff_groups.2 ⟨groups, st, hgroups, rfl⟩⟩

/-- A plan whose namespace has a line break is compiled and rendered like any other, and the second
line of the namespace is a line of code. -/
theorem codeLines_injected :
    ∃ p, reportSchema.compile reportCatalog "db" = .ok p ∧
      reportSchema.compile reportCatalog "db\nmod backdoor;" =
        .ok { p with scope := "db\nmod backdoor;" } ∧
      codeLines (render p ⟨"Queries", "querygen", ⟨"gen/report.rs"⟩⟩) ≠
        codeLines (render { p with scope := "db\nmod backdoor;" }
          ⟨"Queries", "querygen", ⟨"gen/report.rs"⟩⟩) := by
  obtain ⟨p, hp⟩ := reportSchema_compiles
  obtain ⟨hscope, hother⟩ := compile_of_scope hp "db\nmod backdoor;"
  refine ⟨p, hp, hother, ?_⟩
  rw [hscope, codeLines_render, codeLines_render]
  -- all but the code of the namespaces is the same
  intro heq
  have hsmuggled := List.append_cancel_right (List.append_cancel_left heq)
  exact absurd hsmuggled (by decide)

end Orchestration.Render.MultiQuery
