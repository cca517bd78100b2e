import Orchestration.Proofs.Catalog.Agreement
import Orchestration.Proofs.TypeExpr.Display

/-!
# Arguments and the names of their types

A catalog keeps the argument of an operation with the name of its type: the printed form of what follows
the context, without the reference in front of a composite. This name denotes a shape in turn, and the
argument is what that shape is as an argument. So the name of the type decides the argument, whichever
operation takes it.
-/

namespace Orchestration

open TypeExpr

/-- What a shape is as an argument: a composite with its fields, or a plain value by its printed form. -/
def TypeShape.asArgument : TypeShape → Argument
  | struct name fields => .composite name fields
  | shape => .plain shape.display

theorem Argument.ifNamed_of_ne_none {a : Argument} (h : a.ifNamed ≠ .none) : a.ifNamed = a := by
  unfold ifNamed at h ⊢
  split at h
  · exact absurd rfl h
  · next hnamed => rw [if_neg hnamed]

namespace TypeShape

variable {shape : TypeShape}

theorem typeName_asArgument (shape : TypeShape) : shape.asArgument.typeName = shape.display := by
  cases shape <;> rfl

theorem IsKnown.innermost (h : shape.IsKnown) : shape.innermost.IsKnown := by
  induction shape with
  | ref inner ih => exact ih h
  | list element ih => exact ih h
  | _ => exact h

theorem IsKnown.display_innermost (h : shape.IsKnown) : shape.innermost.display = shape.baseName := by
  induction shape with
  | ref inner ih => exact ih h
  | list element ih => exact ih h
  | unknown text => exact h.elim
  | _ => rfl

end TypeShape

namespace OperationShape

variable {inputs : List TypeShape} {argument : Argument} {name : String} {s : Signature}

/-- An argument follows the context. It is the shape that stands there, or the composite that this shape
refers to. -/
theorem exists_shape_of_argumentOf (h : argumentOf inputs = .ok argument)
    (hargument : argument ≠ .none) :
    ∃ shape, inputs = [.context, shape] ∧ (∀ text, shape ≠ .unknown text) ∧
      (argument = shape.asArgument ∨ argument = shape.innermost.asArgument) := by
  unfold argumentOf at h
  split at h
  · cases h
  · split at h
    · cases h
      exact absurd rfl hargument
    · next shape =>
      refine ⟨shape, rfl, ?_⟩
      split at h
      · next composite fields hcomposite =>
        cases h
        unfold TypeShape.composite? at hcomposite
        split at hcomposite <;> cases hcomposite
        · exact ⟨nofun, Or.inl rfl⟩
        · exact ⟨nofun, Or.inr rfl⟩
      · split at h <;> cases h <;> exact ⟨nofun, Or.inl rfl⟩
    · cases h
  · cases h

theorem argumentOf_of_ofSignature (h : (ofSignature name s).fault = none)
    (hargument : (ofSignature name s).argument ≠ .none) :
    argumentOf s.inputs = .ok (ofSignature name s).argument := by
  unfold ofSignature at h hargument ⊢
  split at h
  · cases h
  · next hresult =>
    split at h
    · cases h
    · next hinputs =>
      simp only [hresult, hinputs] at hargument ⊢
      rw [Argument.ifNamed_of_ne_none hargument]

end OperationShape

/-- The inputs of a signature are read from type expressions. -/
theorem exists_expr_of_resolve {d : Descriptor} {name : String} {sig : Signature} {shape : TypeShape}
    (h : (Registry.ofDescriptor d).resolve name = some sig) (hshape : shape ∈ sig.inputs) :
    ∃ expr, parse (Registry.typesOf d.types) expr = shape := by
  rw [Registry.resolve_ofDescriptor] at h
  obtain ⟨entry, -, rfl⟩ := Option.map_eq_some_iff.1 h
  obtain ⟨expr, -, hexpr⟩ := List.mem_map.1 hshape
  exact ⟨expr, hexpr⟩

theorem TypeExpr.isKnown_parse {types : TypeTable} {expr : String}
    (hknown : ∀ text, parse types expr ≠ .unknown text) : (parse types expr).IsKnown := by
  obtain ⟨t, ht⟩ := exists_derives hknown
  have hread : parse types expr = t.denote types := ht.read_eq
  rw [hread]
  exact isKnown_denote types t

namespace Catalog

variable {d : Descriptor} {name name' : String} {op op' : OperationShape}

/-- The type of an argument names a shape with the innermost name that the signature writes, and the
argument is what this shape is as an argument. -/
theorem exists_shape_of_argument (hop : (ofDescriptor d).get? name = some op)
    (hfault : op.fault = none) (hargument : op.argument ≠ .none) :
    ∃ sig shape denoted, (Registry.ofDescriptor d).resolve name = some sig ∧
      sig.inputs = [.context, shape] ∧ denoted.IsKnown ∧ denoted.baseName = shape.baseName ∧
        op.argument = denoted.asArgument ∧
          parse (ofDescriptor d).types op.argument.typeName = denoted := by
  unfold ofDescriptor at hop
  rw [get?_ofRegistry] at hop
  split at hop
  · cases hop
  obtain ⟨sig, hsig, rfl⟩ := Option.map_eq_some_iff.1 hop
  obtain ⟨shape, hinputs, hknown, hshape⟩ := OperationShape.exists_shape_of_argumentOf
    (OperationShape.argumentOf_of_ofSignature hfault hargument) hargument
  have hmem : shape ∈ sig.inputs := by
    rw [hinputs]
    exact List.mem_cons_of_mem _ (List.mem_singleton_self shape)
  obtain ⟨expr, rfl⟩ := exists_expr_of_resolve hsig hmem
  have hshapeKnown := isKnown_parse hknown
  rcases hshape with hshape | hshape
  · refine ⟨sig, _, _, hsig, hinputs, hshapeKnown, rfl, hshape, ?_⟩
    rw [hshape, TypeShape.typeName_asArgument]
    exact parse_display hknown
  · refine ⟨sig, _, _, hsig, hinputs, hshapeKnown.innermost, baseName_innermost _, hshape, ?_⟩
    rw [hshape, TypeShape.typeName_asArgument, hshapeKnown.display_innermost]
    exact parse_baseName hknown

/-- Operations whose arguments have types of one name take the same argument. -/
theorem argument_eq_of_typeName (hop : (ofDescriptor d).get? name = some op)
    (hop' : (ofDescriptor d).get? name' = some op') (hfault : op.fault = none)
    (hfault' : op'.fault = none) (hargument : op.argument ≠ .none) (hargument' : op'.argument ≠ .none)
    (htype : op.argument.typeName = op'.argument.typeName) : op.argument = op'.argument := by
  obtain ⟨_, _, denoted, -, -, -, -, harg, hparse⟩ := exists_shape_of_argument hop hfault hargument
  obtain ⟨_, _, denoted', -, -, -, -, harg', hparse'⟩ :=
    exists_shape_of_argument hop' hfault' hargument'
  rw [harg, harg', ← hparse, ← hparse', htype]

end Catalog

end Orchestration
