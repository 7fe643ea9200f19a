import DelphiUnits.Proofs.Source.Statement
import DelphiUnits.Source.Document

/-!
# Reading documents that were written

The text of a document is read back as the document, provided it is not nested too deep. The
bound is sharp: a text that goes beyond it is refused, whatever it holds.

Each kind of declaration has a reader that reads back what is written of it up to the bound,
and `Document.parse_render` puts them together with the reading and the nesting of texts.

## Main results

* `Function.readsBack`, `Class.readsBack`, `Document.readsBack`: trees of declarations;
* `Document.parse_render`: the text of a document.
-/

namespace DelphiUnits.Source

open Json (ReadsBack)

/-! ### Imports and parameters -/

/-- An import is read back as itself. -/
theorem Import.readsBack : ReadsBack Import.read Import.toJson := by
  refine .recordOf (fun _ => rfl) (by decide) fun n i => ?_
  simp [Json.required]

/-- A parameter is read back as itself. -/
theorem Parameter.readsBack : ReadsBack Parameter.read Parameter.toJson := by
  refine .recordOf (fun _ => rfl) (by decide) fun n p => ?_
  simp [List.lookup_cons, Json.required]

/-! ### Functions -/

/-- **A function is read back as itself**, up to the bound on the depth. -/
theorem Function.readsBack : ReadsBack Function.read Function.toJson := by
  refine .recordOf (fun _ => rfl) (by decide) fun n f => ?_
  have hparameters := Parameter.readsBack.listOf n f.parameters
  have hbody := Statement.readsBack.listOf n f.body
  simp only [Json.withDefault, List.lookup_cons_self, List.lookup_cons, String.reduceBEq,
    Json.optional_optionalText, Json.bool?_bool, hparameters, hbody, Option.bind_eq_bind,
    Option.bind_some, Json.bind_ite_depth, Json.depthOfFields_cons, Json.depthOfFields_nil,
    Json.depth_optionalText, Json.depth_bool, Nat.zero_le, Nat.max_eq_left, Nat.max_eq_right,
    Nat.max_le, ite_and]

/-! ### Classes -/

/-- A visibility is read back as itself. -/
theorem Visibility.read_toJson (n : Nat) (v : Visibility) :
    Visibility.read n v.toJson = some v := by
  cases n <;> cases v <;> rfl

/-- A property is read back as itself. -/
theorem Property.readsBack : ReadsBack Property.read Property.toJson := by
  refine .recordOf (fun _ => rfl) (by decide) fun n p => ?_
  have hvisibility : Json.optional (Visibility.read n)
      (some ((p.visibility.map Visibility.toJson).getD .null)) = some p.visibility := by
    cases p.visibility with
    | none => rfl
    | some v =>
        change (Visibility.read n v.toJson).map some = _
        rw [Visibility.read_toJson, Option.map_some]
  have hdepth : ((p.visibility.map Visibility.toJson).getD .null).depth = 0 := by
    cases p.visibility <;> rfl
  simp [List.lookup_cons, Json.required, Json.withDefault, hvisibility, hdepth]

/-- **A class is read back as itself**, up to the bound on the depth. -/
theorem Class.readsBack : ReadsBack Class.read Class.toJson := by
  refine .recordOf (fun _ => rfl) (by decide) fun n c => ?_
  have hproperties := Property.readsBack.listOf n c.properties
  simp [List.lookup_cons, Json.required, Json.withDefault, hproperties, Json.bind_ite_depth]

/-! ### Documents -/

namespace Document

/-- **The tree of a document is read back as the document**, up to the bound on the depth. -/
theorem readsBack_toJson : ReadsBack Document.read Document.toJson := by
  refine .recordOf (fun _ => rfl) (by decide) fun n d => ?_
  have himports := Import.readsBack.listOf n d.imports
  have hfunctions := Function.readsBack.listOf n d.functions
  have hclasses := Class.readsBack.listOf n d.classes
  simp only [Json.withDefault, List.lookup_cons_self, List.lookup_cons, String.reduceBEq, himports,
    hfunctions, hclasses, Option.bind_eq_bind, Json.bind_ite_depth, Json.depthOfFields_cons,
    Json.depthOfFields_nil, Nat.zero_le, Nat.max_eq_left, Nat.max_le, ite_and]

/-- What is written of a document is textual. -/
theorem isTextual_toJson (d : Document) : d.toJson.isTextual = true := by
  have himport (i : Import) : i.toJson.isTextual = true := by simp [Import.toJson]
  have hparameter (p : Parameter) : p.toJson.isTextual = true := by simp [Parameter.toJson]
  have hfunction (f : Function) : f.toJson.isTextual = true := by
    simp [Function.toJson, hparameter, Statement.isTextual_toJson]
  have hproperty (p : Property) : p.toJson.isTextual = true := by
    have hvisibility : ((p.visibility.map Visibility.toJson).getD .null).isTextual = true := by
      cases p.visibility <;> rfl
    simp [Property.toJson, hvisibility]
  have hclass (c : Class) : c.toJson.isTextual = true := by simp [Class.toJson, hproperty]
  simp [toJson, himport, hfunction, hclass]

/-- **The text of a document is read back as the document** exactly if no more arrays and
objects are open at once in it than may be; else it is refused. -/
theorem parse_render (d : Document) :
    parse d.render =
      if Json.nesting d.render ≤ Json.maxDepth then .ok d else .error .malformed := by
  have htextual := isTextual_toJson d
  rw [parse, parseNode?, render, Json.parse?_render htextual, Json.nesting_render htextual,
    Option.bind_some, readsBack_toJson]
  by_cases h : d.toJson.depth ≤ Json.maxDepth
  · rw [if_pos h, if_pos h]
  · rw [if_neg h, if_neg h]

end Document

end DelphiUnits.Source
