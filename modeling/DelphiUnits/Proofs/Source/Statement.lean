import DelphiUnits.Proofs.Source.Expression
import DelphiUnits.Source.Statement

/-!
# Reading statements that were written

A statement is written as an object whose first member is its tag, followed by all the fields
of its kind. Whether it stands inside another statement makes no difference then, since its tag
is a name and not a position.

The reader of statements recurses on the size of trees. `Statement.ofJson_eq` says what it does
without sizes: it finds the tag, checks the fields, and reads them by kind.

## Main results

* `Statement.ofJson_eq`: the reader of statements as an equation without sizes;
* `Statement.ofJson_toJson`: a statement is read back as itself.
-/

namespace DelphiUnits.Source

/-! ### Variables -/

namespace Variable

/-- A variable is read back as itself. -/
theorem ofJson_toJson (v : Variable) : ofJson v.toJson = some v := by
  obtain ⟨name, type, initializer⟩ := v
  rw [ofJson, toJson, Json.record?_record fieldNames rfl (by decide)]
  change ((Json.optional Json.text? (some (.optionalText type))).bind fun t =>
    (Json.optional Expression.ofJson (some ((initializer.map Expression.toJson).getD .null))).bind
      fun i => some (Variable.mk name t i)) = _
  rw [Json.optional_optionalText, Expression.optional_toJson]
  rfl

/-- What is written of a variable is textual. -/
theorem isTextual_toJson (v : Variable) : v.toJson.isTextual = true := by
  simp [toJson, Expression.isTextual_optional]

end Variable

/-! ### The reader -/

namespace Statement

/-- Read the fields of a statement of a kind. -/
def ofFields (kind : Kind) (field : String → Option Json) : Option Statement :=
  match kind with
  | .declare =>
    (Json.required (itemsOf Variable.ofJson) (field "declarations")).map .declare
  | .evaluate => (Json.required Expression.ofJson (field "expression")).map .evaluate
  | .conditional => do
    let condition ← Json.required Expression.ofJson (field "condition")
    let thenBody ← Json.withDefault [] ofBody (field "thenStatement")
    let elseBody ← Json.optional ofBody (field "elseStatement")
    some (.conditional condition thenBody elseBody)
  | .whileLoop => do
    let condition ← Json.required Expression.ofJson (field "condition")
    let body ← Json.withDefault [] ofBody (field "body")
    some (.whileLoop condition body)
  | .forLoop => do
    let initializer ← Json.optional Expression.ofJson (field "initializer")
    let condition ← Json.optional Expression.ofJson (field "condition")
    let incrementor ← Json.optional Expression.ofJson (field "incrementor")
    let body ← Json.withDefault [] ofBody (field "body")
    some (.forLoop initializer condition incrementor body)
  | .returning => (Json.optional Expression.ofJson (field "expression")).map .returning
  | .block => (Json.required ofBody (field "statements")).map .block
  | .unsupported => some .unsupported

/-- **The reader of statements**: the tag, then the fields of its kind. -/
theorem ofJson_eq (inner : Bool) (j : Json) :
    ofJson inner j =
      (match tagged? j with
      | none => none
      | some (tag, fields) =>
        match Kind.ofTag? inner tag with
        | none => none
        | some kind =>
          if fields.areOf kind.fieldNames then
            ofFields kind fun name => fields.get? kind.fieldNames name
          else none) := by
  rw [ofJson]
  split
  · next htagged => rw [htagged]
  · next tag fields htagged =>
    simp only [htagged]
    cases Kind.ofTag? inner tag with
    | none => rfl
    | some kind =>
      simp only
      split
      · cases kind with
        | conditional =>
            simp only [ofFields]
            generalize fields.get? Kind.conditional.fieldNames "thenStatement" = thenBody
            generalize fields.get? Kind.conditional.fieldNames "elseStatement" = elseBody
            cases thenBody <;> rcases elseBody with _ | (_ | _ | _ | _ | _ | _) <;> rfl
        | whileLoop =>
            simp only [ofFields]
            generalize fields.get? Kind.whileLoop.fieldNames "body" = body
            cases body <;> rfl
        | forLoop =>
            simp only [ofFields]
            generalize fields.get? Kind.forLoop.fieldNames "body" = body
            cases body <;> rfl
        | block =>
            simp only [ofFields]
            generalize fields.get? Kind.block.fieldNames "statements" = body
            cases body <;> rfl
        | _ => rfl
      · rfl

/-! ### Round trip -/

/-- The name of a kind stands for the kind, inside other statements and outside. -/
@[simp] theorem ofTag?_name (inner : Bool) (k : Kind) :
    Kind.ofTag? inner (.text k.name) = some k := by
  cases k <;> rfl

/-- The tag and the fields of a tagged record that was written. -/
theorem tagged?_record (tag : Json) {pairs : List (String × Json)}
    (hkind : "kind" ∉ pairs.map Prod.fst) :
    tagged? (.record (("kind", tag) :: pairs)) = some (tag, .ofPairs pairs) := by
  have hkeys : ∀ m ∈ pairs.map (fun p => ((some p.1, p.2) : Json.Member)),
      m.1 ≠ some "kind" := by
    rintro m hm hmkind
    obtain ⟨p, hp, rfl⟩ := List.mem_map.1 hm
    exact hkind (Option.some.inj hmkind ▸ List.mem_map_of_mem hp)
  rw [Json.record, List.map_cons, tagged?, List.filter_cons_of_pos (by simp),
    List.filter_cons_of_neg (by simp), List.filter_eq_nil_iff.2 (by simpa using hkeys),
    List.filter_eq_self.2 (by simpa using hkeys)]
  rfl

/-- **A written statement is read by its fields.** -/
theorem ofJson_record (inner : Bool) (kind : Kind) {pairs : List (String × Json)}
    (hnames : pairs.map Prod.fst = kind.fieldNames) :
    ofJson inner (.record (tagMember kind :: pairs)) =
      ofFields kind fun name => pairs.lookup name := by
  have hnodup : kind.fieldNames.Nodup := by cases kind <;> decide
  have hkind : "kind" ∉ pairs.map Prod.fst := by
    rw [hnames]
    cases kind <;> decide
  rw [ofJson_eq, tagMember, tagged?_record _ hkind]
  simp only [ofTag?_name, Json.Fields.areOf_ofPairs hnames hnodup, ↓reduceIte,
    Json.Fields.get?_ofPairs]

/-- The declarations of a statement are read back as they are. -/
theorem itemsOf_declarations (vs : List Variable) :
    itemsOf Variable.ofJson (.array (vs.map Variable.toJson)) = some vs := by
  rw [itemsOf]
  induction vs with
  | nil => rfl
  | cons v vs ih =>
      rw [List.map_cons, List.mapM_cons, Variable.ofJson_toJson v, ih]
      rfl

mutual

/-- **A statement is read back as itself**, wherever it stands. -/
theorem ofJson_toJson (inner : Bool) : ∀ s : Statement, ofJson inner s.toJson = some s
  | .declare declarations => by
      rw [toJson, ofJson_record inner .declare rfl]
      change (itemsOf Variable.ofJson (.array (declarations.map Variable.toJson))).map _ = _
      rw [itemsOf_declarations, Option.map_some]
  | .evaluate expression => by
      rw [toJson, ofJson_record inner .evaluate rfl]
      change (Expression.ofJson expression.toJson).map _ = _
      rw [Expression.ofJson_toJson, Option.map_some]
  | .conditional condition thenBody none => by
      rw [toJson, ofJson_record inner .conditional rfl]
      change ((Expression.ofJson condition.toJson).bind fun c =>
        (ofBody (.array (toItems thenBody))).bind fun t => some (conditional c t none)) = _
      rw [Expression.ofJson_toJson, ofBody, ofItems_toItems thenBody]
      rfl
  | .conditional condition thenBody (some elseBody) => by
      rw [toJson, ofJson_record inner .conditional rfl]
      change ((Expression.ofJson condition.toJson).bind fun c =>
        (ofBody (.array (toItems thenBody))).bind fun t =>
          ((ofBody (.array (toItems elseBody))).map some).bind fun e =>
            some (conditional c t e)) = _
      rw [Expression.ofJson_toJson, ofBody, ofItems_toItems thenBody, ofBody,
        ofItems_toItems elseBody]
      rfl
  | .whileLoop condition body => by
      rw [toJson, ofJson_record inner .whileLoop rfl]
      change ((Expression.ofJson condition.toJson).bind fun c =>
        (ofBody (.array (toItems body))).bind fun b => some (whileLoop c b)) = _
      rw [Expression.ofJson_toJson, ofBody, ofItems_toItems body]
      rfl
  | .forLoop initializer condition incrementor body => by
      rw [toJson, ofJson_record inner .forLoop rfl]
      change ((Json.optional Expression.ofJson (some (optionalExpression initializer))).bind
        fun i => (Json.optional Expression.ofJson (some (optionalExpression condition))).bind
        fun c => (Json.optional Expression.ofJson (some (optionalExpression incrementor))).bind
        fun n => (ofBody (.array (toItems body))).bind fun b => some (forLoop i c n b)) = _
      rw [optionalExpression, optionalExpression, optionalExpression, Expression.optional_toJson,
        Expression.optional_toJson, Expression.optional_toJson, ofBody, ofItems_toItems body]
      rfl
  | .returning expression => by
      rw [toJson, ofJson_record inner .returning rfl]
      change (Json.optional Expression.ofJson (some (optionalExpression expression))).map _ = _
      rw [optionalExpression, Expression.optional_toJson, Option.map_some]
  | .block statements => by
      rw [toJson, ofJson_record inner .block rfl]
      change (ofBody (.array (toItems statements))).map _ = _
      rw [ofBody, ofItems_toItems statements, Option.map_some]
  | .unsupported => by
      rw [toJson, ofJson_record inner .unsupported rfl]
      rfl

/-- Statements inside another one are read back as themselves. -/
theorem ofItems_toItems : ∀ ss : List Statement, ofItems (toItems ss) = some ss
  | [] => by rw [toItems, ofItems]
  | s :: ss => by
      rw [toItems, ofItems, ofJson_toJson true s, ofItems_toItems ss]
      rfl

end

mutual

/-- What is written of a statement is textual. -/
theorem isTextual_toJson : ∀ s : Statement, s.toJson.isTextual = true
  | .declare declarations => by simp [toJson, tagMember, Variable.isTextual_toJson]
  | .evaluate expression => by simp [toJson, tagMember, Expression.isTextual_toJson]
  | .conditional condition thenBody none => by
      simpa [toJson, elseToJson, tagMember, Expression.isTextual_toJson] using
        isTextual_toItems thenBody
  | .conditional condition thenBody (some elseBody) => by
      simpa [toJson, elseToJson, tagMember, Expression.isTextual_toJson] using
        ⟨isTextual_toItems thenBody, isTextual_toItems elseBody⟩
  | .whileLoop condition body => by
      simpa [toJson, tagMember, Expression.isTextual_toJson] using isTextual_toItems body
  | .forLoop initializer condition incrementor body => by
      simpa [toJson, tagMember, optionalExpression, Expression.isTextual_optional] using
        isTextual_toItems body
  | .returning expression => by
      simp [toJson, tagMember, optionalExpression, Expression.isTextual_optional]
  | .block statements => by simpa [toJson, tagMember] using isTextual_toItems statements
  | .unsupported => by simp [toJson, tagMember]

/-- What is written of statements is textual. -/
theorem isTextual_toItems : ∀ ss : List Statement, ∀ j ∈ toItems ss, j.isTextual = true
  | [] => by simp [toItems]
  | s :: ss => by
      simp only [toItems, List.forall_mem_cons]
      exact ⟨isTextual_toJson s, isTextual_toItems ss⟩

end

/-- **A statement is read back as itself, up to the bound on the depth.** -/
theorem readsBack : Json.ReadsBack read toJson := by
  intro n s
  have hfits := Json.fits_eq_depth_le n s.toJson (isTextual_toJson s)
  rw [read, ofJson_toJson]
  by_cases hdepth : s.toJson.depth ≤ n
  · rw [if_pos (hfits.2 hdepth), if_pos hdepth]
  · rw [if_neg (mt hfits.1 hdepth), if_neg hdepth]

end Statement

end DelphiUnits.Source
