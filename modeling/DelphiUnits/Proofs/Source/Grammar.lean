import Mathlib.Data.List.Forall2
import Mathlib.Logic.Relation
import DelphiUnits.Proofs.Source.Expression

/-!
# The grammar of expressions

A tree whose tag names a known kind has to have the fields of that kind. Some of them hold trees
that are expressions again, and these are the **parts** of the tree. A tree without such a tag is a
raw expression, whatever it is and whatever is inside.

So there is only one reason for which no expression can be read: among the tree, its parts, their
parts and so on is one that has a tag, but not the fields of its kind.

## Main definitions

* `Expression.Kind.tags`, `Expression.Kind.fields`: the tags and the fields of a kind;
* `Expression.Part`, `Expression.Malformed`: the expressions in a tree, and what is wrong with one;
* `Expression.Reads`: the grammar, as a relation between trees and expressions.

## Main results

* `ofJson_eq_none_iff_exists`: what is wrong with a tree, if no expression can be read;
* `ofJson_eq_some_iff`: an expression is read exactly if the grammar says so;
* `ofJson_accepts_grammar`: both, and what follows for texts, raw expressions and literals.
-/

namespace DelphiUnits

/-- Only the tree of a text consists of it. -/
theorem Json.text?_eq_some_iff {j : Json} {text : String} :
    j.text? = some text ↔ j = .text text := by
  cases j <;> simp [Json.text?, Json.text]

namespace Source.Expression

variable {j v : Json} {kind : Kind}

/-! ### Tags -/

/-- The tags of a kind: its name, and for literals one for each type of value. -/
def Kind.tags : Kind → List String
  | .literal => ["Literal", "NumericLiteral", "StringLiteral", "TrueKeyword", "FalseKeyword",
      "NullKeyword"]
  | kind => [kind.name]

/-- The tags are what kinds are recognized by. -/
theorem Kind.ofTag?_eq_some_iff {tag : String} : ofTag? tag = some kind ↔ tag ∈ kind.tags := by
  constructor
  · intro h
    unfold ofTag? at h
    split at h
    all_goals cases h
    all_goals decide
  · cases kind <;> simp only [tags, name, List.mem_cons, List.not_mem_nil, or_false] <;>
      (intro h; rcases h with rfl | rfl | rfl | rfl | rfl | rfl) <;> rfl

/-- No tag is left out. -/
example : [Kind.binary, .access, .this, .identifier, .call, .literal, .raw].flatMap Kind.tags =
    ["BinaryExpression", "PropertyAccessExpression", "ThisExpression", "Identifier",
      "CallExpression", "Literal", "NumericLiteral", "StringLiteral", "TrueKeyword", "FalseKeyword",
      "NullKeyword", "Raw"] := by
  decide

/-- A tree **is of a kind** if it has a tag of that kind. -/
def IsOfKind (kind : Kind) (j : Json) : Prop :=
  ∃ tag ∈ kind.tags, j.get? "kind" = some (.text tag)

/-- The kind that is recognized is the one that a tree is of. -/
theorem ofTag?_tagOf_eq_some_iff : Kind.ofTag? (tagOf j) = some kind ↔ IsOfKind kind j := by
  have hempty : "" ∉ kind.tags := by cases kind <;> decide
  rw [Kind.ofTag?_eq_some_iff, tagOf]
  constructor
  · intro h
    rcases htag : (j.get? "kind").bind Json.text? with _ | tag
    · rw [htag] at h
      exact absurd h hempty
    · rw [htag] at h
      obtain ⟨value, hvalue, htext⟩ := Option.bind_eq_some_iff.mp htag
      exact ⟨tag, h, by rw [hvalue, Json.text?_eq_some_iff.mp htext]⟩
  · rintro ⟨tag, htag, hvalue⟩
    rw [hvalue]
    exact htag

/-- No kind is recognized in a tree that is of none. -/
theorem ofTag?_tagOf_eq_none_iff : Kind.ofTag? (tagOf j) = none ↔ ∀ kind, ¬IsOfKind kind j := by
  simp only [Option.eq_none_iff_forall_ne_some, ne_eq, ofTag?_tagOf_eq_some_iff]

/-! ### Fields and parts -/

/-- What a field of an expression holds. -/
inductive FieldType where
  | text
  | optionalText
  | expression
  | expressions
  deriving DecidableEq, Repr

namespace FieldType

/-- Whether a value has the form that a field asks for. An expression may have any. -/
def Admits : FieldType → Json → Prop
  | .text, value => ∃ text, value = .text text
  | .optionalText, value => ∃ text, value = .optionalText text
  | .expression, _ => True
  | .expressions, value => ∃ items, value = .array items

/-- The expressions that a field holds. -/
def Holds : FieldType → Json → Json → Prop
  | .expression, value, part => part = value
  | .expressions, value, part => ∃ items, value = .array items ∧ part ∈ items
  | _, _, _ => False

end FieldType

/-- A field of an expression. -/
structure Field where
  /-- Its name. -/
  name : String
  /-- What it holds. -/
  type : FieldType
  /-- Whether it has to be there. -/
  isRequired : Bool
  deriving DecidableEq, Repr

/-- **The fields of a kind.** -/
def Kind.fields : Kind → List Field
  | .binary => [⟨"left", .expression, true⟩, ⟨"operator", .text, true⟩,
      ⟨"right", .expression, true⟩, ⟨"text", .text, true⟩]
  | .access => [⟨"expression", .expression, true⟩, ⟨"name", .text, true⟩, ⟨"text", .text, true⟩]
  | .this => []
  | .identifier => [⟨"text", .text, true⟩]
  | .call => [⟨"expression", .expression, true⟩, ⟨"arguments", .expressions, false⟩,
      ⟨"text", .text, true⟩]
  | .literal => [⟨"text", .text, true⟩]
  | .raw => [⟨"text", .text, false⟩, ⟨"syntaxKind", .optionalText, false⟩]

/-- A tree is **malformed** if it is of a known kind and lacks a field of that kind, or has one with
a value of another form. -/
def Malformed (j : Json) : Prop :=
  ∃ kind, IsOfKind kind j ∧ ∃ field ∈ kind.fields,
    (field.isRequired = true ∧ j.get? field.name = none) ∨
      ∃ value, j.get? field.name = some value ∧ ¬field.type.Admits value

/-- The **parts** of a tree are the expressions that the fields of its kind hold. -/
def Part (j part : Json) : Prop :=
  ∃ kind, IsOfKind kind j ∧ ∃ field ∈ kind.fields, ∃ value, j.get? field.name = some value ∧
    field.type.Holds value part

/-- A part is smaller than the tree. -/
theorem Part.sizeOf_lt (h : Part j v) : sizeOf v < sizeOf j := by
  obtain ⟨kind, -, ⟨name, type, isRequired⟩, -, value, hvalue, hholds⟩ := h
  have hsize := Json.sizeOf_get?_lt hvalue
  cases type with
  | expression => exact hholds ▸ hsize
  | expressions =>
      obtain ⟨items, rfl, hmem⟩ := hholds
      have hitem := List.sizeOf_lt_of_mem hmem
      rw [Json.array.sizeOf_spec] at hsize
      omega
  | text => exact hholds.elim
  | optionalText => exact hholds.elim

/-- **Induction over parts.** -/
theorem induction_on_parts {P : Json → Prop} (step : ∀ j, (∀ v, Part j v → P v) → P j) (j : Json) :
    P j :=
  step j fun v _ => induction_on_parts step v
termination_by sizeOf j
decreasing_by exact Part.sizeOf_lt ‹_›

/-- The expression in a field is a part. -/
theorem part_of_field {name : String} (hkind : IsOfKind kind j)
    (hfield : ⟨name, .expression, true⟩ ∈ kind.fields) (hvalue : j.get? name = some v) :
    Part j v :=
  ⟨kind, hkind, _, hfield, v, hvalue, rfl⟩

/-- An argument of a call is a part. -/
theorem part_of_argument {items : List Json} (hkind : IsOfKind .call j)
    (hvalue : (j.get? "arguments").getD (.array []) = .array items) (hmem : v ∈ items) :
    Part j v := by
  refine ⟨.call, hkind, ⟨"arguments", .expressions, false⟩, by decide, ?_⟩
  rcases harguments : j.get? "arguments" with _ | value
  · rw [harguments] at hvalue
    obtain rfl := Json.array.inj hvalue
    exact absurd hmem List.not_mem_nil
  · rw [harguments] at hvalue
    exact ⟨value, rfl, items, hvalue, hmem⟩

/-! ### What is wrong with a tree -/

/-- No expressions can be read if there is one that cannot. -/
theorem ofItems_eq_none_iff {items : List Json} :
    ofItems items = none ↔ ∃ v ∈ items, ofJson v = none := by
  induction items with
  | nil => simp [ofItems]
  | cons item rest ih =>
      rw [ofItems, List.exists_mem_cons_iff, ← ih]
      rcases ofJson item with _ | e <;> rcases ofItems rest with _ | es <;> simp

/-- A value **cannot be read** as what a field holds: it has another form, or holds an expression
that cannot be read. -/
def FieldType.Fails (type : FieldType) (value : Json) : Prop :=
  ¬type.Admits value ∨ ∃ part, type.Holds value part ∧ ofJson part = none

namespace FieldType

theorem fails_text_iff : Fails .text v ↔ v.text? = none := by
  simp [Fails, Admits, Holds, ← Json.text?_eq_some_iff, Option.eq_none_iff_forall_ne_some]

theorem fails_optionalText_iff :
    Fails .optionalText v ↔ Json.optional Json.text? (some v) = none := by
  have hnull (text : Option String) : (Json.null = .optionalText text) ↔ text = none := by
    cases text <;> simp [Json.optionalText, Json.text]
  cases v with
  | null => simp [Fails, Admits, Holds, Json.optional, hnull]
  | string text =>
      cases text <;> simp [Fails, Admits, Holds, Json.optional, Json.text?, Json.text,
        Json.optionalText, Option.exists]
  | _ =>
      simp [Fails, Admits, Holds, Json.optional, Json.text?, Json.optionalText, Json.text,
        Option.forall]

theorem fails_expression_iff : Fails .expression v ↔ ofJson v = none := by
  simp [Fails, Admits, Holds]

theorem fails_expressions_iff : Fails .expressions v ↔ argumentsOf (some v) = none := by
  cases v with
  | array items => simp [Fails, Admits, Holds, argumentsOf, ofItems_eq_none_iff]
  | _ => simp [Fails, Admits, argumentsOf]

end FieldType

/-- A field **cannot be read**: it is missing, or its value cannot be read. -/
def Field.Fails (j : Json) (field : Field) : Prop :=
  (field.isRequired = true ∧ j.get? field.name = none) ∨
    ∃ value, j.get? field.name = some value ∧ field.type.Fails value

section Fields

variable {α : Type} {name : String} {type : FieldType}

/-- A field that has to be there. -/
theorem Field.fails_required_iff {read : Json → Option α} (h : ∀ v, type.Fails v ↔ read v = none) :
    Field.Fails j ⟨name, type, true⟩ ↔ (j.get? name).bind read = none := by
  rcases hvalue : j.get? name with _ | value <;> simp [Field.Fails, hvalue, h]

/-- A field that may be left out. -/
theorem Field.fails_optional_iff {read : Option Json → Option α} (hnone : read none ≠ none)
    (h : ∀ v, type.Fails v ↔ read (some v) = none) :
    Field.Fails j ⟨name, type, false⟩ ↔ read (j.get? name) = none := by
  rcases hvalue : j.get? name with _ | value <;> simp [Field.Fails, hvalue, h, hnone]

end Fields

/-- **No expression can be read** from a tree of a known kind exactly if a field of that kind
cannot. -/
theorem ofJson_eq_none_iff_fields (hkind : IsOfKind kind j) :
    ofJson j = none ↔ ∃ field ∈ kind.fields, field.Fails j := by
  have htext {name : String} : Field.Fails j ⟨name, .text, true⟩ ↔ _ :=
    Field.fails_required_iff fun _ => FieldType.fails_text_iff
  have hpart {name : String} : Field.Fails j ⟨name, .expression, true⟩ ↔ _ :=
    Field.fails_required_iff fun _ => FieldType.fails_expression_iff
  rw [ofJson_eq, ofTag?_tagOf_eq_some_iff.mpr hkind]
  cases kind with
  | binary =>
    simp only [Kind.fields, List.exists_mem_cons_iff, htext, hpart, textField]
    rcases (j.get? "left").bind ofJson <;> rcases (j.get? "operator").bind Json.text? <;>
      rcases (j.get? "right").bind ofJson <;> rcases (j.get? "text").bind Json.text? <;> simp
  | access =>
    simp only [Kind.fields, List.exists_mem_cons_iff, htext, hpart, textField]
    rcases (j.get? "expression").bind ofJson <;> rcases (j.get? "name").bind Json.text? <;>
      rcases (j.get? "text").bind Json.text? <;> simp
  | this => simp [Kind.fields]
  | identifier => simp [Kind.fields, htext, textField]
  | call =>
    have harguments : Field.Fails j ⟨"arguments", .expressions, false⟩ ↔ _ :=
      Field.fails_optional_iff (by simp [argumentsOf]) fun _ => FieldType.fails_expressions_iff
    simp only [Kind.fields, List.exists_mem_cons_iff, htext, hpart, harguments, textField]
    rcases (j.get? "expression").bind ofJson <;> rcases argumentsOf (j.get? "arguments") <;>
      rcases (j.get? "text").bind Json.text? <;> simp
  | literal => simp [Kind.fields, htext, textField]
  | raw =>
    have hdefault : Field.Fails j ⟨"text", .text, false⟩ ↔
        Json.withDefault "" Json.text? (j.get? "text") = none :=
      Field.fails_optional_iff (by simp [Json.withDefault]) fun _ => FieldType.fails_text_iff
    have hkindText : Field.Fails j ⟨"syntaxKind", .optionalText, false⟩ ↔ _ :=
      Field.fails_optional_iff (by simp [Json.optional]) fun _ => FieldType.fails_optionalText_iff
    simp only [Kind.fields, List.exists_mem_cons_iff, hdefault, hkindText]
    rcases Json.withDefault "" Json.text? (j.get? "text") <;>
      rcases Json.optional Json.text? (j.get? "syntaxKind") <;> simp

/-- **What one tree can fail for**: it is malformed, or a part of it cannot be read. -/
theorem ofJson_eq_none_iff : ofJson j = none ↔ Malformed j ∨ ∃ v, Part j v ∧ ofJson v = none := by
  constructor
  · intro h
    rcases htag : Kind.ofTag? (tagOf j) with _ | kind
    · rw [ofJson_eq, htag] at h
      cases h
    · have hkind := ofTag?_tagOf_eq_some_iff.mp htag
      obtain ⟨field, hfield, hmissing | ⟨value, hvalue, hform | ⟨part, hpart, hnone⟩⟩⟩ :=
        (ofJson_eq_none_iff_fields hkind).mp h
      · exact .inl ⟨kind, hkind, field, hfield, .inl hmissing⟩
      · exact .inl ⟨kind, hkind, field, hfield, .inr ⟨value, hvalue, hform⟩⟩
      · exact .inr ⟨part, ⟨kind, hkind, field, hfield, value, hvalue, hpart⟩, hnone⟩
  · rintro (⟨kind, hkind, field, hfield, hmissing | ⟨value, hvalue, hform⟩⟩ |
      ⟨part, ⟨kind, hkind, field, hfield, value, hvalue, hpart⟩, hnone⟩) <;>
      refine (ofJson_eq_none_iff_fields hkind).mpr ⟨field, hfield, ?_⟩
    · exact .inl hmissing
    · exact .inr ⟨value, hvalue, .inl hform⟩
    · exact .inr ⟨value, hvalue, .inr ⟨part, hpart, hnone⟩⟩

/-- **No expression can be read** exactly if the tree is malformed, or a part of it, or a part of a
part, and so on. -/
theorem ofJson_eq_none_iff_exists :
    ofJson j = none ↔ ∃ v, Relation.ReflTransGen Part j v ∧ Malformed v := by
  constructor
  · induction j using induction_on_parts with
    | step j ih =>
      intro h
      rcases ofJson_eq_none_iff.mp h with hmalformed | ⟨part, hpart, hnone⟩
      · exact ⟨j, .refl, hmalformed⟩
      · obtain ⟨v, hreach, hmalformed⟩ := ih part hpart hnone
        exact ⟨v, .head hpart hreach, hmalformed⟩
  · rintro ⟨v, hreach, hmalformed⟩
    induction hreach using Relation.ReflTransGen.head_induction_on with
    | refl => exact ofJson_eq_none_iff.mpr (.inl hmalformed)
    | head hpart _ ih => exact ofJson_eq_none_iff.mpr (.inr ⟨_, hpart, ih⟩)

/-! ### What is read -/

/-- **The grammar**: which expression a tree stands for. -/
inductive Reads : Json → Expression → Prop
  /-- A tree of no known kind, whatever it is. -/
  | other {j : Json} : (∀ kind, ¬IsOfKind kind j) →
      Reads j (.raw ((textField j).getD "") (((j.get? "kind").bind Json.text?).filter (· ≠ "")))
  /-- Two operands and an operator. -/
  | binary {j l r : Json} {left right : Expression} {operator text : String} :
      IsOfKind .binary j → j.get? "left" = some l → Reads l left →
      j.get? "operator" = some (.text operator) → j.get? "right" = some r → Reads r right →
      j.get? "text" = some (.text text) → Reads j (.binary left operator right text)
  /-- A member. -/
  | access {j r : Json} {receiver : Expression} {name text : String} :
      IsOfKind .access j → j.get? "expression" = some r → Reads r receiver →
      j.get? "name" = some (.text name) → j.get? "text" = some (.text text) →
      Reads j (.access receiver name text)
  /-- The current object, whose text is known. -/
  | this {j : Json} : IsOfKind .this j → Reads j .this
  /-- A name. -/
  | identifier {j : Json} {text : String} :
      IsOfKind .identifier j → j.get? "text" = some (.text text) → Reads j (.identifier text)
  /-- A call, whose arguments may be left out. -/
  | call {j c : Json} {callee : Expression} {items : List Json} {arguments : List Expression}
      {text : String} :
      IsOfKind .call j → j.get? "expression" = some c → Reads c callee →
      (j.get? "arguments").getD (.array []) = .array items → List.Forall₂ Reads items arguments →
      j.get? "text" = some (.text text) → Reads j (.call callee arguments text)
  /-- A literal, under any of its tags. -/
  | literal {j : Json} {text : String} :
      IsOfKind .literal j → j.get? "text" = some (.text text) → Reads j (.literal text)
  /-- A raw expression as it is written, whose fields may be left out. -/
  | raw {j : Json} {text : String} {kind : Option String} :
      IsOfKind .raw j → (j.get? "text").getD (.text "") = .text text →
      (j.get? "syntaxKind").getD .null = .optionalText kind → Reads j (.raw text kind)

/-- Expressions are read one by one. -/
theorem ofItems_eq_some_iff {items : List Json} {es : List Expression} :
    ofItems items = some es ↔ List.Forall₂ (fun j e => ofJson j = some e) items es := by
  induction items generalizing es with
  | nil => simp [ofItems, eq_comm]
  | cons item rest ih =>
      rw [ofItems, List.forall₂_cons_left_iff]
      simp only [Option.bind_eq_bind, Option.bind_eq_some_iff, Option.some.injEq, ih]
      constructor
      · rintro ⟨e, he, es, hes, rfl⟩
        exact ⟨e, es, he, hes, rfl⟩
      · rintro ⟨e, es, he, hes, rfl⟩
        exact ⟨e, he, es, hes, rfl⟩

/-- A field with a text. -/
theorem bind_text?_eq_some_iff {name text : String} :
    (j.get? name).bind Json.text? = some text ↔ j.get? name = some (.text text) := by
  rcases j.get? name with _ | value <;> simp [Json.text?_eq_some_iff]

/-- The arguments of a call are read one by one, and none are if they are left out. -/
theorem argumentsOf_eq_some_iff {value : Option Json} {es : List Expression} :
    argumentsOf value = some es ↔ ∃ items, value.getD (.array []) = .array items ∧
      List.Forall₂ (fun j e => ofJson j = some e) items es := by
  rcases value with _ | value
  · simp [argumentsOf, eq_comm]
  · cases value <;> simp [argumentsOf, ofItems_eq_some_iff]

/-- A text that may be left out. -/
theorem withDefault_text?_eq_some_iff {value : Option Json} {default text : String} :
    Json.withDefault default Json.text? value = some text ↔
      value.getD (.text default) = .text text := by
  rcases value with _ | value
  · simp [Json.withDefault, Json.text]
  · simp [Json.withDefault, Json.text?_eq_some_iff]

/-- A text that may be left out or `null`. -/
theorem optional_text?_eq_some_iff {value : Option Json} {text : Option String} :
    Json.optional Json.text? value = some text ↔ value.getD .null = .optionalText text := by
  have hnull : (Json.null = .optionalText text) ↔ text = none := by
    cases text <;> simp [Json.optionalText, Json.text]
  rcases value with _ | value
  · simp [Json.optional, hnull, eq_comm]
  · cases value with
    | null => simp [Json.optional, hnull, eq_comm]
    | string s =>
        cases s <;> cases text <;>
          simp [Json.optional, Json.text?, Json.optionalText, Json.text]
    | _ => cases text <;> simp [Json.optional, Json.text?, Json.optionalText, Json.text]

/-- The raw expression that a tree of no known kind stands for. -/
theorem rawOf_eq (j : Json) :
    rawOf j = .raw ((textField j).getD "") (((j.get? "kind").bind Json.text?).filter (· ≠ "")) := by
  rw [rawOf, textField, tagOf]
  rcases (j.get? "kind").bind Json.text? with _ | tag
  · rfl
  · by_cases htag : tag = "" <;> simp [htag, Option.filter]

/-- What is read from a tree is what the grammar says, if that is so for its parts. -/
theorem reads_of_ofJson (hparts : ∀ v, Part j v → ∀ e, ofJson v = some e → Reads v e)
    {e : Expression} (h : ofJson j = some e) : Reads j e := by
  rw [ofJson_eq] at h
  rcases htag : Kind.ofTag? (tagOf j) with _ | kind <;> rw [htag] at h
  · obtain rfl := Option.some.inj h
    rw [rawOf_eq]
    exact .other (ofTag?_tagOf_eq_none_iff.mp htag)
  have hkind := ofTag?_tagOf_eq_some_iff.mp htag
  have hfield {name : String} {e : Expression} (hname : ⟨name, .expression, true⟩ ∈ kind.fields)
      (h : (j.get? name).bind ofJson = some e) : ∃ v, j.get? name = some v ∧ Reads v e := by
    obtain ⟨v, hv, he⟩ := Option.bind_eq_some_iff.mp h
    exact ⟨v, hv, hparts v (part_of_field hkind hname hv) e he⟩
  cases kind with
  | binary =>
    obtain ⟨left, hleft, h⟩ := Option.bind_eq_some_iff.mp h
    obtain ⟨operator, hoperator, h⟩ := Option.bind_eq_some_iff.mp h
    obtain ⟨right, hright, h⟩ := Option.bind_eq_some_iff.mp h
    obtain ⟨text, htext, h⟩ := Option.bind_eq_some_iff.mp h
    obtain rfl := Option.some.inj h
    obtain ⟨l, hl, hleft⟩ := hfield (by decide) hleft
    obtain ⟨r, hr, hright⟩ := hfield (by decide) hright
    exact .binary hkind hl hleft (bind_text?_eq_some_iff.mp hoperator) hr hright
      (bind_text?_eq_some_iff.mp htext)
  | access =>
    obtain ⟨receiver, hreceiver, h⟩ := Option.bind_eq_some_iff.mp h
    obtain ⟨name, hname, h⟩ := Option.bind_eq_some_iff.mp h
    obtain ⟨text, htext, h⟩ := Option.bind_eq_some_iff.mp h
    obtain rfl := Option.some.inj h
    obtain ⟨r, hr, hreceiver⟩ := hfield (by decide) hreceiver
    exact .access hkind hr hreceiver (bind_text?_eq_some_iff.mp hname)
      (bind_text?_eq_some_iff.mp htext)
  | this =>
    obtain rfl := Option.some.inj h
    exact .this hkind
  | identifier =>
    obtain ⟨text, htext, rfl⟩ := Option.map_eq_some_iff.mp h
    exact .identifier hkind (bind_text?_eq_some_iff.mp htext)
  | call =>
    obtain ⟨callee, hcallee, h⟩ := Option.bind_eq_some_iff.mp h
    obtain ⟨arguments, harguments, h⟩ := Option.bind_eq_some_iff.mp h
    obtain ⟨text, htext, h⟩ := Option.bind_eq_some_iff.mp h
    obtain rfl := Option.some.inj h
    obtain ⟨c, hc, hcallee⟩ := hfield (by decide) hcallee
    obtain ⟨items, hitems, harguments⟩ := argumentsOf_eq_some_iff.mp harguments
    refine .call hkind hc hcallee hitems ?_ (bind_text?_eq_some_iff.mp htext)
    have hmem := (List.forall₂_and_left _ _).mpr ⟨fun v hv => hv, harguments⟩
    exact hmem.imp fun v e ⟨hv, he⟩ => hparts v (part_of_argument hkind hitems hv) e he
  | literal =>
    obtain ⟨text, htext, rfl⟩ := Option.map_eq_some_iff.mp h
    exact .literal hkind (bind_text?_eq_some_iff.mp htext)
  | raw =>
    obtain ⟨text, htext, h⟩ := Option.bind_eq_some_iff.mp h
    obtain ⟨kind, hsyntax, h⟩ := Option.bind_eq_some_iff.mp h
    obtain rfl := Option.some.inj h
    exact .raw hkind (withDefault_text?_eq_some_iff.mp htext)
      (optional_text?_eq_some_iff.mp hsyntax)

/-- What the grammar says is read from a tree, if that is so for its parts. -/
theorem ofJson_of_reads (hparts : ∀ v, Part j v → ∀ e, Reads v e → ofJson v = some e)
    {e : Expression} (h : Reads j e) : ofJson j = some e := by
  rw [ofJson_eq]
  cases h with
  | other hnone => rw [ofTag?_tagOf_eq_none_iff.mpr hnone, rawOf_eq]
  | binary hkind hl hleft hoperator hr hright htext =>
    have hleft := hparts _ (part_of_field hkind (by decide) hl) _ hleft
    have hright := hparts _ (part_of_field hkind (by decide) hr) _ hright
    rw [ofTag?_tagOf_eq_some_iff.mpr hkind]
    simp [hl, hleft, hoperator, hr, hright, textField, htext]
  | access hkind hr hreceiver hname htext =>
    have hreceiver := hparts _ (part_of_field hkind (by decide) hr) _ hreceiver
    rw [ofTag?_tagOf_eq_some_iff.mpr hkind]
    simp [hr, hreceiver, hname, textField, htext]
  | this hkind => rw [ofTag?_tagOf_eq_some_iff.mpr hkind]
  | identifier hkind htext =>
    rw [ofTag?_tagOf_eq_some_iff.mpr hkind]
    simp [textField, htext]
  | call hkind hc hcallee hitems harguments htext =>
    have hcallee := hparts _ (part_of_field hkind (by decide) hc) _ hcallee
    have hmem := (List.forall₂_and_left _ _).mpr ⟨fun v hv => hv, harguments⟩
    have harguments := argumentsOf_eq_some_iff.mpr ⟨_, hitems, hmem.imp fun v e ⟨hv, he⟩ =>
      hparts v (part_of_argument hkind hitems hv) e he⟩
    rw [ofTag?_tagOf_eq_some_iff.mpr hkind]
    simp [hc, hcallee, harguments, textField, htext]
  | literal hkind htext =>
    rw [ofTag?_tagOf_eq_some_iff.mpr hkind]
    simp [textField, htext]
  | raw hkind htext hsyntax =>
    have htext := withDefault_text?_eq_some_iff.mpr htext
    have hsyntax := optional_text?_eq_some_iff.mpr hsyntax
    rw [ofTag?_tagOf_eq_some_iff.mpr hkind]
    simp [htext, hsyntax]

/-- **An expression is read exactly if the grammar says so.** -/
theorem ofJson_eq_some_iff {e : Expression} : ofJson j = some e ↔ Reads j e := by
  induction j using induction_on_parts generalizing e with
  | step j ih =>
    exact ⟨reads_of_ofJson fun v hv e => (ih v hv).mp, ofJson_of_reads fun v hv e => (ih v hv).mpr⟩

/-- A tree is of one kind only. -/
theorem IsOfKind.unique {kind' : Kind} (h : IsOfKind kind j) (h' : IsOfKind kind' j) :
    kind = kind' :=
  Option.some.inj ((ofTag?_tagOf_eq_some_iff.mpr h).symm.trans (ofTag?_tagOf_eq_some_iff.mpr h'))

/-- **The text of an expression** is the one that its tree has, unless it is the current object. If
the tree has none, the expression is raw and its text is empty. -/
theorem Reads.text_cases {e : Expression} (h : Reads j e) :
    IsOfKind .this j ∧ e.text = "this" ∨
      ¬IsOfKind .this j ∧ (j.get? "text" = some (.text e.text) ∨
        textField j = none ∧ ∃ kind, e = .raw "" kind) := by
  have hne {kind : Kind} (hkind : IsOfKind kind j) (hthis : kind ≠ .this) : ¬IsOfKind .this j :=
    fun h => hthis (hkind.unique h)
  cases h with
  | other hnone =>
    refine .inr ⟨hnone .this, ?_⟩
    rcases htext : textField j with _ | text
    · exact .inr ⟨rfl, _, rfl⟩
    · exact .inl (bind_text?_eq_some_iff.mp htext)
  | binary hkind _ _ _ _ _ htext => exact .inr ⟨hne hkind (by decide), .inl htext⟩
  | access hkind _ _ _ htext => exact .inr ⟨hne hkind (by decide), .inl htext⟩
  | this hkind => exact .inl ⟨hkind, rfl⟩
  | identifier hkind htext => exact .inr ⟨hne hkind (by decide), .inl htext⟩
  | call hkind _ _ _ _ htext => exact .inr ⟨hne hkind (by decide), .inl htext⟩
  | literal hkind htext => exact .inr ⟨hne hkind (by decide), .inl htext⟩
  | raw hkind htext _ =>
    refine .inr ⟨hne hkind (by decide), ?_⟩
    rcases hvalue : j.get? "text" with _ | value
    · rw [hvalue] at htext
      cases htext
      refine .inr ⟨?_, _, rfl⟩
      rw [textField, hvalue]
      rfl
    · rw [hvalue] at htext
      exact .inl (congrArg some htext)

/-- **The reader accepts exactly its grammar.** From a tree no expression can be read exactly if it
is malformed, or a part of it is, at any depth. What is read otherwise is what the grammar says. A
tree of no known kind is a raw expression wherever it stands; the text of an expression is that of
its tree; and under each of the six tags of a literal stands a literal. -/
theorem ofJson_accepts_grammar (j : Json) :
    (ofJson j = none ↔ ∃ v, Relation.ReflTransGen Part j v ∧ Malformed v) ∧
    (∀ e, ofJson j = some e ↔ Reads j e) ∧
    ((∀ kind, ¬IsOfKind kind j) →
      ofJson j = some (.raw ((textField j).getD "")
        (((j.get? "kind").bind Json.text?).filter (· ≠ "")))) ∧
    (∀ e, ofJson j = some e →
      IsOfKind .this j ∧ e.text = "this" ∨
        ¬IsOfKind .this j ∧ (j.get? "text" = some (.text e.text) ∨
          textField j = none ∧ ∃ kind, e = .raw "" kind)) ∧
    ∀ tag ∈ ["Literal", "NumericLiteral", "StringLiteral", "TrueKeyword", "FalseKeyword",
        "NullKeyword"],
      j.get? "kind" = some (.text tag) → ofJson j = (textField j).map .literal := by
  refine ⟨ofJson_eq_none_iff_exists, fun e => ofJson_eq_some_iff,
    fun hnone => ofJson_eq_some_iff.mpr (.other hnone),
    fun e he => (ofJson_eq_some_iff.mp he).text_cases, fun tag htag hvalue => ?_⟩
  have hkind : IsOfKind .literal j := ⟨tag, htag, hvalue⟩
  rw [ofJson_eq, ofTag?_tagOf_eq_some_iff.mpr hkind]

end Source.Expression

end DelphiUnits
