import DelphiUnits.Proofs.Json.Record
import DelphiUnits.Source.Expression

/-!
# Reading expressions that were written

An expression is written under the tag of its kind, with all the fields that the kind reads, so
it is read back as it was. That holds of raw expressions too: their own tag is among the known
ones, and what they carry as the name of a kind is a field like any other.

## Main results

* `Expression.ofJson_eq`: the reader of expressions as an equation without sizes;
* `Expression.ofJson_toJson`: an expression is read back as itself.
-/

namespace DelphiUnits.Source.Expression

/-! ### The reader -/

/-- Read the arguments of a call, which may be left out. -/
def argumentsOf : Option Json → Option (List Expression)
  | some (.array items) => ofItems items
  | some _ => none
  | none => some []

/-- **The reader of expressions**, tag by tag. -/
theorem ofJson_eq (j : Json) :
    ofJson j =
      (match Kind.ofTag? (tagOf j) with
      | none => some (rawOf j)
      | some .this => some .this
      | some .identifier => (textField j).map .identifier
      | some .literal => (textField j).map .literal
      | some .raw => do
        let text ← Json.withDefault "" Json.text? (j.get? "text")
        let kind ← Json.optional Json.text? (j.get? "syntaxKind")
        some (.raw text kind)
      | some .binary => do
        let left ← (j.get? "left").bind ofJson
        let operator ← (j.get? "operator").bind Json.text?
        let right ← (j.get? "right").bind ofJson
        let text ← textField j
        some (.binary left operator right text)
      | some .access => do
        let receiver ← (j.get? "expression").bind ofJson
        let name ← (j.get? "name").bind Json.text?
        let text ← textField j
        some (.access receiver name text)
      | some .call => do
        let callee ← (j.get? "expression").bind ofJson
        let arguments ← argumentsOf (j.get? "arguments")
        let text ← textField j
        some (.call callee arguments text)) := by
  rw [ofJson]
  generalize Kind.ofTag? (tagOf j) = tag
  cases tag with
  | none => rfl
  | some kind =>
      -- Only the kinds with parts look their parts up under a proof that these are smaller.
      cases kind with
      | binary =>
          dsimp only
          generalize j.get? "left" = left
          generalize j.get? "right" = right
          cases left <;> cases right <;> rfl
      | access =>
          dsimp only
          generalize j.get? "expression" = receiver
          cases receiver <;> rfl
      | call =>
          dsimp only
          generalize j.get? "expression" = callee
          generalize j.get? "arguments" = arguments
          cases callee <;> rcases arguments with _ | (_ | _ | _ | _ | _ | _) <;> rfl
      | _ => rfl

/-! ### Round trip -/

mutual

/-- **An expression is read back as itself.** -/
theorem ofJson_toJson : ∀ e : Expression, ofJson e.toJson = some e
  | .binary left operator right text => by
      rw [ofJson_eq]
      change ((ofJson left.toJson).bind fun l => (ofJson right.toJson).bind fun r =>
        some (binary l operator r text)) = _
      rw [ofJson_toJson left, ofJson_toJson right]
      rfl
  | .access receiver name text => by
      rw [ofJson_eq]
      change ((ofJson receiver.toJson).bind fun r => some (access r name text)) = _
      rw [ofJson_toJson receiver]
      rfl
  | .this => by rw [ofJson_eq]; rfl
  | .identifier text => by rw [ofJson_eq]; rfl
  | .call callee arguments text => by
      rw [ofJson_eq]
      change ((ofJson callee.toJson).bind fun c => (ofItems (toItems arguments)).bind fun as =>
        some (call c as text)) = _
      rw [ofJson_toJson callee, ofItems_toItems arguments]
      rfl
  | .literal text => by rw [ofJson_eq]; rfl
  | .raw text none => by rw [ofJson_eq]; rfl
  | .raw text (some kind) => by rw [ofJson_eq]; rfl

/-- Expressions are read back as themselves. -/
theorem ofItems_toItems : ∀ es : List Expression, ofItems (toItems es) = some es
  | [] => by rw [toItems, ofItems]
  | e :: es => by
      rw [toItems, ofItems, ofJson_toJson e, ofItems_toItems es]
      rfl

end

/-- No expression is written as `null`. -/
theorem toJson_ne_null (e : Expression) : e.toJson ≠ .null := by
  cases e with
  | raw text kind => cases kind <;> exact Json.noConfusion
  | _ => exact Json.noConfusion

/-- An expression that may be absent is read back as it is. -/
theorem optional_toJson (e : Option Expression) :
    Json.optional ofJson (some ((e.map toJson).getD .null)) = some e := by
  cases e with
  | none => rfl
  | some e =>
      change Json.optional ofJson (some e.toJson) = some (some e)
      rw [Json.optional_some (toJson_ne_null e), ofJson_toJson e, Option.map_some]

mutual

/-- What is written of an expression is textual. -/
theorem isTextual_toJson : ∀ e : Expression, e.toJson.isTextual = true
  | .binary left operator right text => by
      simp [toJson, isTextual_toJson left, isTextual_toJson right]
  | .access receiver name text => by simp [toJson, isTextual_toJson receiver]
  | .this => by simp [toJson]
  | .identifier text => by simp [toJson]
  | .call callee arguments text => by
      simpa [toJson, isTextual_toJson callee] using isTextual_toItems arguments
  | .literal text => by simp [toJson]
  | .raw text none => by simp [toJson]
  | .raw text (some kind) => by simp [toJson]

/-- What is written of expressions is textual. -/
theorem isTextual_toItems : ∀ es : List Expression, ∀ j ∈ toItems es, j.isTextual = true
  | [] => by simp [toItems]
  | e :: es => by
      simp only [toItems, List.forall_mem_cons]
      exact ⟨isTextual_toJson e, isTextual_toItems es⟩

end

/-- What is written of an expression that may be absent is textual. -/
theorem isTextual_optional (e : Option Expression) :
    ((e.map toJson).getD .null).isTextual = true := by
  cases e with
  | none => rfl
  | some e => exact isTextual_toJson e

end DelphiUnits.Source.Expression
