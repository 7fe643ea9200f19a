import DelphiUnits.Json.Parser
import DelphiUnits.Json.Printer
import DelphiUnits.Proofs.Json.Scanning

/-!
# Reading what was written

A tree that is written compactly is read back as itself. The statement is about **textual**
trees: they hold no numbers and no literal without a text, and so each of their tokens scans
back to itself.

The reader is a machine with a stack, and what it does with the tokens of a tree does not
depend on the stack or on the tokens that follow: from the place where a value has to come, it
reaches the place where that value is complete, over the same stack.

## Main results

* `Reading.run_tokens`: the machine reads the tokens of a tree as the tree;
* `parse?_render`: a textual tree is read back as itself.
-/

namespace DelphiUnits.Json

/-! ### Textual trees -/

mutual

/-- Whether a tree is **textual**: there are no numbers in it, and its literals have a text. -/
def isTextual : Json → Bool
  | .null => true
  | .bool _ => true
  | .number _ => false
  | .string s => s.isSome
  | .array items => areTextual items
  | .object members => membersAreTextual members

/-- Whether all items are textual. -/
def areTextual : List Json → Bool
  | [] => true
  | item :: rest => item.isTextual && areTextual rest

/-- Whether all members are textual, keys and values. -/
def membersAreTextual : List Member → Bool
  | [] => true
  | (key, value) :: rest => key.isSome && value.isTextual && membersAreTextual rest

end

/-- An array is textual if its items are. -/
@[simp] theorem isTextual_array (items : List Json) :
    (array items).isTextual = items.all isTextual := by
  rw [isTextual]
  induction items with
  | nil => rfl
  | cons item rest ih => rw [areTextual, ih, List.all_cons]

/-- A record is textual if the values of its fields are. -/
@[simp] theorem isTextual_record (fields : List (String × Json)) :
    (record fields).isTextual = fields.all (·.2.isTextual) := by
  rw [record, isTextual]
  induction fields with
  | nil => rfl
  | cons field rest ih =>
      rw [List.map_cons, membersAreTextual, ih, List.all_cons, Option.isSome_some, Bool.true_and]

@[simp] theorem isTextual_text (s : String) : (text s).isTextual = true := rfl

@[simp] theorem isTextual_bool (b : Bool) : (bool b).isTextual = true := rfl

@[simp] theorem isTextual_null : null.isTextual = true := rfl

@[simp] theorem isTextual_optionalText (s : Option String) :
    (optionalText s).isTextual = true := by
  cases s <;> rfl

mutual

/-- The tokens of a tree are textual exactly if the tree is. -/
theorem all_tokens : ∀ j : Json, j.tokens.all Token.isTextual = j.isTextual
  | .null => rfl
  | .bool _ => rfl
  | .number _ => rfl
  | .string s => by simp [tokens, isTextual, Token.isTextual]
  | .array items => by rw [tokens, isTextual, List.all_cons, all_itemTokens items]; rfl
  | .object members => by rw [tokens, isTextual, List.all_cons, all_memberTokens members]; rfl

/-- The tokens of the items of an array are textual exactly if the items are. -/
theorem all_itemTokens : ∀ items : List Json,
    (itemTokens items).all Token.isTextual = areTextual items
  | [] => rfl
  | item :: rest => by
      rw [itemTokens, areTextual, List.all_append, all_tokens item, all_moreItemTokens rest]

/-- The tokens of further items are textual exactly if the items are. -/
theorem all_moreItemTokens : ∀ items : List Json,
    (moreItemTokens items).all Token.isTextual = areTextual items
  | [] => rfl
  | item :: rest => by
      rw [moreItemTokens, areTextual, List.all_append, List.all_cons, all_tokens item,
        all_moreItemTokens rest]
      rfl

/-- The tokens of the members of an object are textual exactly if the members are. -/
theorem all_memberTokens : ∀ members : List Member,
    (memberTokens members).all Token.isTextual = membersAreTextual members
  | [] => rfl
  | (key, value) :: rest => by
      rw [memberTokens, membersAreTextual, List.all_append, List.all_cons, List.all_cons,
        all_tokens value, all_moreMemberTokens rest]
      rfl

/-- The tokens of further members are textual exactly if the members are. -/
theorem all_moreMemberTokens : ∀ members : List Member,
    (moreMemberTokens members).all Token.isTextual = membersAreTextual members
  | [] => rfl
  | (key, value) :: rest => by
      rw [moreMemberTokens, membersAreTextual, List.all_append, List.all_cons, List.all_cons,
        List.all_cons, all_tokens value, all_moreMemberTokens rest]
      rfl

end

/-! ### The machine -/

namespace Reading

/-- Running on a list of tokens takes the first one. -/
theorem run_cons (r : Reading) (t : Token) (ts : List Token) :
    run r (t :: ts) = (r.step t).bind (run · ts) := by
  rw [run]
  cases r.step t <;> rfl

/-- At the start of an array a tree is read as the first item. -/
theorem run_arrayStart (stack : List Frame) (j : Json) (rest : List Token) :
    run (.arrayStart stack) (j.tokens ++ rest) =
      run (.value (.array [] :: stack)) (j.tokens ++ rest) := by
  cases j <;> rfl

mutual

/-- **The machine reads the tokens of a tree as the tree**, over any stack and whatever
follows. -/
theorem run_tokens : ∀ (j : Json) (stack : List Frame) (rest : List Token),
    run (.value stack) (j.tokens ++ rest) = run (.complete j stack) rest
  | .null, _, _ => rfl
  | .bool _, _, _ => rfl
  | .number _, _, _ => rfl
  | .string _, _, _ => rfl
  | .array items, stack, rest => by
      rw [tokens, List.cons_append, run_cons]
      exact run_itemTokens items stack rest
  | .object members, stack, rest => by
      rw [tokens, List.cons_append, run_cons]
      exact run_memberTokens members stack rest

/-- From the start of an array its items complete it. -/
theorem run_itemTokens : ∀ (items : List Json) (stack : List Frame) (rest : List Token),
    run (.arrayStart stack) (itemTokens items ++ rest) = run (.complete (.array items) stack) rest
  | [], _, _ => rfl
  | item :: items, stack, rest => by
      rw [itemTokens, List.append_assoc, run_arrayStart, run_tokens item, run_moreItemTokens items]
      rfl

/-- After an item further items complete the array. -/
theorem run_moreItemTokens : ∀ (items : List Json) (item : Json) (before : List Json)
    (stack : List Frame) (rest : List Token),
    run (.complete item (.array before :: stack)) (moreItemTokens items ++ rest) =
      run (.complete (.array ((item :: before).reverse ++ items)) stack) rest
  | [], item, before, stack, rest => by
      rw [moreItemTokens, List.singleton_append, run_cons, List.append_nil]
      rfl
  | next :: items, item, before, stack, rest => by
      rw [moreItemTokens, List.append_assoc]
      change run (.value (.array (item :: before) :: stack))
        (next.tokens ++ (moreItemTokens items ++ rest)) = _
      rw [run_tokens next, run_moreItemTokens items, List.reverse_cons, List.append_assoc,
        List.singleton_append]

/-- From the start of an object its members complete it. -/
theorem run_memberTokens : ∀ (members : List Member) (stack : List Frame) (rest : List Token),
    run (.objectStart stack) (memberTokens members ++ rest) =
      run (.complete (.object members) stack) rest
  | [], _, _ => rfl
  | (k, v) :: members, stack, rest => by
      rw [memberTokens, List.append_assoc]
      change run (.value (.object [] k :: stack))
        (v.tokens ++ (moreMemberTokens members ++ rest)) = _
      rw [run_tokens v, run_moreMemberTokens members]
      rfl

/-- After a member further members complete the object. -/
theorem run_moreMemberTokens : ∀ (members : List Member) (k : Literal) (v : Json)
    (before : List Member) (stack : List Frame) (rest : List Token),
    run (.complete v (.object before k :: stack)) (moreMemberTokens members ++ rest) =
      run (.complete (.object (((k, v) :: before).reverse ++ members)) stack) rest
  | [], k, v, before, stack, rest => by
      rw [moreMemberTokens, List.singleton_append, run_cons, List.append_nil]
      rfl
  | (k', v') :: members, k, v, before, stack, rest => by
      rw [moreMemberTokens, List.append_assoc]
      change run (.value (.object ((k, v) :: before) k' :: stack))
        (v'.tokens ++ (moreMemberTokens members ++ rest)) = _
      rw [run_tokens v', run_moreMemberTokens members, List.reverse_cons (a := (k', v')),
        List.append_assoc, List.singleton_append]

end

end Reading

/-- The tokens of a tree spell the tree. -/
theorem ofTokens?_tokens (j : Json) : ofTokens? j.tokens = some j := by
  have hrun := Reading.run_tokens j [] []
  rw [List.append_nil] at hrun
  rw [ofTokens?, hrun]
  rfl

/-- The characters of a tree that is written compactly. -/
theorem toList_render (j : Json) : j.render.toList = spelled j.tokens := by
  simp only [render, String.toList_join, spelled, List.flatMap_map]

/-- **A textual tree is read back as itself.** -/
theorem parse?_render {j : Json} (h : j.isTextual) : parse? j.render = some j := by
  have htokens : ∀ t ∈ j.tokens, t.isTextual := by
    rw [← List.all_eq_true, all_tokens]
    exact h
  rw [parse?, toList_render, scan_spelled htokens]
  exact ofTokens?_tokens j

end DelphiUnits.Json
