import DelphiUnits.Proofs.Source.Edit
import DelphiUnits.Proofs.Source.Statement

/-!
# The order of keys and further keys

What a document says does not depend on the order of its keys, nor on members that nobody looks at.
That is so although records, statements and expressions look up their fields in different ways and
nest in one another: each of their readers **overlooks** the edits of a tree, if the readers of the
fields do.

A further member has to be readable, its key as well as its value: a document with a key that has no
text is refused.

## Main results

* `overlooks_record`, `Statement.overlooks_ofJson`, `Expression.overlooks_ofJson`: what each of the
  readers overlooks;
* `Document.parse_eq_of_edits`: an edited document says the same;
* `Document.parse_unreadable_key`: a member with an unreadable key is not overlooked.
-/

namespace DelphiUnits.Source

open Relation (ReflGen ReflTransGen)

variable {α : Type} {r : Role} {d : Nat} {read : Json → Option α} {v : Json}
  {value value' : Option Json}

/-! ### Fields -/

/-- No truth value is edited. -/
theorem overlooks_bool? (v : Json) : Overlooks r d Json.bool? v := by
  intro v' h
  rcases h.compound with ⟨_, _, rfl, rfl⟩ | ⟨_, _, rfl, rfl⟩ <;> rfl

/-- A field that has to be there. -/
theorem required_eq_of_rel (h : ∀ v ∈ value, Overlooks r d read v)
    (hvalue : Option.Rel (ReflGen (Edit r d)) value value') :
    Json.required read value = Json.required read value' := by
  have hbind (value : Option Json) : Json.required read value = value.bind read := by
    cases value <;> rfl
  rw [hbind, hbind, bind_eq_of_rel h hvalue]

/-- A field that has a value of its own. -/
theorem withDefault_eq_of_rel {default : α} (h : ∀ v ∈ value, Overlooks r d read v)
    (hvalue : Option.Rel (ReflGen (Edit r d)) value value') :
    Json.withDefault default read value = Json.withDefault default read value' := by
  have hbind := bind_eq_of_rel h hvalue
  cases hvalue with
  | none => rfl
  | some => exact hbind

/-- A field that may be `null`, which is not edited. -/
theorem optional_eq_of_rel (h : ∀ v ∈ value, Overlooks r d read v)
    (hvalue : Option.Rel (ReflGen (Edit r d)) value value') :
    Json.optional read value = Json.optional read value' := by
  cases hvalue with
  | none => rfl
  | some hv =>
      cases hv with
      | refl => rfl
      | single hedit =>
          have hread := h _ rfl hedit
          rcases hedit.compound with ⟨_, _, rfl, rfl⟩ | ⟨_, _, rfl, rfl⟩ <;>
            exact congrArg (Option.map some) hread

/-- A text that has to be there. -/
theorem required_text?_eq (hvalue : Option.Rel (ReflGen (Edit r d)) value value') :
    Json.required Json.text? value = Json.required Json.text? value' :=
  required_eq_of_rel (fun v _ => overlooks_text? v) hvalue

/-- A text that may be left out. -/
theorem optional_text?_eq (hvalue : Option.Rel (ReflGen (Edit r d)) value value') :
    Json.optional Json.text? value = Json.optional Json.text? value' :=
  optional_eq_of_rel (fun v _ => overlooks_text? v) hvalue

/-! ### Lists -/

/-- Items are read one by one. -/
theorem mapM_append_cons {v' : Json} (before after : List Json) (h : read v = read v') :
    (before ++ v :: after).mapM read = (before ++ v' :: after).mapM read := by
  rw [List.mapM_append, List.mapM_append, List.mapM_cons, List.mapM_cons, h]

/-- Reading a list overlooks the edits that reading its items does. -/
theorem overlooks_itemsOf (h : ∀ items, v = .array items → ∀ item ∈ items,
    Overlooks r (d - 1) read item) : Overlooks (.list r) d (Statement.itemsOf read) v := by
  intro v' hedit
  rcases hedit.compound with ⟨_, _, rfl, rfl⟩ | ⟨items, items', rfl, rfl⟩
  · rfl
  · cases hedit with
    | item hitem => exact mapM_append_cons _ _ (h _ rfl _ (by simp) hitem)

/-- The arguments of a call are a list. -/
theorem Expression.argumentsOf_eq (value : Option Json) :
    Expression.argumentsOf value =
      Json.withDefault [] (Statement.itemsOf Expression.ofJson) value := by
  have hitems (items : List Json) : Expression.ofItems items = items.mapM Expression.ofJson := by
    induction items with
    | nil => simp [Expression.ofItems]
    | cons item rest ih =>
        rw [Expression.ofItems, List.mapM_cons, ih]
        rfl
  rcases value with _ | (_ | _ | _ | _ | items | _) <;>
    simp [argumentsOf, Json.withDefault, Statement.itemsOf, hitems]

/-- The statements inside a statement are a list. -/
theorem Statement.ofBody_eq : Statement.ofBody = Statement.itemsOf (Statement.ofJson true) := by
  have hitems (items : List Json) :
      Statement.ofItems items = items.mapM (Statement.ofJson true) := by
    induction items with
    | nil => simp [Statement.ofItems]
    | cons item rest ih =>
        rw [Statement.ofItems, List.mapM_cons, ih]
        rfl
  funext j
  cases j <;> simp [ofBody, itemsOf, hitems]

/-! ### Records -/

/-- **Reading a record overlooks edits**, if reading its fields does. -/
theorem overlooks_record {fields : List (String × Role)} (hnodup : (fields.map Prod.fst).Nodup)
    {read : (String → Option Json) → Option α}
    (hread : ∀ field field', SameLookups fields (d - 1) field field' → read field = read field')
    (j : Json) :
    Overlooks (.record fields) d (fun j => (j.record? (fields.map Prod.fst)).bind read) j := by
  intro j' h
  have hrecord := h.record hnodup
  simp only [Json.record?]
  generalize j.fields? = found at hrecord
  generalize j'.fields? = found' at hrecord
  cases hrecord with
  | none => rfl
  | some hsame =>
      simp only [hsame.areOf]
      split
      · exact hread _ _ hsame.get?
      · rfl

/-! ### Expressions -/

/-- **Reading an expression overlooks edits.** -/
theorem Expression.overlooks_ofJson (d : Nat) (j : Json) :
    Overlooks .expression d Expression.ofJson j := by
  -- An edit inside a field that holds an expression is an edit of a part.
  induction j using induction_on_parts generalizing d with
  | step j ih =>
    intro j' h
    obtain ⟨htag, hfields⟩ := h.expression
    rw [ofJson_eq, ofJson_eq, ← htag]
    have htext (name : String) (isRequired : Bool)
        (hname : ⟨name, .text, isRequired⟩ ∈ fieldsOf j) :
        (j.get? name).bind Json.text? = (j'.get? name).bind Json.text? :=
      bind_eq_of_rel (fun v _ => overlooks_text? v) (hfields _ hname)
    rcases hkind : Kind.ofTag? (tagOf j) with _ | kind
    · have hraw : fieldsOf j = [⟨"text", .text, false⟩] := by rw [fieldsOf, hkind]
      simp only [rawOf, ← htag, htext "text" false (hraw ▸ List.mem_singleton_self _)]
    have hisOfKind := ofTag?_tagOf_eq_some_iff.mp hkind
    have hkindFields : fieldsOf j = kind.fields := by rw [fieldsOf, hkind]
    rw [hkindFields] at hfields htext
    have hpart (name : String) (hname : ⟨name, .expression, true⟩ ∈ kind.fields) :
        (j.get? name).bind ofJson = (j'.get? name).bind ofJson :=
      bind_eq_of_rel (fun v hv => ih v (part_of_field hisOfKind hname hv) _)
        (hfields ⟨name, .expression, true⟩ hname)
    cases kind with
    | binary =>
      simp only [textField, hpart "left" (by decide), hpart "right" (by decide),
        htext "operator" true (by decide), htext "text" true (by decide)]
    | access =>
      simp only [textField, hpart "expression" (by decide), htext "name" true (by decide),
        htext "text" true (by decide)]
    | this => rfl
    | identifier => simp only [textField, htext "text" true (by decide)]
    | call =>
      have harguments : argumentsOf (j.get? "arguments") = argumentsOf (j'.get? "arguments") := by
        rw [argumentsOf_eq, argumentsOf_eq]
        refine withDefault_eq_of_rel (fun v hv => ?_)
          (hfields ⟨"arguments", .expressions, false⟩ (by decide))
        refine overlooks_itemsOf fun items hitems item hitem => ?_
        obtain rfl := hitems
        exact ih item (part_of_argument hisOfKind (by rw [Option.mem_def.mp hv]; rfl) hitem) _
      simp only [textField, hpart "expression" (by decide), harguments,
        htext "text" true (by decide)]
    | literal => simp only [textField, htext "text" true (by decide)]
    | raw =>
      have hdefault : Json.withDefault "" Json.text? (j.get? "text")
          = Json.withDefault "" Json.text? (j'.get? "text") :=
        withDefault_eq_of_rel (fun v _ => overlooks_text? v)
          (hfields ⟨"text", .text, false⟩ (by decide))
      have hsyntax : Json.optional Json.text? (j.get? "syntaxKind")
          = Json.optional Json.text? (j'.get? "syntaxKind") :=
        optional_text?_eq (hfields ⟨"syntaxKind", .optionalText, false⟩ (by decide))
      rw [hdefault, hsyntax]

/-! ### Statements -/

/-- Reading a variable overlooks edits. -/
theorem Variable.overlooks_ofJson (d : Nat) (j : Json) :
    Overlooks Variable.role d Variable.ofJson j := by
  refine overlooks_record (by decide) (fun field field' hfields => ?_) j
  simp only [SameLookups, List.forall_mem_cons] at hfields
  obtain ⟨hname, htype, hinitializer, -⟩ := hfields
  rw [ofFields, ofFields, required_text?_eq hname, optional_text?_eq htype,
    optional_eq_of_rel (fun v _ => Expression.overlooks_ofJson _ v) hinitializer]

namespace Statement

variable {inner : Bool}

/-- The reader of statements, by kind and fields. -/
theorem ofJson_eq_node? (inner : Bool) (j : Json) :
    ofJson inner j = (node? inner j).bind fun (kind, found) =>
      if found.areOf kind.fieldNames then
        ofFields kind fun name => found.get? kind.fieldNames name
      else none := by
  rw [ofJson_eq, node?]
  rcases tagged? j with _ | ⟨tag, fields⟩
  · rfl
  · rcases hkind : Kind.ofTag? inner tag with _ | kind <;> simp [hkind]

/-- A field of a statement is smaller than the statement. -/
theorem sizeOf_lt_of_node? {j v : Json} {kind : Kind} {found : Json.Fields} {names : List String}
    {name : String} (h : node? inner j = some (kind, found)) (hv : found.get? names name = some v) :
    sizeOf v < sizeOf j := by
  obtain ⟨⟨tag, fields⟩, htagged, hkind⟩ := Option.bind_eq_some_iff.mp h
  obtain ⟨_, -, heq⟩ := Option.map_eq_some_iff.mp hkind
  cases heq
  exact sizeOf_field_lt htagged hv

/-- Reading the fields of a statement overlooks edits, if reading the statements inside does. -/
theorem ofFields_eq_of_rel {kind : Kind} {field field' : String → Option Json}
    (hfields : SameLookups kind.fields d field field')
    (hbody : ∀ name, ∀ v ∈ field name, Overlooks (.list (.statement true)) d ofBody v) :
    ofFields kind field = ofFields kind field' := by
  have hexpression (v : Json) : Overlooks .expression d Expression.ofJson v :=
    Expression.overlooks_ofJson d v
  cases kind <;> simp only [SameLookups, Kind.fields, List.forall_mem_cons] at hfields
  case declare =>
    have hvariables (v : Json) : Overlooks (.list Variable.role) d (itemsOf Variable.ofJson) v :=
      overlooks_itemsOf fun _ _ item _ => Variable.overlooks_ofJson _ item
    rw [ofFields, ofFields, required_eq_of_rel (fun v _ => hvariables v) hfields.1]
  case evaluate =>
    rw [ofFields, ofFields, required_eq_of_rel (fun v _ => hexpression v) hfields.1]
  case conditional =>
    obtain ⟨hcondition, hthen, helse, -⟩ := hfields
    rw [ofFields, ofFields, required_eq_of_rel (fun v _ => hexpression v) hcondition,
      withDefault_eq_of_rel (hbody _) hthen, optional_eq_of_rel (hbody _) helse]
  case whileLoop =>
    obtain ⟨hcondition, hwhile, -⟩ := hfields
    rw [ofFields, ofFields, required_eq_of_rel (fun v _ => hexpression v) hcondition,
      withDefault_eq_of_rel (hbody _) hwhile]
  case forLoop =>
    obtain ⟨hinitializer, hcondition, hincrementor, hfor, -⟩ := hfields
    rw [ofFields, ofFields, optional_eq_of_rel (fun v _ => hexpression v) hinitializer,
      optional_eq_of_rel (fun v _ => hexpression v) hcondition,
      optional_eq_of_rel (fun v _ => hexpression v) hincrementor,
      withDefault_eq_of_rel (hbody _) hfor]
  case returning =>
    rw [ofFields, ofFields, optional_eq_of_rel (fun v _ => hexpression v) hfields.1]
  case block =>
    rw [ofFields, ofFields, required_eq_of_rel (hbody _) hfields.1]
  case unsupported => rfl

/-- **Reading a statement overlooks edits.** -/
theorem overlooks_ofJson (inner : Bool) (d : Nat) (j : Json) :
    Overlooks (.statement inner) d (ofJson inner) j := by
  intro j' h
  have hnodes := h.statement
  rw [ofJson_eq_node?, ofJson_eq_node?]
  generalize node? inner j' = node' at hnodes
  generalize hnode : node? inner j = node at hnodes
  rcases hnodes with @⟨⟨kind, found⟩, ⟨kind', found'⟩, hkind, hareOf, hfields⟩ | _
  · obtain rfl : kind = kind' := hkind
    simp only [kind.map_fields] at hareOf hfields
    simp only [Option.bind_some, hareOf]
    refine ite_congr rfl (fun _ => ?_) fun _ => rfl
    refine ofFields_eq_of_rel hfields fun name v hv => ?_
    rw [ofBody_eq]
    refine overlooks_itemsOf fun items hitems item hitem => ?_
    -- A statement inside is an item of a field, and so it is smaller.
    have hitem := List.sizeOf_lt_of_mem hitem
    have hvalue := sizeOf_lt_of_node? hnode hv
    have hlt : sizeOf item < sizeOf j := by
      rw [hitems, Json.array.sizeOf_spec] at hvalue
      omega
    exact overlooks_ofJson true _ item
  · rfl
termination_by sizeOf j

/-- A statement fits as before. -/
theorem overlooks_read (d : Nat) (j : Json) :
    Overlooks (.statement false) d (Statement.read d) j := by
  intro j' h
  rw [Statement.read, Statement.read, h.fits_eq, overlooks_ofJson false d j h]

end Statement

/-! ### Declarations -/

/-- Reading a list overlooks the edits that reading its items does, at each depth. -/
theorem overlooks_listOf {read : Json.Reader α} (h : ∀ d j, Overlooks r d (read d) j) (d : Nat)
    (j : Json) : Overlooks (.list r) d (Json.listOf read d) j := by
  cases d with
  | zero => exact fun _ _ => rfl
  | succ d =>
      have hitems (j : Json) : Json.listOf read (d + 1) j = Statement.itemsOf (read d) j := by
        cases j <;> rfl
      intro j' hedit
      rw [hitems, hitems]
      exact overlooks_itemsOf (fun _ _ item _ => h d item) hedit

/-- Reading a record overlooks edits at each depth, if reading its fields does. -/
theorem overlooks_recordOf {fields : List (String × Role)} (hnodup : (fields.map Prod.fst).Nodup)
    {read : Nat → (String → Option Json) → Option α}
    (hread : ∀ d field field', SameLookups fields d field field' → read d field = read d field')
    (d : Nat) (j : Json) :
    Overlooks (.record fields) d (Json.recordOf (fields.map Prod.fst) read d) j := by
  cases d with
  | zero => exact fun _ _ => rfl
  | succ d => exact overlooks_record (d := d + 1) hnodup (hread d) j

/-- Reading an import overlooks edits. -/
theorem Import.overlooks_read : ∀ d j, Overlooks Import.role d (Import.read d) j := by
  refine overlooks_recordOf (by decide) fun d field field' hfields => ?_
  simp only [SameLookups, List.forall_mem_cons] at hfields
  rw [required_text?_eq hfields.1]

/-- Reading a parameter overlooks edits. -/
theorem Parameter.overlooks_read : ∀ d j, Overlooks Parameter.role d (Parameter.read d) j := by
  refine overlooks_recordOf (by decide) fun d field field' hfields => ?_
  simp only [SameLookups, List.forall_mem_cons] at hfields
  obtain ⟨hname, htype, -⟩ := hfields
  rw [required_text?_eq hname, optional_text?_eq htype]

/-- Reading a function overlooks edits. -/
theorem Function.overlooks_read : ∀ d j, Overlooks Function.role d (Function.read d) j := by
  refine overlooks_recordOf (by decide) fun d field field' hfields => ?_
  simp only [SameLookups, List.forall_mem_cons] at hfields
  obtain ⟨hname, hexported, hdefault, hparameters, htype, hbody, -⟩ := hfields
  rw [optional_text?_eq hname,
    withDefault_eq_of_rel (fun v _ => overlooks_bool? v) hexported,
    withDefault_eq_of_rel (fun v _ => overlooks_bool? v) hdefault,
    withDefault_eq_of_rel (fun v _ => overlooks_listOf Parameter.overlooks_read d v) hparameters,
    optional_text?_eq htype,
    withDefault_eq_of_rel (fun v _ => overlooks_listOf Statement.overlooks_read d v) hbody]

/-- A visibility has one member at most, and nothing under it. -/
theorem Visibility.read_object_eq_none {d : Nat} {members : List Json.Member}
    (h : ∀ key, members ≠ [(key, .null)]) : Visibility.read d (.object members) = none := by
  rw [Visibility.read.eq_def]
  split
  · next heq => cases heq
  · next heq => exact absurd (Json.object.inj heq) (h _)
  · rfl

/-- Reading a visibility overlooks edits, since nothing in it can be edited. -/
theorem Visibility.overlooks_read (d : Nat) (j : Json) :
    Overlooks .value d (Visibility.read d) j := by
  intro j' h
  cases h with
  | @permute _ _ members members' hnodup hperm =>
      by_cases hkey : ∃ key, members = [(key, .null)]
      · obtain ⟨key, rfl⟩ := hkey
        rw [List.singleton_perm.mp hperm]
      · have hkey' : ∀ key, members' ≠ [(key, .null)] := by
          rintro key rfl
          exact hkey ⟨key, List.perm_singleton.mp hperm⟩
        rw [read_object_eq_none (not_exists.mp hkey), read_object_eq_none hkey']
  | insert hopen => cases hopen
  | @member _ _ before after key v v' hedit =>
      have hne {w : Json} (hw : w ≠ .null) (key' : Json.Literal) :
          before ++ (key, w) :: after ≠ [(key', .null)] := by
        rcases before with _ | ⟨m, before⟩ <;> simp [hw]
      have hnull : v ≠ .null ∧ v' ≠ .null := by
        rcases hedit.compound with ⟨_, _, rfl, rfl⟩ | ⟨_, _, rfl, rfl⟩ <;>
          exact ⟨Json.noConfusion, Json.noConfusion⟩
      rw [read_object_eq_none (hne hnull.1), read_object_eq_none (hne hnull.2)]
  | item => rfl

/-- Reading a property overlooks edits. -/
theorem Property.overlooks_read : ∀ d j, Overlooks Property.role d (Property.read d) j := by
  refine overlooks_recordOf (by decide) fun d field field' hfields => ?_
  simp only [SameLookups, List.forall_mem_cons] at hfields
  obtain ⟨hname, htype, hinitializer, hvisibility, hstatic, -⟩ := hfields
  rw [required_text?_eq hname, optional_text?_eq htype, optional_text?_eq hinitializer,
    optional_eq_of_rel (fun v _ => Visibility.overlooks_read d v) hvisibility,
    withDefault_eq_of_rel (fun v _ => overlooks_bool? v) hstatic]

/-- Reading a class overlooks edits. -/
theorem Class.overlooks_read : ∀ d j, Overlooks Class.role d (Class.read d) j := by
  refine overlooks_recordOf (by decide) fun d field field' hfields => ?_
  simp only [SameLookups, List.forall_mem_cons] at hfields
  obtain ⟨hname, hparent, hproperties, -⟩ := hfields
  rw [required_text?_eq hname, optional_text?_eq hparent,
    withDefault_eq_of_rel (fun v _ => overlooks_listOf Property.overlooks_read d v) hproperties]

namespace Document

/-- **Reading a document overlooks edits.** -/
theorem overlooks_read : ∀ d j, Overlooks Document.role d (Document.read d) j := by
  refine overlooks_recordOf (by decide) fun d field field' hfields => ?_
  simp only [SameLookups, List.forall_mem_cons] at hfields
  obtain ⟨himports, hfunctions, hclasses, -⟩ := hfields
  rw [withDefault_eq_of_rel (fun v _ => overlooks_listOf Import.overlooks_read d v) himports,
    withDefault_eq_of_rel (fun v _ => overlooks_listOf Function.overlooks_read d v) hfunctions,
    withDefault_eq_of_rel (fun v _ => overlooks_listOf Class.overlooks_read d v) hclasses]

/-- A document says the same after any number of edits. -/
theorem read_eq_of_edits {d : Nat} {j j' : Json} (h : ReflTransGen (Edit Document.role d) j j') :
    Document.read d j = Document.read d j' := by
  induction h with
  | refl => rfl
  | tail _ hedit ih => exact ih.trans (overlooks_read d _ hedit)

/-- **The order of keys and further keys do not matter.** If the tree of one text comes from that of
another by any number of edits, both are refused, or both are read as the same document. -/
theorem parse_eq_of_edits {s s' : String} {j j' : Json} (hs : Json.parse? s = some j)
    (hs' : Json.parse? s' = some j') (h : ReflTransGen (Edit Document.role Json.maxDepth) j j') :
    parse s = parse s' := by
  rw [parse, parse, parseNode?, parseNode?, hs, hs', Option.bind_some, Option.bind_some,
    read_eq_of_edits h]

/-- A document with one function. -/
def functionDocument (members : List (String × Json)) : Json :=
  .record [("functions", .array [.record members])]

/-- A function that returns. -/
def returningDocument : Json :=
  functionDocument [("name", .text "f"),
    ("body", .array [.record [("kind", .text "ReturnStatement"), ("expression", .null)]])]

/-- The same function with its name at the end, the tag of its statement at the end, and a member in
the statement that statements do not have. -/
def rearrangedDocument : Json :=
  functionDocument [("body", .array [.record [("expression", .null), ("line", .array [.text "7"]),
    ("kind", .text "ReturnStatement")]]), ("name", .text "f")]

/-- An edit of a function is one of its document. -/
theorem edit_functionDocument {members members' : List (String × Json)}
    (h : Edit Function.role (Json.maxDepth - 2) (.record members) (.record members')) :
    Edit Document.role Json.maxDepth (functionDocument members) (functionDocument members') :=
  @Edit.member _ _ [] [] (some "functions") _ _ (@Edit.item _ _ [] [] _ _ h)

/-- An edit of a statement is one of its function. -/
theorem edit_body {s s' : Json} (h : Edit (.statement false) (Json.maxDepth - 4) s s') :
    Edit Function.role (Json.maxDepth - 2) (.record [("body", .array [s]), ("name", .text "f")])
      (.record [("body", .array [s']), ("name", .text "f")]) :=
  @Edit.member _ _ [] [_] (some "body") _ _ (@Edit.item _ _ [] [] _ _ h)

/-- Two members change places. -/
theorem edit_swap (m m' : String × Json) (h : m.1 ≠ m'.1) :
    Edit r d (.record [m, m']) (.record [m', m]) :=
  .permute (by simpa using h) (.swap _ _ _)

/-- The members of the function change places, then those of the statement, and one is added. -/
theorem edits_returningDocument :
    ReflTransGen (Edit Document.role Json.maxDepth) returningDocument rearrangedDocument := by
  have hname := edit_functionDocument (edit_swap ("name", .text "f")
    ("body", .array [.record [("kind", .text "ReturnStatement"), ("expression", .null)]])
    (by decide))
  have htag := edit_functionDocument (edit_body (edit_swap ("kind", .text "ReturnStatement")
    ("expression", .null) (by decide)))
  have hline := edit_functionDocument (edit_body
    (@Edit.insert _ _ [(some "expression", .null)] [(some "kind", .text "ReturnStatement")] "line"
      (.array [.text "7"]) rfl (by decide) (by decide)))
  exact .head hname (.head htag (.single hline))

/-- Both texts are read as the same document. -/
theorem parse_returningDocument :
    Json.parse? returningDocument.render = some returningDocument ∧
      Json.parse? rearrangedDocument.render = some rearrangedDocument ∧
      ReflTransGen (Edit Document.role Json.maxDepth) returningDocument rearrangedDocument ∧
      parse returningDocument.render = parse rearrangedDocument.render := by
  have hfirst := Json.parse?_render (j := returningDocument) (by decide)
  have hsecond := Json.parse?_render (j := rearrangedDocument) (by decide)
  exact ⟨hfirst, hsecond, edits_returningDocument,
    parse_eq_of_edits hfirst hsecond edits_returningDocument⟩

/-- **A further member whose key has no text** is not overlooked. -/
theorem parse_unreadable_key :
    ∃ (key : Json.Literal) (value : Json) (s s' : String),
      key ∉ (Role.keys Document.role (.object [])).map some ∧
      value.fits (Json.maxDepth - 1) = true ∧
      Json.parse? s = some (.object []) ∧ Json.parse? s' = some (.object [(key, value)]) ∧
      parse s ≠ parse s' := by
  have hs : Json.parse? "{}" = some (.object []) := by cbv
  have hs' : Json.parse? "\x7b\"\\ud800\":true\x7d" = some (.object [(none, .bool true)]) := by cbv
  have hread : Document.read Json.maxDepth (.object []) = some ⟨[], [], []⟩ := rfl
  have hread' : Document.read Json.maxDepth (.object [(none, .bool true)]) = none := rfl
  refine ⟨none, .bool true, _, _, by decide, by decide, hs, hs', ?_⟩
  rw [parse, parse, parseNode?, parseNode?, hs, hs', Option.bind_some, Option.bind_some, hread,
    hread']
  intro h
  cases h

end Document

end DelphiUnits.Source
