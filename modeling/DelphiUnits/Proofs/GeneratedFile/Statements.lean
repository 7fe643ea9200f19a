import DelphiUnits.Proofs.GeneratedFile.Draft
import DelphiUnits.Proofs.Pascal.Outline

/-!
# What becomes of every statement

A generated file repeats only some of the statements of its document. The others must not get lost
without a word: every statement at the outermost level of a block is declared, rendered or reported
as skipped, exactly one of the three.

The rules of this are said here by the shape of a statement, as `Becomes`, and are no part of the
scripts that write a block. The blocks of a unit are the bodies of its routines, in the order in
which they were registered, and the main block of a program. What a generated file says in its
blocks, and what it reports about them, is then a matter of going through the blocks and applying
the rules to one statement after the other.

## Main results

* `becomes_iff`: the rules say exactly what becomes of a statement;
* `filter_isOfBlock_outline`: the lines of the blocks in the text, block by block;
* `unitDiagnostics_eq`: what is reported about the blocks, block by block;
* `generate_accounts_for_statements`: the two together, for every generated file.
-/

namespace DelphiUnits

open Source (Document)

namespace Pascal

open Source (Expression Statement)

/-! ### The rules -/

/-- **The rules for what becomes of a statement.** Own members are those of `this`, which may have
been read as a name. -/
inductive Becomes : Statement → Outcome → Prop
  /-- Variables are declared before the block begins. -/
  | declaration (declarations : List Source.Variable) : Becomes (.declare declarations) .declared
  /-- What is assigned to an own member is assigned to its name. -/
  | toOwnMember {receiver right : Expression} {name operator memberText text : String} :
      receiver = .this ∨ receiver = .identifier "this" →
      Becomes (.evaluate (.binary (.access receiver name memberText) operator right text))
        (.line (name ++ " :" ++ operator ++ " " ++ right.text ++ ";"))
  /-- What is assigned to anything else is assigned to the text it is written as. -/
  | toText {left right : Expression} {operator text : String} :
      (∀ receiver name memberText, left = .access receiver name memberText →
        receiver ≠ .this ∧ receiver ≠ .identifier "this") →
      Becomes (.evaluate (.binary left operator right text))
        (.line (left.text ++ " :" ++ operator ++ " " ++ right.text ++ ";"))
  /-- Any other expression is skipped, under the kind it was read as. -/
  | expression {e : Expression} : e.kind ≠ .binary →
      Becomes (.evaluate e) (.skipped e.syntaxKind)
  /-- Any other statement is skipped, under its kind. -/
  | statement {s : Statement} : s.kind ≠ .declare → s.kind ≠ .evaluate →
      Becomes s (.skipped s.kind.name)

/-- An expression is the current object in two forms. -/
theorem isThis_iff {e : Expression} : isThis e = true ↔ e = .this ∨ e = .identifier "this" := by
  cases e <;> simp [isThis]

/-- What a statement becomes is by the rules. -/
theorem becomes_outcome (s : Statement) : Becomes s (outcome s) := by
  cases s with
  | declare declarations => exact .declaration declarations
  | evaluate e =>
      cases e with
      | binary left operator right text =>
          rw [outcome, expressionOutcome]
          cases left with
          | access receiver name memberText =>
              rw [target]
              split
              · next hthis => exact .toOwnMember (isThis_iff.mp hthis)
              · next hthis =>
                refine .toText fun _ _ _ heq => ?_
                obtain ⟨rfl, rfl, rfl⟩ := Expression.access.inj heq
                exact not_or.mp (hthis ∘ isThis_iff.mpr)
          | binary | this | identifier | call | literal | raw =>
              exact .toText fun _ _ _ heq => by cases heq
      | access | this | identifier | call | literal | raw =>
          exact .expression fun hkind => by cases hkind
  | conditional | whileLoop | forLoop | returning | block | unsupported =>
      exact .statement (fun hkind => by cases hkind) (fun hkind => by cases hkind)

/-- **The rules say exactly what becomes of a statement**: they give every statement one outcome,
and no statement two. -/
theorem becomes_iff {s : Statement} {o : Outcome} : Becomes s o ↔ outcome s = o := by
  constructor
  · intro h
    cases h with
    | declaration declarations => rfl
    | toOwnMember hthis => rw [outcome, expressionOutcome, target, if_pos (isThis_iff.mpr hthis)]
    | @toText left right operator text hother =>
        cases left with
        | access receiver name memberText =>
            have hthis : ¬ isThis receiver = true := fun hthis =>
              not_or.mpr (hother receiver name memberText rfl) (isThis_iff.mp hthis)
            rw [outcome, expressionOutcome, target, if_neg hthis]
            rfl
        | binary | this | identifier | call | literal | raw => rfl
    | @expression e he =>
        cases e with
        | binary => exact absurd rfl he
        | access | this | identifier | call | literal | raw => rfl
    | statement hdeclare hevaluate =>
        cases s with
        | declare => exact absurd rfl hdeclare
        | evaluate => exact absurd rfl hevaluate
        | conditional | whileLoop | forLoop | returning | block | unsupported => rfl
  · rintro rfl
    exact becomes_outcome s

/-! ### Blocks -/

/-- A block of a unit. -/
structure Block where
  /-- Where it stands. -/
  place : BlockPlace
  /-- What it is called in diagnostics. -/
  location : String
  /-- Its statements. -/
  statements : List Statement
  /-- The word that closes it. -/
  close : String

namespace Block

/-- The block of a routine. -/
def ofRoutine (r : Routine) : Block := ⟨.routine, r.key.display, r.body, "end"⟩

/-- The main block of a program. -/
def ofProgram (u : CompilationUnit) : Block := ⟨.main, u.name, u.body.getD [], "end."⟩

/-- What becomes of the statements of a block, one after the other. -/
def outcomes (b : Block) : List Outcome := b.statements.map Pascal.outcome

/-- The line that an outcome gives. -/
def line? (place : BlockPlace) : Outcome → Option OutlineLine
  | .line text => some ⟨.statement place, text⟩
  | _ => none

/-- The diagnostic that an outcome gives. -/
def skip? (location : String) : Outcome → Option Diagnostic
  | .skipped kind => some ⟨.info, "implementation", "skipped " ++ kind, some location⟩
  | _ => none

/-- The diagnostic about a variable without a type. -/
def untyped (location name : String) : Diagnostic :=
  ⟨.warning, "implementation", "'" ++ name ++ "' has no type and is declared Variant",
    some location⟩

/-- **The lines of a block** in the text. -/
def outline (b : Block) : List OutlineLine :=
  variableOutline b.place (localVariables b.statements) ++
    ⟨.beginWord b.place, "begin"⟩ :: b.outcomes.filterMap (line? b.place) ++
    [⟨.endWord b.place, b.close⟩]

/-- **What is reported about a block.** -/
def diagnostics (b : Block) : List Diagnostic :=
  ((localVariables b.statements).filter (·.2.isNone)).map (fun v => untyped b.location v.1) ++
    b.outcomes.filterMap (skip? b.location)

/-- The lines of a block are those that its script lays out. -/
theorem outline_eq (b : Block) : b.outline = blockOutline b.place b.statements b.close := by
  have hstatements : b.outcomes.filterMap (line? b.place) =
      (b.statements.filterMap statementText?).map fun text => ⟨.statement b.place, text⟩ := by
    rw [outcomes, List.filterMap_map, List.map_filterMap]
    refine List.filterMap_congr fun s _ => ?_
    rw [Function.comp_apply, statementText?]
    cases Pascal.outcome s <;> rfl
  rw [outline, blockOutline, hstatements]

/-- The warning about a variable without a type names the type it gets. -/
theorem untypedWarning?_none (location name : String) :
    untypedWarning? location (name, none) = some (untyped location name) := by
  have hvariant : "' has no type and is declared " ++ untypedName =
      "' has no type and is declared Variant" := by decide
  rw [untypedWarning?, untyped, String.append_assoc, hvariant]
  rfl

/-- What is reported about a block is what there is to say about it. -/
theorem diagnostics_eq (b : Block) : b.diagnostics = blockDiagnostics b.location b.statements := by
  have huntyped (vs : OrderedMap String (Option String)) :
      (vs.filter (·.2.isNone)).map (fun v => untyped b.location v.1) =
        vs.filterMap (untypedWarning? b.location) := by
    induction vs with
    | nil => rfl
    | cons v vs ih =>
        obtain ⟨name, _ | type⟩ := v
        · rw [List.filter_cons_of_pos rfl, List.map_cons, ih, List.filterMap_cons,
            untypedWarning?_none]
        · rw [List.filter_cons_of_neg Bool.false_ne_true, ih]
          rfl
  have hskipped : b.outcomes.filterMap (skip? b.location) =
      b.statements.filterMap (skipInfo? b.location) := by
    rw [outcomes, List.filterMap_map]
    refine List.filterMap_congr fun s _ => ?_
    rw [Function.comp_apply, skipInfo?]
    cases Pascal.outcome s <;> rfl
  rw [diagnostics, blockDiagnostics, huntyped, hskipped]

end Block

/-- **The blocks of a unit** in their order. -/
def blocks (u : CompilationUnit) : List Block :=
  u.routines.map Block.ofRoutine ++
    match u.kind with
    | .program => [Block.ofProgram u]
    | .library => []

/-! ### The lines of blocks -/

/-- Whether a line belongs to a block. -/
def LineRole.isOfBlock : LineRole → Bool
  | .varWord _ => true
  | .variable _ => true
  | .beginWord _ => true
  | .statement _ => true
  | .endWord _ => true
  | _ => false

/-- A line of a block belongs to the section of the block. -/
theorem LineRole.exists_fileSection? : ∀ {role : LineRole}, role.isOfBlock = true →
    ∃ place : BlockPlace, role.fileSection? = some place.fileSection
  | .varWord place, _ => ⟨place, rfl⟩
  | .variable place, _ => ⟨place, rfl⟩
  | .beginWord place, _ => ⟨place, rfl⟩
  | .statement place, _ => ⟨place, rfl⟩
  | .endWord place, _ => ⟨place, rfl⟩

/-- What shows neither the implementation nor the end of the file has no lines of blocks. -/
theorem filter_isOfBlock_eq_nil {ls : List OutlineLine}
    (hshows : ∀ place : BlockPlace, OutlineLine.shows place.fileSection ls = false) :
    ls.filter (·.role.isOfBlock) = [] := by
  rw [List.filter_eq_nil_iff]
  intro l hl hblock
  obtain ⟨place, hplace⟩ := LineRole.exists_fileSection? hblock
  exact List.any_eq_false.mp (hshows place) l hl (beq_iff_eq.mpr hplace)

/-- The variables of a block have a word and a line each. -/
theorem role_of_mem_variableOutline {place : BlockPlace}
    {declared : OrderedMap String (Option String)} {l : OutlineLine}
    (h : l ∈ variableOutline place declared) :
    l.role = .varWord place ∨ l.role = .variable place := by
  rw [variableOutline] at h
  split at h
  · cases h
  · rcases List.mem_cons.mp h with rfl | h
    · exact .inl rfl
    · obtain ⟨v, -, rfl⟩ := List.mem_map.mp h
      exact .inr rfl

/-- All lines of a block belong to one. -/
theorem filter_isOfBlock_blockOutline (place : BlockPlace) (statements : List Statement)
    (close : String) :
    (blockOutline place statements close).filter (·.role.isOfBlock) =
      blockOutline place statements close := by
  rw [List.filter_eq_self]
  intro l hl
  rw [blockOutline, List.mem_append, List.mem_append] at hl
  rcases hl with (hvariable | hstatement) | hend
  · rcases role_of_mem_variableOutline hvariable with hrole | hrole <;> rw [hrole] <;> rfl
  · rcases List.mem_cons.mp hstatement with rfl | hstatement
    · rfl
    · obtain ⟨text, -, rfl⟩ := List.mem_map.mp hstatement
      rfl
  · obtain rfl := List.mem_singleton.mp hend
    rfl

/-- **The lines of the blocks** in an outline are those of one block after the other. -/
theorem filter_isOfBlock_outline (u : CompilationUnit) :
    (outline u).filter (·.role.isOfBlock) = (blocks u).flatMap Block.outline := by
  -- The interface shows neither of the two sections that blocks belong to.
  have hinterface : (usesOutline u ++ typesOutline u ++
      if u.usedUnits.isEmpty && u.types.isEmpty then [separator] else []).filter
        (·.role.isOfBlock) = [] := by
    refine filter_isOfBlock_eq_nil fun place => ?_
    rw [shows_append, shows_append, shows_usesOutline, shows_typesOutline]
    cases place <;> split <;> simp [separator, LineRole.fileSection?, BlockPlace.fileSection]
  have hroutine (r : Routine) : (routineOutline r).filter (·.role.isOfBlock) =
      (Block.ofRoutine r).outline := by
    rw [routineOutline, List.filter_cons_of_neg Bool.false_ne_true, filter_isOfBlock_blockOutline,
      Block.outline_eq]
    rfl
  have himplementation : (implementationOutline u).filter (·.role.isOfBlock) =
      (u.routines.map Block.ofRoutine).flatMap Block.outline := by
    rw [implementationOutline]
    split
    · next hnone =>
      rw [List.isEmpty_iff.mp hnone]
      rfl
    · simp only [List.flatMap_map, ← hroutine, List.filter_append, List.filter_flatMap,
        List.filter_cons]
      simp [LineRole.isOfBlock, separator]
  have hclosing : (closingOutline u).filter (·.role.isOfBlock) =
      (match u.kind with
        | .program => [Block.ofProgram u]
        | .library => []).flatMap Block.outline := by
    rw [closingOutline]
    cases u.kind with
    | program =>
        rw [filter_isOfBlock_blockOutline, List.flatMap_singleton, Block.outline_eq]
        rfl
    | library => rfl
  rw [outline, List.filter_append, List.filter_append, List.filter_append, hinterface,
    himplementation, hclosing, blocks, List.flatMap_append]
  rfl

/-- **What is reported about a unit** is what is reported about one block after the other. -/
theorem unitDiagnostics_eq (u : CompilationUnit) :
    unitDiagnostics u = (blocks u).flatMap Block.diagnostics := by
  have hroutines : routinesDiagnostics u =
      (u.routines.map Block.ofRoutine).flatMap Block.diagnostics := by
    rw [routinesDiagnostics, List.flatMap_map]
    refine List.flatMap_congr fun r _ => ?_
    rw [Block.diagnostics_eq]
    rfl
  rw [unitDiagnostics, hroutines, blocks, List.flatMap_append]
  cases u.kind with
  | program =>
      rw [List.flatMap_singleton, Block.diagnostics_eq]
      rfl
  | library => rfl

/-! ### Counting -/

/-- Exactly the declarations are declared. -/
theorem outcome_eq_declared_iff {s : Statement} :
    outcome s = .declared ↔ s.kind = .declare := by
  rw [← becomes_iff]
  constructor
  · intro h
    cases h with
    | declaration => rfl
  · intro h
    cases s with
    | declare declarations => exact .declaration declarations
    | evaluate | conditional | whileLoop | forLoop | returning | block | unsupported => cases h

namespace Block

/-- A statement that is no declaration gives a line or is reported, and never both. -/
theorem length_outcomes (place : BlockPlace) (location : String) (statements : List Statement) :
    ((statements.map Pascal.outcome).filterMap (line? place)).length +
        ((statements.map Pascal.outcome).filterMap (skip? location)).length =
      (statements.filter (·.kind != .declare)).length := by
  induction statements with
  | nil => rfl
  | cons s rest ih =>
      have hdeclared : (s.kind != .declare) = (Pascal.outcome s != .declared) := by
        rw [Bool.eq_iff_iff, bne_iff_ne, bne_iff_ne, ne_eq, ne_eq, outcome_eq_declared_iff]
      rw [List.map_cons, List.filterMap_cons, List.filterMap_cons, List.filter_cons, hdeclared]
      cases Pascal.outcome s with
      | declared => exact ih
      | line text => exact (Nat.succ_add _ _).trans (congrArg Nat.succ ih)
      | skipped kind => exact congrArg Nat.succ ih

/-- The statements among the lines of a block are the outcomes that give a line. -/
theorem countP_outline (b : Block) :
    b.outline.countP (·.role == .statement b.place) =
      (b.outcomes.filterMap (line? b.place)).length := by
  have hvariables : (variableOutline b.place (localVariables b.statements)).countP
      (·.role == .statement b.place) = 0 := by
    rw [List.countP_eq_zero]
    intro l hl
    rcases role_of_mem_variableOutline hl with hrole | hrole <;> simp [hrole]
  have hlines : (b.outcomes.filterMap (line? b.place)).countP (·.role == .statement b.place) =
      (b.outcomes.filterMap (line? b.place)).length := by
    rw [List.countP_eq_length]
    intro l hl
    obtain ⟨o, -, ho⟩ := List.mem_filterMap.mp hl
    cases o with
    | line text =>
        obtain rfl := Option.some.inj ho
        exact beq_self_eq_true _
    | declared | skipped => cases ho
  rw [outline, List.countP_append, List.countP_append, hvariables, List.countP_cons, hlines]
  simp

/-- The informations among the diagnostics of a block are the outcomes that are skipped. -/
theorem countP_diagnostics (b : Block) :
    b.diagnostics.countP (·.severity == .info) =
      (b.outcomes.filterMap (skip? b.location)).length := by
  have huntyped : (((localVariables b.statements).filter (·.2.isNone)).map
      fun v => untyped b.location v.1).countP (·.severity == .info) = 0 := by
    rw [List.countP_eq_zero]
    intro d hd
    obtain ⟨v, -, rfl⟩ := List.mem_map.mp hd
    exact Bool.false_ne_true
  have hskipped : (b.outcomes.filterMap (skip? b.location)).countP (·.severity == .info) =
      (b.outcomes.filterMap (skip? b.location)).length := by
    rw [List.countP_eq_length]
    intro d hd
    obtain ⟨o, -, ho⟩ := List.mem_filterMap.mp hd
    cases o with
    | skipped kind =>
        obtain rfl := Option.some.inj ho
        rfl
    | declared | line => cases ho
  rw [diagnostics, List.countP_append, huntyped, hskipped, Nat.zero_add]

/-- **No statement is lost**: but for declarations, the lines and the skipped statements of a block
make up its statements. -/
theorem countP_statements (b : Block) :
    b.outline.countP (·.role == .statement b.place) +
        b.diagnostics.countP (·.severity == .info) =
      b.statements.countP (·.kind != .declare) := by
  rw [countP_outline, countP_diagnostics, outcomes, length_outcomes, List.countP_eq_length_filter]

end Block

end Pascal

open Pascal (Becomes Block Draft OutlineLine blocks outcome outline)

/-- **Every statement is accounted for**, in every generated file. Its text is the outline of the
unit that was drafted, and the lines of blocks in it are those of one block after the other. What
is reported comes from the imports, from the functions and from the blocks, in this order. In each
block the rules say what becomes of each statement: declarations are declared, and every other
statement gives one line or is reported once as skipped. -/
theorem generate_accounts_for_statements {settings : Settings} {request : Request}
    {document : Document} {g : GeneratedFile} (h : generate settings request document = .ok g) :
    let u := (draftUnit settings request document).1.unit
    g.content = Layout.Line.renderAll settings.indent (OutlineLine.lines (outline u)) ∧
    (outline u).filter (·.role.isOfBlock) = (blocks u).flatMap Block.outline ∧
    g.diagnostics =
      document.imports.filterMap (Pascal.importWarning? settings) ++
        document.functions.filterMap (Draft.functionDiagnostic? request.isMain) ++
        (blocks u).flatMap Block.diagnostics ∧
    (∀ s o, Becomes s o ↔ outcome s = o) ∧
    ∀ b ∈ blocks u,
      b.outline.countP (·.role == .statement b.place) +
          b.diagnostics.countP (·.severity == .info) =
        b.statements.countP (·.kind != .declare) := by
  intro u
  obtain ⟨hfinished, rfl⟩ := generate_eq_ok_iff.mp h
  have hsaid := congrArg Draft.diagnostics (draftUnit_eq hfinished)
  refine ⟨(Pascal.laysOut_unitScript u).run_text, Pascal.filter_isOfBlock_outline u, ?_,
    fun _ _ => Pascal.becomes_iff, fun b _ => b.countP_statements⟩
  rw [GeneratedFile.ofDraft, hsaid, ← Pascal.unitDiagnostics_eq]

/-- A main file with a function, an entry point and a class. -/
def counterDocument : Document :=
  ⟨[⟨"@delphi/"⟩],
    [⟨some "run", false, false, [⟨"limit", some "int"⟩], some "number",
        [.declare [⟨"total", some "int", none⟩, ⟨"rest", none, some (.literal "0")⟩],
          .evaluate (.binary (.access (.identifier "this") "count" "this.count") "="
            (.literal "1") "this.count = 1"),
          .whileLoop (.identifier "busy") [.unsupported],
          .evaluate (.raw "i++" (some "PostfixUnaryExpression")),
          .evaluate (.binary (.access (.identifier "that") "count" "that.count") "+="
            (.literal "2") "that.count += 2")]⟩,
      ⟨none, true, true, [], none, [.returning none]⟩],
    [⟨"Counter", none, [⟨"size", some "int", some "8", some .inClass, false⟩]⟩]⟩

/-- A program with two routines and a main block: two warnings, three skipped statements and three
assignments, each at its place. -/
theorem generate_counterDocument_accounted :
    ∃ g, generate (.ofRoot ⟨"in"⟩) ⟨"Main", ⟨"main.ts"⟩, true⟩ counterDocument = .ok g ∧
      g.diagnostics =
        [⟨.warning, "imports", "import '@delphi/' names no unit and was skipped", none⟩,
          ⟨.warning, "implementation", "'rest' has no type and is declared Variant",
            some "function run"⟩,
          ⟨.info, "implementation", "skipped WhileStatement", some "function run"⟩,
          ⟨.info, "implementation", "skipped PostfixUnaryExpression", some "function run"⟩,
          ⟨.info, "implementation", "skipped ReturnStatement", some "Main"⟩] ∧
      ((outline (draftUnit (.ofRoot ⟨"in"⟩) ⟨"Main", ⟨"main.ts"⟩, true⟩
          counterDocument).1.unit).filter (·.role.isOfBlock)).map OutlineLine.text =
        ["var", "total: int;", "rest: Variant;", "begin", "count := 1;", "that.count :+= 2;", "end",
          "begin", "size := 8;", "end", "begin", "end."] := by
  have hgenerated : generate (.ofRoot ⟨"in"⟩) ⟨"Main", ⟨"main.ts"⟩, true⟩ counterDocument =
      .ok (.ofDraft (.ofRoot ⟨"in"⟩)
        (draftUnit (.ofRoot ⟨"in"⟩) ⟨"Main", ⟨"main.ts"⟩, true⟩ counterDocument).1) :=
    generate_eq_ok_iff.mpr ⟨by decide, rfl⟩
  obtain ⟨-, hlines, hdiagnostics, -⟩ := generate_accounts_for_statements hgenerated
  refine ⟨_, hgenerated, hdiagnostics.trans (by decide), ?_⟩
  rw [hlines]
  decide

end DelphiUnits
