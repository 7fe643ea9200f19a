import DelphiUnits.Manifest.Reader

/-!
# What a manifest may say

A manifest that can be decoded is checked: the main file is a source file, the width of the
indentation is one of three, no system prefix is empty, and every word to be reserved is an
identifier. The first check that fails, in this order, is the error.

Values from the command line take the place of those in a manifest. A main file given there
is checked before anything is replaced.
-/

namespace DelphiUnits.Manifest

/-- Whether a name is that of a source file. -/
def isSourceFile (name : String) : Bool :=
  ['.', 't', 's'].isSuffixOf name.toList

/-! ### Reserved words -/

/-- What is wrong with a word that is to be reserved. -/
def wordFault? (word : String) : Option WordFault :=
  match word.toList with
  | [] => some .empty
  | c :: rest =>
    if c.isAlpha || c == '_' then
      if rest.all Text.isWordChar then none else some .badCharacter
    else some .badStart

/-- **Check a word** that is to be reserved by a manifest. -/
def checkWord (content word : String) : Except Error Unit :=
  match wordFault? word with
  | some fault => .error (.badWord word fault (Text.stringSpan? content word))
  | none => .ok ()

/-- Check words up to the first that fails. -/
def checkWords (content : String) : List String → Except Error Unit
  | [] => .ok ()
  | word :: rest =>
    match checkWord content word with
    | .ok () => checkWords content rest
    | .error e => .error e

/-! ### Manifests -/

/-- Check the main file. -/
def checkMain (content : String) : Option String → Except Error Unit
  | none => .ok ()
  | some main =>
    if isSourceFile main then .ok ()
    else .error (.badMain main (Text.stringSpan? content main))

/-- Check the indentation. -/
def checkIndent (content : String) : Indent → Except Error Unit
  | .tab => .ok ()
  | .spaces width =>
    if width ∈ Indent.widths then .ok ()
    else .error (.badIndent width (Text.keySpan? content "indent"))

/-- Check the system prefixes. -/
def checkPrefixes (content : String) (systemPrefixes : List String) : Except Error Unit :=
  if "" ∈ systemPrefixes then .error (.emptyPrefix (Text.keySpan? content "system_prefixes"))
  else .ok ()

/-- **Check a manifest** against the text it was decoded from. -/
def validate (content : String) (m : Manifest) : Except Error Unit := do
  checkMain content m.locations.main
  checkIndent content m.rules.indent
  checkPrefixes content m.rules.systemPrefixes
  checkWords content m.rules.reservedWords

/-- **Read a manifest** from its text. -/
def parse (content : String) : Except Error Manifest :=
  match decode? content with
  | none => .error .malformed
  | some m =>
    match validate content m with
    | .ok () => .ok m
    | .error e => .error e

/-! ### Overrides -/

/-- Values that take the place of those in a manifest. -/
structure Overrides where
  /-- The directory of the documents. -/
  input : Option Path
  /-- The directory of the generated files. -/
  output : Option Path
  /-- The main file. -/
  main : Option String
  deriving DecidableEq, Repr

/-- Whether nothing is replaced. -/
def Overrides.isEmpty (o : Overrides) : Bool :=
  o.input.isNone && o.output.isNone && o.main.isNone

/-- A manifest that is being changed. A change that fails leaves what was changed before. -/
abbrev Editing := ExceptT Error (StateM Manifest)

/-- Replace the main file, which has to be a source file. -/
def replaceMain (main : String) : Editing Unit := do
  unless isSourceFile main do
    throw (.badOverride main)
  modify fun m => { m with locations := { m.locations with main := some main } }

/-- Replace the directory of the documents. -/
def replaceInput (input : Path) : Editing Unit :=
  modify fun m => { m with locations := { m.locations with input } }

/-- Replace the directory of the generated files. -/
def replaceOutput (output : Path) : Editing Unit :=
  modify fun m => { m with locations := { m.locations with output } }

/-- Replace what is given, one after the other. -/
def Overrides.apply (o : Overrides) : Editing Unit := do
  o.main.forM replaceMain
  o.input.forM replaceInput
  o.output.forM replaceOutput

/-- **Replace values of a manifest**: whether it failed, and the manifest it leaves. -/
def override (m : Manifest) (o : Overrides) : Except Error Unit × Manifest :=
  StateT.run o.apply.run m

/-! ### Settings -/

/-- **The settings** that a manifest gives a project with an input root. -/
def settings (m : Manifest) (inputRoot : Path) : Settings :=
  ⟨ReservedWords.builtIn.insertMany m.rules.reservedWords, inputRoot, m.rules.systemPrefixes,
    m.rules.indent⟩

end DelphiUnits.Manifest
