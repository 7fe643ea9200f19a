import DelphiUnits.Settings
import DelphiUnits.Source.Declaration

/-!
# What an import names

An import that starts with a system prefix names a **system unit**: the rest of it, with
dots for slashes. Any other import names a **unit of the project**, by the path of its
source file below the input root.

Such a path is followed step by step, without looking at any directory. It must not leave
the input root on its way, and it has to lead somewhere below it.
-/

namespace DelphiUnits.Pascal

open DelphiUnits.Path (Component)

/-! ### Following a path -/

/-- Take one step from a place below the root, which is given by its names in reverse. -/
def follow (names : List String) : Component → Option (List String)
  | .current => some names
  | .parent =>
    match names with
    | [] => none
    | _ :: above => some above
  | .name s => some (s :: names)
  | .root => none

/-- Take steps one after the other. -/
def followAll (names : List String) : List Component → Option (List String)
  | [] => some names
  | c :: rest => (follow names c).bind fun names' => followAll names' rest

/-- The extensions that an import may have. -/
def isSourceExtension (e : List Char) : Bool :=
  e == ['t', 's'] || e == ['p', 'a', 's']

/-- A name without its extension, if that is one an import may have. -/
def stripExtension (name : String) : String :=
  match Path.splitExtension name.toList with
  | (stem, some e) => if isSourceExtension e then String.ofList stem else name
  | (_, none) => name

/-- The path of an import as it counts: an absolute one from behind the input root. -/
def importPath? (inputRoot : Path) (specifier : String) : Option Path :=
  if Path.isAbsolute ⟨specifier⟩ then Path.stripBase? ⟨specifier⟩ inputRoot
  else some ⟨specifier⟩

/-- **Resolve an import of the project**: the path of the unit below the input root, without
an extension. -/
def resolveImport? (inputRoot : Path) (specifier : String) : Option Path := do
  let path ← importPath? inputRoot specifier
  match ← followAll [] path.components with
  | [] => none
  | last :: above => some (Path.ofNames (stripExtension last :: above).reverse)

/-! ### Units -/

/-- What an import names. -/
inductive Imported where
  /-- A system unit. -/
  | system (name : String)
  /-- No unit: nothing follows the system prefix. -/
  | nothing
  /-- A unit of the project and its generated file. -/
  | project (name path : String)
  deriving DecidableEq, Repr

/-- Why an import is refused. -/
inductive ImportError where
  /-- It does not lead below the input root. -/
  | outsideRoot
  /-- It names a unit by a reserved word. -/
  | reservedWord (name : String)
  deriving DecidableEq, Repr

/-- A text without the slashes at its ends. -/
def trimSlashes (cs : List Char) : List Char :=
  ((cs.dropWhile (· == '/')).reverse.dropWhile (· == '/')).reverse

/-- The name of a system unit. -/
def systemName (part : List Char) : String :=
  String.ofList ((trimSlashes part).map fun c => if c = '/' then '.' else c)

/-- The name of a unit of the project. -/
def projectName (relative : Path) : String :=
  relative.fileName?.getD ""

/-- The generated file of a unit of the project. -/
def projectPath (relative : Path) : String :=
  Text.forwardSlashes relative.text ++ ".pas"

/-- **What an import names**, or why it is refused. -/
def classifyImport (settings : Settings) (specifier : String) : Except ImportError Imported :=
  match settings.systemPart? specifier with
  | some part =>
    if systemName part = "" then .ok .nothing else .ok (.system (systemName part))
  | none =>
    match resolveImport? settings.inputRoot specifier with
    | none => .error .outsideRoot
    | some relative =>
      if settings.reservedWords.contains (projectName relative) then
        .error (.reservedWord (projectName relative))
      else .ok (.project (projectName relative) (projectPath relative))

end DelphiUnits.Pascal
