import DelphiUnits.Layout
import DelphiUnits.Path
import DelphiUnits.ReservedWords

/-!
# Settings

What is the same for all files of a project.
-/

namespace DelphiUnits

/-- The settings of a project. -/
structure Settings where
  /-- The names no generated unit may have. -/
  reservedWords : ReservedWords
  /-- The directory that imports start from. -/
  inputRoot : Path
  /-- The beginnings of imports that name system units. -/
  systemPrefixes : List String
  /-- How generated files are indented. -/
  indent : Indent
  deriving DecidableEq, Repr

namespace Settings

/-- The beginnings of system imports in a project that sets none. -/
def defaultPrefixes : List String := ["@delphi/"]

/-- The settings of a project that sets nothing. -/
def ofRoot (inputRoot : Path) : Settings :=
  ⟨.builtIn, inputRoot, defaultPrefixes, .tab⟩

/-- What follows the **first system prefix** that a specifier starts with. -/
def systemPart? (s : Settings) (specifier : String) : Option (List Char) :=
  (s.systemPrefixes.find? fun p => p.toList.isPrefixOf specifier.toList).map fun p =>
    specifier.toList.drop p.toList.length

end Settings

end DelphiUnits
