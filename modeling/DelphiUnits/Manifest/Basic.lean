import DelphiUnits.Problem
import DelphiUnits.Settings
import DelphiUnits.Text.Span

/-!
# Manifests

A manifest says where the documents of a project are, where generated files go, which file is
the main one, and how files are generated. Whatever it leaves out has a default.
-/

namespace DelphiUnits

namespace Manifest

/-- Where the files of a project are. -/
structure Locations where
  /-- The directory of the documents. -/
  input : Path
  /-- The directory of the generated files. -/
  output : Path
  /-- The main file below the input directory. A library has none. -/
  main : Option String
  deriving DecidableEq, Repr

/-- How the files of a project are generated. -/
structure Rules where
  /-- The beginnings of imports that name system units. -/
  systemPrefixes : List String
  /-- The names no unit may have, besides the built-in ones. -/
  reservedWords : List String
  /-- How generated files are indented. -/
  indent : Indent
  deriving DecidableEq, Repr

/-- The default locations. -/
def Locations.default : Locations := ⟨⟨"src"⟩, ⟨"out"⟩, none⟩

/-- The default rules. -/
def Rules.default : Rules := ⟨Settings.defaultPrefixes, [], .tab⟩

end Manifest

/-- A manifest. -/
structure Manifest where
  /-- Where the files are. -/
  locations : Manifest.Locations
  /-- How they are generated. -/
  rules : Manifest.Rules
  deriving DecidableEq, Repr

namespace Manifest

/-- The manifest that says nothing. -/
def default : Manifest := ⟨.default, .default⟩

/-- The usual name of a manifest. -/
def fileName : String := "ts2delphi.toml"

/-- The manifest of a new project. -/
def template : String :=
  "[project]\ninput = \"src\"\noutput = \"out\"\nmain = \"Program.ts\"\n\n" ++
    "[translate]\nsystem_prefixes = [\"@delphi/\"]\nreserved_keywords = []\nindent = \"tab\"\n"

/-! ### Errors -/

/-- What is wrong with a word that is to be reserved. -/
inductive WordFault where
  | empty
  | badStart
  | badCharacter
  deriving DecidableEq, Repr

/-- A fault in words. -/
def WordFault.reason : WordFault → String
  | .empty => "keyword cannot be empty"
  | .badStart => "keyword must start with a letter or underscore"
  | .badCharacter => "keyword must contain only letters, numbers, and underscores"

/-- What can be wrong with a manifest. -/
inductive Error where
  /-- The file cannot be read as a text. -/
  | unreadable (path : Path)
  /-- The text is no manifest. -/
  | malformed
  /-- The main file is no source file. -/
  | badMain (main : String) (span : Option Text.Span)
  /-- The indentation has a width that cannot be chosen. -/
  | badIndent (width : Nat) (span : Option Text.Span)
  /-- A system prefix is empty. -/
  | emptyPrefix (span : Option Text.Span)
  /-- A word to be reserved is no identifier. -/
  | badWord (word : String) (fault : WordFault) (span : Option Text.Span)
  /-- The main file given in its place is no source file. -/
  | badOverride (main : String)
  deriving DecidableEq, Repr

namespace Error

/-- Where in the manifest an error is. -/
def span : Error → Option Text.Span
  | .badMain _ span => span
  | .badIndent _ span => span
  | .emptyPrefix span => span
  | .badWord _ _ span => span
  | _ => none

/-- The message of an error. -/
def message : Error → String
  | .unreadable path => "failed to read '" ++ path.text ++ "'"
  | .malformed => "failed to parse ts2delphi.toml"
  | .badMain main _ => "main file '" ++ main ++ "' must be a .ts file"
  | .badIndent width _ => "indent width must be 2, 4 or 8, found " ++ toString width
  | .emptyPrefix _ => "system prefixes cannot be empty"
  | .badWord word _ _ => "invalid reserved keyword '" ++ word ++ "'"
  | .badOverride main => "invalid value for --main: '" ++ main ++ "' is not a .ts file"

/-- The code of an error. -/
def code : Error → String
  | .unreadable _ => "ts2delphi::manifest_io"
  | .malformed => "ts2delphi::manifest_parse"
  | .badMain .. => "ts2delphi::manifest_validation"
  | .badIndent .. => "ts2delphi::manifest_validation"
  | .emptyPrefix _ => "ts2delphi::manifest_validation"
  | .badWord .. => "ts2delphi::invalid_keyword"
  | .badOverride _ => "ts2delphi::invalid_override"

/-- What to do about an error. -/
def help : Error → Option String
  | .unreadable _ => some "run 'ts2delphi init' to create a ts2delphi.toml"
  | .badWord _ fault _ =>
    some (fault.reason ++
      ". Use only letters, numbers, and underscores, starting with a letter or underscore.")
  | _ => none

/-- How an error is shown. -/
def problem (e : Error) : Problem :=
  ⟨e.message, e.code, e.help⟩

end Error

end Manifest

end DelphiUnits
