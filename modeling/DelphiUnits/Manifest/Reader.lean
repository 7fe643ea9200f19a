import DelphiUnits.Manifest.Basic
import DelphiUnits.Toml.Parser

/-!
# Manifests in TOML

A manifest has two tables, `project` and `translate`. A key that is none of theirs makes it
unreadable, and so does a value of the wrong type. In place of a table stands an array of
the table's values in their fixed order; values past the last one are passed over.
-/

namespace DelphiUnits.Manifest

open Toml (Value Entries)

/-- Look up the fields of a table with the given keys and no others. -/
def fieldsOf? (names : List String) : Value → Option (String → Option Value)
  | .table _ entries =>
    if entries.all (names.contains ·.1) then some (Toml.lookup? entries) else none
  | .array _ items => some fun name => items[names.idxOf name]?
  | _ => none

/-- Read a value that has a default. -/
def field {α : Type} (default : α) (read : Value → Option α) : Option Value → Option α
  | none => some default
  | some v => read v

/-- Read a text. -/
def textOf? : Value → Option String
  | .string s => some s
  | _ => none

/-- Read an array of texts. -/
def textsOf? : Value → Option (List String)
  | .array _ items => items.mapM textOf?
  | _ => none

/-- Read an indentation: the word `tab`, or a number of spaces that fits a byte. -/
def indentOf? : Value → Option Indent
  | .string s => if Text.sameIgnoringCase s "tab" then some .tab else none
  | .integer n => if 0 ≤ n ∧ n ≤ 255 then some (.spaces n.toNat) else none
  | _ => none

/-- Read the `project` table. -/
def locationsOf? (v : Value) : Option Locations := do
  let get ← fieldsOf? ["input", "output", "main"] v
  let input ← field Locations.default.input (fun v => (textOf? v).map Path.mk) (get "input")
  let output ← field Locations.default.output (fun v => (textOf? v).map Path.mk) (get "output")
  let main ← field none (fun v => (textOf? v).map some) (get "main")
  some ⟨input, output, main⟩

/-- Read the `translate` table. -/
def rulesOf? (v : Value) : Option Rules := do
  let get ← fieldsOf? ["system_prefixes", "reserved_keywords", "indent"] v
  let systemPrefixes ← field Rules.default.systemPrefixes textsOf? (get "system_prefixes")
  let reservedWords ← field [] textsOf? (get "reserved_keywords")
  let indent ← field .tab indentOf? (get "indent")
  some ⟨systemPrefixes, reservedWords, indent⟩

/-- **Read a manifest** from the table of a TOML document. -/
def ofEntries? (entries : Entries) : Option Manifest := do
  let get ← fieldsOf? ["project", "translate"] (.table .header entries)
  let locations ← field .default locationsOf? (get "project")
  let rules ← field .default rulesOf? (get "translate")
  some ⟨locations, rules⟩

/-- **Decode a manifest** from its text, without judging what it says. -/
def decode? (content : String) : Option Manifest :=
  (Toml.parse? content).bind ofEntries?

end DelphiUnits.Manifest
