/-!
# TOML values and tables

A TOML document is a table. Tables come about in four ways, which decide whether more may be
put into them later: by a header of their own, as something a header passes through, by a
dotted key, or written out in braces.

A manifest has texts, whole numbers, arrays and tables. Floats, truth values and dates are
values too, and are kept as they are spelled, like whole numbers that cannot be read.
-/

namespace DelphiUnits.Toml

/-- How a table came about. -/
inductive Origin where
  /-- By a header of its own. -/
  | header
  /-- On the way to a table with a header. -/
  | implied
  /-- By a dotted key. -/
  | dotted
  /-- In braces. -/
  | braces
  deriving DecidableEq, Repr

/-- A value. -/
inductive Value where
  | string (text : String)
  | integer (value : Int)
  /-- Any other value that is written without quotes, as it is spelled. -/
  | word (text : String)
  /-- An array, which headers may extend if it was made by headers. -/
  | array (extensible : Bool) (items : List Value)
  | table (origin : Origin) (entries : List (String × Value))

/-- The entries of a table. -/
abbrev Entries := List (String × Value)

/-- The value under a key. -/
def lookup? (entries : Entries) (key : String) : Option Value :=
  (entries.find? (·.1 == key)).map Prod.snd

/-- Change the value under a key in its place. -/
def replace (entries : Entries) (key : String) (value : Value) : Entries :=
  entries.map fun (k, v) => if k = key then (k, value) else (k, v)

/-- Put a value under a dotted key. The tables on the way are those that dotted keys made;
the last key must be new. -/
def insertDotted (entries : Entries) : List String → Value → Option Entries
  | [], _ => none
  | [key], value =>
    match lookup? entries key with
    | none => some (entries ++ [(key, value)])
    | some _ => none
  | key :: rest, value =>
    match lookup? entries key with
    | none => (insertDotted [] rest value).map fun inner =>
        entries ++ [(key, .table .dotted inner)]
    | some (.table .dotted inner) => (insertDotted inner rest value).map fun inner =>
        replace entries key (.table .dotted inner)
    | some _ => none

/-- Change the table at the end of a path of keys, in which an array that headers made
stands for its last table. Tables that are missing on the way are implied. -/
def updateAt (change : Origin × Entries → Option (Origin × Entries)) :
    List String → Origin × Entries → Option (Origin × Entries)
  | [], t => change t
  | key :: rest, (origin, entries) =>
    match lookup? entries key with
    | none => (updateAt change rest (.implied, [])).map fun (o, inner) =>
        (origin, entries ++ [(key, .table o inner)])
    | some (.table .braces _) => none
    | some (.table o inner) => (updateAt change rest (o, inner)).map fun (o, inner) =>
        (origin, replace entries key (.table o inner))
    | some (.array true items) =>
      match items.getLast? with
      | some (.table o inner) => (updateAt change rest (o, inner)).map fun (o, inner) =>
          (origin, replace entries key (.array true (items.dropLast ++ [.table o inner])))
      | _ => none
    | some _ => none

/-- Open the table of a header, which no header and no key may have made before. -/
def openTable : Origin × Entries → Option (Origin × Entries)
  | (.implied, entries) => some (.header, entries)
  | _ => none

/-- Add a table to the array under a key. -/
def openItem (key : String) : Origin × Entries → Option (Origin × Entries)
  | (origin, entries) =>
    match lookup? entries key with
    | none => some (origin, entries ++ [(key, .array true [.table .header []])])
    | some (.array true items) =>
      some (origin, replace entries key (.array true (items ++ [.table .header []])))
    | some _ => none

end DelphiUnits.Toml
