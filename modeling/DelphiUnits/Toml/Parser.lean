import DelphiUnits.Toml.Text
import DelphiUnits.Toml.Word

/-!
# Reading TOML

A document is a sequence of lines. A line is empty, opens a table by a header, or puts a
value under a key of the table that is open.
-/

namespace DelphiUnits.Toml

/-! ### Values -/

/-- The most arrays and tables in braces that may be open at once. -/
def maxDepth : Nat := 80

mutual

/-- A value. The first argument bounds the steps of the reader, the second is the number of
brackets and braces that may still be opened. -/
def value? : Nat → Nat → List Char → Option (Value × List Char)
  | 0, _, _ => none
  | fuel + 1, depth, cs =>
    match cs, depth with
    | '[' :: rest, depth + 1 =>
      (items? fuel depth rest).map fun (items, rest) => (.array false items, rest)
    | '[' :: _, 0 => none
    | '\x7b' :: rest, depth + 1 =>
      (braces? fuel depth [] rest).map fun (entries, rest) => (.table .braces entries, rest)
    | '\x7b' :: _, 0 => none
    | '"' :: _, _ => (text? cs).map fun (s, rest) => (.string s, rest)
    | '\'' :: _, _ => (text? cs).map fun (s, rest) => (.string s, rest)
    | _, _ =>
      let (word, rest) := splitWord [] cs
      (wordValue? word).map (·, rest)

/-- The items of an array, from behind its opening bracket or a comma. -/
def items? : Nat → Nat → List Char → Option (List Value × List Char)
  | 0, _, _ => none
  | fuel + 1, depth, cs =>
    match skipSpace cs with
    | ']' :: rest => some ([], rest)
    | start => do
      let (item, rest) ← value? fuel depth start
      match skipSpace rest with
      | ',' :: rest => do
        let (items, rest) ← items? fuel depth rest
        some (item :: items, rest)
      | ']' :: rest => some ([item], rest)
      | _ => none

/-- The entries of a table in braces, after those there are, from behind its opening brace
or a comma. -/
def braces? : Nat → Nat → Entries → List Char → Option (Entries × List Char)
  | 0, _, _, _ => none
  | fuel + 1, depth, entries, cs =>
    match skipSpace cs with
    | '\x7d' :: rest => some (entries, rest)
    | start => do
      let (keys, rest) ← key? start
      match skipSpace rest with
      | '=' :: rest => do
        let (value, rest) ← value? fuel depth (skipSpace rest)
        let entries ← insertDotted entries keys value
        match skipSpace rest with
        | ',' :: rest => braces? fuel depth entries rest
        | '\x7d' :: rest => some (entries, rest)
        | _ => none
      | _ => none

end

/-! ### Documents -/

/-- A document as far as it was read. -/
structure Reading where
  /-- The path of the table that is open. -/
  current : List String
  /-- The table of the document. -/
  root : Origin × Entries

/-- Open the table at a path. -/
def Reading.openAt (r : Reading) (path : List String) : Option Reading :=
  (updateAt openTable path r.root).map fun root => ⟨path, root⟩

/-- Open a new table in the array at a path. -/
def Reading.openItemAt (r : Reading) (path : List String) : Option Reading := do
  let last ← path.getLast?
  let root ← updateAt (openItem last) path.dropLast r.root
  some ⟨path, root⟩

/-- Put a value under a key of the open table. -/
def Reading.insert (r : Reading) (keys : List String) (value : Value) : Option Reading :=
  (updateAt (fun (origin, entries) => (insertDotted entries keys value).map (origin, ·))
    r.current r.root).map fun root => { r with root }

/-- Read a line. -/
def Reading.line (r : Reading) (cs : List Char) : Option (Reading × List Char) :=
  match skipBlanks cs with
  | '[' :: '[' :: rest => do
    let (path, rest) ← key? rest
    match rest with
    | ']' :: ']' :: rest => do
      let r ← r.openItemAt path
      some (r, ← endLine? rest)
    | _ => none
  | '[' :: rest => do
    let (path, rest) ← key? rest
    match rest with
    | ']' :: rest => do
      let r ← r.openAt path
      some (r, ← endLine? rest)
    | _ => none
  | start =>
    match endLine? start with
    | some rest => some (r, rest)
    | none => do
      let (keys, rest) ← key? start
      match rest with
      | '=' :: rest => do
        let (value, rest) ← value? (2 * rest.length + 2) maxDepth (skipBlanks rest)
        let r ← r.insert keys value
        some (r, ← endLine? rest)
      | _ => none

/-- Read lines, at most as many as the first argument says. -/
def Reading.lines : Nat → Reading → List Char → Option Reading
  | _, r, [] => some r
  | 0, _, _ => none
  | fuel + 1, r, cs => (r.line cs).bind fun (r, rest) => lines fuel r rest

/-- A text without the mark that may come before it. -/
def skipMark : List Char → List Char
  | '\ufeff' :: rest => rest
  | cs => cs

/-- **Read a document**: the entries of its table, none if the text is no TOML document. -/
def parse? (s : String) : Option Entries :=
  let cs := skipMark s.toList
  (Reading.lines cs.length ⟨[], (.header, [])⟩ cs).map (·.root.2)

end DelphiUnits.Toml
