import DelphiUnits.Text.Chars

/-!
# Paths

A path is kept as it is written. Slashes cut it into **segments**; the segments that say
where to go are its **components**. Empty segments and `.` say nothing, except that a slash
at the very start is the root and a `.` at the very start is the current directory.

Cutting a path short, at its front or at its end, keeps the rest of the text as it is and
drops only the segments at the cut that say nothing.
-/

namespace DelphiUnits

/-- A path as it is written, which is a text. -/
structure Path where
  /-- The text of the path. -/
  text : String
  deriving DecidableEq, Repr

namespace Path

/-- A step of a path. -/
inductive Component where
  | root
  | current
  | parent
  | name (text : String)
  deriving DecidableEq, Repr

/-! ### Segments -/

/-- A stretch of a path between slashes. -/
abbrev Segment := List Char

/-- Cut a text at its slashes. -/
def splitSlash : List Char → List Segment
  | [] => [[]]
  | c :: cs =>
    if c = '/' then [] :: splitSlash cs
    else
      match splitSlash cs with
      | [] => [[c]]
      | s :: rest => (c :: s) :: rest

/-- Put segments together with slashes. -/
def joinSlash : List Segment → List Char
  | [] => []
  | [s] => s
  | s :: rest => s ++ '/' :: joinSlash rest

/-- The component that a segment stands for behind the start of a path. -/
def component? : Segment → Option Component
  | [] => none
  | ['.'] => none
  | ['.', '.'] => some .parent
  | s => some (.name (String.ofList s))

/-- Whether a segment says nothing. -/
def isSilent (s : Segment) : Bool :=
  (component? s).isNone

/-- Segments without the silent ones at their end. -/
def trimRight (body : List Segment) : List Segment :=
  (body.reverse.dropWhile isSilent).reverse

/-- Segments without the silent ones at both ends. -/
def trimSilent (body : List Segment) : List Segment :=
  trimRight (body.dropWhile isSilent)

/-- Segments from behind a number of components. -/
def dropComponents : Nat → List Segment → List Segment
  | 0, body => body
  | _ + 1, [] => []
  | n + 1, s :: rest =>
    if isSilent s then dropComponents (n + 1) rest else dropComponents n rest

/-- Segments before the last component. -/
def dropLastComponent (body : List Segment) : List Segment :=
  trimRight (trimRight body).dropLast

/-! ### Components -/

/-- The component that the start of a path stands for, and the segments behind it. -/
def opening (p : Path) : Option Component × List Segment :=
  match p.text.toList with
  | '/' :: rest => (some .root, splitSlash rest)
  | ['.'] => (some .current, [])
  | '.' :: '/' :: rest => (some .current, splitSlash rest)
  | cs => (none, splitSlash cs)

/-- The path with a start and the segments behind it. -/
def ofOpening : Option Component × List Segment → Path
  | (some .root, body) => ⟨String.ofList ('/' :: joinSlash body)⟩
  | (some _, []) => ⟨"."⟩
  | (some _, body) => ⟨String.ofList ('.' :: '/' :: joinSlash body)⟩
  | (none, body) => ⟨String.ofList (joinSlash body)⟩

/-- **The components of a path.** -/
def components (p : Path) : List Component :=
  p.opening.1.toList ++ p.opening.2.filterMap component?

/-- The path that goes through the given names. -/
def ofNames (names : List String) : Path :=
  ⟨String.ofList (joinSlash (names.map String.toList))⟩

/-- Whether a path starts at the root. -/
def isAbsolute (p : Path) : Bool :=
  p.text.toList.head? == some '/'

/-- The name a path leads to, if it ends in one. -/
def fileName? (p : Path) : Option String :=
  match p.components.getLast? with
  | some (.name s) => some s
  | _ => none

/-- The path without its last component. -/
def parent? (p : Path) : Option Path :=
  match p.opening with
  | (start, body) =>
    if (trimRight body).isEmpty then
      match start with
      | some .current => some ⟨""⟩
      | _ => none
    else some (ofOpening (start, dropLastComponent body))

/-- **Go on from a path** with another one. An absolute path takes its place. -/
def join (p q : Path) : Path :=
  if q.isAbsolute then q
  else if p.text.toList.getLast?.all (· == '/') then ⟨p.text ++ q.text⟩
  else ⟨p.text ++ "/" ++ q.text⟩

/-- Go on from a path through the given names. -/
def joinNames (p : Path) (names : List String) : Path :=
  names.foldl (fun path name => path.join ⟨name⟩) p

/-- What is left of a path behind a number of its components. -/
def drop (p : Path) : Nat → Path
  | 0 => ofOpening (p.opening.1, trimRight p.opening.2)
  | n + 1 =>
    match p.opening with
    | (some _, body) => ⟨String.ofList (joinSlash (trimSilent (dropComponents n body)))⟩
    | (none, body) => ⟨String.ofList (joinSlash (trimSilent (dropComponents (n + 1) body)))⟩

/-- **What follows a base** in a path, if its first components are those of the base. -/
def stripBase? (p base : Path) : Option Path :=
  if base.components.isPrefixOf p.components then some (p.drop base.components.length)
  else none

/-- A name before its last dot and behind it. A dot at the very start does not count. -/
def splitExtension (name : List Char) : List Char × Option (List Char) :=
  let reversed := name.reverse
  match reversed.dropWhile (· != '.') with
  | [] => (name, none)
  | [_] => (name, none)
  | _ :: stem => (stem.reverse, some (reversed.takeWhile (· != '.')).reverse)

end Path

end DelphiUnits
