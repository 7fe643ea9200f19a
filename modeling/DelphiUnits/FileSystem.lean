import DelphiUnits.OrderedMap
import DelphiUnits.Path

/-!
# File systems

A file system is a map from **places** to what is there. A place is given by the names that
lead to it from the root, so it is the same however it is written as a path. The root is
always a directory, and there are no links. All names are texts: a tree that holds a name
which is not UTF-8 is none of these file systems. Anyone may read and write what is there.

A path is followed one segment at a time, each from a directory; paths that do not start at
the root start at the working directory.
-/

namespace DelphiUnits

/-- A place in a file system: the names that lead there from the root, each a text. -/
abbrev Place := List String

/-- What is at a place. -/
inductive Node where
  | directory
  | file (content : ByteArray)
  deriving BEq

/-- Whether it is a directory. -/
def Node.isDirectory : Node → Bool
  | .directory => true
  | .file _ => false

/-- A file system with a working directory. -/
structure FileSystem where
  /-- What is at each place below the root. -/
  nodes : OrderedMap Place Node
  /-- The working directory. -/
  workingDirectory : Place

namespace FileSystem

/-! ### Places -/

/-- **What is at a place.** -/
def node? (fs : FileSystem) : Place → Option Node
  | [] => some .directory
  | place => (fs.nodes.find? (·.1 == place)).map Prod.snd

/-- Whether a place is a directory. -/
def isDirectoryAt (fs : FileSystem) (place : Place) : Bool :=
  (fs.node? place).any Node.isDirectory

/-- Put something at a place. -/
def putAt (fs : FileSystem) (place : Place) (node : Node) : FileSystem :=
  { fs with nodes := fs.nodes.insert place node }

/-- Take away what is at a place and below it. -/
def removeAt (fs : FileSystem) (place : Place) : FileSystem :=
  { fs with nodes := fs.nodes.filter fun (p, _) => !place.isPrefixOf p }

/-- The place one segment further on. -/
def stepFrom (place : Place) : Path.Segment → Place
  | [] => place
  | ['.'] => place
  | ['.', '.'] => place.dropLast
  | s => place ++ [String.ofList s]

/-- The most bytes of a name. -/
def maxNameSize : Nat := 255

/-- The most bytes of a path. -/
def maxPathSize : Nat := 4095

/-- Whether a segment can be a name: it is not too long. -/
def isNameable (s : Path.Segment) : Bool :=
  (String.ofList s).utf8ByteSize ≤ maxNameSize

/-- Whether a path can be followed: it is not empty, holds no zero character, and is not too
long. -/
def isUsable (p : Path) : Bool :=
  p.text != "" && !p.text.toList.contains '\x00' && p.text.utf8ByteSize ≤ maxPathSize

/-- The place that segments lead to. Every segment starts at a directory. -/
def walk (fs : FileSystem) (place : Place) : List Path.Segment → Option Place
  | [] => some place
  | s :: rest =>
    if fs.isDirectoryAt place && isNameable s then fs.walk (stepFrom place s) rest else none

/-- Where a path starts, and the segments it goes on with. -/
def startOf (fs : FileSystem) (p : Path) : Place × List Path.Segment :=
  match p.text.toList with
  | '/' :: rest => ([], Path.splitSlash rest)
  | cs => (fs.workingDirectory, Path.splitSlash cs)

/-- **The place a path leads to.** There need not be anything there. -/
def locate? (fs : FileSystem) (p : Path) : Option Place :=
  if isUsable p then fs.walk (fs.startOf p).1 (fs.startOf p).2 else none

/-- The working directory as a path. -/
def workingPath (fs : FileSystem) : Path :=
  ⟨"/" ++ (Path.ofNames fs.workingDirectory).text⟩

/-- A path as one from the root. -/
def absolute (fs : FileSystem) (p : Path) : Path :=
  fs.workingPath.join p

/-! ### Reading -/

/-- What a path leads to. -/
def lookup? (fs : FileSystem) (p : Path) : Option Node :=
  (fs.locate? p).bind fs.node?

/-- Whether a path leads to something. -/
def pathExists (fs : FileSystem) (p : Path) : Bool :=
  (fs.lookup? p).isSome

/-- The content of a file. -/
def read? (fs : FileSystem) (p : Path) : Option ByteArray :=
  match fs.lookup? p with
  | some (.file content) => some content
  | _ => none

/-- The content of a file that is a text. -/
def readText? (fs : FileSystem) (p : Path) : Option String :=
  (fs.read? p).bind String.fromUTF8?

/-- The order of places: that of their names, one after the other. -/
def placeLe : Place → Place → Bool
  | [], _ => true
  | _ :: _, [] => false
  | a :: as, b :: bs => if a = b then placeLe as bs else decide (a < b)

/-- What is below a place, from there on, if it is a file. -/
def fileBelow? (place : Place) : Place × Node → Option Place
  | (p, .file _) => if place.isPrefixOf p then some (p.drop place.length) else none
  | (_, .directory) => none

/-- What is below a place, from there on, if it is a directory. -/
def directoryBelow? (place : Place) : Place × Node → Option Place
  | (p, .directory) => if place.isPrefixOf p then some (p.drop place.length) else none
  | (_, .file _) => none

/-- **The files below a directory**, in order. -/
def filesBelow (fs : FileSystem) (place : Place) : List Place :=
  ((fs.nodes.filterMap (fileBelow? place)).filter (!·.isEmpty)).mergeSort placeLe

/-- The directories below a directory. -/
def directoriesBelow (fs : FileSystem) (place : Place) : List Place :=
  (fs.nodes.filterMap (directoryBelow? place)).filter (!·.isEmpty)

/-- The files below what a path leads to; none if it leads nowhere, or if the path of a
directory below it cannot be followed. A file has no files below it. -/
def listFiles? (fs : FileSystem) (p : Path) : Option (List Place) :=
  match fs.locate? p with
  | none => none
  | some place =>
    match fs.node? place with
    | none => none
    | some .directory =>
      if (fs.directoriesBelow place).all fun names => isUsable (p.join (.ofNames names)) then
        some (fs.filesBelow place)
      else none
    | some (.file _) => some []

/-! ### Writing -/

/-- Make the directories that segments lead through. Those that are there stay; a file in
the way stops it, and so does a name that is too long. The answer tells whether it came to
the end. -/
def makeDirectories (fs : FileSystem) (place : Place) : List Path.Segment → FileSystem × Bool
  | [] => (fs, fs.isDirectoryAt place)
  | s :: rest =>
    if fs.isDirectoryAt place && isNameable s then
      let next := stepFrom place s
      match fs.node? next with
      | none => makeDirectories (fs.putAt next .directory) next rest
      | some _ => makeDirectories fs next rest
    else (fs, false)

/-- Make a directory and all directories on the way. -/
def makePath (fs : FileSystem) (p : Path) : FileSystem × Bool :=
  if p.text = "" then (fs, true)
  else if isUsable p then fs.makeDirectories (fs.startOf p).1 (fs.startOf p).2
  else (fs, false)

/-- Write a file into a directory that is there. -/
def writeInto? (fs : FileSystem) (p : Path) (content : ByteArray) : Option FileSystem :=
  match fs.locate? p with
  | none => none
  | some place => if fs.isDirectoryAt place then none else some (fs.putAt place (.file content))

/-- Write a file, and make the directories on the way first. -/
def writeFile (fs : FileSystem) (p : Path) (content : ByteArray) : FileSystem × Bool :=
  let (fs, made) := match p.parent? with
    | some parent => fs.makePath parent
    | none => (fs, true)
  if made then
    match fs.writeInto? p content with
    | some fs => (fs, true)
    | none => (fs, false)
  else (fs, false)

/-- What became of a file that was to be written. -/
inductive WriteResult where
  | written
  | unchanged
  | failed
  deriving DecidableEq, Repr

/-- **Bring a file up to date.** A file that has the content already is left alone. -/
def update (fs : FileSystem) (p : Path) (content : String) : FileSystem × WriteResult :=
  match fs.lookup? p with
  | some .directory => (fs, .failed)
  | some (.file old) =>
    if old.data = content.toUTF8.data then (fs, .unchanged) else write
  | none => write
where
  /-- Write the file. -/
  write : FileSystem × WriteResult :=
    match fs.writeFile p content.toUTF8 with
    | (fs, true) => (fs, .written)
    | (fs, false) => (fs, .failed)

end FileSystem

end DelphiUnits
