/-!
# Layout: indented text

Generated text is laid out by a **writer**, which keeps the text written so far and a level
of indentation, and obeys a script of **commands**. A line starts with one indentation unit
per level. The level is a 64-bit counter that stops at zero and at its greatest value.

A script depends on what is to be written only, so the unit of indentation is chosen when
the script is run.
-/

namespace DelphiUnits

/-- The text by which one level is indented: a tab or a number of spaces. -/
inductive Indent where
  | tab
  | spaces (width : Nat)
  deriving DecidableEq, Repr

namespace Indent

/-- The widths a project may choose for its indentation. -/
def widths : List Nat := [2, 4, 8]

/-- The text of one level. A width that is none of `widths` counts as four. -/
def text : Indent → String
  | .tab => "\t"
  | .spaces 2 => "  "
  | .spaces 8 => "        "
  | .spaces _ => "    "

/-- The text of a number of levels. -/
def times (i : Indent) (level : Nat) : String :=
  String.join (List.replicate level i.text)

/-- How an indentation is named to a reader. -/
def description : Indent → String
  | .tab => "tab"
  | .spaces width => toString width ++ " spaces"

end Indent

namespace Layout

/-- A command to a writer. -/
inductive Command where
  /-- Write the indentation, the text and a newline. -/
  | line (text : String)
  /-- Write the parts one after the other. -/
  | write (parts : List String)
  /-- Write the indentation, then the parts. -/
  | indented (parts : List String)
  /-- Write a newline. -/
  | newline
  /-- Change the level. -/
  | adjust (delta : Int)
  deriving DecidableEq, Repr

namespace Command

/-- One level further in. -/
def indent : Command := .adjust 1

/-- One level back out. -/
def dedent : Command := .adjust (-1)

/-- A line with nothing on it, not even indentation. -/
def blank : Command := .newline

end Command

/-- The commands that write a script one level further in. -/
def nested (script : List Command) : List Command :=
  .indent :: script ++ [.dedent]

/-- The greatest level. -/
def maxLevel : Nat := Nat.pow 2 64 - 1

/-- The level after a change, which **stops at zero and at the greatest level**. -/
def adjustLevel (level : Nat) (delta : Int) : Nat :=
  min (level + delta).toNat maxLevel

/-- A writer: what one level looks like, the current level and the text so far. -/
structure Writer where
  /-- The unit of indentation. -/
  unit : Indent
  /-- The current level. -/
  level : Nat
  /-- The text written so far. -/
  text : String
  deriving Repr

namespace Writer

/-- A writer that has written nothing, at level zero. -/
def empty (unit : Indent) : Writer := ⟨unit, 0, ""⟩

/-- What a command appends to the text of a writer at a level. -/
def appended (unit : Indent) (level : Nat) : Command → String
  | .line text => unit.times level ++ text ++ "\n"
  | .write parts => String.join parts
  | .indented parts => unit.times level ++ String.join parts
  | .newline => "\n"
  | .adjust _ => ""

/-- The level after a command. -/
def levelAfter (level : Nat) : Command → Nat
  | .adjust delta => adjustLevel level delta
  | _ => level

/-- Obey one command. -/
def obey (w : Writer) (command : Command) : Writer :=
  { w with
    level := levelAfter w.level command
    text := w.text ++ appended w.unit w.level command }

/-- **Run a script**: obey its commands in order. -/
def run (w : Writer) (script : List Command) : Writer :=
  script.foldl obey w

end Writer

end Layout

end DelphiUnits
