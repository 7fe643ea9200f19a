/-!
# Problems as they are shown

Each part of the library has its own type of errors. All of them are shown to a reader in
one form: a message, the code under which the message is known, and advice if there is any.
-/

namespace DelphiUnits

/-- An error as it is shown to a reader. -/
structure Problem where
  /-- What went wrong. -/
  message : String
  /-- The name of the kind of error. -/
  code : String
  /-- What to do about it. -/
  help : Option String
  deriving DecidableEq, Repr

namespace Problem

/-- A problem on one line. -/
def summary (p : Problem) : String :=
  "[" ++ p.code ++ "] " ++ p.message ++
    match p.help with
    | some help => " (help: " ++ help ++ ")"
    | none => ""

end Problem

end DelphiUnits
