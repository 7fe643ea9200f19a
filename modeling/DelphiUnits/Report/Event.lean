import DelphiUnits.Text.Span

/-!
# Showing a report

A report is shown as a sequence of events, each of which says what is shown and not how. On a
terminal every event is one or two lines; warnings and errors go to the error stream.
-/

namespace DelphiUnits.Report

/-- Something that is shown. -/
inductive Event where
  | title (text : String)
  | heading (name : String)
  | keyValue (key value : String)
  | numberedItem (index : Nat) (text : String)
  | listItem (text : String)
  | addedItem (text : String)
  | warning (message : String)
  | error (rendered : String)
  | divider (label : String)
  | preformatted (text : String)
  | newline
  deriving DecidableEq, Repr

namespace Event

/-- What an event writes to the output stream. -/
def output : Event → String
  | .title text =>
    text ++ "\n" ++ String.ofList (List.replicate (Text.byteLength text.toList) '=') ++ "\n"
  | .heading name => name ++ ":\n"
  | .keyValue key value => key ++ ": " ++ value ++ "\n"
  | .numberedItem index text => "  " ++ toString index ++ ". " ++ text ++ "\n"
  | .listItem text => "  - " ++ text ++ "\n"
  | .addedItem text => "  + " ++ text ++ "\n"
  | .divider label => "── " ++ label ++ " ──\n"
  | .preformatted text => text ++ "\n"
  | .newline => "\n"
  | .warning _ => ""
  | .error _ => ""

/-- What an event writes to the error stream. -/
def errorOutput : Event → String
  | .warning message => "warning: " ++ message ++ "\n"
  | .error rendered => rendered ++ "\n"
  | _ => ""

end Event

/-- What events write to the output stream. -/
def output (events : List Event) : String :=
  String.join (events.map Event.output)

/-- What events write to the error stream. -/
def errorOutput (events : List Event) : String :=
  String.join (events.map Event.errorOutput)

/-- The warning about a main file that is not there. -/
def missingMainEvents (main : Option String) : List Event :=
  (main.map fun main => Event.warning ("main file '" ++ main ++ "' was not found")).toList

end DelphiUnits.Report
