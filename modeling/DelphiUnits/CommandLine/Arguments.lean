import DelphiUnits.Manifest.Basic

/-!
# Arguments of the command line

The program is given a command and its options. An option has a long name, some have a
letter as well; letters may stand together behind one dash, and a value follows an option as
the next argument or behind an equals sign. No option may be given twice.

Arguments are read from left to right, and the first one that is wrong, or that asks for
help or the version, decides.
-/

namespace DelphiUnits.CommandLine

/-! ### Options -/

/-- An option. -/
inductive Flag where
  | verbose
  | help
  | version
  | force
  | dryRun
  | json
  | config
  | input
  | output
  | main
  deriving DecidableEq, Repr

namespace Flag

/-- The long name of an option. -/
def longName : Flag → String
  | .verbose => "verbose"
  | .help => "help"
  | .version => "version"
  | .force => "force"
  | .dryRun => "dry-run"
  | .json => "json"
  | .config => "config"
  | .input => "input"
  | .output => "output"
  | .main => "main"

/-- The letter of an option. -/
def letter? : Flag → Option Char
  | .verbose => some 'v'
  | .help => some 'h'
  | .version => some 'V'
  | .config => some 'c'
  | _ => none

/-- Whether an option has a value. -/
def hasValue : Flag → Bool
  | .config => true
  | .input => true
  | .output => true
  | .main => true
  | _ => false

/-- Whether the value of an option is a path, which must not be empty. -/
def isPath : Flag → Bool
  | .config => true
  | .input => true
  | .output => true
  | _ => false

end Flag

/-- Why no command is carried out. -/
inductive Stop where
  /-- The arguments make no sense. -/
  | usage (message : String)
  /-- Help was asked for. -/
  | help
  /-- The version was asked for. -/
  | version
  deriving DecidableEq, Repr

/-! ### Reading options -/

/-- What was given so far. -/
structure Given where
  /-- The options with their values. -/
  flags : List (Flag × String)
  /-- The argument that is no option. -/
  operand : Option String
  deriving DecidableEq, Repr

namespace Given

/-- Nothing was given. -/
def empty : Given := ⟨[], none⟩

/-- Whether an option was given. -/
def has (g : Given) (flag : Flag) : Bool :=
  g.flags.any (·.1 == flag)

/-- The value of an option. -/
def value? (g : Given) (flag : Flag) : Option String :=
  (g.flags.find? (·.1 == flag)).map Prod.snd

/-- Take an option with its value. -/
def take (g : Given) (flag : Flag) (value : String) : Except Stop Given :=
  match flag with
  | .help => .error .help
  | .version => .error .version
  | _ =>
    if g.has flag then
      .error (.usage ("the argument '--" ++ flag.longName ++ "' cannot be used multiple times"))
    else if flag.isPath && value == "" then
      .error (.usage ("a value is required for '--" ++ flag.longName ++ "'"))
    else .ok { g with flags := g.flags ++ [(flag, value)] }

end Given

/-- The error of an argument that nothing is known about. -/
def unexpected (arg : String) : Stop :=
  .usage ("unexpected argument '" ++ arg ++ "' found")

/-- Read a long option. The answer names an option whose value has to follow. -/
def readLong (flags : List Flag) (g : Given) (arg : List Char) :
    Except Stop (Given × Option Flag) :=
  let name := String.ofList (arg.takeWhile (· != '='))
  match flags.find? (·.longName == name), arg.dropWhile (· != '=') with
  | none, _ => .error (unexpected ("--" ++ name))
  | some flag, [] => if flag.hasValue then .ok (g, some flag) else (g.take flag "").map (·, none)
  | some flag, _ :: value =>
    if flag.hasValue then (g.take flag (String.ofList value)).map (·, none)
    else .error (unexpected (String.ofList value))

/-- Read letters behind one dash. -/
def readLetters (flags : List Flag) (g : Given) : List Char → Except Stop (Given × Option Flag)
  | [] => .ok (g, none)
  | c :: rest =>
    match flags.find? (·.letter? == some c) with
    | none => .error (unexpected ("-" ++ String.singleton c))
    | some flag =>
      if flag.hasValue then
        match rest with
        | [] => .ok (g, some flag)
        | '=' :: value => (g.take flag (String.ofList value)).map (·, none)
        | value => (g.take flag (String.ofList value)).map (·, none)
      else
        match g.take flag "" with
        | .ok g => readLetters flags g rest
        | .error stop => .error stop

/-! ### Commands -/

/-- The names of the commands. -/
inductive Verb where
  | init
  | build
  | check
  | explain
  | completions
  deriving DecidableEq, Repr

namespace Verb

/-- All commands. -/
def all : List Verb := [.init, .build, .check, .explain, .completions]

/-- The name of a command. -/
def name : Verb → String
  | .init => "init"
  | .build => "build"
  | .check => "check"
  | .explain => "explain"
  | .completions => "completions"

/-- The command with a name. -/
def ofName? (s : String) : Option Verb :=
  all.find? (·.name == s)

/-- The options of a command. -/
def flags : Verb → List Flag
  | .init => [.verbose, .help, .force]
  | .build => [.verbose, .help, .config, .input, .output, .main, .dryRun]
  | .check => [.verbose, .help, .config, .input, .output, .main]
  | .explain => [.verbose, .help, .config, .input, .output, .main, .json]
  | .completions => [.verbose, .help]

/-- Whether a command has an argument that is no option. -/
def hasOperand : Verb → Bool
  | .init => true
  | .explain => true
  | .completions => true
  | _ => false

end Verb

/-- The shells there are completions for. -/
def shells : List String := ["bash", "elvish", "fish", "powershell", "zsh"]

/-- Whether a command can do something with an argument that is no option: a shell has to be
a known one, and a path is not empty. -/
def Verb.accepts (verb : Verb) (arg : String) : Bool :=
  match verb with
  | .completions => shells.contains arg
  | _ => arg != ""

/-- Take an argument that is no option. -/
def takeOperand (verb : Verb) (g : Given) (arg : String) : Except Stop Given :=
  if !verb.hasOperand || g.operand.isSome then .error (unexpected arg)
  else if verb.accepts arg then .ok { g with operand := some arg }
  else .error (.usage ("invalid value '" ++ arg ++ "'"))

/-- Whether an argument is an option, or the mark behind which there are none. -/
def isOption (arg : List Char) : Bool :=
  match arg with
  | '-' :: _ :: _ => true
  | _ => false

/-- **Read the arguments of a command.** `pending` is an option that waits for its value, and
behind the mark `--`, which `plain` tells, no argument is an option. -/
def readArguments (verb : Verb) (plain : Bool) (pending : Option Flag) (g : Given) :
    List String → Except Stop Given
  | [] =>
    match pending with
    | some flag => .error (.usage ("a value is required for '--" ++ flag.longName ++ "'"))
    | none => .ok g
  | arg :: rest =>
    match pending with
    | some flag =>
      if isOption arg.toList then
        .error (.usage ("a value is required for '--" ++ flag.longName ++ "'"))
      else
        match g.take flag arg with
        | .ok g => readArguments verb plain none g rest
        | .error stop => .error stop
    | none =>
      if plain || !isOption arg.toList then
        match takeOperand verb g arg with
        | .ok g => readArguments verb plain none g rest
        | .error stop => .error stop
      else if arg == "--" then readArguments verb true none g rest
      else
        match readOption g arg.toList with
        | .ok (g, pending) => readArguments verb plain pending g rest
        | .error stop => .error stop
where
  /-- Read one option. -/
  readOption (g : Given) : List Char → Except Stop (Given × Option Flag)
    | '-' :: '-' :: arg => readLong verb.flags g arg
    | arg => readLetters verb.flags g (arg.drop 1)

/-- Where the manifest is, and what takes the place of its values. -/
structure ProjectArguments where
  /-- The manifest file. -/
  config : Path
  /-- The directory of the documents. -/
  input : Option Path
  /-- The directory of the generated files. -/
  output : Option Path
  /-- The main file. -/
  main : Option String
  deriving DecidableEq, Repr

/-- A command with its options. -/
inductive Command where
  | init (directory : Path) (force : Bool)
  | build (project : ProjectArguments) (dryRun : Bool)
  | check (project : ProjectArguments)
  | explain (project : ProjectArguments) (document : Path) (json : Bool)
  | completions (shell : String)
  deriving DecidableEq, Repr

/-- The arguments about the project. -/
def Given.projectArguments (g : Given) : ProjectArguments :=
  ⟨⟨(g.value? .config).getD Manifest.fileName⟩, (g.value? .input).map Path.mk,
    (g.value? .output).map Path.mk, g.value? .main⟩

/-- The command that the arguments of a verb give. -/
def Given.command (g : Given) : Verb → Except Stop Command
  | .init => .ok (.init ⟨g.operand.getD "."⟩ (g.has .force))
  | .build => .ok (.build g.projectArguments (g.has .dryRun))
  | .check => .ok (.check g.projectArguments)
  | .explain =>
    match g.operand with
    | some document => .ok (.explain g.projectArguments ⟨document⟩ (g.has .json))
    | none => .error (.usage "the required argument <FILE> was not provided")
  | .completions =>
    match g.operand with
    | some shell => .ok (.completions shell)
    | none => .error (.usage "the required argument <SHELL> was not provided")

/-- What asking for help about commands comes to: there is one topic at most. -/
def readHelp : List String → Stop
  | [] => .help
  | [topic] =>
    if topic == "help" || (Verb.ofName? topic).isSome then .help
    else .usage ("unrecognized subcommand '" ++ topic ++ "'")
  | _ :: topic :: _ => .usage ("unrecognized subcommand '" ++ topic ++ "'")

/-- Read the arguments behind the name of a command. -/
def readCommand (name : String) (args : List String) : Except Stop Command :=
  if name == "help" then .error (readHelp args)
  else
    match Verb.ofName? name with
    | none => .error (.usage ("unrecognized subcommand '" ++ name ++ "'"))
    | some verb =>
      match readArguments verb false none .empty args with
      | .ok g => g.command verb
      | .error stop => .error stop

/-- The options that may stand before the command. -/
def globalFlags : List Flag := [.verbose, .help, .version]

/-- Read arguments up to the command and go on with it. -/
def readFrom (g : Given) : List String → Except Stop Command
  | [] => .error (.usage "a subcommand is required but one was not provided")
  | arg :: rest =>
    match arg.toList with
    | ['-', '-'] =>
      match rest with
      | [] => .error (.usage "a subcommand is required but one was not provided")
      | arg :: _ => .error (unexpected arg)
    | '-' :: '-' :: name =>
      match readLong globalFlags g name with
      | .ok (g, _) => readFrom g rest
      | .error stop => .error stop
    | '-' :: c :: letters =>
      match readLetters globalFlags g (c :: letters) with
      | .ok (g, _) => readFrom g rest
      | .error stop => .error stop
    | _ => readCommand arg rest

/-- **Read a command line.** -/
def parse (args : List String) : Except Stop Command :=
  readFrom .empty args

end DelphiUnits.CommandLine
