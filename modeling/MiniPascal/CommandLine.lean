import MiniPascal.Interpreter

/-!
# The command line

One argument is the source, or with `--file` the name of a file that holds it; with `--expr` the source is an expression
and not a program. Arguments are read from left to right and the first one that settles the call decides it, so that
`--version` answers unless something wrong stands before it.
-/

namespace MiniPascal

/-! ## Arguments -/

/-- Why a call makes no sense. -/
inductive UsageError where
  | unknownFlag (argument : String)
  | repeatedFlag (argument : String)
  | missingLevel
  | unknownLevel (level : String)
  | secondInput (argument : String)
  | missingInput
  deriving DecidableEq, Repr

def UsageError.text : UsageError → String
  | unknownFlag argument => s!"unexpected argument '{argument}'"
  | repeatedFlag argument => s!"'{argument}' cannot be used more than once"
  | missingLevel => "'--log-level' needs a level"
  | unknownLevel level => s!"'{level}' is no log level"
  | secondInput argument => s!"unexpected argument '{argument}'"
  | missingInput => "the source is missing"

/-- The name of a level, in letters of either case. -/
def LogLevel.ofText? (s : String) : Option LogLevel :=
  match String.ofList (s.toList.map Char.toLower) with
  | "off" => some .off
  | "error" => some .error
  | "warn" => some .warn
  | "info" => some .info
  | "debug" => some .debug
  | "trace" => some .trace
  | _ => none

/-- What a call asks for: to evaluate `input`, which may name a file. -/
structure Job where
  fromFile : Bool
  isExpression : Bool
  level : LogLevel
  input : String
  deriving DecidableEq, Repr

inductive Command where
  | version
  | help
  | run (job : Job)
  deriving DecidableEq, Repr

namespace CommandLine

/-- The arguments read so far. -/
structure Arguments where
  fromFile : Bool
  isExpression : Bool
  level : Option LogLevel
  input : Option String

/-- What ends the reading of arguments early. -/
inductive Stop where
  | version
  | help
  | misuse (e : UsageError)

namespace Arguments

def empty : Arguments := ⟨false, false, none, none⟩

def setFile (arguments : Arguments) (written : String) : Except Stop Arguments :=
  if arguments.fromFile then .error (.misuse (.repeatedFlag written)) else .ok { arguments with fromFile := true }

def setExpression (arguments : Arguments) (written : String) : Except Stop Arguments :=
  if arguments.isExpression then .error (.misuse (.repeatedFlag written))
  else .ok { arguments with isExpression := true }

def setLevel (arguments : Arguments) (name : String) : Except Stop Arguments :=
  match arguments.level, LogLevel.ofText? name with
  | some _, _ => .error (.misuse (.repeatedFlag "--log-level"))
  | none, some level => .ok { arguments with level := some level }
  | none, none => .error (.misuse (.unknownLevel name))

def setInput (arguments : Arguments) (input : String) : Except Stop Arguments :=
  match arguments.input with
  | some _ => .error (.misuse (.secondInput input))
  | none => .ok { arguments with input := some input }

def setInputs (arguments : Arguments) : List String → Except Stop Arguments
  | [] => .ok arguments
  | input :: others => do setInputs (← arguments.setInput input) others

/-- Letters that follow a single dash. -/
def setLetters (arguments : Arguments) : List Char → Except Stop Arguments
  | [] => .ok arguments
  | 'f' :: letters => do setLetters (← arguments.setFile "-f") letters
  | 'e' :: letters => do setLetters (← arguments.setExpression "-e") letters
  | 'V' :: _ => .error .version
  | 'h' :: _ => .error .help
  | letter :: _ => .error (.misuse (.unknownFlag (String.ofList ['-', letter])))

/-- A flag of two dashes, with the value written behind `=` if there is one. -/
def setLong (arguments : Arguments) (flag : String) (value : Option String) : Except Stop Arguments :=
  match flag, value with
  | "--file", none => arguments.setFile flag
  | "--expr", none => arguments.setExpression flag
  | "--version", none => .error .version
  | "--help", none => .error .help
  | "--log-level", some level => arguments.setLevel level
  | "--log-level", none => .error (.misuse .missingLevel)
  | _, _ => .error (.misuse (.unknownFlag flag))

/-- One argument that stands for itself. A dash alone is an input. -/
def set (arguments : Arguments) (argument : String) : Except Stop Arguments :=
  match argument.toList with
  | '-' :: '-' :: _ =>
    let flag := String.ofList (argument.toList.takeWhile (· != '='))
    match argument.toList.dropWhile (· != '=') with
    | [] => arguments.setLong flag none
    | _ :: value => arguments.setLong flag (some (String.ofList value))
  | '-' :: letter :: letters => arguments.setLetters (letter :: letters)
  | _ => arguments.setInput argument

end Arguments

/-- Whether an argument is a flag rather than a value. -/
def isFlag (argument : String) : Bool :=
  match argument.toList with
  | '-' :: _ :: _ => true
  | _ => false

/-- Reads arguments; behind `--` all of them are inputs, and `--log-level` takes the next one. -/
def collect (arguments : Arguments) : List String → Except Stop Arguments
  | [] => .ok arguments
  | "--" :: inputs => arguments.setInputs inputs
  | "--log-level" :: level :: others =>
    if isFlag level then .error (.misuse .missingLevel)
    else do collect (← arguments.setLevel level) others
  | argument :: others => do collect (← arguments.set argument) others

/-- The level: the one on the command line, or else the one in the environment, or else warnings. -/
def chooseLevel (given : Option LogLevel) (inherited : Option String) : Except UsageError LogLevel :=
  match given, inherited with
  | some level, _ => .ok level
  | none, some name => match LogLevel.ofText? name with
    | some level => .ok level
    | none => .error (.unknownLevel name)
  | none, none => .ok .warn

/-- What the arguments ask for, given the level that the environment names. -/
def parse (arguments : List String) (inherited : Option String) : Except UsageError Command :=
  match collect .empty arguments with
  | .error .version => .ok .version
  | .error .help => .ok .help
  | .error (.misuse e) => .error e
  | .ok collected => do
    let level ← chooseLevel collected.level inherited
    match collected.input with
    | some input => .ok (.run ⟨collected.fromFile, collected.isExpression, level, input⟩)
    | none => .error .missingInput

end CommandLine

/-! ## Answers -/

/-- Why a file cannot be read as text. -/
inductive ReadFault where
  | missing
  | directory
  | notText
  | other (text : String)
  deriving DecidableEq, Repr

def ReadFault.text : ReadFault → String
  | missing => "No such file or directory (os error 2)"
  | directory => "Is a directory (os error 21)"
  | notText => "stream did not contain valid UTF-8"
  | other text => text

/-- What a call prints, and the code it ends with. -/
structure Response where
  code : Nat
  output : String
  errors : String
  deriving DecidableEq, Repr

namespace Response

def success (output : String) : Response := ⟨0, output, ""⟩

def failure (message : String) : Response := ⟨1, "", message ++ "\n"⟩

def misuse (e : UsageError) : Response := ⟨2, "", "error: " ++ e.text ++ "\n"⟩

end Response

namespace CommandLine

def versionText : String := "pascalina 0.1.0\n"

def helpText : String :=
  "Usage: pascalina [-f|--file] [-e|--expr] [--log-level LEVEL] [-V|--version] CONTENTS\n"

/-- One variable a line, and the result if there is one. -/
def reportText (report : Report) : String :=
  let lines := report.store.entries.map fun (name, value) => name ++ " = " ++ value.text ++ "\n"
  let result := match report.result with
    | some value => "result: " ++ value.text ++ "\n"
    | none => ""
  String.join lines ++ result

/-- The response to a source, with the events of its evaluation. -/
def evaluate (job : Job) (source : String) : Response × List Event :=
  if job.isExpression then
    let outcome := Interpreter.expression source ()
    match outcome.result with
    | .ok value => (.success (value.text ++ "\n"), outcome.events)
    | .error fault => (.failure fault.message, outcome.events)
  else
    let outcome := Interpreter.program source ()
    match outcome.result with
    | .ok report => (.success (reportText report), outcome.events)
    | .error fault => (.failure fault.message, outcome.events)

/-- The response to a job, given what reading its file gave, with the events that its level shows. -/
def respond (job : Job) (file : Except ReadFault String) : Response × List Event :=
  match job.fromFile, file with
  | false, _ => shown (evaluate job job.input)
  | true, .ok source => shown (evaluate job source)
  | true, .error fault =>
    (.failure ("Failed to read the input file '" ++ job.input ++ "': " ++ fault.text), [])
where
  shown : Response × List Event → Response × List Event
  | (response, events) => (response, events.filter (·.shownAt job.level))

end CommandLine

end MiniPascal
