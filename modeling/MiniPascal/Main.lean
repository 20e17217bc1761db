import MiniPascal.CommandLine

/-!
# The program

Reads the arguments, the environment and the file, and prints what `CommandLine.respond` says.
-/

namespace MiniPascal.Main

def readFault : IO.Error → ReadFault
  | .noFileOrDirectory _ _ _ => .missing
  | .inappropriateType _ _ _ => .directory
  | e => .other e.toString

def readFile (name : String) : IO (Except ReadFault String) := do
  try
    match String.fromUTF8? (← IO.FS.readBinFile name) with
    | some text => return .ok text
    | none => return .error .notText
  catch e => return .error (readFault e)

def print (response : Response) : IO UInt32 := do
  IO.print response.output
  IO.eprint response.errors
  return UInt32.ofNat response.code

end MiniPascal.Main

open MiniPascal in
def main (arguments : List String) : IO UInt32 := do
  match CommandLine.parse arguments (← IO.getEnv "PASCALINA_LOG") with
  | .error e => Main.print (.misuse e)
  | .ok .version => Main.print (.success CommandLine.versionText)
  | .ok .help => Main.print (.success CommandLine.helpText)
  | .ok (.run job) =>
    let file ← if job.fromFile then Main.readFile job.input else pure (.ok job.input)
    let (response, events) := CommandLine.respond job file
    for event in events do
      IO.eprintln ("[" ++ event.level.text ++ "] " ++ event.message)
    Main.print response
