import LineEditor.Arguments
import LineEditor.Json.Standard

/-!
# The program

The outermost layer of the command: arguments, environment, files and streams.
-/

namespace LineEditor.Program

/-- what reading the file at a path gives; any failure of the system counts as a missing file -/
def readFile (path : Text) : IO (Except ReadFailure Text) := do
  try
    let bytes ← IO.FS.readBinFile (String.ofList path)
    match decode? bytes with
    | some s => return .ok s
    | none => return .error .notText
  catch _ => return .error .missing

/-- the values of the variables that the command looks at -/
def readEnvironment : IO (List (String × Option String)) :=
  [Command.configVariable, Config.lengthVariable, Config.heightVariable].mapM fun name => do
    return (name, ← IO.getEnv name)

/-- all bytes of a stream -/
partial def readBytes (stream : IO.FS.Stream) (soFar : ByteArray) : IO ByteArray := do
  let bytes ← stream.read 65536
  if bytes.isEmpty then return soFar else readBytes stream (soFar ++ bytes)

/-- runs the command and gives its exit code -/
def run (args : List String) : IO UInt32 := do
  let values ← readEnvironment
  let environment (name : String) : Option Text := ((values.lookup name).join).map String.toList
  let arguments := args.map String.toList
  let (file, input) ←
    match Command.arguments environment arguments with
    | .ok o => do
      let file ←
        match o.config with
        | some path => readFile path
        | none => pure (.error .missing)
      match Command.configure .standard (fun _ => file) environment o.config with
      | .ok _ => pure (file, ← readBytes (← IO.getStdin) .empty)
      | .error _ => pure (file, .empty)
    | .error _ => pure (.error .missing, .empty)
  let outcome :=
    Command.run .standard (fun _ => file) environment Command.arguments arguments input
  (← IO.getStdout).putStr (String.ofList outcome.output)
  match outcome.report with
  | some line => IO.eprintln (String.ofList line)
  | none => pure ()
  return outcome.exitCode.toUInt32

end LineEditor.Program

def main (args : List String) : IO UInt32 := LineEditor.Program.run args
