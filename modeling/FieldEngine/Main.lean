import FieldEngine.CommandLine
import FieldEngine.Console.Completion

/-!
# Program

The command line program on the files and the terminal of the host. It only carries texts in and
out; what is done with them is in `CommandLine` and `Console`.
-/

namespace FieldEngine.Terminal

/-- An error of the host as an error about a file. -/
def fileErrorOf : IO.Error → FileError
  | .noFileOrDirectory _ _ _ => .notFound
  | .inappropriateType _ 21 _ => .isDirectory
  | .inappropriateType _ 20 _ => .notDirectory
  | e => .other (toString e)

instance : FileStore IO where
  readFile path := do
    try return .ok (← IO.FS.readBinFile path).data.toList
    catch e => return .error (fileErrorOf e)
  writeFile path bytes := do
    try
      IO.FS.writeBinFile path ⟨bytes.toArray⟩
      return .ok ()
    catch e => return .error (fileErrorOf e)

def say (out err : String) : IO Unit := do
  IO.print out
  IO.eprint err
  (← IO.getStdout).flush

/-- The next line of the input, without its line end. -/
def readInput : IO Console.Input := do
  let text ← (← IO.getStdin).getLine
  match Text.lines text with
  | [] => return if text.isEmpty then .eof else .line ""
  | line :: _ => return .ofTyped line

/-- Stamp what is traced from now on with the time since the start. -/
def setClock (epoch : Nat) (s : Session) : IO Session := do
  let now ← IO.monoNanosNow
  return { s with tracer := { s.tracer with clock := now - epoch } }

/-- Talk with the user until the conversation ends. -/
partial def talk (epoch : Nat) (showPrompt : Bool) (config : Console.LoopConfig) (s : Session) :
    IO UInt32 := do
  if showPrompt then say (Completion.promptText config.prompt true) ""
  let input ← readInput
  let (said, flow, s) ← Console.respond (← setClock epoch s) input
  say said.out said.err
  match flow with
  | .next => talk epoch showPrompt config s
  | .stop =>
    say Console.farewell ""
    return 0
  | .fail e =>
    say "" (CommandLine.lastWords (.failed e))
    return CommandLine.exitCode (.failed e)
  | .crash => return CommandLine.exitCode .crashed

end FieldEngine.Terminal

def main (args : List String) : IO UInt32 := do
  let epoch ← IO.monoNanosNow
  let startup : FieldEngine.CommandLine.Startup ← FieldEngine.CommandLine.start args
  FieldEngine.Terminal.say startup.out startup.err
  match startup.next with
  | .exit code => return code
  | .converse config s =>
    if config.banner then FieldEngine.Terminal.say FieldEngine.Console.bannerText ""
    FieldEngine.Terminal.talk epoch (← (← IO.getStdin).isTty) config s
