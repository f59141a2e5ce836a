import FieldEngine.Console.Basic

/-!
# Conversation

The console loop: it shows a banner, reads a line after a prompt, answers it, and goes on until a
line asks to quit or the input ends. Errors are shown and the loop goes on; only a failed read or a
lost line ends it without a farewell. What is printed and what is asked of the line editor is
collected in a transcript.
-/

namespace FieldEngine.Console

/-- What a read from the terminal gives. -/
inductive Input
  | line (text : String)
  /-- The line was given up. -/
  | interrupted
  | eof
  | failed (e : Error)
  /-- The line was lost in reading it. -/
  | lost
deriving DecidableEq

/-- What is asked of the line editor. -/
inductive EditorCall
  | keywords (words : List String)
  | prompt (text : String)
  | history (line : String)
deriving DecidableEq

/-- How the loop looks. -/
structure LoopConfig where
  banner : Bool := true
  prompt : String := "field> "
deriving DecidableEq

/-- What has been printed and asked of the editor. -/
structure Transcript where
  out : String := ""
  err : String := ""
  editor : List EditorCall := []
deriving DecidableEq

namespace Transcript

def append (a b : Transcript) : Transcript :=
  ⟨a.out ++ b.out, a.err ++ b.err, a.editor ++ b.editor⟩

end Transcript

/-- How the loop goes on after an input. -/
inductive Flow
  | next
  | stop
  | fail (e : Error)
  | crash
deriving DecidableEq

/-- How a conversation ends. -/
inductive Ending
  | farewell
  | failed (e : Error)
  | crashed
deriving DecidableEq

def version : String := "0.1.0"

def bannerText : String :=
  s!"\x1b[1mFieldscript\x1b[0m {version}\nType 'help' for commands, Ctrl+D to exit.\n\n"

def farewell : String :=
  "\nGoodbye!\n"

def errorLine (text : String) : String :=
  s!"\x1b[31mError: {text}\x1b[0m\n"

/-- An error with its location. -/
def errorText (e : Error) : String :=
  match e.location with
  | some location => s!"{e.message} ({location.text})"
  | none => e.message

/-- The echoed trace lines as text, and the session without them. -/
def takeEcho (s : Session) : String × Session :=
  let (lines, tracer) := s.tracer.takeEchoed
  (String.join (lines.map (· ++ "\n")), { s with tracer })

variable {m : Type → Type} [Monad m] [FileStore m]

/-- The response to one input: what is printed, how the loop goes on, the session after it. -/
def respond (s : Session) : Input → m (Transcript × Flow × Session)
  | .eof => return ({}, .stop, s)
  | .interrupted => return ({ out := "\n" }, .next, s)
  | .failed e => return ({}, .fail e, s)
  | .lost => return ({}, .crash, s)
  | .line text => do
    if Text.trim text = "" then return ({}, .next, s)
    let (result, s) ← eval s text
    let (echo, s) := takeEcho s
    let heard : List EditorCall := [.history text]
    match result with
    | .ok none => return ({ err := echo, editor := heard }, .stop, s)
    | .ok (some answer) =>
      let out := if answer = "" then "" else answer ++ "\n"
      return ({ out, err := echo, editor := heard }, .next, s)
    | .error e => return ({ err := echo ++ errorLine (errorText e), editor := heard }, .next, s)

/-- The responses to inputs up to the end of the conversation; the input ends after the last. -/
def respondAll (prompt : String) (s : Session) :
    List Input → m (Transcript × Ending × Session)
  | [] => return ({ out := farewell, editor := [.prompt prompt] }, .farewell, s)
  | input :: rest => do
    let (turn, flow, s) ← respond s input
    let asked : Transcript := { editor := [.prompt prompt] }
    let said := asked.append turn
    match flow with
    | .stop => return (said.append { out := farewell }, .farewell, s)
    | .fail e => return (said, .failed e, s)
    | .crash => return (said, .crashed, s)
    | .next =>
      let (later, ending, s) ← respondAll prompt s rest
      return (said.append later, ending, s)

def converse (config : LoopConfig) (s : Session) (inputs : List Input) :
    m (Transcript × Ending × Session) := do
  let greeting : Transcript := { out := if config.banner then bannerText else "" }
  let (said, ending, s) ← respondAll config.prompt s inputs
  return (greeting.append said, ending, s)

end FieldEngine.Console
