import FieldEngine.Console.Demo
import FieldEngine.Console.Loop
import FieldEngine.Host.TypedLine

/-!
# Command line

The program loads the files it is given, runs ticks if asked, and then talks with the user. Files
with the extension `fsc` hold console lines; all others are scripts. Output and error texts are
collected; the exit code is one after an error and 101 after a crash.
-/

namespace FieldEngine.CommandLine

/-! ## Options -/

structure Options where
  files : List String := []
  batch : Bool := false
  disasm : Bool := false
  help : Bool := false
  version : Bool := false
  trace : Bool := false
  ticks : Option Nat := none
deriving DecidableEq

/-- Read arguments from left to right; the first that is wrong is the error. -/
def parseArgs (o : Options) : List String → Except String Options
  | [] => .ok o
  | "-h" :: rest | "--help" :: rest => parseArgs { o with help := true } rest
  | "-V" :: rest | "--version" :: rest => parseArgs { o with version := true } rest
  | "-b" :: rest | "--batch" :: rest => parseArgs { o with batch := true } rest
  | "-d" :: rest | "--disasm" :: rest => parseArgs { o with disasm := true } rest
  | "--trace" :: rest => parseArgs { o with trace := true } rest
  | ["--ticks"] => .error "--ticks requires a value"
  | "--ticks" :: value :: rest =>
    match Text.decimal? .u64 value with
    | some n => parseArgs { o with ticks := some n.toNat } rest
    | none => .error s!"invalid --ticks value: {value}"
  | arg :: rest =>
    if arg.startsWith "-" then .error s!"unknown option: {arg}"
    else parseArgs { o with files := o.files ++ [arg] } rest

/-- The file holds console lines. -/
def isCommandFile (path : String) : Bool :=
  Path.extension? path == some "fsc"

def helpText : String :=
  Text.joinWith "\n"
  ["\x1b[1mFieldscript\x1b[0m - field-script bytecode engine",
     "",
     "\x1b[1mUSAGE:\x1b[0m",
     "    fieldscript [OPTIONS] [FILES...]",
     "",
     "\x1b[1mARGUMENTS:\x1b[0m",
     "    [FILES...]    Script bytecode to load, or .fsc command files to run",
     "",
     "\x1b[1mOPTIONS:\x1b[0m",
     "    -h, --help         Print help information",
     "    -V, --version      Print version information",
     "    -b, --batch        Load files, run --ticks, and exit (no REPL)",
     "    -d, --disasm       Print a listing of each script file and exit",
     "    --ticks N          Run N frames after loading files",
     "    --trace            Echo trace records to stderr",
     "",
     "\x1b[1mEXAMPLES:\x1b[0m",
     "    fieldscript                          Start interactive REPL",
     "    fieldscript -d door.bin              Show door.bin's instructions",
     "    fieldscript -b --ticks 60 setup.fsc  Run a command file for 60 frames",
     "    fieldscript --trace door.bin         Load door.bin with tracing on",
     "",
     "\x1b[1mREPL:\x1b[0m",
     "    A script named 'demo' is always loaded. Type 'help' inside the REPL",
     "    for the command list. Ctrl+D exits."]

/-! ## Start -/

/-- How the program goes on after its start. -/
inductive Next
  | exit (code : UInt32)
  /-- Talk with the user. -/
  | converse (config : Console.LoopConfig) (session : Session)

/-- What the start has printed, and how it goes on. -/
structure Startup where
  out : String
  err : String
  next : Next

/-- The program so far: its session and what it has printed. -/
structure Progress where
  session : Session
  out : String := ""
  err : String := ""

namespace Progress

def print (p : Progress) (text : String) : Progress :=
  { p with out := p.out ++ text }

/-- Go on with a session, printing the trace that it echoed. -/
def withSession (p : Progress) (s : Session) : Progress :=
  let (echo, s) := Console.takeEcho s
  { p with session := s, err := p.err ++ echo }

def fail (p : Progress) (text : String) : Startup :=
  ⟨p.out, p.err ++ Console.errorLine text, .exit 1⟩

def done (p : Progress) : Startup :=
  ⟨p.out, p.err, .exit 0⟩

end Progress

/-- The session before any file is loaded. -/
def initialSession (trace : Bool) : Except Error Session :=
  match Demo.script with
  | .error e => .error (.of (.assembly e.message))
  | .ok source =>
    let (result, s) := (Session.ofSeed 0).loadScript "demo" source
    result.map fun _ => if trace then (Console.trace s .on).2 else s

variable {m : Type → Type} [Monad m] [FileStore m]

/-- Load one file: run its lines, or register it and show its listing if asked. -/
def loadFile (disasm : Bool) (p : Progress) (path : String) :
    m (Except (Error × Progress) Progress) := do
  if isCommandFile path then
    let (result, s) ← Console.evalFile p.session path
    let p := p.withSession s
    match result with
    | .error e => return .error (e, p)
    | .ok text => return .ok (p.print text)
  else
    match ← FileStore.readFile path with
    | .error e => return .error (Console.fileError "read script" path e, p)
    | .ok source =>
      let (result, s) := p.session.loadScript ((Path.stem? path).getD path) source
      let p := p.withSession s
      match result with
      | .error e => return .error (e, p)
      | .ok program => return .ok (if disasm then p.print (Listing.withHeader program) else p)

def loadFiles (disasm : Bool) (p : Progress) :
    List String → m (Except (Error × Progress) Progress)
  | [] => return .ok p
  | path :: rest => do
    match ← loadFile disasm p path with
    | .error e => return .error e
    | .ok p => loadFiles disasm p rest

def runTicks (p : Progress) : Option Nat → Progress
  | none => p
  | some n =>
    let (reports, s) := p.session.run n
    (p.withSession s).print (Text.joinWith "\n" (reports.map Console.summary) ++ "\n")

/-- Do what the options ask for, up to the conversation. -/
def startWith (o : Options) : m Startup := do
  if o.help then return ⟨helpText ++ "\n", "", .exit 0⟩
  if o.version then return ⟨s!"fieldscript {Console.version}\n", "", .exit 0⟩
  match initialSession o.trace with
  | .error e => return ⟨"", Console.errorLine e.message, .exit 1⟩
  | .ok s =>
    match ← loadFiles o.disasm ⟨s, "", ""⟩ o.files with
    | .error (e, p) => return p.fail e.message
    | .ok p =>
      if o.disasm then return p.done
      let p := runTicks p o.ticks
      if o.batch then return p.done
      return ⟨p.out, p.err, .converse { banner := o.files.isEmpty } p.session⟩

def start (args : List String) : m Startup :=
  match parseArgs {} args with
  | .error text => return ⟨"", Console.errorLine text, .exit 1⟩
  | .ok o => startWith o

/-! ## Whole runs -/

def crashCode : UInt32 := 101

def exitCode : Console.Ending → UInt32
  | .farewell => 0
  | .failed _ => 1
  | .crashed => crashCode

/-- What is shown at the end of a conversation as an error. -/
def lastWords : Console.Ending → String
  | .failed e => Console.errorLine e.message
  | .farewell | .crashed => ""

structure Result where
  code : UInt32
  out : String
  err : String
deriving DecidableEq

def run (args : List String) (input : String) : m Result := do
  let startup ← start args
  match startup.next with
  | .exit code => return ⟨code, startup.out, startup.err⟩
  | .converse config s =>
    let (said, ending, _) ← Console.converse config s ((Text.lines input).map .ofTyped)
    return ⟨exitCode ending, startup.out ++ said.out, startup.err ++ said.err ++ lastWords ending⟩

end FieldEngine.CommandLine
