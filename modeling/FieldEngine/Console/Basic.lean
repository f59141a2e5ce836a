import FieldEngine.Console.Command
import FieldEngine.Console.Files
import FieldEngine.Session.Basic
import FieldEngine.Session.Codec

/-!
# Console

Commands run against a session and answer with text. A command that fails leaves the session as it
was, apart from the trace of a script that does not decode. Files are reached through whatever
store the console runs on.
-/

namespace FieldEngine.Console

/-! ## Texts -/

def helpText : String :=
  Text.joinWith "\n"
  ["load <path> [name]                 decode a script file and register it",
     "entity <name>                      create an entity",
     "spawn <script> <entity>            start an instance owned by an entity",
     "tick [count]                       run frames",
     "notify dialogue <channel>          close a message window",
     "notify anim <entity> <animation>   finish an animation",
     "notify timer <instance>            end an instance's timer early",
     "resume <instance>                  release a suspended instance",
     "cancel <instance>|all              remove instances",
     "ps                                 list instances",
     "disasm <script>                    show a script listing",
     "peek <bank> <index>                read a variable (byte word long sbyte sword flag)",
     "poke <bank> <index> <value>        write a variable",
     "flag <index> [on|off]              read or write a flag",
     "save <path> / restore <path>       snapshot the session",
     "trace on|off|json|human|dump [n]   control tracing",
     "trace focus <id>|all               follow one instance",
     "help                               show this text",
     "quit                               leave"]

def idList (ids : List Nat) : String :=
  if ids.isEmpty then "none" else Text.joinWith ", " (ids.map Instance.idText)

/-- What happened to an instance in a tick, for the summary. -/
def eventNote : TickEvent → String
  | .halted id => s!", #{id} halted"
  | .faulted id fault => s!", #{id} faulted: {fault.message}"
  | .suspended id reason => s!", #{id} waits {reason.text}"
  | .executed _ _ _ | .quotaExhausted _ => ""

def summary (report : TickReport) : String :=
  s!"tick {report.tick}: {report.executed} executed" ++ String.join (report.events.map eventNote)

/-- The status of an instance in the list of instances. -/
def statusText (s : Session) (i : Instance) : String :=
  match i.status with
  | .suspended reason =>
    match s.timers[i.id]? with
    | some tick => s!"waiting {reason.text} until tick {tick}"
    | none => s!"waiting {reason.text}"
  | status => status.text

def instanceLine (s : Session) (i : Instance) : String :=
  Text.joinWith " "
    [Text.padRight 5 (Instance.idText i.id), Text.padRight 17 i.program.name,
     Text.padRight 12 i.owner.text, Text.padRight 5 (toString i.cursor.pc), statusText s i]

def instanceTable (s : Session) : String :=
  if s.scheduler.instances.isEmpty then "no instances"
  else
    Text.joinWith "\n"
      ("ID    SCRIPT            OWNER        PC    STATE"
        :: s.scheduler.instances.map (instanceLine s))

/-! ## Commands without files -/

/-- A text without a leading word, taken away as often as it stands there. -/
def dropLeading (word : List Char) : (fuel : Nat) → List Char → List Char
  | 0, cs => cs
  | fuel + 1, cs =>
    if word.isPrefixOf cs then dropLeading word fuel (cs.drop word.length) else cs

/-- The entity that a word means: by name, else by slot, with or without `entity#`. -/
def resolveEntity (s : Session) (word : String) : Except Error EntityId :=
  match s.field.findEntity? word with
  | some id => .ok id
  | none =>
    let digits := dropLeading "entity#".toList word.length word.toList
    match Text.decimal? .u32 (String.ofList digits) with
    | none => .error (.of (.internal s!"no entity named '{word}'"))
    | some slot =>
      match s.field.entityInSlot? slot.toNat with
      | some id => .ok id
      | none => .error (.of (.internal s!"no live entity in slot {slot}"))

/-- The host event that a line names. -/
def hostEvent (s : Session) : NotifyCommand → Except Error HostEvent
  | .dialogue channel => .ok (.dialogueClosed channel)
  | .animation entity animation =>
    (resolveEntity s entity).map fun id => .animationFinished id animation
  | .timer id => .ok (.timerElapsed id)

/-- Change or show the trace. -/
def trace (s : Session) : TraceCommand → String × Session
  | .on =>
    let s := s.setTracing true
    ("tracing on", { s with tracer := s.tracer.setEcho true })
  | .off => ("tracing off", s.setTracing false)
  | .json => ("trace format: json", { s with tracer := s.tracer.setFormat .json })
  | .human => ("trace format: human", { s with tracer := s.tracer.setFormat .human })
  | .focus (some id) => (s!"tracing #{id} only", { s with tracer := s.tracer.setFocus (some id) })
  | .focus none => ("tracing all instances", { s with tracer := s.tracer.setFocus none })
  | .dump count =>
    let records := s.tracer.buffer.recent count
    (if records.isEmpty then "trace buffer is empty" else s.tracer.formatRecords records, s)

/-- A fault of the field as an error. -/
def ofFault {α : Type} (r : Except Fault α) : Except Error α :=
  r.mapError fun fault => .of (.fault fault)

/-- The answer to a command, and the session after it. -/
abbrev Answer := Except Error String × Session

/-- What an operation comes to, in words; the session is the one that the operation leaves. -/
def answer {α : Type} (r : Except Error α × Session) (text : α → String) : Answer :=
  (r.1.map text, r.2)

/-- What a change of the field comes to, in words. -/
def answerChange (s : Session) (change : Except Fault Unit × Field) (text : String) : Answer :=
  let (result, field) := change
  ((ofFault result).map fun () => text, { s with field })

def loadBytes (s : Session) (name : String) (source : List UInt8) : Answer :=
  answer (s.loadScript name source) fun program =>
    s!"loaded {program.name} ({program.size} instructions)"

/-- Run a command that uses no file; the others have nothing to say here. -/
def executeLocal (s : Session) : Command → Answer
  | .entity name =>
    let (id, s) := s.createEntity name
    (.ok s!"{id.text} {name}", s)
  | .spawn script owner =>
    match resolveEntity s owner with
    | .error e => (.error e, s)
    | .ok owner => answer (s.spawn script owner) fun id => s!"spawned #{id}"
  | .tick count =>
    let (reports, s) := s.run count
    (.ok (Text.joinWith "\n" (reports.map summary)), s)
  | .notify event =>
    match hostEvent s event with
    | .error e => (.error e, s)
    | .ok event =>
      let (released, s) := s.notify event
      (.ok s!"{event.text}: released {idList released}", s)
  | .resume id => answer (s.resume id) fun () => s!"resumed #{id}"
  | .cancel (some id) => answer (s.cancel id) fun _ => s!"cancelled #{id}"
  | .cancel none =>
    let (count, s) := s.cancelAll
    (.ok s!"cancelled {count} instance(s)", s)
  | .ps => (.ok (instanceTable s), s)
  | .disasm script => ((s.disassemble script).map Text.trimEnd, s)
  | .peek bank index =>
    ((ofFault (s.field.read bank index)).map fun value => s!"{bank.name}[{index}] = {value}", s)
  | .poke bank index value =>
    answerChange s (s.field.write bank index value) s!"{bank.name}[{index}] <- {value}"
  | .flag index none =>
    ((ofFault (s.field.flag index)).map fun value => s!"flag[{index}] = {value}", s)
  | .flag index (some value) =>
    answerChange s (s.field.setFlag index value) s!"flag[{index}] <- {value}"
  | .trace command =>
    let (text, s) := trace s command
    (.ok text, s)
  | .help => (.ok helpText, s)
  | .load _ _ | .save _ | .restore _ | .quit => (.ok "", s)

/-! ## Commands -/

variable {m : Type → Type} [Monad m] [FileStore m]

def fileError (what path : String) (e : FileError) : Error :=
  .of (.io s!"failed to {what} '{path}': {e.message}")

/-- Read a script file and register it, under the stem of its name unless another is given. -/
def loadFile (s : Session) (path : String) (name : Option String) : m Answer := do
  match ← FileStore.readFile path with
  | .error e => return (.error (fileError "read script" path e), s)
  | .ok source => return loadBytes s (name.getD ((Path.stem? path).getD path)) source

def saveFile (s : Session) (path : String) : m Answer := do
  match ← FileStore.writeFile path s.snapshot.toBytes with
  | .error e => return (.error (fileError "create file" path e), s)
  | .ok () => return (.ok s!"saved to {path}", s)

/-- Restore the session from saved bytes. -/
def restoreBytes (s : Session) (bytes : List UInt8) : Except Error Unit × Session :=
  match SessionSnapshot.ofBytes? bytes with
  | none => (.error (.of .malformedSnapshot), s)
  | some saved => s.restore saved

def restoreFile (s : Session) (path : String) : m Answer := do
  match ← FileStore.readFile path with
  | .error .isDirectory => return (.error (fileError "read file" path .isDirectory), s)
  | .error e => return (.error (fileError "open file" path e), s)
  | .ok bytes => return answer (restoreBytes s bytes) fun () => s!"restored from {path}"

def execute (s : Session) : Command → m Answer
  | .load path name => loadFile s path name
  | .save path => saveFile s path
  | .restore path => restoreFile s path
  | command => return executeLocal s command

/-- Run a line. The answer is `none` if the line asks to quit. -/
def eval (s : Session) (line : String) : m (Except Error (Option String) × Session) := do
  match Command.parse line with
  | .error e => return (.error e.toError, s)
  | .ok none => return (.ok (some ""), s)
  | .ok (some .quit) => return (.ok none, s)
  | .ok (some command) =>
    let (result, s) ← execute s command
    return (result.map some, s)

/-- Run lines up to one that fails or asks to quit; the answer joins those that are not empty. -/
def evalLines (s : Session) : List String → m Answer
  | [] => return (.ok "", s)
  | line :: rest => do
    match ← eval s line with
    | (.error e, s) => return (.error e, s)
    | (.ok none, s) => return (.ok "", s)
    | (.ok (some text), s) =>
      let (result, s) ← evalLines s rest
      return (result.map fun later => (if text = "" then "" else text ++ "\n") ++ later, s)

def evalFile (s : Session) (path : String) : m Answer := do
  match (← FileStore.readFile path).bind textOfBytes with
  | .error e => return (.error (fileError "read" path e), s)
  | .ok text => evalLines s (Text.lines text)

end FieldEngine.Console
