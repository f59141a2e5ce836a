import FieldEngine.Text.Layout
import FieldEngine.Trace.Event

/-!
# Trace as JSON

One object for each record: number, tick, time, kind, and then the fields of the event. A list of
records is an array, on one line or with one record on each line.
-/

namespace FieldEngine

/-- How a list of records is laid out. -/
structure JsonFormat where
  /-- Each record on a line of its own. -/
  pretty : Bool := false
deriving DecidableEq

namespace JsonFormat

/-- The characters with each `c` replaced. -/
def replaced (c : Char) (other s : List Char) : List Char :=
  s.flatMap fun d => if d = c then other else [d]

/-- The characters of a string literal. One kind of character is escaped after the other. -/
def escaped (s : List Char) : List Char :=
  -- the backslash comes first: the others put new ones in
  let s := replaced '\\' ['\\', '\\'] s
  let s := replaced '"' ['\\', '"'] s
  let s := replaced '\n' ['\\', 'n'] s
  let s := replaced '\r' ['\\', 'r'] s
  replaced '\t' ['\\', 't'] s

def quoted (s : String) : String :=
  "\"" ++ String.ofList (escaped s.toList) ++ "\""

def field (name value : String) : String :=
  "\"" ++ name ++ "\":" ++ value

def number (name : String) (n : Nat) : String :=
  field name (toString n)

def string (name s : String) : String :=
  field name (quoted s)

def eventFields : TraceEvent → List String
  | .tickStart tick => [number "tick" tick]
  | .tickEnd tick executed => [number "tick" tick, number "executed" executed]
  | .scriptLoaded script instructions =>
    [string "script" script, number "instructions" instructions]
  | .decodeFailed script error => [string "script" script, string "error" error.message]
  | .spawned id script owner =>
    [number "instance" id, string "script" script, string "owner" owner.text]
  | .instruction id offset rendered =>
    [number "instance" id, number "offset" offset, string "instruction" rendered]
  | .suspended id reason => [number "instance" id, string "reason" reason.text]
  | .notified event released =>
    [string "event" event.text,
     field "released" ("[" ++ Text.joinWith "," (released.map toString) ++ "]")]
  | .resumed id | .halted id | .preempted id | .cancelled id => [number "instance" id]
  | .faulted id fault => [number "instance" id, string "fault" fault.message]
  | .custom name data => [string "name" name, string "data" data]

def object (r : TraceRecord) : String :=
  let fields :=
    [number "id" r.id, number "tick" r.tick, number "timestamp_ns" r.timestamp,
     field "type" ("\"" ++ r.kind ++ "\"")] ++ eventFields r.event
  "\x7b" ++ Text.joinWith "," fields ++ "\x7d"

def text (f : JsonFormat) (records : List TraceRecord) : String :=
  let items := records.map object
  if f.pretty then "[\n  " ++ Text.joinWith ",\n  " items ++ "\n]"
  else "[" ++ Text.joinWith "," items ++ "]"

end JsonFormat

end FieldEngine
