import FieldEngine.Trace.Buffer
import FieldEngine.Trace.Human
import FieldEngine.Trace.Json

/-!
# Tracer

While enabled, a tracer keeps the events that pass its filters in a buffer, stamped with the tick
of the last report and the time that the host has set. It can also echo each kept record; the
echoed lines wait in the tracer until the host takes them away to print them.
-/

namespace FieldEngine

inductive TraceFormat
  | human
  | json
deriving DecidableEq

structure TracerConfig where
  enabled : Bool := false
  capacity : Nat := TraceBuffer.defaultCapacity
  /-- Echo each record. -/
  echo : Bool := false
  format : TraceFormat := .human
  /-- The kinds to keep; none means all. -/
  kinds : List String := []
  /-- Keep only this instance and the tick boundaries. -/
  focus : Option Nat := none
deriving DecidableEq

/-- The filters let an event pass. -/
def TracerConfig.keeps (c : TracerConfig) (event : TraceEvent) : Bool :=
  (c.kinds.isEmpty || c.kinds.contains event.kind) &&
    match c.focus with
    | some id => event.isTickBoundary || event.instanceId? == some id
    | none => true

structure Tracer where
  config : TracerConfig
  buffer : TraceBuffer
  /-- The tick stamped on new records. -/
  tick : Nat
  /-- The time in nanoseconds stamped on new records. -/
  clock : Nat
  /-- Echoed lines that the host has not taken, oldest first. -/
  echoed : Array String
deriving DecidableEq

namespace Tracer

def ofConfig (config : TracerConfig) : Tracer :=
  ⟨config, .empty config.capacity, 0, 0, #[]⟩

/-- A tracer that keeps nothing until it is enabled. -/
def disabled : Tracer :=
  ofConfig {}

def isEnabled (t : Tracer) : Bool :=
  t.config.enabled

/-- Enable or disable the tracer; its records stay. -/
def setEnabled (t : Tracer) (enabled : Bool) : Tracer :=
  { t with config := { t.config with enabled } }

def setFormat (t : Tracer) (format : TraceFormat) : Tracer :=
  { t with config := { t.config with format } }

def setEcho (t : Tracer) (echo : Bool) : Tracer :=
  { t with config := { t.config with echo } }

/-- Follow one instance, or all. -/
def setFocus (t : Tracer) (focus : Option Nat) : Tracer :=
  { t with config := { t.config with focus } }

def formatRecord (t : Tracer) (r : TraceRecord) : String :=
  match t.config.format with
  | .human => HumanFormat.line {} r
  | .json => JsonFormat.object r

def formatRecords (t : Tracer) (records : List TraceRecord) : String :=
  match t.config.format with
  | .human => HumanFormat.text {} records
  | .json => JsonFormat.text {} records

/-- Keep an event that has passed the filters. -/
def push (t : Tracer) (event : TraceEvent) : Tracer :=
  let (_, buffer) := t.buffer.push t.tick t.clock event
  match t.config.echo, buffer.last? with
  | true, some record => { t with buffer, echoed := t.echoed.push (t.formatRecord record) }
  | _, _ => { t with buffer }

/-- Keep an event, if the tracer is enabled and its filters let the event pass. -/
def record (t : Tracer) (event : TraceEvent) : Tracer :=
  if t.config.enabled && t.config.keeps event then t.push event else t

def recordAll (t : Tracer) (events : List TraceEvent) : Tracer :=
  events.foldl record t

/-- The trace of a tick: its start, its events, its end. -/
def reportEvents (report : TickReport) : List TraceEvent :=
  .tickStart report.tick.toNat ::
    (report.events.map .ofTickEvent ++ [.tickEnd report.tick.toNat report.executed])

def recordReport (t : Tracer) (report : TickReport) : Tracer :=
  if t.config.enabled then { t with tick := report.tick.toNat }.recordAll (reportEvents report)
  else t

def clear (t : Tracer) : Tracer :=
  { t with buffer := t.buffer.clear }

/-- The echoed lines, and the tracer without them. -/
def takeEchoed (t : Tracer) : List String × Tracer :=
  (t.echoed.toList, { t with echoed := #[] })

end Tracer

end FieldEngine
