import FieldEngine.Text.Layout
import FieldEngine.Text.Thousandths
import FieldEngine.Trace.Event

/-!
# Readable trace

One line for each record: optionally its number, then the tick, optionally the time, and a
description that is indented by what it belongs to.
-/

namespace FieldEngine

/-- What a readable line shows besides tick and event. -/
structure HumanFormat where
  showIds : Bool := false
  showTimestamps : Bool := false
deriving DecidableEq

namespace HumanFormat

/-- A time in the largest unit of seconds, milliseconds and microseconds that it reaches. -/
def duration (nanoseconds : Nat) : String :=
  let us := nanoseconds / 1000
  if 1000000 ≤ us then Text.thousandths us 1000000 ++ "s"
  else if 1000 ≤ us then Text.thousandths us 1000 ++ "ms"
  else s!"{us}us"

def describe : TraceEvent → String
  | .tickStart tick => s!"=== TICK {tick} START ==="
  | .tickEnd tick executed => s!"=== TICK {tick} END ({executed} executed) ==="
  | .scriptLoaded script instructions => s!"  LOAD {script} ({instructions} instructions)"
  | .decodeFailed script error => s!"  REJECT {script}: {error.message}"
  | .spawned id script owner => s!"  SPAWN #{id} {script} on {owner.text}"
  | .instruction id offset rendered => s!"    #{id} {Text.address offset} {rendered}"
  | .suspended id reason => s!"  WAIT #{id} {reason.text}"
  | .notified event released =>
    let ids := Text.joinWith ", " (released.map Instance.idText)
    s!"  NOTIFY {event.text} -> [{ids}]"
  | .resumed id => s!"  RESUME #{id}"
  | .halted id => s!"  HALT #{id}"
  | .faulted id fault => s!"  FAULT #{id}: {fault.message}"
  | .preempted id => s!"  YIELD #{id}"
  | .cancelled id => s!"  CANCEL #{id}"
  | .custom name data => s!"  CUSTOM {name}: {data}"

def line (f : HumanFormat) (r : TraceRecord) : String :=
  (if f.showIds then s!"[{Text.counter 6 r.id}] " else "")
    ++ s!"T{Text.counter 4 r.tick} "
    ++ (if f.showTimestamps then Text.padLeft 10 ' ' (duration r.timestamp) ++ " " else "")
    ++ describe r.event

def text (f : HumanFormat) (records : List TraceRecord) : String :=
  Text.joinWith "\n" (records.map f.line)

end HumanFormat

end FieldEngine
