import FieldEngine.Scheduler.HostEvent
import FieldEngine.Scheduler.Report
import FieldEngine.Script.DecodeError

/-!
# Trace events

What can be traced, and the records in which it is kept.
-/

namespace FieldEngine

/-- Something worth tracing. -/
inductive TraceEvent
  | tickStart (tick : Nat)
  | tickEnd (tick executed : Nat)
  | scriptLoaded (script : String) (instructions : Nat)
  | decodeFailed (script : String) (error : DecodeError)
  | spawned (id : Nat) (script : String) (owner : EntityId)
  | instruction (id offset : Nat) (rendered : String)
  | suspended (id : Nat) (reason : WaitReason)
  | notified (event : HostEvent) (released : List Nat)
  | resumed (id : Nat)
  | halted (id : Nat)
  | faulted (id : Nat) (fault : Fault)
  | preempted (id : Nat)
  | cancelled (id : Nat)
  | custom (name data : String)
deriving DecidableEq

namespace TraceEvent

def kind : TraceEvent → String
  | tickStart _ => "tick-start"
  | tickEnd _ _ => "tick-end"
  | scriptLoaded _ _ => "script-loaded"
  | decodeFailed _ _ => "decode-failed"
  | spawned _ _ _ => "spawned"
  | instruction _ _ _ => "instruction"
  | suspended _ _ => "suspended"
  | notified _ _ => "notified"
  | resumed _ => "resumed"
  | halted _ => "halted"
  | faulted _ _ => "faulted"
  | preempted _ => "preempted"
  | cancelled _ => "cancelled"
  | custom _ _ => "custom"

/-- The event is the start or the end of a tick. -/
def isTickBoundary : TraceEvent → Bool
  | tickStart _ | tickEnd _ _ => true
  | _ => false

/-- The instance that the event concerns. -/
def instanceId? : TraceEvent → Option Nat
  | spawned id _ _
  | instruction id _ _
  | suspended id _
  | resumed id
  | halted id
  | faulted id _
  | preempted id
  | cancelled id => some id
  | tickStart _ | tickEnd _ _ | scriptLoaded _ _ | decodeFailed _ _ | notified _ _ | custom _ _ =>
    none

/-- The trace event for an event of a tick. -/
def ofTickEvent : TickEvent → TraceEvent
  | .executed id offset rendered => instruction id offset rendered
  | .suspended id reason => suspended id reason
  | .halted id => halted id
  | .faulted id fault => faulted id fault
  | .quotaExhausted id => preempted id

end TraceEvent

/-- An event with its number, the tick in which it happened, and the time in nanoseconds. -/
structure TraceRecord where
  id : Nat
  tick : Nat
  timestamp : Nat
  event : TraceEvent
deriving DecidableEq

def TraceRecord.kind (r : TraceRecord) : String :=
  r.event.kind

end FieldEngine
