import FieldEngine.Scheduler.Instance

/-!
# Tick reports

What happened in one tick, in the order in which it happened.
-/

namespace FieldEngine

/-- Something that happened to an instance in a tick. -/
inductive TickEvent
  /-- An instruction is about to run; reported only on request. -/
  | executed (id offset : Nat) (instruction : String)
  | suspended (id : Nat) (reason : WaitReason)
  | halted (id : Nat)
  | faulted (id : Nat) (fault : Fault)
  /-- The instance used its whole quota and stays runnable. -/
  | quotaExhausted (id : Nat)
deriving DecidableEq

def TickEvent.instanceId : TickEvent → Nat
  | executed id _ _ | suspended id _ | halted id | faulted id _ | quotaExhausted id => id

structure TickReport where
  tick : UInt64
  /-- Instructions executed by all instances. -/
  executed : Nat
  events : List TickEvent
deriving DecidableEq

namespace TickReport

def halted (r : TickReport) : List Nat :=
  r.events.filterMap fun
    | .halted id => some id
    | _ => none

def faulted (r : TickReport) : List (Nat × Fault) :=
  r.events.filterMap fun
    | .faulted id fault => some (id, fault)
    | _ => none

def suspended (r : TickReport) : List (Nat × WaitReason) :=
  r.events.filterMap fun
    | .suspended id reason => some (id, reason)
    | _ => none

end TickReport

end FieldEngine
