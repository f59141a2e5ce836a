import FieldEngine.Scheduler.Basic

/-!
# Session snapshots

What is saved of a session: the field, the execution points of all instances, the bytes of the
registered scripts, the bytes of replaced scripts that instances still run, and the timers.
Programs are not saved; they are decoded again.
-/

namespace FieldEngine

structure SessionSnapshot where
  field : Field
  scheduler : SchedulerSnapshot
  /-- Registered scripts: name and bytes. -/
  scripts : List (String × List UInt8)
  /-- Instances of replaced scripts: number and bytes. -/
  detached : List (Nat × List UInt8)
  /-- Instances that wait for a timer: number and release tick. -/
  timers : List (Nat × UInt64)
deriving DecidableEq

end FieldEngine
