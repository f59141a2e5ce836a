import FieldEngine.Scheduler.Instance

/-!
# Host events

What the host tells the scheduler, and which waits each event ends.
-/

namespace FieldEngine

/-- A notice from the host that may release suspended instances. -/
inductive HostEvent
  | dialogueClosed (channel : Int32)
  | animationFinished (entity : EntityId) (animation : UInt16)
  | timerElapsed (instanceId : Nat)
deriving DecidableEq

namespace HostEvent

/-- The event ends the wait of an instance. -/
def releases (event : HostEvent) (id : Nat) (reason : WaitReason) : Bool :=
  match event, reason with
  | dialogueClosed channel, .dialogue c _ => channel == c
  | animationFinished entity animation, .animation e a => entity == e && animation == a
  | timerElapsed target, .timer _ => target == id
  | _, _ => false

def text : HostEvent → String
  | dialogueClosed channel => s!"dialogue-closed(channel {channel})"
  | animationFinished entity animation => s!"animation-finished({animation} on {entity.text})"
  | timerElapsed id => s!"timer-elapsed({Instance.idText id})"

end HostEvent

end FieldEngine
