import FieldEngine.Field.EntityId

/-!
# Waiting

What a suspended instance waits for.
-/

namespace FieldEngine

inductive WaitReason
  /-- A number of frames, not negative. -/
  | timer (frames : Int32)
  /-- The closing of a message window. -/
  | dialogue (channel message : Int32)
  /-- The end of an animation. -/
  | animation (entity : EntityId) (animation : UInt16)
deriving DecidableEq

namespace WaitReason

/-- A reason as trace and console show it. -/
def text : WaitReason → String
  | timer frames => s!"timer({frames})"
  | dialogue channel message => s!"dialogue(channel {channel}, message {message})"
  | animation entity number => s!"animation({number} on {entity.text})"

end WaitReason

end FieldEngine
