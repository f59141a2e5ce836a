import FieldEngine.Field.State
import FieldEngine.Proofs.Outcome

/-!
# Changes of a field that are refused

Storing in a variable, setting a flag and setting passability check first and change then: where the
check fails, the field is as it was.
-/

namespace FieldEngine

theorem Memory.write_harmless (m : Memory) (bank : Bank) (index : UInt16) (value : Int32) :
    Harmless m (m.write bank index value) := by
  unfold write
  cases m.span bank index with
  | error fault => exact .error fault
  | ok width => exact .ok ()

theorem EntityTable.setPassable_harmless (t : EntityTable) (id : EntityId) (passable : Bool) :
    Harmless t (t.setPassable id passable) := by
  unfold setPassable
  cases t.get id with
  | error fault => exact .error fault
  | ok record => exact .ok ()

namespace Field

variable (f : Field)

theorem write_harmless (bank : Bank) (index : UInt16) (value : Int32) :
    Harmless f (f.write bank index value) :=
  (f.memory.write_harmless bank index value).within (fun memory => { f with memory }) rfl

theorem setFlag_harmless (index : UInt16) (value : Bool) :
    Harmless f (f.setFlag index value) := by
  unfold setFlag
  cases checkFlag index with
  | error fault => exact .error fault
  | ok _ => exact .ok ()

theorem setPassable_harmless (id : EntityId) (passable : Bool) :
    Harmless f (f.setPassable id passable) :=
  (f.entities.setPassable_harmless id passable).within (fun entities => { f with entities }) rfl

end Field

end FieldEngine
