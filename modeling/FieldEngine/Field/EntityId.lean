/-!
# Entity handles

An entity stands in a numbered slot of the field. A slot is used again after its entity is gone,
so a handle also carries the generation of the slot at the time it was issued.
-/

namespace FieldEngine

/-- Handle of an entity: a slot and the generation of that slot. -/
structure EntityId where
  slot : Nat
  generation : Nat
deriving DecidableEq

namespace EntityId

/-- A handle as trace and console show it: only the slot. -/
def text (e : EntityId) : String :=
  s!"entity#{e.slot}"

/-- A handle as faults show it: slot and generation. -/
def detail (e : EntityId) : String :=
  s!"EntityId({e.slot}v{e.generation})"

/-- Handles are ordered by slot, then by generation. -/
instance : Ord EntityId where
  compare a b := (compare a.slot b.slot).then (compare a.generation b.generation)

end EntityId

end FieldEngine
