import Std.Data.ExtTreeMap
import FieldEngine.Field.Fault

/-!
# Entity table

Entities live in slots. The generation of a slot goes up by one when an entity is placed in it
and again when that entity is removed, so it is odd exactly while the slot is occupied, and a
handle from an earlier occupant no longer matches. Freed slots are used again, the last freed
first.
-/

namespace FieldEngine

/-- What a field knows about one entity. -/
structure EntityRecord where
  name : String
  /-- Other entities may walk through this one. -/
  passable : Bool
deriving DecidableEq

/-- Slots with their generations, the free slots (last freed first), and the records. -/
structure EntityTable where
  generations : Array Nat
  free : List Nat
  records : Std.ExtTreeMap Nat EntityRecord
deriving DecidableEq

namespace EntityTable

def empty : EntityTable :=
  ⟨#[], [], ∅⟩

/-- The generation of a slot, zero for one that never existed. -/
def generation (t : EntityTable) (slot : Nat) : Nat :=
  t.generations.getD slot 0

/-- The handle names the present occupant of its slot. -/
def isLive (t : EntityTable) (id : EntityId) : Bool :=
  t.generations[id.slot]? == some id.generation && id.generation % 2 == 1

def get (t : EntityTable) (id : EntityId) : Except Fault EntityRecord :=
  if t.isLive id then
    match t.records[id.slot]? with
    | some record => .ok record
    | none => .error (.unknownEntity id)
  else .error (.unknownEntity id)

/-- Place an entity: in the slot freed last, or in a new slot. -/
def spawn (t : EntityTable) (record : EntityRecord) : EntityId × EntityTable :=
  match t.free with
  | slot :: free =>
    let generations := t.generations.modify slot (· + 1)
    (⟨slot, generations.getD slot 0⟩, ⟨generations, free, t.records.insert slot record⟩)
  | [] =>
    let slot := t.generations.size
    (⟨slot, 1⟩, ⟨t.generations.push 1, [], t.records.insert slot record⟩)

/-- Remove a live entity and free its slot. The record is the answer; a live slot without a
record is freed all the same. -/
def destroy (t : EntityTable) (id : EntityId) : Except Fault EntityRecord × EntityTable :=
  if t.isLive id then
    let freed : EntityTable :=
      ⟨t.generations.modify id.slot (· + 1), id.slot :: t.free, t.records.erase id.slot⟩
    match t.records[id.slot]? with
    | some record => (.ok record, freed)
    | none => (.error (.unknownEntity id), freed)
  else (.error (.unknownEntity id), t)

/-- Let others walk through a live entity, or not. -/
def setPassable (t : EntityTable) (id : EntityId) (passable : Bool) :
    Except Fault Unit × EntityTable :=
  match t.get id with
  | .error fault => (.error fault, t)
  | .ok record =>
    (.ok (), { t with records := t.records.insert id.slot { record with passable } })

def size (t : EntityTable) : Nat :=
  t.records.size

/-- Handles and records in the order of slots. -/
def toList (t : EntityTable) : List (EntityId × EntityRecord) :=
  t.records.toList.map fun (slot, record) => (⟨slot, t.generation slot⟩, record)

end EntityTable

end FieldEngine
