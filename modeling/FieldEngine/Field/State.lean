import Std.Data.ExtTreeSet
import FieldEngine.Field.EntityTable
import FieldEngine.Host.KeyStream
import FieldEngine.Field.Memory

/-!
# Field state

All that scripts on a field read and change: memory, flags, entities and a random stream. The
position in the random stream is part of the state, so a saved field goes on with the bytes that
it would have drawn.
-/

namespace FieldEngine

/-- The world that scripts act on. -/
structure Field where
  memory : Memory
  /-- The numbers of the flags that are set. -/
  flags : Std.ExtTreeSet UInt16
  entities : EntityTable
  seed : UInt64
  /-- Random numbers drawn so far; the count wraps around. -/
  draws : UInt64
deriving DecidableEq

namespace Field

def flagCount : Nat := 2048

/-- An empty field with a seed and a memory size. -/
def empty (seed : UInt64) (memorySize : Nat) : Field where
  memory := .zeroed memorySize
  flags := ∅
  entities := .empty
  seed := seed
  draws := 0

/-- An empty field with the usual memory size. -/
def ofSeed (seed : UInt64) : Field :=
  empty seed Memory.defaultSize

/-! ## Variables -/

def read (f : Field) (bank : Bank) (index : UInt16) : Except Fault Int32 :=
  f.memory.read bank index

def write (f : Field) (bank : Bank) (index : UInt16) (value : Int32) : Except Fault Unit × Field :=
  let (result, memory) := f.memory.write bank index value
  (result, { f with memory })

/-- A flag of that number exists. -/
def checkFlag (index : UInt16) : Except Fault Unit :=
  if index.toNat < flagCount then .ok () else .error (.addressOutOfRange .flag index)

/-- The flag is set. -/
def flag (f : Field) (index : UInt16) : Except Fault Bool :=
  (checkFlag index).map fun _ => f.flags.contains index

def setFlag (f : Field) (index : UInt16) (value : Bool) : Except Fault Unit × Field :=
  match checkFlag index with
  | .error fault => (.error fault, f)
  | .ok () =>
    (.ok (), { f with flags := if value then f.flags.insert index else f.flags.erase index })

/-! ## Entities -/

/-- Place a solid entity. -/
def spawnEntity (f : Field) (name : String) : EntityId × Field :=
  let (id, entities) := f.entities.spawn ⟨name, false⟩
  (id, { f with entities })

def despawnEntity (f : Field) (id : EntityId) : Except Fault EntityRecord × Field :=
  let (result, entities) := f.entities.destroy id
  (result, { f with entities })

def entity (f : Field) (id : EntityId) : Except Fault EntityRecord :=
  f.entities.get id

/-- Others may walk through the entity. -/
def isPassable (f : Field) (id : EntityId) : Except Fault Bool :=
  (f.entity id).map EntityRecord.passable

/-- Let others walk through an entity, or not. -/
def setPassable (f : Field) (id : EntityId) (passable : Bool) : Except Fault Unit × Field :=
  let (result, entities) := f.entities.setPassable id passable
  (result, { f with entities })

/-- The live entity of that name in the lowest slot. -/
def findEntity? (f : Field) (name : String) : Option EntityId :=
  (f.entities.toList.find? fun e => e.2.name == name).map Prod.fst

/-- The live entity in a slot. -/
def entityInSlot? (f : Field) (slot : Nat) : Option EntityId :=
  (f.entities.toList.find? fun e => e.1.slot == slot).map Prod.fst

/-! ## Randomness -/

/-- Draw the next random byte: the low byte of the next word of the key stream. -/
def randomByte (f : Field) : UInt8 × Field :=
  ((KeyStream.word f.seed f.draws.toNat).toUInt8, { f with draws := f.draws + 1 })

/-- Draw `n` random bytes, one after the other. -/
def randomBytes (f : Field) : (n : Nat) → List UInt8 × Field
  | 0 => ([], f)
  | n + 1 =>
    let (b, f) := f.randomByte
    let (rest, f) := randomBytes f n
    (b :: rest, f)

end Field

end FieldEngine
