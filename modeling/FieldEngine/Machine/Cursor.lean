import FieldEngine.Script.Expr

/-!
# Cursors

The whole execution point of an instance as plain data: the index of the next instruction, the
indices to which pending calls return, and the scratch slots.
-/

namespace FieldEngine

/-- The execution point of an instance. -/
structure Cursor where
  /-- Index of the next instruction. -/
  pc : Nat
  /-- Return indices, the innermost call first. -/
  calls : List Nat
  temps : Temps
deriving DecidableEq

namespace Cursor

/-- A fresh cursor at an instruction. -/
def startAt (pc : Nat) : Cursor :=
  ⟨pc, [], Vector.replicate tempSlots 0⟩

def start : Cursor :=
  startAt 0

def setTemp (c : Cursor) (slot : UInt8) (value : Int32) : Except Fault Unit × Cursor :=
  if h : slot.toNat < tempSlots then
    (.ok (), { c with temps := c.temps.set slot.toNat value h })
  else (.error (.addressOutOfRange .temp slot.toUInt16), c)

end Cursor

end FieldEngine
