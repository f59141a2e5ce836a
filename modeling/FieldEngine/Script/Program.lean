import FieldEngine.Script.Instruction

/-!
# Programs

A decoded script: instructions in order, each with the byte offset where its group of words
starts, and the length of the script. Jumps name byte offsets; an offset resolves to the
instruction whose group starts there, the end of the script to the index past the last
instruction, and every other offset to nothing.
-/

namespace FieldEngine

/-- A decoded script. -/
structure Program where
  name : String
  /-- Group offsets and instructions, in order. -/
  entries : Array (Nat × Instruction)
  endOffset : Nat
deriving DecidableEq

namespace Program

/-- A program of one-word groups. -/
def ofInstructions (name : String) (instructions : List Instruction) : Program where
  name := name
  entries := (instructions.zipIdx.map fun (instruction, i) => (i * 4, instruction)).toArray
  endOffset := instructions.length * 4

def size (p : Program) : Nat :=
  p.entries.size

def get? (p : Program) (index : Nat) : Option Instruction :=
  p.entries[index]?.map Prod.snd

/-- The group offset of the instruction at an index. -/
def offsetOf? (p : Program) (index : Nat) : Option Nat :=
  p.entries[index]?.map Prod.fst

/-- The last index below a bound whose group starts at an offset. -/
def lastIndex? (p : Program) (offset : Nat) : (bound : Nat) → Option Nat
  | 0 => none
  | i + 1 => if p.offsetOf? i = some offset then some i else lastIndex? p offset i

/-- The index to which a jump target leads. -/
def resolve? (p : Program) : (target : Int) → Option Nat
  | .negSucc _ => none
  | .ofNat offset =>
    if offset = p.endOffset then some p.size else p.lastIndex? offset p.size

def hasPlaceholders (p : Program) : Bool :=
  p.entries.any fun e => e.2.isPlaceholder

end Program

end FieldEngine
