import FieldEngine.Script.Program
import FieldEngine.Text.Layout

/-!
# Listings

A program as text: one line for each instruction, with the offset of its group and its index.
-/

namespace FieldEngine.Listing

def line (offset index : Nat) (instruction : Instruction) : String :=
  s!"{Text.address offset}  [{index}]  {instruction.text}"

/-- The lines of a program, each with its line end. -/
def body (p : Program) : String :=
  String.join (p.entries.toList.zipIdx.map fun ((offset, instruction), index) =>
    line offset index instruction ++ "\n")

/-- The lines of a program below a header with its name, size and length. -/
def withHeader (p : Program) : String :=
  s!"; {p.name} ({p.size} instructions, {p.endOffset} bytes)\n"
    ++ (if p.hasPlaceholders then "; has placeholder opcodes with no effect\n" else "")
    ++ body p

end FieldEngine.Listing
