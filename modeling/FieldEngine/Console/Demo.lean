import FieldEngine.Script.Assembler

/-!
# Demonstration script

A small script that uses the main kinds of instructions: it counts a byte up to three and waits a
frame after each step, then sets a flag, opens a message window, and when that is closed lets
others walk through its owner.
-/

namespace FieldEngine.Demo

def items : List AsmItem :=
  let counter : Expr := .var ⟨.byte, 0⟩
  [.label "loop"]
    ++ AsmItem.pushExpr (.binary .lt counter (.const 3)) ++ [.jump .jumpIfZero "done"]
    ++ AsmItem.pushExpr (.binary .add counter (.const 1)) ++ [.op 0x10 0]
    ++ AsmItem.pushConst 1 ++ [.op 0x23 0]
    ++ [.jump .jump "loop", .label "done", .op 0x1D 1]
    ++ AsmItem.pushConst 0 ++ AsmItem.pushConst 7 ++ [.op 0x24 0]
    ++ [.op 0x27 0, .op 0x1C 0]

def script : Except AssemblyError (List UInt8) :=
  AsmItem.assemble items

end FieldEngine.Demo
