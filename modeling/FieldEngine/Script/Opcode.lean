import FieldEngine.Script.DecodeError
import FieldEngine.Script.Instruction

/-!
# Opcode table

Each opcode pushes a tree, combines the top trees by an operator, or takes a fixed number of
trees and becomes an instruction. The number taken is fixed by the form of the instruction, so
the operands arrive as a vector of exactly that length. Opcodes without a known effect are in
the table too: they take their operands, and all words after them stay aligned.
-/

namespace FieldEngine

/-! ## Roles -/

/-- What a push opcode pushes. -/
inductive PushKind
  /-- The parameter. -/
  | literal
  /-- The next word. -/
  | wideLiteral
  /-- The variable of a bank whose index is the parameter. -/
  | var (bank : Bank)
deriving DecidableEq

/-- What an instruction opcode becomes. -/
inductive Form
  | nop
  | jump
  | jumpIfZero
  | call
  | ret
  | popTemp
  | popMem (bank : Bank)
  | halt
  | setFlag (value : Bool)
  | wait
  | message
  | animate
  | random
  | setPassable (passable : Bool)
  | placeholder (arity : Nat)
deriving DecidableEq

/-- The part an opcode plays in decoding. -/
inductive Role
  | push (kind : PushKind)
  | operator
  | instruction (form : Form)
deriving DecidableEq

/-- One entry of the opcode table. -/
structure Opcode where
  code : UInt16
  mnemonic : String
  role : Role
deriving DecidableEq

namespace Form

def arity : Form → Nat
  | jumpIfZero | popTemp | popMem _ | wait => 1
  | message => 2
  | placeholder n => n
  | nop | jump | call | ret | halt | setFlag _ | animate | random | setPassable _ => 0

end Form

/-! ## Table -/

namespace Opcode

def arity? (o : Opcode) : Option Nat :=
  match o.role with
  | .instruction form => some form.arity
  | .push _ | .operator => none

/-- The opcode has no known effect. -/
def isPlaceholder (o : Opcode) : Bool :=
  match o.role with
  | .instruction (.placeholder _) => true
  | _ => false

def table : List Opcode :=
  [ ⟨0x00, "NOP", .instruction .nop⟩,
    ⟨0x01, "CAL", .operator⟩,
    ⟨0x02, "JMP", .instruction .jump⟩,
    ⟨0x03, "JPF", .instruction .jumpIfZero⟩,
    ⟨0x04, "CALL", .instruction .call⟩,
    ⟨0x06, "RET", .instruction .ret⟩,
    ⟨0x07, "PSHN_L", .push .literal⟩,
    ⟨0x08, "PSHI_L", .push (.var .temp)⟩,
    ⟨0x09, "POPI_L", .instruction .popTemp⟩,
    ⟨0x0A, "PSHM_B", .push (.var .byte)⟩,
    ⟨0x0B, "PSHM_W", .push (.var .word)⟩,
    ⟨0x0C, "PSHM_L", .push (.var .long)⟩,
    ⟨0x0D, "PSHSM_B", .push (.var .signedByte)⟩,
    ⟨0x0E, "PSHSM_W", .push (.var .signedWord)⟩,
    ⟨0x10, "POPM_B", .instruction (.popMem .byte)⟩,
    ⟨0x11, "POPM_W", .instruction (.popMem .word)⟩,
    ⟨0x12, "POPM_L", .instruction (.popMem .long)⟩,
    ⟨0x1C, "HALT", .instruction .halt⟩,
    ⟨0x1D, "BITON", .instruction (.setFlag true)⟩,
    ⟨0x1E, "BITOFF", .instruction (.setFlag false)⟩,
    ⟨0x20, "PSHN_X", .push .wideLiteral⟩,
    ⟨0x21, "PSHF", .push (.var .flag)⟩,
    ⟨0x23, "WAIT", .instruction .wait⟩,
    ⟨0x24, "MESW", .instruction .message⟩,
    ⟨0x25, "ANIME", .instruction .animate⟩,
    ⟨0x26, "RND", .instruction .random⟩,
    ⟨0x27, "THROUGHON", .instruction (.setPassable true)⟩,
    ⟨0x28, "THROUGHOFF", .instruction (.setPassable false)⟩,
    ⟨0x30, "UNKNOWN1", .instruction (.placeholder 0)⟩,
    ⟨0x31, "UNKNOWN2", .instruction (.placeholder 2)⟩,
    ⟨0x32, "UNKNOWN3", .instruction (.placeholder 3)⟩,
    ⟨0x33, "UNKNOWN4", .instruction (.placeholder 1)⟩,
    ⟨0x40, "MUSICLOAD", .instruction (.placeholder 1)⟩,
    ⟨0x41, "MUSICCHANGE", .instruction (.placeholder 0)⟩,
    ⟨0x42, "FADEIN", .instruction (.placeholder 0)⟩,
    ⟨0x43, "FADEOUT", .instruction (.placeholder 0)⟩,
    ⟨0x44, "SHAKE", .instruction (.placeholder 5)⟩ ]

def ofCode? (code : UInt16) : Option Opcode :=
  table.find? fun o => o.code == code

/-- The opcode of a given mnemonic, in letters of either case. -/
def ofMnemonic? (mnemonic : String) : Option Opcode :=
  let fold (s : String) : List Char := s.toList.map Char.toLower
  table.find? fun o => fold o.mnemonic == fold mnemonic

/-- The number of operands of the opcode with a given code. -/
def arityOf? (code : UInt16) : Option Nat :=
  (ofCode? code).bind arity?

/-! ## Building instructions -/

/-- The scratch slot that a parameter names. -/
def tempSlot (o : Opcode) (parameter : Int16) (offset : Nat) : Except DecodeError UInt8 :=
  if 0 ≤ parameter.toInt ∧ parameter.toInt < (tempSlots : Int) then
    .ok (UInt8.ofNat parameter.toInt.toNat)
  else
    .error (.invalidOperand offset o.mnemonic
      s!"temp slot {parameter} out of range 0..{tempSlots}")

/-- The byte offset that a relative jump names: the parameter counts words. Offsets of 64 bits are
read with a sign. -/
def jumpTarget (parameter : Int16) (offset : Nat) : Int :=
  Int.bmod offset 0x10000000000000000 + parameter.toInt * 4

theorem jumpTarget_of_lt {offset : Nat} (parameter : Int16) (h : offset < 0x8000000000000000) :
    jumpTarget parameter offset = offset + parameter.toInt * 4 := by
  unfold jumpTarget
  rw [Int.bmod_eq_of_le (by omega) (by omega)]

/-- The instruction of a form with its operands. -/
def build (o : Opcode) (parameter : Int16) (offset : Nat) :
    (form : Form) → Vector Expr form.arity → Except DecodeError Instruction
  | .nop, _ => .ok .nop
  | .jump, _ => .ok (.jump (jumpTarget parameter offset))
  | .jumpIfZero, args =>
    .ok (.jumpIfZero (args.get ⟨0, by decide⟩) (jumpTarget parameter offset))
  | .call, _ => .ok (.call (jumpTarget parameter offset))
  | .ret, _ => .ok .ret
  | .popTemp, args =>
    (o.tempSlot parameter offset).map fun slot => .popTemp slot (args.get ⟨0, by decide⟩)
  | .popMem bank, args => .ok (.popMem ⟨bank, parameter.toUInt16⟩ (args.get ⟨0, Nat.one_pos⟩))
  | .halt, _ => .ok .halt
  | .setFlag value, _ => .ok (.setFlag parameter.toUInt16 value)
  | .wait, args => .ok (.wait (args.get ⟨0, by decide⟩))
  | .message, args => .ok (.message (args.get ⟨0, by decide⟩) (args.get ⟨1, by decide⟩))
  | .animate, _ => .ok (.animate parameter.toUInt16)
  | .random, _ => (o.tempSlot parameter offset).map .random
  | .setPassable passable, _ => .ok (.setPassable passable)
  | .placeholder _, args => .ok (.placeholder o.code o.mnemonic args.toList)

/-! ## Lemmas -/

theorem ofCode?_eq_some {code : UInt16} {o : Opcode} (h : ofCode? code = some o) :
    o ∈ table ∧ o.code = code :=
  ⟨List.mem_of_find?_eq_some h, by simpa using List.find?_some h⟩

end Opcode

end FieldEngine
