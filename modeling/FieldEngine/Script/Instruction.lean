import FieldEngine.Script.Expr
import FieldEngine.Text.Layout

/-!
# Instructions

What a script can do in one step. An instruction owns its operand expressions; jumps name the
byte offset of a group. Opcodes without a known effect become placeholders that keep their
operands.
-/

namespace FieldEngine

inductive Instruction
  | nop
  | jump (target : Int)
  /-- Jump if the condition is zero. -/
  | jumpIfZero (condition : Expr) (target : Int)
  | call (target : Int)
  | ret
  | halt
  | popTemp (slot : UInt8) (value : Expr)
  | popMem (destination : Variable) (value : Expr)
  | setFlag (flag : UInt16) (value : Bool)
  /-- Wait for a number of frames. -/
  | wait (frames : Expr)
  /-- Open a message window and wait until it is closed. -/
  | message (channel number : Expr)
  /-- Play an animation on the owner and wait until it ends. -/
  | animate (animation : UInt16)
  /-- Draw a random byte into a scratch slot. -/
  | random (slot : UInt8)
  /-- Let others walk through the owner, or not. -/
  | setPassable (passable : Bool)
  | placeholder (opcode : UInt16) (mnemonic : String) (args : List Expr)
deriving DecidableEq

namespace Instruction

def mnemonic : Instruction → String
  | nop => "NOP"
  | jump _ => "JMP"
  | jumpIfZero _ _ => "JPF"
  | call _ => "CALL"
  | ret => "RET"
  | halt => "HALT"
  | popTemp _ _ => "POPI_L"
  | popMem v _ =>
    match v.bank with
    | .byte | .signedByte => "POPM_B"
    | .word | .signedWord => "POPM_W"
    | .long | .flag | .temp => "POPM_L"
  | setFlag _ true => "BITON"
  | setFlag _ false => "BITOFF"
  | wait _ => "WAIT"
  | message _ _ => "MESW"
  | animate _ => "ANIME"
  | random _ => "RND"
  | setPassable true => "THROUGHON"
  | setPassable false => "THROUGHOFF"
  | placeholder _ mnemonic _ => mnemonic

/-- The operand expressions in the order in which a script pushes them. -/
def operands : Instruction → List Expr
  | jumpIfZero condition _ => [condition]
  | popTemp _ value | popMem _ value => [value]
  | wait frames => [frames]
  | message channel number => [channel, number]
  | placeholder _ _ args => args
  | nop | jump _ | call _ | ret | halt | setFlag _ _ | animate _ | random _ | setPassable _ => []

/-- The instruction has no effect beyond its operands. -/
def isPlaceholder : Instruction → Bool
  | placeholder _ _ _ => true
  | _ => false

/-- The instruction makes its instance wait. -/
def isBlocking : Instruction → Bool
  | wait _ | message _ _ | animate _ => true
  | _ => false

def target? : Instruction → Option Int
  | jump target | jumpIfZero _ target | call target => some target
  | _ => none

/-- The named arguments that listings show. -/
def arguments : Instruction → List (String × String)
  | jump target | call target => [("target", toString target)]
  | jumpIfZero condition target => [("condition", condition.text), ("target", toString target)]
  | popTemp slot value => [("slot", toString slot), ("value", value.text)]
  | popMem v value => [("address", toString v.index), ("value", value.text)]
  | setFlag flag _ => [("flag", toString flag)]
  | wait frames => [("frames", frames.text)]
  | message channel number => [("channel", channel.text), ("message", number.text)]
  | animate animation => [("animation", toString animation)]
  | random slot => [("slot", toString slot)]
  | placeholder _ _ args => args.zipIdx.map fun (arg, i) => (s!"arg{i}", arg.text)
  | nop | ret | halt | setPassable _ => []

/-- An instruction as listings show it, `NAME(argument: value, ...)`. -/
def text (i : Instruction) : String :=
  let arguments := i.arguments.map fun (name, value) => s!"{name}: {value}"
  i.mnemonic ++ "(" ++ Text.joinWith ", " arguments ++ ")"

end Instruction

end FieldEngine
