import FieldEngine.Script.Opcode
import FieldEngine.Script.OperandStack
import FieldEngine.Script.Program
import FieldEngine.Script.Reader

/-!
# Decoding

A script is decoded in one pass over its words. The pass keeps the operand stack and the
instructions found so far; `Pass.feed` takes one word, and decoding is the fold of `feed` over all
words. The words that push the operands of an instruction, together with the instruction word,
are a group, and jumps name the offsets where groups start. The first error ends the pass.
-/

namespace FieldEngine

/-! ## One instruction -/

/-- Take the operands of a form off the stack and build the instruction. Operands that are there
are taken even if the parameter is refused; if there are too few, the stack stays as it is. -/
def Opcode.take (o : Opcode) (form : Form) (parameter : Int16) (offset : Nat)
    (stack : OperandStack) : Except DecodeError Instruction × OperandStack :=
  match stack.popN? form.arity with
  | none => (.error (.stackUnderflow offset o.mnemonic form.arity stack.depth), stack)
  | some (args, rest) => (o.build parameter offset form args, rest)

/-- Decode one instruction word on a given stack. -/
def decodeInstruction (opcode : UInt16) (parameter : Int16) (offset : Nat)
    (stack : OperandStack) : Except DecodeError Instruction × OperandStack :=
  match Opcode.ofCode? opcode with
  | none => (.error (.unknownOpcode offset opcode), stack)
  | some o =>
    match o.role with
    | .instruction form => o.take form parameter offset stack
    | .push _ | .operator => (.error (.unknownOpcode offset opcode), stack)

/-! ## The pass -/

structure DecoderConfig where
  /-- Most trees that may wait on the operand stack. -/
  maxDepth : Nat := OperandStack.defaultLimit
  /-- Every instruction must leave the operand stack empty. -/
  strict : Bool := true
deriving DecidableEq

structure Pass where
  /-- Offset of the next word. -/
  offset : Nat
  stack : OperandStack
  /-- Offset of the first word after the last instruction. -/
  groupStart : Nat
  /-- Group offsets and instructions found so far. -/
  entries : Array (Nat × Instruction)
  /-- Offset of a wide push whose literal is the next word. -/
  wide : Option Nat
deriving DecidableEq

namespace Pass

def start (maxDepth : Nat) : Pass :=
  ⟨0, .empty maxDepth, 0, #[], none⟩

/-- Push a tree for the word at an offset and go on to the next word. -/
def push (p : Pass) (e : Expr) (offset : Nat) : Except DecodeError Pass :=
  (p.stack.push e offset).map fun stack => { p with offset := p.offset + 4, stack, wide := none }

/-- A push word. A wide push only notes that its literal comes next. -/
def feedPush (p : Pass) (o : Opcode) (parameter : Int16) : PushKind → Except DecodeError Pass
  | .literal => p.push (.const parameter.toInt32) p.offset
  | .wideLiteral => .ok { p with offset := p.offset + 4, wide := some p.offset }
  | .var .temp => do
    let slot ← o.tempSlot parameter p.offset
    p.push (.var ⟨.temp, slot.toUInt16⟩) p.offset
  | .var bank => p.push (.var ⟨bank, parameter.toUInt16⟩) p.offset

/-- An operator word: its operands are replaced by the tree that joins them. -/
def feedOperator (p : Pass) (parameter : Int16) : Except DecodeError Pass :=
  match Operator.ofCode? parameter with
  | none => .error (.unknownOperator p.offset parameter)
  | some (.unary op) =>
    match p.stack.popN? 1 with
    | none => .error (.stackUnderflow p.offset "CAL" 1 p.stack.depth)
    | some (args, stack) => { p with stack }.push (.unary op args[0]) p.offset
  | some (.binary op) =>
    match p.stack.popN? 2 with
    | none => .error (.stackUnderflow p.offset "CAL" 2 p.stack.depth)
    | some (args, stack) => { p with stack }.push (.binary op args[0] args[1]) p.offset

/-- An instruction word ends its group. -/
def feedInstruction (strict : Bool) (p : Pass) (o : Opcode) (parameter : Int16) (form : Form) :
    Except DecodeError Pass :=
  match o.take form parameter p.offset p.stack with
  | (.error e, _) => .error e
  | (.ok instruction, stack) =>
    if strict && stack.depth != 0 then
      .error (.stackImbalance p.offset o.mnemonic stack.depth)
    else
      .ok { p with
        offset := p.offset + 4
        stack := stack
        groupStart := p.offset + 4
        entries := p.entries.push (p.groupStart, instruction) }

def feed (strict : Bool) (p : Pass) (w : UInt32) : Except DecodeError Pass :=
  match p.wide with
  | some offset => p.push (.const w.toInt32) offset
  | none =>
    let word := Word.ofBits w
    match Opcode.ofCode? word.opcode with
    | none => .error (.unknownOpcode p.offset word.opcode)
    | some o =>
      match o.role with
      | .push kind => p.feedPush o word.parameter kind
      | .operator => p.feedOperator word.parameter
      | .instruction form => p.feedInstruction strict o word.parameter form

/-- The instructions of a stream that ends here with so many spare bytes. -/
def finish (p : Pass) (spare : Nat) : Except DecodeError (Array (Nat × Instruction)) :=
  if p.wide.isSome || spare != 0 then .error (.truncated p.offset (4 - spare))
  else if p.stack.depth != 0 then .error (.danglingOperands p.stack.depth)
  else .ok p.entries

end Pass

def decode (config : DecoderConfig) (name : String) (bytes : List UInt8) :
    Except DecodeError Program := do
  let (words, spare) := Word.ofBytes bytes
  let pass ← words.foldlM (Pass.feed config.strict) (.start config.maxDepth)
  let entries ← pass.finish spare
  .ok ⟨name, entries, bytes.length⟩

end FieldEngine
