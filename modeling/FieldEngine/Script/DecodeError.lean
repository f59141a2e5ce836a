import FieldEngine.Text.Layout

/-!
# Decoding errors

Why a byte stream is no program. Nearly every cause names the byte offset of the word at which
it was noticed.
-/

namespace FieldEngine

/-- A cause for a byte stream to be refused. -/
inductive DecodeError
  /-- The stream ends inside a word, or before the literal of a wide push. -/
  | truncated (offset needed : Nat)
  | unknownOpcode (offset : Nat) (opcode : UInt16)
  | unknownOperator (offset : Nat) (operator : Int16)
  /-- Fewer operands are pushed than the opcode takes. -/
  | stackUnderflow (offset : Nat) (mnemonic : String) (arity available : Nat)
  /-- Operands are left after an instruction. -/
  | stackImbalance (offset : Nat) (mnemonic : String) (depth : Nat)
  /-- Operands are left at the end of the stream. -/
  | danglingOperands (depth : Nat)
  /-- More operands are pushed than the limit allows. -/
  | stackOverflow (offset limit : Nat)
  | invalidOperand (offset : Nat) (mnemonic reason : String)
deriving DecidableEq

namespace DecodeError

def offset? : DecodeError → Option Nat
  | truncated offset _
  | unknownOpcode offset _
  | unknownOperator offset _
  | stackUnderflow offset _ _ _
  | stackImbalance offset _ _
  | stackOverflow offset _
  | invalidOperand offset _ _ => some offset
  | danglingOperands _ => none

def message : DecodeError → String
  | truncated offset needed =>
    s!"truncated stream at offset {Text.address offset}: needed {needed} more byte(s)"
  | unknownOpcode offset opcode =>
    s!"unknown opcode {Text.address opcode.toNat} at offset {Text.address offset}"
  | unknownOperator offset operator =>
    s!"unknown operator {operator} at offset {Text.address offset}"
  | stackUnderflow offset mnemonic arity available =>
    s!"stack underflow at offset {Text.address offset}: {mnemonic} needs {arity} operand(s), "
      ++ s!"{available} available"
  | stackImbalance offset mnemonic depth =>
    s!"stack imbalance after {mnemonic} at offset {Text.address offset}: {depth} node(s) left"
  | danglingOperands depth =>
    s!"stream ended with {depth} unconsumed expression node(s)"
  | stackOverflow offset limit =>
    s!"expression stack overflow at offset {Text.address offset} (limit {limit})"
  | invalidOperand offset mnemonic reason =>
    s!"invalid operand for {mnemonic} at offset {Text.address offset}: {reason}"

end DecodeError

end FieldEngine
