import FieldEngine.Script.Expr
import FieldEngine.Script.Word

/-!
# Assembling

A script is written as a list of items: words, labels, and jumps to labels. A label marks the
offset of the next word, so it stands before the pushes of the group that it names. Labels may be
used before they are defined, and a label that is defined again means its last place.
-/

namespace FieldEngine

/-- The opcodes that jump to a label. -/
inductive JumpKind
  | jump
  | jumpIfZero
  | call
deriving DecidableEq

def JumpKind.opcode : JumpKind → UInt16
  | jump => 0x02
  | jumpIfZero => 0x03
  | call => 0x04

/-- Why a list of items is no script. -/
inductive AssemblyError
  | undefinedLabel (label : String)
  | tooFar (label : String)
deriving DecidableEq

def AssemblyError.message : AssemblyError → String
  | undefinedLabel label => s!"undefined label {label}"
  | tooFar label => s!"jump to {label} is too far"

inductive AsmItem
  | word (w : UInt32)
  | label (name : String)
  | jump (kind : JumpKind) (label : String)
deriving DecidableEq

namespace AsmItem

/-! ## Items -/

def op (opcode : UInt16) (parameter : Int16) : AsmItem :=
  word (Word.bits ⟨opcode, parameter⟩)

/-- Push a constant, in one word if it fits the parameter. -/
def pushConst (value : Int32) : List AsmItem :=
  if value.toInt16.toInt32 = value then [op 0x07 value.toInt16]
  else [op 0x20 0, word value.toUInt32]

/-- The opcode that pushes a variable of a bank. -/
def pushOpcode : Bank → UInt16
  | .byte => 0x0A
  | .word => 0x0B
  | .long => 0x0C
  | .signedByte => 0x0D
  | .signedWord => 0x0E
  | .flag => 0x21
  | .temp => 0x08

def pushVar (v : Variable) : AsmItem :=
  op (pushOpcode v.bank) v.index.toInt16

/-- Join the top operands by an operator. -/
def apply (operator : Operator) : AsmItem :=
  op 0x01 operator.code

/-- Push an expression: its operands first, then its operator. -/
def pushExpr : Expr → List AsmItem
  | .const value => pushConst value
  | .var v => [pushVar v]
  | .unary o operand => pushExpr operand ++ [apply (.unary o)]
  | .binary o left right => pushExpr left ++ pushExpr right ++ [apply (.binary o)]

/-! ## Layout -/

def size : AsmItem → Nat
  | word _ => 1
  | label _ => 0
  | jump _ _ => 1

def totalSize (items : List AsmItem) : Nat :=
  items.foldr (fun item total => item.size + total) 0

/-- The word index that a label marks, in items that start at a word index. -/
def labelIndex? (name : String) : (start : Nat) → List AsmItem → Option Nat
  | _, [] => none
  | start, item :: items =>
    let here := if item = label name then some start else none
    (labelIndex? name (start + item.size) items).or here

/-- The jump word at a word index to a label. -/
def jumpWord (items : List AsmItem) (index : Nat) (kind : JumpKind) (name : String) :
    Except AssemblyError UInt32 :=
  match labelIndex? name 0 items with
  | none => .error (.undefinedLabel name)
  | some target =>
    let distance : Int := (target : Int) - (index : Int)
    if -32768 ≤ distance ∧ distance ≤ 32767 then
      .ok (Word.bits ⟨kind.opcode, Int16.ofInt distance⟩)
    else .error (.tooFar name)

/-- The words of a tail of the items that starts at a word index. -/
def words (items : List AsmItem) : (index : Nat) → List AsmItem → Except AssemblyError (List UInt32)
  | _, [] => .ok []
  | index, word w :: rest => (words items (index + 1) rest).map (w :: ·)
  | index, label _ :: rest => words items index rest
  | index, jump kind name :: rest => do
    let w ← jumpWord items index kind name
    (words items (index + 1) rest).map (w :: ·)

/-- The bytes of a script; the first jump that cannot be placed is the error. -/
def assemble (items : List AsmItem) : Except AssemblyError (List UInt8) :=
  (words items 0 items).map Word.toBytes

end AsmItem

end FieldEngine
