import FieldEngine.Field.State

/-!
# Expressions

The operands of instructions are expression trees over constants and variables. A tree is
evaluated each time its instruction runs, so it sees the variables as they are then. Arithmetic
is on 32-bit words and wraps; division truncates toward zero.
-/

namespace FieldEngine

/-- The scratch slots of an instance. -/
abbrev Temps := Vector Int32 tempSlots

/-! ## Operators -/

inductive UnaryOp
  | neg
  | not
deriving DecidableEq

inductive BinaryOp
  | add
  | sub
  | mul
  | div
  | mod
  | eq
  | gt
  | ge
  | lt
  | le
  | ne
  | and
  | or
  | xor
deriving DecidableEq

/-- Truth as scripts see it. -/
def ofBool (b : Bool) : Int32 :=
  if b then 1 else 0

namespace UnaryOp

def code : UnaryOp → Int16
  | neg => 5
  | not => 15

def symbol : UnaryOp → String
  | neg => "-"
  | not => "!"

def apply : UnaryOp → Int32 → Int32
  | neg, a => -a
  | not, a => ofBool (a == 0)

end UnaryOp

namespace BinaryOp

/-- The parameter that selects the operator in a script. -/
def code : BinaryOp → Int16
  | add => 0
  | sub => 1
  | mul => 2
  | div => 3
  | mod => 4
  | eq => 6
  | gt => 7
  | ge => 8
  | lt => 9
  | le => 10
  | ne => 11
  | and => 12
  | or => 13
  | xor => 14

/-- The sign of the operator in listings. -/
def symbol : BinaryOp → String
  | add => "+"
  | sub => "-"
  | mul => "*"
  | div => "/"
  | mod => "%"
  | eq => "=="
  | gt => ">"
  | ge => ">="
  | lt => "<"
  | le => "<="
  | ne => "!="
  | and => "&"
  | or => "|"
  | xor => "^"

/-- The value of the operator at two operands; only a zero divisor has none. -/
def apply : BinaryOp → Int32 → Int32 → Except Fault Int32
  | add, a, b => .ok (a + b)
  | sub, a, b => .ok (a - b)
  | mul, a, b => .ok (a * b)
  | div, a, b => if b = 0 then .error .divisionByZero else .ok (a / b)
  | mod, a, b => if b = 0 then .error .divisionByZero else .ok (a % b)
  | eq, a, b => .ok (ofBool (a == b))
  | gt, a, b => .ok (ofBool (b < a))
  | ge, a, b => .ok (ofBool (b ≤ a))
  | lt, a, b => .ok (ofBool (a < b))
  | le, a, b => .ok (ofBool (a ≤ b))
  | ne, a, b => .ok (ofBool (a != b))
  | and, a, b => .ok (a &&& b)
  | or, a, b => .ok (a ||| b)
  | xor, a, b => .ok (a ^^^ b)

def all : List BinaryOp :=
  [add, sub, mul, div, mod, eq, gt, ge, lt, le, ne, and, or, xor]

def ofSymbol? (s : String) : Option BinaryOp :=
  all.find? fun op => op.symbol == s

end BinaryOp

inductive Operator
  | unary (op : UnaryOp)
  | binary (op : BinaryOp)
deriving DecidableEq

namespace Operator

/-- The parameter that selects the operator in a script. -/
def code : Operator → Int16
  | unary op => op.code
  | binary op => op.code

def arity : Operator → Nat
  | unary _ => 1
  | binary _ => 2

def all : List Operator :=
  [unary .neg, unary .not] ++ BinaryOp.all.map binary

/-- The operator that a parameter selects. -/
def ofCode? (code : Int16) : Option Operator :=
  all.find? fun op => op.code == code

theorem ofCode?_code (op : Operator) : ofCode? op.code = some op := by
  cases op with
  | unary op => cases op <;> decide
  | binary op => cases op <;> decide

end Operator

/-! ## Trees -/

inductive Expr
  | const (value : Int32)
  | var (v : Variable)
  | unary (op : UnaryOp) (operand : Expr)
  | binary (op : BinaryOp) (left right : Expr)
deriving DecidableEq

namespace Expr

/-- The value of a variable: of a flag 0 or 1, of a scratch slot what the instance holds there,
of any other bank what the memory holds. -/
def load (field : Field) (temps : Temps) (v : Variable) : Except Fault Int32 :=
  match v.bank with
  | .flag => (field.flag v.index).map ofBool
  | .temp =>
    match temps[v.index.toNat]? with
    | some value => .ok value
    | none => .error (.addressOutOfRange .temp v.index)
  | bank => field.read bank v.index

/-- The value of a tree; operands are evaluated from left to right and the first fault wins. -/
def eval (field : Field) (temps : Temps) : Expr → Except Fault Int32
  | const value => .ok value
  | var v => load field temps v
  | unary op operand => (eval field temps operand).map op.apply
  | binary op left right => do
    let a ← eval field temps left
    let b ← eval field temps right
    op.apply a b

/-- A tree as listings show it; only operators with two operands are bracketed. -/
def text : Expr → String
  | const value => toString value
  | var v => v.text
  | unary op operand => op.symbol ++ operand.text
  | binary op left right => s!"({left.text} {op.symbol} {right.text})"

end Expr

end FieldEngine
