import FieldEngine.Script.DecodeError
import FieldEngine.Script.Expr

/-!
# Operand stack

While a script is decoded, pushes leave expression trees on a stack of limited depth, and
instructions take them off. A pop of too many leaves the stack as it is.
-/

namespace FieldEngine

/-! ## Algorithm -/

/-- Expression trees waiting for an instruction, the last pushed first. -/
structure OperandStack where
  limit : Nat
  nodes : List Expr
deriving DecidableEq

namespace OperandStack

/-- Depth limit unless another is asked for. -/
def defaultLimit : Nat := 64

def empty (limit : Nat) : OperandStack :=
  ⟨limit, []⟩

def depth (s : OperandStack) : Nat :=
  s.nodes.length

/-- Push the tree that the word at `offset` denotes. -/
def push (s : OperandStack) (e : Expr) (offset : Nat) : Except DecodeError OperandStack :=
  if s.depth < s.limit then .ok { s with nodes := e :: s.nodes }
  else .error (.stackOverflow offset s.limit)

/-- The last pushed tree, and the stack without it. -/
def pop? (s : OperandStack) : Option (Expr × OperandStack) :=
  match s.nodes with
  | [] => none
  | e :: nodes => some (e, { s with nodes })

/-- The last `n` trees in the order in which they were pushed, and the stack without them. -/
def popN? (s : OperandStack) (n : Nat) : Option (Vector Expr n × OperandStack) :=
  if h : n ≤ s.nodes.length then
    some (⟨(s.nodes.take n).reverse.toArray, by simp [h]⟩, { s with nodes := s.nodes.drop n })
  else none

def top? (s : OperandStack) : Option Expr :=
  s.nodes.head?

def clear (s : OperandStack) : OperandStack :=
  { s with nodes := [] }

/-! ## Lemmas -/

theorem push_ok_iff {s t : OperandStack} {e : Expr} {offset : Nat} :
    s.push e offset = .ok t ↔ s.depth < s.limit ∧ t = { s with nodes := e :: s.nodes } := by
  unfold push
  split
  next h => simp [h, eq_comm]
  next h => simp [h]

theorem popN?_eq_none_iff {s : OperandStack} {n : Nat} : s.popN? n = none ↔ s.depth < n := by
  simp [popN?, depth]

end OperandStack

end FieldEngine
