import FieldEngine.Machine.Cursor
import FieldEngine.Machine.WaitReason
import FieldEngine.Script.Program

/-!
# Execution

One step executes the instruction at the cursor against the field. A step continues, suspends the
instance with the cursor already past the blocking instruction, ends it, or faults; a fault leaves
the cursor at its instruction. Past the last instruction a program has ended.
-/

namespace FieldEngine

/-- How a step ends, unless it faults. -/
inductive Step
  | continue
  | suspend (reason : WaitReason)
  | halt
deriving DecidableEq

/-- What a step acts on. -/
structure ExecState where
  cursor : Cursor
  field : Field
deriving DecidableEq

/-- How a step ends, and the state after it. -/
abbrev StepResult := Except Fault Step × ExecState

/-- What stays fixed while an instance runs: its program, its owner and the limit on calls. -/
structure Machine where
  program : Program
  owner : EntityId
  maxCallDepth : Nat
deriving DecidableEq

namespace ExecState

/-- A fault that changes nothing. -/
def fault (s : ExecState) (f : Fault) : StepResult :=
  (.error f, s)

/-- Go on with a value, or fault with the state as it is. -/
def attempt {α : Type} (s : ExecState) (r : Except Fault α) (next : α → StepResult) : StepResult :=
  match r with
  | .ok a => next a
  | .error f => s.fault f

/-- Go on with the value of an expression. -/
def evaluating (s : ExecState) (e : Expr) (next : Int32 → StepResult) : StepResult :=
  s.attempt (e.eval s.field s.cursor.temps) next

def continueAt (s : ExecState) (pc : Nat) : StepResult :=
  (.ok .continue, { s with cursor := { s.cursor with pc } })

def advance (s : ExecState) : StepResult :=
  s.continueAt (s.cursor.pc + 1)

/-- Wait, and go on after the instruction later. -/
def suspend (s : ExecState) (reason : WaitReason) : StepResult :=
  (.ok (.suspend reason), { s with cursor := { s.cursor with pc := s.cursor.pc + 1 } })

/-- Continue after the instruction on the field that a change leaves, or fault on it. -/
def withField (s : ExecState) (change : Except Fault Unit × Field) : StepResult :=
  let (result, field) := change
  let s := { s with field }
  s.attempt result fun () => s.advance

/-- Continue after the instruction with a value in a scratch slot. -/
def storeTemp (s : ExecState) (slot : UInt8) (value : Int32) : StepResult :=
  let (result, cursor) := s.cursor.setTemp slot value
  let s := { s with cursor }
  s.attempt result fun () => s.advance

end ExecState

namespace Machine

/-- The index to which a jump leads. -/
def resolve (m : Machine) (target : Int) : Except Fault Nat :=
  match m.program.resolve? target with
  | some pc => .ok pc
  | none => .error (.unresolvedJump target)

def execute (m : Machine) (s : ExecState) : Instruction → StepResult
  | .nop | .placeholder _ _ _ => s.advance
  | .halt => (.ok .halt, s)
  | .jump target => s.attempt (m.resolve target) s.continueAt
  | .jumpIfZero condition target =>
    s.evaluating condition fun value =>
      if value = 0 then s.attempt (m.resolve target) s.continueAt else s.advance
  | .call target =>
    s.attempt (m.resolve target) fun pc =>
      if s.cursor.calls.length < m.maxCallDepth then
        let calls := (s.cursor.pc + 1) :: s.cursor.calls
        { s with cursor := { s.cursor with calls } }.continueAt pc
      else s.fault (.callStackOverflow m.maxCallDepth)
  | .ret =>
    match s.cursor.calls with
    | [] => s.fault .callStackUnderflow
    | pc :: calls => { s with cursor := { s.cursor with calls } }.continueAt pc
  | .popTemp slot value => s.evaluating value fun v => s.storeTemp slot v
  | .popMem v value =>
    s.evaluating value fun x => s.withField (s.field.write v.bank v.index x)
  | .setFlag flag value => s.withField (s.field.setFlag flag value)
  | .random slot =>
    let (byte, field) := s.field.randomByte
    { s with field }.storeTemp slot (Int32.ofNat byte.toNat)
  | .setPassable passable => s.withField (s.field.setPassable m.owner passable)
  | .wait frames =>
    s.evaluating frames fun n => s.suspend (.timer (if n < 0 then 0 else n))
  | .message channel number =>
    s.evaluating channel fun c => s.evaluating number fun n => s.suspend (.dialogue c n)
  | .animate animation => s.suspend (.animation m.owner animation)

/-- Execute the instruction at the cursor. -/
def step (m : Machine) (s : ExecState) : StepResult :=
  match m.program.get? s.cursor.pc with
  | none => (.ok .halt, s)
  | some instruction => m.execute s instruction

/-- Steps until one does not continue, at most `limit`, with the number of instructions executed.
Coming to rest past the last instruction executes none. -/
def run (m : Machine) : (limit : Nat) → ExecState → Except Fault (Step × Nat) × ExecState
  | 0, s => (.ok (.continue, 0), s)
  | limit + 1, s =>
    match m.step s with
    | (.ok .continue, t) =>
      let (result, u) := run m limit t
      (result.map fun (stop, executed) => (stop, executed + 1), u)
    | (.ok .halt, t) =>
      (.ok (.halt, if (m.program.get? t.cursor.pc).isSome then 1 else 0), t)
    | (.ok stop, t) => (.ok (stop, 1), t)
    | (.error f, t) => (.error f, t)

end Machine

end FieldEngine
