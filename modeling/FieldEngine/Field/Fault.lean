import FieldEngine.Field.Bank
import FieldEngine.Field.EntityId

/-!
# Runtime faults

What can end a running instance. A fault concerns that one instance; all others go on.
-/

namespace FieldEngine

/-- A cause for an instance to fail. -/
inductive Fault
  /-- A jump or call to a byte offset where no group starts. -/
  | unresolvedJump (target : Int)
  /-- A return without a pending call. -/
  | callStackUnderflow
  /-- A call beyond the depth limit. -/
  | callStackOverflow (limit : Nat)
  /-- A division or remainder by zero. -/
  | divisionByZero
  /-- An index past the end of its bank. -/
  | addressOutOfRange (bank : Bank) (index : UInt16)
  /-- A bank that the operation does not serve. -/
  | invalidBank (bank : Bank)
  /-- A handle that names no live entity. -/
  | unknownEntity (id : EntityId)
deriving DecidableEq

namespace Fault

def message : Fault → String
  | unresolvedJump target => s!"unresolved jump target {target}"
  | callStackUnderflow => "call stack underflow"
  | callStackOverflow limit => s!"call stack overflow (limit {limit})"
  | divisionByZero => "division by zero"
  | addressOutOfRange bank index => s!"address out of range: {bank.name}[{index}]"
  | invalidBank bank => s!"bank {bank.name} is not addressable here"
  | unknownEntity id => s!"unknown entity {id.detail}"

end Fault

end FieldEngine
