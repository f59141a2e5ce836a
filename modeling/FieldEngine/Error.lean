import FieldEngine.Field.Fault
import FieldEngine.Script.DecodeError

/-!
# Errors of the engine

Every operation that can fail names a cause, and where it helps, the script and the byte offset
to which the cause belongs.
-/

namespace FieldEngine

/-- A cause for an operation to fail. -/
inductive Cause
  | decode (error : DecodeError)
  | fault (f : Fault)
  | unknownScript (name : String)
  | unknownInstance (id : Nat)
  | assembly (text : String)
  | notSuspended (id : Nat)
  | io (text : String)
  | malformedSnapshot
  | internal (text : String)
deriving DecidableEq

def Cause.message : Cause → String
  | decode error => s!"decode error: {error.message}"
  | fault f => s!"runtime fault: {f.message}"
  | unknownScript name => s!"unknown script: {name}"
  | unknownInstance id => s!"unknown instance: #{id}"
  | assembly text => s!"assembly error: {text}"
  | notSuspended id => s!"instance #{id} is not suspended"
  | io text => s!"I/O error: {text}"
  | malformedSnapshot => "serialization error: malformed snapshot"
  | internal text => s!"internal error: {text}"

/-- Where an error belongs: a script, and a byte offset in it. -/
structure Location where
  source : Option String := none
  offset : Option Nat := none
deriving DecidableEq

/-- The wording of a location; an offset is shown only with its script. -/
def Location.text (l : Location) : String :=
  match l.source, l.offset with
  | some source, some offset => s!"in {source} at {Text.address offset}"
  | some source, none => s!"in {source}"
  | none, _ => ""

structure Error where
  cause : Cause
  location : Option Location := none
deriving DecidableEq

namespace Error

def message (e : Error) : String :=
  e.cause.message

def of (cause : Cause) : Error :=
  ⟨cause, none⟩

end Error

end FieldEngine
