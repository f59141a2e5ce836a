import FieldEngine.Machine.Step

/-!
# Instances

An instance is one running occurrence of a script. A script that is loaded again under its name
is a new edition, even with the same bytes; an instance keeps the edition it was started with.
-/

namespace FieldEngine

/-- One decoded loading of a script. Different loadings have different serial numbers. -/
structure Edition where
  serial : Nat
  program : Program
deriving DecidableEq

/-- Where an instance is in its life. -/
inductive Status
  | running
  | suspended (reason : WaitReason)
  | halted
  | faulted (fault : Fault)
deriving DecidableEq

namespace Status

def isTerminal : Status → Bool
  | halted | faulted _ => true
  | running | suspended _ => false

def reason? : Status → Option WaitReason
  | suspended reason => some reason
  | running | halted | faulted _ => none

def text : Status → String
  | running => "running"
  | suspended reason => s!"suspended on {reason.text}"
  | halted => "halted"
  | faulted fault => s!"faulted: {fault.message}"

end Status

/-- One running occurrence of a script. -/
structure Instance where
  id : Nat
  edition : Edition
  owner : EntityId
  cursor : Cursor
  status : Status
deriving DecidableEq

/-- An instance as it is saved: its program is named, not stored. -/
structure InstanceSnapshot where
  id : Nat
  script : String
  owner : EntityId
  cursor : Cursor
  status : Status
deriving DecidableEq

namespace Instance

/-- The number of an instance as trace and console show it. -/
def idText (id : Nat) : String :=
  s!"#{id}"

/-- A fresh instance at the first instruction. -/
def start (id : Nat) (edition : Edition) (owner : EntityId) : Instance :=
  ⟨id, edition, owner, .start, .running⟩

def program (i : Instance) : Program :=
  i.edition.program

def snapshot (i : Instance) : InstanceSnapshot :=
  ⟨i.id, i.program.name, i.owner, i.cursor, i.status⟩

/-- The instance of a saved one with its program. -/
def ofSnapshot (edition : Edition) (saved : InstanceSnapshot) : Instance :=
  ⟨saved.id, edition, saved.owner, saved.cursor, saved.status⟩

end Instance

end FieldEngine
