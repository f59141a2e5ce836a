import FieldEngine.Packed.Shape
import FieldEngine.Session.Snapshot

/-!
# Snapshots as bytes

A snapshot is written as a packed value and read back from one. Each type has a `pack` function
and an `unpack?` function, and the numbers read are checked against the range of their type.
Where a record can pass over unknown fields, its reader is told in how many containers it stands.
Byte sequences are lists of numbers; flags are an ascending list; entity records are a map from
slots.
-/

namespace FieldEngine

open Packed

def word64 : Nat := 0x10000000000000000

def word32 : Nat := 0x100000000

/-! ## Numbers and bytes -/

def Packed.int32? (p : Packed) : Option Int32 :=
  (p.int? 32).map Int32.ofInt

def Packed.uint16? (p : Packed) : Option UInt16 :=
  (p.nat? 0x10000).map UInt16.ofNat

def Packed.uint64? (p : Packed) : Option UInt64 :=
  (p.nat? word64).map UInt64.ofNat

def Packed.byte? (p : Packed) : Option UInt8 :=
  (p.nat? 0x100).map UInt8.ofNat

/-- A number or an index of at most 64 bits. -/
def Packed.count? (p : Packed) : Option Nat :=
  p.nat? word64

/-- Bytes as a list of numbers. -/
def packBytes (bytes : List UInt8) : Packed :=
  ofList (fun b => .uint b.toNat) bytes

/-- Bytes from a list of numbers. -/
def unpackBytes? : Packed → Option (List UInt8) :=
  list? byte?

/-! ## Field -/

namespace Bank

/-- The variant name of a bank. -/
def tag : Bank → String
  | byte => "Byte"
  | word => "Word"
  | long => "Long"
  | signedByte => "SignedByte"
  | signedWord => "SignedWord"
  | flag => "Flag"
  | temp => "Temp"

def pack (b : Bank) : Packed :=
  ofText b.tag

def unpack? (p : Packed) : Option Bank := do
  let (i, content) ← p.variant? (all.map tag)
  if isUnit content then all[i]? else none

end Bank

namespace EntityId

def pack (e : EntityId) : Packed :=
  ofFields [("slot", .uint e.slot), ("generation", .uint e.generation)]

def unpack? (level : Nat) (p : Packed) : Option EntityId := do
  match ← p.fields? level ["slot", "generation"] with
  | [some slot, some generation] => some ⟨← slot.nat? word32, ← generation.nat? word32⟩
  | _ => none

end EntityId

namespace Memory

def pack (m : Memory) : Packed :=
  ofFields [("bytes", packBytes m.bytes.toList)]

def unpack? (level : Nat) (p : Packed) : Option Memory := do
  match ← p.fields? level ["bytes"] with
  | [some bytes] => some ⟨(← unpackBytes? bytes).toArray⟩
  | _ => none

end Memory

namespace EntityRecord

def pack (r : EntityRecord) : Packed :=
  ofFields [("name", ofText r.name), ("passable", .bool r.passable)]

def unpack? (level : Nat) (p : Packed) : Option EntityRecord := do
  match ← p.fields? level ["name", "passable"] with
  | [some name, some passable] => some ⟨← name.text?, ← passable.bool?⟩
  | _ => none

end EntityRecord

namespace EntityTable

/-- The records of slots as a packed value. -/
def packRecords (records : Std.ExtTreeMap Nat EntityRecord) : Packed :=
  .map (records.toList.map fun (slot, record) => (.uint slot, record.pack))

/-- The records of slots of a packed value; of a repeated slot the last counts. -/
def unpackRecords? (level : Nat) : Packed → Option (Std.ExtTreeMap Nat EntityRecord)
  | .map entries => do
    let records ← entries.mapM fun (slot, record) => do
      some (← slot.nat? word32, ← EntityRecord.unpack? (level + 1) record)
    some (.ofList records)
  | _ => none

def pack (t : EntityTable) : Packed :=
  ofFields
    [("generations", ofList .uint t.generations.toList),
     ("free_list", ofList .uint t.free.reverse),
     ("records", packRecords t.records)]

def unpack? (level : Nat) (p : Packed) : Option EntityTable := do
  match ← p.fields? level ["generations", "free_list", "records"] with
  | [some generations, some free, some records] =>
    some ⟨(← list? (nat? word32) generations).toArray, (← list? (nat? word32) free).reverse,
      ← unpackRecords? (level + 1) records⟩
  | _ => none

end EntityTable

namespace Field

def pack (f : Field) : Packed :=
  ofFields
    [("memory", f.memory.pack),
     ("flags", ofList (fun flag => .uint flag.toNat) f.flags.toList),
     ("entities", f.entities.pack),
     ("seed", .uint f.seed.toNat),
     ("draws", .uint f.draws.toNat)]

def unpack? (level : Nat) (p : Packed) : Option Field := do
  match ← p.fields? level ["memory", "flags", "entities", "seed", "draws"] with
  | [some memory, some flags, some entities, some seed, some draws] =>
    some ⟨← Memory.unpack? (level + 1) memory, .ofList (← list? uint16? flags),
      ← EntityTable.unpack? (level + 1) entities, ← seed.uint64?, ← draws.uint64?⟩
  | _ => none

end Field

/-! ## Scheduler -/

namespace Cursor

/-- A cursor as a packed value; the innermost call comes last. -/
def pack (c : Cursor) : Packed :=
  ofFields
    [("pc", .uint c.pc),
     ("call_stack", ofList .uint c.calls.reverse),
     ("temps", ofList (fun value => ofInt value.toInt) c.temps.toList)]

/-- Scratch slots from exactly as many values. -/
def tempsOf? (values : List Int32) : Option Temps :=
  if h : values.length = tempSlots then some ⟨values.toArray, by simpa using h⟩ else none

def unpack? (level : Nat) (p : Packed) : Option Cursor := do
  match ← p.fields? level ["pc", "call_stack", "temps"] with
  | [some pc, some calls, some temps] =>
    let values ← (← exactly? tempSlots temps).mapM int32?
    some ⟨← pc.count?, (← list? count? calls).reverse, ← tempsOf? values⟩
  | _ => none

end Cursor

namespace WaitReason

def pack : WaitReason → Packed
  | timer frames => ofVariant "Timer" (ofFields [("frames", ofInt frames.toInt)])
  | dialogue channel message =>
    ofVariant "Dialogue"
      (ofFields [("channel", ofInt channel.toInt), ("message", ofInt message.toInt)])
  | animation entity number =>
    ofVariant "Animation" (ofFields [("entity", entity.pack), ("animation", .uint number.toNat)])

def unpack? (level : Nat) (p : Packed) : Option WaitReason := do
  match ← p.variant? ["Timer", "Dialogue", "Animation"] with
  | (0, some content) =>
    match ← content.fields? level ["frames"] with
    | [some frames] => some (.timer (← frames.int32?))
    | _ => none
  | (1, some content) =>
    match ← content.fields? level ["channel", "message"] with
    | [some channel, some message] => some (.dialogue (← channel.int32?) (← message.int32?))
    | _ => none
  | (2, some content) =>
    match ← content.fields? level ["entity", "animation"] with
    | [some entity, some number] =>
      some (.animation (← EntityId.unpack? (level + 1) entity) (← number.uint16?))
    | _ => none
  | _ => none

end WaitReason

namespace Fault

/-- The variant name of a fault. -/
def tag : Fault → String
  | unresolvedJump _ => "UnresolvedJump"
  | callStackUnderflow => "CallStackUnderflow"
  | callStackOverflow _ => "CallStackOverflow"
  | divisionByZero => "DivisionByZero"
  | addressOutOfRange _ _ => "AddressOutOfRange"
  | invalidBank _ => "InvalidBank"
  | unknownEntity _ => "UnknownEntity"

def tags : List String :=
  ["UnresolvedJump", "CallStackUnderflow", "CallStackOverflow", "DivisionByZero",
   "AddressOutOfRange", "InvalidBank", "UnknownEntity"]

/-- The content of a fault, if it has any. -/
def content? : Fault → Option Packed
  | unresolvedJump target => some (ofFields [("target", ofInt target)])
  | callStackUnderflow | divisionByZero => none
  | callStackOverflow limit => some (ofFields [("limit", .uint limit)])
  | addressOutOfRange bank index =>
    some (ofFields [("bank", bank.pack), ("index", .uint index.toNat)])
  | invalidBank bank => some bank.pack
  | unknownEntity id => some id.pack

def pack (f : Fault) : Packed :=
  match f.content? with
  | some content => ofVariant f.tag content
  | none => ofText f.tag

def unpack? (level : Nat) (p : Packed) : Option Fault := do
  match ← p.variant? tags with
  | (0, some content) =>
    match ← content.fields? level ["target"] with
    | [some target] => some (.unresolvedJump (← target.int? 64))
    | _ => none
  | (1, content) => if isUnit content then some .callStackUnderflow else none
  | (2, some content) =>
    match ← content.fields? level ["limit"] with
    | [some limit] => some (.callStackOverflow (← limit.count?))
    | _ => none
  | (3, content) => if isUnit content then some .divisionByZero else none
  | (4, some content) =>
    match ← content.fields? level ["bank", "index"] with
    | [some bank, some index] =>
      some (.addressOutOfRange (← Bank.unpack? bank) (← index.uint16?))
    | _ => none
  | (5, some content) => (Bank.unpack? content).map .invalidBank
  | (6, some content) => (EntityId.unpack? level content).map .unknownEntity
  | _ => none

end Fault

namespace Status

def pack : Status → Packed
  | running => ofText "Running"
  | suspended reason => ofVariant "Suspended" reason.pack
  | halted => ofText "Halted"
  | faulted fault => ofVariant "Faulted" fault.pack

def unpack? (level : Nat) (p : Packed) : Option Status := do
  match ← p.variant? ["Running", "Suspended", "Halted", "Faulted"] with
  | (0, content) => if isUnit content then some .running else none
  | (1, some content) => (WaitReason.unpack? level content).map .suspended
  | (2, content) => if isUnit content then some .halted else none
  | (3, some content) => (Fault.unpack? level content).map .faulted
  | _ => none

end Status

namespace InstanceSnapshot

def pack (i : InstanceSnapshot) : Packed :=
  ofFields
    [("id", .uint i.id),
     ("script", ofText i.script),
     ("owner", i.owner.pack),
     ("cursor", i.cursor.pack),
     ("state", i.status.pack)]

def unpack? (level : Nat) (p : Packed) : Option InstanceSnapshot := do
  match ← p.fields? level ["id", "script", "owner", "cursor", "state"] with
  | [some id, some script, some owner, some cursor, some status] =>
    some ⟨← id.count?, ← script.text?, ← EntityId.unpack? (level + 1) owner,
      ← Cursor.unpack? (level + 1) cursor, ← Status.unpack? (level + 1) status⟩
  | _ => none

end InstanceSnapshot

namespace SchedulerSnapshot

def pack (s : SchedulerSnapshot) : Packed :=
  ofFields
    [("tick", .uint s.tick.toNat),
     ("next_id", .uint s.nextId),
     ("instances", ofList InstanceSnapshot.pack s.instances)]

def unpack? (level : Nat) (p : Packed) : Option SchedulerSnapshot := do
  match ← p.fields? level ["tick", "next_id", "instances"] with
  | [some tick, some nextId, some instances] =>
    some ⟨← tick.uint64?, ← nextId.count?,
      ← list? (InstanceSnapshot.unpack? (level + 2)) instances⟩
  | _ => none

end SchedulerSnapshot

/-! ## Session -/

namespace SessionSnapshot

def pack (s : SessionSnapshot) : Packed :=
  ofFields
    [("field", s.field.pack),
     ("scheduler", s.scheduler.pack),
     ("scripts", ofList (fun (name, source) => .array [ofText name, packBytes source]) s.scripts),
     ("detached", ofList (fun (id, source) => .array [.uint id, packBytes source]) s.detached),
     ("timers", ofList (fun (id, tick) => .array [.uint id, .uint tick.toNat]) s.timers)]

/-- The snapshot of a packed value. Only the scripts of detached instances may be missing. -/
def unpack? (level : Nat) (p : Packed) : Option SessionSnapshot := do
  match ← p.fields? level ["field", "scheduler", "scripts", "detached", "timers"] with
  | [some field, some scheduler, some scripts, detached, some timers] =>
    some ⟨← Field.unpack? (level + 1) field, ← SchedulerSnapshot.unpack? (level + 1) scheduler,
      ← list? (pair? text? unpackBytes?) scripts,
      ← list? (pair? count? unpackBytes?) (detached.getD (.array [])),
      ← list? (pair? count? uint64?) timers⟩
  | _ => none

def toBytes (s : SessionSnapshot) : List UInt8 :=
  s.pack.write

/-- The snapshot at the start of some bytes. -/
def ofBytes? (bytes : List UInt8) : Option SessionSnapshot :=
  (Packed.ofBytes? bytes).bind (unpack? 0)

end SessionSnapshot

end FieldEngine
