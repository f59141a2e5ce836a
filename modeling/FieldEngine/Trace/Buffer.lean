import Std.Data.ExtTreeMap
import FieldEngine.Trace.Event

/-!
# Trace buffer

The most recent records, up to a capacity; the oldest are dropped first. Records are numbered
over the whole life of the buffer, also while nothing is kept.
-/

namespace FieldEngine

structure TraceBuffer where
  capacity : Nat
  records : Array TraceRecord
  /-- The number of the next record. -/
  nextId : Nat
deriving DecidableEq

/-- A summary of a buffer. -/
structure TraceStats where
  records : Nat
  capacity : Nat
  oldest : Option Nat
  newest : Option Nat
  ticks : Nat
  /-- Number of records of each kind that occurs. -/
  counts : Std.ExtTreeMap String Nat
deriving DecidableEq

namespace TraceBuffer

/-- Capacity unless another is asked for. -/
def defaultCapacity : Nat := 10000

def empty (capacity : Nat) : TraceBuffer :=
  ⟨capacity, #[], 0⟩

def size (b : TraceBuffer) : Nat :=
  b.records.size

/-- The most recent records, oldest first. -/
def recent (b : TraceBuffer) (count : Nat) : List TraceRecord :=
  (b.records.extract (b.size - count) b.size).toList

/-- Append an event; the answer is the number of its record. -/
def push (b : TraceBuffer) (tick timestamp : Nat) (event : TraceEvent) : Nat × TraceBuffer :=
  let kept :=
    if b.size < b.capacity then b.records else b.records.extract (b.size + 1 - b.capacity) b.size
  let records := if b.capacity = 0 then #[] else kept.push ⟨b.nextId, tick, timestamp, event⟩
  (b.nextId, { b with records, nextId := b.nextId + 1 })

/-- Drop every record; the numbering goes on. -/
def clear (b : TraceBuffer) : TraceBuffer :=
  { b with records := #[] }

def toList (b : TraceBuffer) : List TraceRecord :=
  b.records.toList

def last? (b : TraceBuffer) : Option TraceRecord :=
  b.records.back?

def filter (b : TraceBuffer) (p : TraceRecord → Bool) : List TraceRecord :=
  b.toList.filter p

def ofTick (b : TraceBuffer) (tick : Nat) : List TraceRecord :=
  b.filter fun r => r.tick == tick

/-- The records of the ticks from `first` to `last`. -/
def ofTicks (b : TraceBuffer) (first last : Nat) : List TraceRecord :=
  b.filter fun r => first ≤ r.tick && r.tick ≤ last

def ofKind (b : TraceBuffer) (kind : String) : List TraceRecord :=
  b.filter fun r => r.kind == kind

def oldestTick? (b : TraceBuffer) : Option Nat :=
  b.records[0]?.map TraceRecord.tick

def newestTick? (b : TraceBuffer) : Option Nat :=
  b.last?.map TraceRecord.tick

/-- A list without the repetitions that directly follow each other. -/
def dropRepeats : List Nat → List Nat
  | [] => []
  | [a] => [a]
  | a :: b :: rest => if a = b then dropRepeats (b :: rest) else a :: dropRepeats (b :: rest)

/-- The ticks of the records, each run of records of one tick once. -/
def ticks (b : TraceBuffer) : List Nat :=
  dropRepeats (b.toList.map TraceRecord.tick)

def stats (b : TraceBuffer) : TraceStats where
  records := b.size
  capacity := b.capacity
  oldest := b.oldestTick?
  newest := b.newestTick?
  ticks := b.ticks.length
  counts := b.toList.foldl (fun counts r => counts.insert r.kind (counts.getD r.kind 0 + 1)) ∅

end TraceBuffer

end FieldEngine
