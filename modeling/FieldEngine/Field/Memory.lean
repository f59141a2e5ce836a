import FieldEngine.Field.Fault
import FieldEngine.Field.LittleEndian

/-!
# Byte memory

One block of bytes, read and written through the typed memory banks: the word at address 4
overlaps the bytes at 4 and 5. A write keeps only as many low bytes of the value as the bank is
wide.
-/

namespace FieldEngine

structure Memory where
  bytes : Array UInt8
deriving DecidableEq

namespace Memory

/-- Size of the memory unless another is asked for. -/
def defaultSize : Nat := 4096

def zeroed (size : Nat) : Memory :=
  ⟨Array.replicate size 0⟩

def size (m : Memory) : Nat :=
  m.bytes.size

/-- The width of an access, if the bank is in memory and the bytes are there. -/
def span (m : Memory) (bank : Bank) (index : UInt16) : Except Fault Nat :=
  match bank.width with
  | none => .error (.invalidBank bank)
  | some width =>
    if index.toNat + width ≤ m.size then .ok width
    else .error (.addressOutOfRange bank index)

/-- The bytes of a range, as far as the memory reaches. -/
def dump (m : Memory) (start len : Nat) : List UInt8 :=
  (m.bytes.extract start (start + len)).toList

/-- The value of `width` bytes with the number `n`, seen through a bank. -/
def interpret (bank : Bank) (width n : Nat) : Int32 :=
  if bank.isSigned then Int32.ofInt (Int.bmod n (LittleEndian.capacity width)) else Int32.ofNat n

def read (m : Memory) (bank : Bank) (index : UInt16) : Except Fault Int32 :=
  (m.span bank index).map fun width =>
    interpret bank width (LittleEndian.decode (m.dump index.toNat width))

/-- Bytes put in place from an address on. -/
def overwrite (bytes : Array UInt8) (start : Nat) : List UInt8 → Array UInt8
  | [] => bytes
  | b :: bs => overwrite (bytes.setIfInBounds start b) (start + 1) bs

def write (m : Memory) (bank : Bank) (index : UInt16) (value : Int32) :
    Except Fault Unit × Memory :=
  match m.span bank index with
  | .error fault => (.error fault, m)
  | .ok width =>
    (.ok (), ⟨overwrite m.bytes index.toNat (LittleEndian.encode width value.toUInt32.toNat)⟩)

end Memory

end FieldEngine
