import FieldEngine.Packed.Header

/-!
# Packed values

The tree of values between a record and its bytes. Numbers keep whether they were written with a
sign, because only a number without one can stand for a field or variant name. Texts are kept as
bytes, since a text that is passed over need not be valid.

Containers nest to a limited depth, counted from the outermost record. A map around the content of
a variant is not counted, and only what is passed over can go deep, so the depth is checked where a
value is passed over; reading itself stops at twice the limit.
-/

namespace FieldEngine

inductive Packed
  | nil
  | bool (b : Bool)
  | uint (n : Nat)
  | int (i : Int)
  | float
  | str (bytes : List UInt8)
  | bin (bytes : List UInt8)
  | ext
  | array (items : List Packed)
  | map (entries : List (Packed × Packed))

namespace Packed

/-! ## Writing -/

mutual

/-- The bytes of a value; floating-point numbers and application types are never written. -/
def write : Packed → List UInt8
  | nil => Header.nil.write
  | bool b => (Header.bool b).write
  | uint n => (Header.uint n).write
  | int i => (Header.int i).write
  | str bytes => (Header.str bytes.length).write ++ bytes
  | bin bytes => (Header.bin bytes.length).write ++ bytes
  | array items => (Header.array items.length).write ++ writeItems items
  | map entries => (Header.map entries.length).write ++ writeEntries entries
  | float | ext => []

def writeItems : List Packed → List UInt8
  | [] => []
  | item :: items => write item ++ writeItems items

def writeEntries : List (Packed × Packed) → List UInt8
  | [] => []
  | (key, value) :: entries => write key ++ write value ++ writeEntries entries

end

/-! ## Depth -/

/-- Containers may nest less deep than this. -/
def maxDepth : Nat := 1024

mutual

/-- How deep containers nest in a value. An application type counts as a container. -/
def depth : Packed → Nat
  | array items => depthOfItems items + 1
  | map entries => depthOfEntries entries + 1
  | ext => 1
  | nil | bool _ | uint _ | int _ | float | str _ | bin _ => 0

/-- The greatest depth of some values. -/
def depthOfItems : List Packed → Nat
  | [] => 0
  | item :: items => max item.depth (depthOfItems items)

/-- The greatest depth of the values in some pairs. -/
def depthOfEntries : List (Packed × Packed) → Nat
  | [] => 0
  | (key, value) :: entries => max (max key.depth value.depth) (depthOfEntries entries)

end

/-! ## Reading -/

/-- Read `n` times, one after the other. -/
def repeatRead {α : Type} (read : List UInt8 → Option (α × List UInt8)) :
    (n : Nat) → List UInt8 → Option (List α × List UInt8)
  | 0, bytes => some ([], bytes)
  | n + 1, bytes => do
    let (a, bytes) ← read bytes
    let (as, bytes) ← repeatRead read n bytes
    some (a :: as, bytes)

/-- Read two values, one after the other. -/
def readPair {α : Type} (read : List UInt8 → Option (α × List UInt8)) (bytes : List UInt8) :
    Option ((α × α) × List UInt8) := do
  let (a, bytes) ← read bytes
  let (b, bytes) ← read bytes
  some ((a, b), bytes)

/-- The value at the start of some bytes, and the bytes after it. -/
def read : (depth : Nat) → List UInt8 → Option (Packed × List UInt8)
  | 0, _ => none
  | depth + 1, bytes => do
    let (header, bytes) ← readHeader bytes
    match header with
    | .nil => some (.nil, bytes)
    | .bool b => some (.bool b, bytes)
    | .uint n => some (.uint n, bytes)
    | .int i => some (.int i, bytes)
    | .float width => (take? width bytes).map fun (_, rest) => (.float, rest)
    | .str n => (take? n bytes).map fun (taken, rest) => (.str taken, rest)
    | .bin n => (take? n bytes).map fun (taken, rest) => (.bin taken, rest)
    | .ext n => (take? (n + 1) bytes).map fun (_, rest) => (.ext, rest)
    | .array n =>
      if depth = 0 then none
      else (repeatRead (read depth) n bytes).map fun (items, rest) => (.array items, rest)
    | .map n =>
      if depth = 0 then none
      else (repeatRead (readPair (read depth)) n bytes).map fun (entries, rest) =>
        (.map entries, rest)

/-- The value at the start of some bytes; whatever follows it is passed over. -/
def ofBytes? (bytes : List UInt8) : Option Packed :=
  (read (2 * maxDepth) bytes).map Prod.fst

end Packed

end FieldEngine
