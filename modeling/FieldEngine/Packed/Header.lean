import FieldEngine.Field.LittleEndian

/-!
# Headers of packed values

A packed value starts with a header: a marker byte that tells its type, and for most types a
number of one to eight bytes, most significant first. Small numbers and lengths are part of the
marker. Values are written with the shortest header, and read with any.
-/

namespace FieldEngine.Packed

/-- What a header tells: the value itself, or the type and the length of what follows. -/
inductive Header
  | nil
  | bool (b : Bool)
  /-- A number written without a sign. -/
  | uint (n : Nat)
  /-- A number written with a sign. -/
  | int (i : Int)
  /-- A floating-point number of so many bytes. -/
  | float (width : Nat)
  /-- A text of so many bytes. -/
  | str (length : Nat)
  /-- So many raw bytes. -/
  | bin (length : Nat)
  /-- An application type with so many bytes. -/
  | ext (length : Nat)
  /-- So many values. -/
  | array (length : Nat)
  /-- So many pairs of values. -/
  | map (length : Nat)
deriving DecidableEq

/-! ## Writing -/

/-- A number in `width` bytes, most significant first. -/
def bigEndian (width n : Nat) : List UInt8 :=
  (LittleEndian.encode width n).reverse

/-- A marker and a number of `width` bytes. -/
def marked (marker : UInt8) (width n : Nat) : List UInt8 :=
  marker :: bigEndian width n

namespace Header

/-- The shortest form of a header. -/
def write : Header → List UInt8
  | nil => [0xC0]
  | bool false => [0xC2]
  | bool true => [0xC3]
  | uint n =>
    if n < 0x80 then [UInt8.ofNat n]
    else if n < 0x100 then marked 0xCC 1 n
    else if n < 0x10000 then marked 0xCD 2 n
    else if n < 0x100000000 then marked 0xCE 4 n
    else marked 0xCF 8 n
  | int i =>
    if -32 ≤ i then [UInt8.ofInt i]
    else if -0x80 ≤ i then marked 0xD0 1 (i % 0x100).toNat
    else if -0x8000 ≤ i then marked 0xD1 2 (i % 0x10000).toNat
    else if -0x80000000 ≤ i then marked 0xD2 4 (i % 0x100000000).toNat
    else marked 0xD3 8 (i % 0x10000000000000000).toNat
  | float width => [if width = 4 then 0xCA else 0xCB]
  | str n =>
    if n < 32 then [UInt8.ofNat (0xA0 + n)]
    else if n < 0x100 then marked 0xD9 1 n
    else if n < 0x10000 then marked 0xDA 2 n
    else marked 0xDB 4 n
  | bin n =>
    if n < 0x100 then marked 0xC4 1 n
    else if n < 0x10000 then marked 0xC5 2 n
    else marked 0xC6 4 n
  | ext n =>
    if n < 0x100 then marked 0xC7 1 n
    else if n < 0x10000 then marked 0xC8 2 n
    else marked 0xC9 4 n
  | array n =>
    if n < 16 then [UInt8.ofNat (0x90 + n)]
    else if n < 0x10000 then marked 0xDC 2 n
    else marked 0xDD 4 n
  | map n =>
    if n < 16 then [UInt8.ofNat (0x80 + n)]
    else if n < 0x10000 then marked 0xDE 2 n
    else marked 0xDF 4 n

end Header

/-! ## Reading -/

/-- The first `n` bytes, and the rest. -/
def take? : (n : Nat) → List UInt8 → Option (List UInt8 × List UInt8)
  | 0, bytes => some ([], bytes)
  | _ + 1, [] => none
  | n + 1, b :: bytes => (take? n bytes).map fun (taken, rest) => (b :: taken, rest)

/-- A header with a number of `width` bytes. -/
def readNumber (width : Nat) (header : Nat → Header) (bytes : List UInt8) :
    Option (Header × List UInt8) :=
  (take? width bytes).map fun (taken, rest) => (header (LittleEndian.decode taken.reverse), rest)

/-- A number of `width` bytes in two's complement. -/
def signed (width n : Nat) : Header :=
  .int (Int.bmod n (LittleEndian.capacity width))

/-- The header for a marker byte, and the bytes after the header. -/
def readMarked (marker : Nat) (bytes : List UInt8) : Option (Header × List UInt8) :=
  if marker < 0x80 then some (.uint marker, bytes)
  else if marker < 0x90 then some (.map (marker - 0x80), bytes)
  else if marker < 0xA0 then some (.array (marker - 0x90), bytes)
  else if marker < 0xC0 then some (.str (marker - 0xA0), bytes)
  else if 0xE0 ≤ marker then some (.int ((marker : Int) - 256), bytes)
  else
    match marker with
    | 0xC0 => some (.nil, bytes)
    | 0xC2 => some (.bool false, bytes)
    | 0xC3 => some (.bool true, bytes)
    | 0xC4 => readNumber 1 .bin bytes
    | 0xC5 => readNumber 2 .bin bytes
    | 0xC6 => readNumber 4 .bin bytes
    | 0xC7 => readNumber 1 .ext bytes
    | 0xC8 => readNumber 2 .ext bytes
    | 0xC9 => readNumber 4 .ext bytes
    | 0xCA => some (.float 4, bytes)
    | 0xCB => some (.float 8, bytes)
    | 0xCC => readNumber 1 .uint bytes
    | 0xCD => readNumber 2 .uint bytes
    | 0xCE => readNumber 4 .uint bytes
    | 0xCF => readNumber 8 .uint bytes
    | 0xD0 => readNumber 1 (signed 1) bytes
    | 0xD1 => readNumber 2 (signed 2) bytes
    | 0xD2 => readNumber 4 (signed 4) bytes
    | 0xD3 => readNumber 8 (signed 8) bytes
    | 0xD4 => some (.ext 1, bytes)
    | 0xD5 => some (.ext 2, bytes)
    | 0xD6 => some (.ext 4, bytes)
    | 0xD7 => some (.ext 8, bytes)
    | 0xD8 => some (.ext 16, bytes)
    | 0xD9 => readNumber 1 .str bytes
    | 0xDA => readNumber 2 .str bytes
    | 0xDB => readNumber 4 .str bytes
    | 0xDC => readNumber 2 .array bytes
    | 0xDD => readNumber 4 .array bytes
    | 0xDE => readNumber 2 .map bytes
    | 0xDF => readNumber 4 .map bytes
    | _ => none

/-- The header at the start of some bytes, and the bytes after it. -/
def readHeader : List UInt8 → Option (Header × List UInt8)
  | [] => none
  | marker :: bytes => readMarked marker.toNat bytes

end FieldEngine.Packed
