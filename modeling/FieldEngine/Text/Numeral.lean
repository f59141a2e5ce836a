/-!
# Integers on a command line

A numeral is decimal, or hexadecimal after `0x`. A plus sign may stand before the digits; a
minus sign only where the integer type has negative values. Hexadecimal numerals are first read
as 64-bit signed integers, with either sign after the `0x`, and must then fit the type asked for.
-/

namespace FieldEngine.Text

/-- A range of integers: signed or not, in two's complement of so many bits. -/
structure IntType where
  signed : Bool
  bits : Nat
deriving DecidableEq

namespace IntType

def u16 : IntType := ⟨false, 16⟩

def u32 : IntType := ⟨false, 32⟩

def u64 : IntType := ⟨false, 64⟩

def i32 : IntType := ⟨true, 32⟩

def i64 : IntType := ⟨true, 64⟩

def holds (t : IntType) (n : Int) : Bool :=
  let count : Int := Nat.pow 2 t.bits
  if t.signed then -count ≤ 2 * n && 2 * n < count else 0 ≤ n && n < count

end IntType

/-- The value of a digit, letters of either case standing for ten and above. -/
def digit? (radix : Nat) (c : Char) : Option Nat :=
  let value :=
    if c.isDigit then some (c.toNat - '0'.toNat)
    else if 'a' ≤ c && c ≤ 'z' then some (c.toNat - 'a'.toNat + 10)
    else if 'A' ≤ c && c ≤ 'Z' then some (c.toNat - 'A'.toNat + 10)
    else none
  value.filter (· < radix)

/-- One or more digits, most significant first. -/
def digits? (radix : Nat) (cs : List Char) : Option Nat :=
  if cs.isEmpty then none
  else cs.foldlM (fun n c => (digit? radix c).map (n * radix + ·)) 0

/-- Digits with an optional sign; a minus only where `signed` allows it. -/
def signedDigits? (signed : Bool) (radix : Nat) : List Char → Option Int
  | '+' :: cs => (digits? radix cs).map Int.ofNat
  | '-' :: cs => if signed then (digits? radix cs).map fun n => -(n : Int) else none
  | cs => (digits? radix cs).map Int.ofNat

/-- A numeral in the given radix that is a value of the type. -/
def radixInt? (t : IntType) (radix : Nat) (cs : List Char) : Option Int :=
  (signedDigits? t.signed radix cs).filter t.holds

/-- A decimal numeral that is a value of the type. -/
def decimal? (t : IntType) (s : String) : Option Int :=
  radixInt? t 10 s.toList

/-- A decimal or `0x` hexadecimal numeral that is a value of the type. What is written in
hexadecimal is printed in decimal and read again. -/
def numeral? (t : IntType) (s : String) : Option Int :=
  match s.toList with
  | '0' :: 'x' :: cs => (radixInt? .i64 16 cs).bind fun value => decimal? t (toString value)
  | cs => radixInt? t 10 cs

end FieldEngine.Text
