/-!
# Variable banks

A script names a variable by a bank and an index. Five banks are typed views of one byte memory
(unsigned and signed bytes and words, signed longs, all little-endian at a byte address), one
holds flags, and one the scratch slots of the running instance.
-/

namespace FieldEngine

inductive Bank
  | byte
  | word
  | long
  | signedByte
  | signedWord
  | flag
  | temp
deriving DecidableEq

def tempSlots : Nat := 8

namespace Bank

/-- Width in bytes of a memory bank; flags and scratch slots have none. -/
def width : Bank → Option Nat
  | byte | signedByte => some 1
  | word | signedWord => some 2
  | long => some 4
  | flag | temp => none

/-- Values read from the bank are sign-extended. -/
def isSigned : Bank → Bool
  | signedByte | signedWord | long => true
  | byte | word | flag | temp => false

/-- The name of a bank in listings, messages and commands. -/
def name : Bank → String
  | byte => "byte"
  | word => "word"
  | long => "long"
  | signedByte => "sbyte"
  | signedWord => "sword"
  | flag => "flag"
  | temp => "temp"

def all : List Bank :=
  [byte, word, long, signedByte, signedWord, flag, temp]

def ofName? (s : String) : Option Bank :=
  all.find? fun b => b.name == s

theorem ofName?_name (b : Bank) : ofName? b.name = some b := by
  cases b <;> decide

end Bank

/-- A variable: a bank and a byte address, flag number or slot in it. -/
structure Variable where
  bank : Bank
  index : UInt16
deriving DecidableEq

namespace Variable

/-- A variable as listings show it, `word[32]`. -/
def text (v : Variable) : String :=
  s!"{v.bank.name}[{v.index}]"

end Variable

end FieldEngine
