import FieldEngine.Field.LittleEndian

/-!
# Script words

A script is a sequence of 32-bit words, stored little-endian. The high half of a word is its
opcode, the low half a signed parameter. Main statement: a word is determined by its two halves.
-/

namespace FieldEngine

/-! ## Algorithm -/

structure Word where
  opcode : UInt16
  parameter : Int16
deriving DecidableEq

namespace Word

def ofBits (w : UInt32) : Word :=
  ⟨(w >>> 16).toUInt16, w.toUInt16.toInt16⟩

def bits (w : Word) : UInt32 :=
  (w.opcode.toUInt32 <<< 16) ||| w.parameter.toUInt16.toUInt32

/-- The bytes of 32-bit words, in order. -/
def toBytes (words : List UInt32) : List UInt8 :=
  words.flatMap fun w => LittleEndian.encode 4 w.toNat

/-- The whole words at the start of a byte stream, and how many bytes are left over. -/
def ofBytes : List UInt8 → List UInt32 × Nat
  | a :: b :: c :: d :: rest =>
    let (words, spare) := ofBytes rest
    (UInt32.ofNat (LittleEndian.decode [a, b, c, d]) :: words, spare)
  | rest => ([], rest.length)

/-! ## Lemmas -/

theorem ofBits_bits (w : Word) : ofBits w.bits = w := by
  obtain ⟨⟨o⟩, ⟨⟨p⟩⟩⟩ := w
  simp only [ofBits, bits, Word.mk.injEq]
  constructor
  · apply UInt16.toBitVec_inj.1
    ext i hi
    have h : i + 16 - 16 = i := by omega
    simp [BitVec.getLsbD_eq_getElem hi, Nat.add_comm 16 i, h, show i + 16 < 32 by omega]
  · apply Int16.toBitVec_inj.1
    ext i hi
    simp
    rfl

end Word

end FieldEngine
