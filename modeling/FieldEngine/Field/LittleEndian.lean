/-!
# Little-endian bytes

Numbers in memory and in scripts are stored with the least significant byte first. Main
statement: reading back `width` bytes of `n` gives `n` modulo the number of values that `width`
bytes have.
-/

namespace FieldEngine.LittleEndian

/-! ## Algorithm -/

/-- The lowest `width` bytes of `n`, least significant first. -/
def encode : (width : Nat) → (n : Nat) → List UInt8
  | 0, _ => []
  | width + 1, n => UInt8.ofNat n :: encode width (n / 256)

/-- The number whose bytes are given, least significant first. -/
def decode : List UInt8 → Nat
  | [] => 0
  | b :: bs => b.toNat + 256 * decode bs

/-- Number of values that `width` bytes have. -/
def capacity : (width : Nat) → Nat
  | 0 => 1
  | width + 1 => 256 * capacity width

/-! ## Lemmas -/

@[simp] theorem length_encode (width n : Nat) : (encode width n).length = width := by
  induction width generalizing n with
  | zero => rfl
  | succ width ih => simp [encode, ih]

theorem decode_encode (width n : Nat) : decode (encode width n) = n % capacity width := by
  induction width generalizing n with
  | zero => simp [encode, decode, capacity, Nat.mod_one]
  | succ width ih =>
    have hb : (UInt8.ofNat n).toNat = n % 256 := by simp
    rw [encode, decode, capacity, ih, hb, Nat.mod_mul]

end FieldEngine.LittleEndian
