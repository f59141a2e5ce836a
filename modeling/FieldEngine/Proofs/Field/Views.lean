import Mathlib.Data.Int.ModEq
import Mathlib.Tactic.IntervalCases
import Mathlib.Tactic.LinearCombination
import Mathlib.Tactic.Ring
import FieldEngine.Proofs.Machine.Effects

/-!
# Views of memory

All that a memory holds is its size and one byte at each address (`Memory.image`). An access
through a bank is denied for the same reasons whether it reads or writes (`Memory.Denies`). What it
comes to otherwise is told from bytes alone, whatever other views overlap it: a write puts the low
bytes of the value in place (`Memory.Stored`), a read finds the number of its bytes, seen with the
sign that the bank has (`Memory.Seen`).

    m.write bank index value = (r, m') ↔ m.Stored bank index value r m'          (write_eq_iff)
    m.read bank index = r ↔ Seen m.size m.image bank index r                      (read_eq_iff)
    (m.after stores).image k = m.imageAfter stores k                              (image_after)

Main statement: `views_consistent`.
-/

namespace FieldEngine

/-! ## Bytes of numbers -/

namespace LittleEndian

/-- Byte `j` of a number in two's complement, the lowest first. -/
def byteOf (n : Int) (j : Nat) : UInt8 :=
  UInt8.ofNat (n / 256 ^ j % 256).toNat

/-- The number of the `width` bytes from an address on: byte `j` counts `256 ^ j`. -/
def number (image : Nat → UInt8) (start : Nat) : (width : Nat) → Nat
  | 0 => 0
  | width + 1 => number image start width + (image (start + width)).toNat * 256 ^ width

theorem toNat_byteOf (n : Int) (j : Nat) : ((byteOf n j).toNat : Int) = n / 256 ^ j % 256 := by
  have hlow := Int.emod_nonneg (n / 256 ^ j) (by decide : (256 : Int) ≠ 0)
  have hhigh := Int.emod_lt_of_pos (n / 256 ^ j) (by decide : (0 : Int) < 256)
  have hlt : (n / 256 ^ j % 256).toNat < UInt8.size := (Int.toNat_lt hlow).2 hhigh
  rw [byteOf, UInt8.toNat_ofNat_of_lt' hlt, Int.toNat_of_nonneg hlow]

theorem capacity_eq (width : Nat) : capacity width = 256 ^ width := by
  induction width with
  | zero => rfl
  | succ width ih => rw [capacity, ih, Nat.pow_succ, Nat.mul_comm]

theorem number_lt (image : Nat → UInt8) (start width : Nat) :
    number image start width < 256 ^ width := by
  induction width with
  | zero => exact Nat.one_pos
  | succ width ih =>
    have hbyte : (image (start + width)).toNat ≤ 255 :=
      Nat.le_of_lt_succ (image (start + width)).toNat_lt
    have hmul := Nat.mul_le_mul_right (256 ^ width) hbyte
    rw [number, Nat.pow_succ]
    omega

/-- Bytes put in place of a number have that number, as far as they reach. -/
theorem number_byteOf {image : Nat → UInt8} {start width : Nat} {n : Int}
    (h : ∀ k, start ≤ k → k < start + width → image k = byteOf n (k - start)) :
    (number image start width : Int) ≡ n [ZMOD 256 ^ width] := by
  induction width with
  | zero => exact Int.modEq_one
  | succ width ih =>
    have hlast : image (start + width) = byteOf n width := by
      have hk := h (start + width) (Nat.le_add_right _ _) (by omega)
      rwa [Nat.add_sub_cancel_left] at hk
    have hrest : (number image start width : Int) % 256 ^ width = n % 256 ^ width :=
      ih fun k hstart hend => h k hstart (by omega)
    -- below the last byte both have the same remainder, and the last byte is that of the quotient
    have hlt : (number image start width : Int) < 256 ^ width := by
      exact_mod_cast number_lt image start width
    rw [Int.emod_eq_of_lt (Int.natCast_nonneg _) hlt] at hrest
    have hsplit := Int.mul_ediv_add_emod n (256 ^ width)
    have hquot := Int.mul_ediv_add_emod (n / 256 ^ width) 256
    rw [Int.modEq_iff_dvd]
    refine ⟨n / 256 ^ width / 256, ?_⟩
    rw [number, hlast, Nat.cast_add, Nat.cast_mul, toNat_byteOf, hrest, Int.pow_succ]
    push_cast
    linear_combination (-1 : Int) * hsplit - (256 ^ width : Int) * hquot

theorem decode_concat (bytes : List UInt8) (b : UInt8) :
    decode (bytes ++ [b]) = decode bytes + b.toNat * 256 ^ bytes.length := by
  induction bytes with
  | nil => simp [decode]
  | cons a bytes ih =>
    rw [List.cons_append, decode, decode, ih, List.length_cons, Nat.pow_succ]
    ring

theorem getElem?_encode {width j : Nat} (n : Nat) (h : j < width) :
    (encode width n)[j]? = some (UInt8.ofNat (n / 256 ^ j)) := by
  induction width generalizing n j with
  | zero => omega
  | succ width ih =>
    rw [encode]
    cases j with
    | zero => simp
    | succ j =>
      rw [List.getElem?_cons_succ, ih _ (Nat.lt_of_succ_lt_succ h), Nat.div_div_eq_div_mul,
        Nat.pow_succ, Nat.mul_comm]

/-- The lowest four bytes of a word are those of the integer it stands for. -/
theorem ofNat_toUInt32 (value : Int32) {j : Nat} (h : j < 4) :
    UInt8.ofNat (value.toUInt32.toNat / 256 ^ j) = byteOf value.toInt j := by
  have hword : (value.toUInt32.toNat : Int) = value.toInt % 2 ^ 32 := by
    show (value.toBitVec.toNat : Int) = value.toBitVec.toInt % 2 ^ 32
    have hlt := value.toBitVec.isLt
    rw [BitVec.toInt_eq_toNat_cond]
    split <;> omega
  apply UInt8.toNat_inj.1
  apply Int.natCast_inj.1
  rw [toNat_byteOf, UInt8.toNat_ofNat']
  interval_cases j <;> omega

end LittleEndian

/-! ## Banks -/

namespace Bank

/-- The banks that are views of memory, with their width in bytes and whether they have a sign. -/
inductive InMemory : Bank → (width : Nat) → (signed : Bool) → Prop
  | byte : InMemory .byte 1 false
  | signedByte : InMemory .signedByte 1 true
  | word : InMemory .word 2 false
  | signedWord : InMemory .signedWord 2 true
  | long : InMemory .long 4 true

/-- The value of a number of so many bytes; with a sign, the upper half of numbers is negative. -/
def valueOf (signed : Bool) (width n : Nat) : Int :=
  if signed = true ∧ 2 ^ (8 * width - 1) ≤ n then n - 2 ^ (8 * width) else n

/-- The values that so many bytes have, with a sign or without. -/
def InRange (signed : Bool) (width : Nat) (x : Int) : Prop :=
  if signed = true then -2 ^ (8 * width - 1) ≤ x ∧ x < 2 ^ (8 * width - 1)
  else 0 ≤ x ∧ x < 2 ^ (8 * width)

theorem width_eq_none_iff {bank : Bank} : bank.width = none ↔ bank = .flag ∨ bank = .temp := by
  cases bank <;> decide

theorem inMemory_of_width {bank : Bank} {width : Nat} (h : bank.width = some width) :
    bank.InMemory width bank.isSigned := by
  cases bank <;> cases h <;> constructor

namespace InMemory

variable {bank : Bank} {width : Nat} {signed : Bool}

theorem width_eq (h : bank.InMemory width signed) : bank.width = some width := by
  cases h <;> rfl

theorem isSigned_eq (h : bank.InMemory width signed) : bank.isSigned = signed := by
  cases h <;> rfl

theorem width_le (h : bank.InMemory width signed) : width ≤ 4 := by
  cases h <;> decide

theorem inRange_valueOf (h : bank.InMemory width signed) {n : Nat} (hn : n < 256 ^ width) :
    InRange signed width (valueOf signed width n) := by
  unfold InRange valueOf
  cases h <;> simp <;> omega

/-- No bank has values that do not fit a word. -/
theorem le_of_inRange (h : bank.InMemory width signed) {x : Int} (hx : InRange signed width x) :
    -2 ^ 31 ≤ x ∧ x < 2 ^ 31 := by
  unfold InRange at hx
  cases h <;> simp at hx <;> omega

theorem interpret_eq (h : bank.InMemory width signed) {n : Nat} (hn : n < 256 ^ width) :
    Memory.interpret bank width n = Int32.ofInt (valueOf signed width n) := by
  unfold Memory.interpret
  rw [h.isSigned_eq, LittleEndian.capacity_eq]
  cases h with
  | byte | word => exact Int32.ofInt_eq_ofNat.symm
  | signedByte | signedWord | long =>
    rw [if_pos rfl]
    refine congrArg Int32.ofInt ?_
    simp only [valueOf, Int.bmod_def, true_and]
    split <;> split <;> omega

/-- A bank sees a number of its width as the value that the number has. -/
theorem toInt_interpret (h : bank.InMemory width signed) {n : Nat} (hn : n < 256 ^ width) :
    (Memory.interpret bank width n).toInt = valueOf signed width n := by
  obtain ⟨hlow, hhigh⟩ := h.le_of_inRange (h.inRange_valueOf hn)
  rw [h.interpret_eq hn, Int32.toInt_ofInt_of_le hlow hhigh]

end InMemory

/-- Whatever its sign, a value is its number modulo the count of numbers. -/
theorem valueOf_modEq (signed : Bool) (width n : Nat) :
    valueOf signed width n ≡ n [ZMOD 2 ^ (8 * width)] := by
  unfold valueOf
  split
  · exact Int.sub_modulus_modEq_iff.2 rfl
  · rfl

end Bank

/-! ## Accesses -/

namespace Memory

/-- The byte at an address; past the end there are only zeros. -/
def image (m : Memory) (k : Nat) : UInt8 :=
  m.bytes[k]?.getD 0

/-- The fault with which a memory of some size denies an access: the bank is no view of memory, or
the bytes reach past the end. -/
inductive Denies (size : Nat) (bank : Bank) (index : UInt16) : Fault → Prop
  | bank (h : bank = .flag ∨ bank = .temp) : Denies size bank index (.invalidBank bank)
  | range {width : Nat} {signed : Bool} (h : bank.InMemory width signed)
      (hend : size < index.toNat + width) : Denies size bank index (.addressOutOfRange bank index)

/-- What a write comes to, and what it makes of the memory: a denied one nothing else than it was;
otherwise the low bytes of the value are in place, and all other bytes and the size are as they
were. -/
inductive Stored (m : Memory) (bank : Bank) (index : UInt16) (value : Int32) :
    Except Fault Unit → Memory → Prop
  | denied {f : Fault} (h : Denies m.size bank index f) : Stored m bank index value (.error f) m
  | done {width : Nat} {signed : Bool} {m' : Memory} (h : bank.InMemory width signed)
      (hend : index.toNat + width ≤ m.size) (hsize : m'.size = m.size)
      (himage : ∀ k, m'.image k = if index.toNat ≤ k ∧ k < index.toNat + width then
        LittleEndian.byteOf value.toInt (k - index.toNat) else m.image k) :
      Stored m bank index value (.ok ()) m'

/-- What a read finds in bytes: the value of their number. -/
inductive Seen (size : Nat) (image : Nat → UInt8) (bank : Bank) (index : UInt16) :
    Except Fault Int32 → Prop
  | denied {f : Fault} (h : Denies size bank index f) : Seen size image bank index (.error f)
  | value {width : Nat} {signed : Bool} {x : Int32} (h : bank.InMemory width signed)
      (hend : index.toNat + width ≤ size)
      (hx : x.toInt = Bank.valueOf signed width (LittleEndian.number image index.toNat width)) :
      Seen size image bank index (.ok x)

theorem ext_image {m m' : Memory} (hsize : m.size = m'.size)
    (himage : ∀ k, m.image k = m'.image k) : m = m' := by
  obtain ⟨bytes⟩ := m
  obtain ⟨bytes'⟩ := m'
  congr 1
  apply Array.ext hsize
  intro k hk hk'
  have hbyte := himage k
  simp only [image, Array.getElem?_eq_getElem hk, Array.getElem?_eq_getElem hk'] at hbyte
  exact hbyte

theorem getElem?_overwrite (bytes : Array UInt8) {start : Nat} {new : List UInt8}
    (h : start + new.length ≤ bytes.size) (k : Nat) :
    (overwrite bytes start new)[k]? =
      if start ≤ k ∧ k < start + new.length then new[k - start]? else bytes[k]? := by
  induction new generalizing bytes start with
  | nil => rw [overwrite, if_neg (by simp)]
  | cons b new ih =>
    rw [List.length_cons] at h ⊢
    rw [overwrite, ih _ (by rw [Array.size_setIfInBounds]; omega), Array.getElem?_setIfInBounds]
    rcases Nat.lt_trichotomy k start with hk | rfl | hk
    · rw [if_neg (by omega), if_neg (by omega), if_neg (by omega)]
    · rw [if_neg (by omega), if_pos rfl, if_pos (by omega), if_pos (by omega), Nat.sub_self,
        List.getElem?_cons_zero]
    · have hsub : k - start = k - (start + 1) + 1 := by omega
      rw [hsub, List.getElem?_cons_succ, if_neg (by omega : ¬start = k)]
      congr 1
      exact propext (by omega)

/-- The bytes of a span, as far as it is in the memory, have the number that the image has there. -/
theorem decode_dump {m : Memory} {start width : Nat} (h : start + width ≤ m.size) :
    LittleEndian.decode (m.dump start width) = LittleEndian.number m.image start width := by
  induction width with
  | zero => simp [dump, LittleEndian.decode, LittleEndian.number]
  | succ width ih =>
    have hlt : start + width < m.bytes.size := h
    have hdump : m.dump start (width + 1) = m.dump start width ++ [m.image (start + width)] := by
      simp only [dump, image, Array.getElem?_eq_getElem hlt, Option.getD_some]
      rw [← Nat.add_assoc, Array.extract_succ_right (by omega) hlt, Array.toList_push]
    have hlength : (m.dump start width).length = width := by
      simp only [dump, Array.length_toList, Array.size_extract]
      omega
    rw [hdump, LittleEndian.decode_concat, hlength, ih (by omega), LittleEndian.number]

section Access

variable {m : Memory} {bank : Bank} {index : UInt16} {width : Nat} {signed : Bool}

theorem span_of_denies {f : Fault} (h : Denies m.size bank index f) :
    m.span bank index = .error f := by
  unfold span
  cases h with
  | bank h => rw [Bank.width_eq_none_iff.2 h]
  | range h hend => simp only [h.width_eq, if_neg (Nat.not_le_of_lt hend)]

theorem span_of_le (h : bank.InMemory width signed) (hend : index.toNat + width ≤ m.size) :
    m.span bank index = .ok width := by
  unfold span
  simp only [h.width_eq, if_pos hend]

/-- An access is denied or has its bytes. -/
theorem denies_or_le (m : Memory) (bank : Bank) (index : UInt16) :
    (∃ f, Denies m.size bank index f) ∨
      ∃ width signed, bank.InMemory width signed ∧ index.toNat + width ≤ m.size := by
  cases hwidth : bank.width with
  | none => exact .inl ⟨_, .bank (Bank.width_eq_none_iff.1 hwidth)⟩
  | some width =>
    have hbank := Bank.inMemory_of_width hwidth
    rcases Nat.lt_or_ge m.size (index.toNat + width) with hend | hend
    · exact .inl ⟨_, .range hbank hend⟩
    · exact .inr ⟨width, _, hbank, hend⟩

/-- A write that is not denied succeeds, and puts the low bytes of the value in place. -/
theorem write_of_le (h : bank.InMemory width signed) (hend : index.toNat + width ≤ m.size)
    (value : Int32) :
    ∃ m', m.write bank index value = (.ok (), m') ∧ m'.size = m.size ∧
      ∀ k, m'.image k = if index.toNat ≤ k ∧ k < index.toNat + width then
        LittleEndian.byteOf value.toInt (k - index.toNat) else m.image k := by
  refine ⟨⟨overwrite m.bytes index.toNat (LittleEndian.encode width value.toUInt32.toNat)⟩,
    ?_, size_overwrite _ _ _, ?_⟩
  · rw [write, span_of_le h hend]
  · intro k
    have hlength := LittleEndian.length_encode width value.toUInt32.toNat
    have hbytes : index.toNat +
        (LittleEndian.encode width value.toUInt32.toNat).length ≤ m.bytes.size := by
      rw [hlength]
      exact hend
    rw [image, getElem?_overwrite _ hbytes, hlength]
    split
    · rename_i hk
      have hj : k - index.toNat < width := by omega
      rw [LittleEndian.getElem?_encode _ hj, Option.getD_some,
        LittleEndian.ofNat_toUInt32 value (Nat.lt_of_lt_of_le hj h.width_le)]
    · rfl

theorem read_of_le (h : bank.InMemory width signed) (hend : index.toNat + width ≤ m.size) :
    ∃ x, m.read bank index = .ok x ∧
      x.toInt = Bank.valueOf signed width (LittleEndian.number m.image index.toNat width) := by
  refine ⟨interpret bank width (LittleEndian.number m.image index.toNat width), ?_,
    h.toInt_interpret (LittleEndian.number_lt _ _ _)⟩
  rw [read, span_of_le h hend, ← decode_dump hend]
  rfl

/-- **A write** comes to exactly what `Stored` says. -/
theorem write_eq_iff {value : Int32} {r : Except Fault Unit} {m' : Memory} :
    m.write bank index value = (r, m') ↔ m.Stored bank index value r m' := by
  constructor
  · intro h
    rcases denies_or_le m bank index with ⟨f, hdenied⟩ | ⟨width, signed, hbank, hend⟩
    · rw [write, span_of_denies hdenied] at h
      cases h
      exact .denied hdenied
    · obtain ⟨stored, hwrite, hsize, himage⟩ := write_of_le hbank hend value
      rw [hwrite] at h
      cases h
      exact .done hbank hend hsize himage
  · rintro (hdenied | ⟨hbank, hend, hsize, himage⟩)
    · rw [write, span_of_denies hdenied]
    · obtain ⟨stored, hwrite, hsize', himage'⟩ := write_of_le hbank hend value
      rw [hwrite]
      refine congrArg (Prod.mk _) (ext_image (hsize'.trans hsize.symm) ?_)
      intro k
      rw [himage', himage]

/-- **A read** finds exactly what `Seen` says. -/
theorem read_eq_iff {r : Except Fault Int32} :
    m.read bank index = r ↔ Seen m.size m.image bank index r := by
  constructor
  · rintro rfl
    rcases denies_or_le m bank index with ⟨f, hdenied⟩ | ⟨width, signed, hbank, hend⟩
    · rw [read, span_of_denies hdenied]
      exact .denied hdenied
    · obtain ⟨x, hread, hx⟩ := read_of_le hbank hend
      rw [hread]
      exact .value hbank hend hx
  · rintro (hdenied | ⟨hbank, hend, hx⟩)
    · rw [read, span_of_denies hdenied]
      rfl
    · obtain ⟨x, hread, hx'⟩ := read_of_le hbank hend
      rw [hread]
      exact congrArg Except.ok (Int32.toInt_inj.1 (hx'.trans hx.symm))

/-- A value is read back through its bank as far as the bank holds it. -/
theorem read_of_write {value : Int32} {m' : Memory}
    (h : m.write bank index value = (.ok (), m')) :
    ∃ width signed x, bank.InMemory width signed ∧ m'.read bank index = .ok x ∧
      Bank.InRange signed width x.toInt ∧ x.toInt ≡ value.toInt [ZMOD 2 ^ (8 * width)] := by
  cases write_eq_iff.1 h with
  | @done width signed _ hbank hend hsize himage =>
    obtain ⟨x, hread, hx⟩ := read_of_le (m := m') hbank (by rw [hsize]; exact hend)
    refine ⟨width, signed, x, hbank, hread, ?_, ?_⟩
    · rw [hx]
      exact hbank.inRange_valueOf (LittleEndian.number_lt _ _ _)
    · have hnumber : (LittleEndian.number m'.image index.toNat width : Int) ≡ value.toInt
          [ZMOD 256 ^ width] := by
        apply LittleEndian.number_byteOf
        intro k hstart hlast
        rw [himage, if_pos ⟨hstart, hlast⟩]
      have hpow : (2 : Int) ^ (8 * width) = 256 ^ width := Int.pow_mul
      rw [← hpow] at hnumber
      rw [hx]
      exact (Bank.valueOf_modEq signed width _).trans hnumber

end Access

/-! ## Sequences of writes -/

/-- A write that is asked for. -/
structure Store where
  bank : Bank
  index : UInt16
  value : Int32
deriving DecidableEq

/-- The memory that a write leaves, whether it fails or not. -/
def store (m : Memory) (w : Store) : Memory :=
  (m.write w.bank w.index w.value).2

def after (m : Memory) (stores : List Store) : Memory :=
  stores.foldl store m

/-- The byte that a write puts at an address, if it is not denied and reaches there. -/
def Store.byte? (w : Store) (size k : Nat) : Option UInt8 :=
  match w.bank.width with
  | none => none
  | some width =>
    if w.index.toNat + width ≤ size ∧ w.index.toNat ≤ k ∧ k < w.index.toNat + width then
      some (LittleEndian.byteOf w.value.toInt (k - w.index.toNat))
    else none

/-- The byte at an address after some writes: the one that the last write to reach there has put,
or the one that was there. -/
def imageAfter (m : Memory) (stores : List Store) (k : Nat) : UInt8 :=
  (stores.reverse.findSome? fun w => w.byte? m.size k).getD (m.image k)

/-- **Step.** What one write does to the size and to every byte. -/
theorem store_image (m : Memory) (w : Store) :
    (m.store w).size = m.size ∧ ∀ k, (m.store w).image k = (w.byte? m.size k).getD (m.image k) := by
  rcases denies_or_le m w.bank w.index with ⟨f, hdenied⟩ | ⟨width, signed, hbank, hend⟩
  · have hstore : m.store w = m := by
      rw [store, write_eq_iff.2 (.denied hdenied)]
    have hbyte : ∀ k, w.byte? m.size k = none := by
      intro k
      unfold Store.byte?
      cases hdenied with
      | bank h => rw [Bank.width_eq_none_iff.2 h]
      | range h hrange =>
        rw [h.width_eq]
        exact if_neg fun hreach => Nat.not_le_of_lt hrange hreach.1
    rw [hstore]
    refine ⟨rfl, fun k => ?_⟩
    rw [hbyte, Option.getD_none]
  · obtain ⟨m', hwrite, hsize, himage⟩ := write_of_le hbank hend w.value
    have hstore : m.store w = m' := by rw [store, hwrite]
    rw [hstore]
    refine ⟨hsize, fun k => ?_⟩
    rw [himage, Store.byte?, hbank.width_eq]
    simp only [hend, true_and]
    split <;> rfl

/-- **Run.** What any writes do to the size and to every byte. -/
theorem image_after (m : Memory) (stores : List Store) :
    (m.after stores).size = m.size ∧ (m.after stores).image = m.imageAfter stores := by
  induction stores generalizing m with
  | nil => exact ⟨rfl, rfl⟩
  | cons w stores ih =>
    obtain ⟨hsize, himage⟩ := m.store_image w
    obtain ⟨hsizes, himages⟩ := ih (m.store w)
    refine ⟨hsizes.trans hsize, ?_⟩
    show ((m.store w).after stores).image = _
    rw [himages]
    funext k
    -- the writes after the first are looked at first
    rw [imageAfter, imageAfter, hsize, himage, List.reverse_cons, List.findSome?_append,
      List.findSome?_singleton]
    cases stores.reverse.findSome? fun w => w.byte? m.size k <;> rfl

/-- **Views of memory are consistent.** A write and a read fail alike: through a bank that is no
view of memory, or past the end. A write that succeeds changes exactly the bytes it reaches, to the
low bytes of the value; a read finds the value of its bytes, with a sign or without. So what a read
finds after any writes, of which some may fail, is told from the byte that each address has got
last. A value is read back through its own bank as the value of that bank to which it is
congruent. -/
theorem views_consistent (m : Memory) (bank : Bank) (index : UInt16) :
    (∀ value r m', m.write bank index value = (r, m') ↔ m.Stored bank index value r m') ∧
    (∀ value f, (m.write bank index value).1 = .error f → m.store ⟨bank, index, value⟩ = m) ∧
    (∀ r, m.read bank index = r ↔ Seen m.size m.image bank index r) ∧
    (∀ stores, (m.after stores).size = m.size ∧ (m.after stores).image = m.imageAfter stores ∧
      ∀ r, (m.after stores).read bank index = r ↔
        Seen m.size (m.imageAfter stores) bank index r) ∧
    ∀ value m', m.write bank index value = (.ok (), m') →
      ∃ width signed x, bank.InMemory width signed ∧ m'.read bank index = .ok x ∧
        Bank.InRange signed width x.toInt ∧ x.toInt ≡ value.toInt [ZMOD 2 ^ (8 * width)] := by
  refine ⟨fun value r m' => write_eq_iff, ?_, fun r => read_eq_iff, ?_,
    fun value m' => read_of_write⟩
  · intro value f hfailed
    exact m.write_harmless bank index value f hfailed
  · intro stores
    obtain ⟨hsize, himage⟩ := m.image_after stores
    refine ⟨hsize, himage, fun r => ?_⟩
    rw [← hsize, ← himage]
    exact read_eq_iff

/-- A case of a negative long, the last byte of which a word covers; a long that would reach one
byte past the end and a flag are not written. A word across the start of the long is negative. -/
theorem views_consistent_overlapping :
    let m := zeroed 6
    let stores : List Store :=
      [⟨.long, 1, -2⟩, ⟨.word, 4, 0x1234⟩, ⟨.long, 3, 7⟩, ⟨.flag, 0, 1⟩]
    (m.after stores).read .long 1 = .ok 0x34FFFFFE ∧
      (m.after stores).read .signedWord 0 = .ok (-512) ∧
      (m.after stores).read .long 3 = .error (.addressOutOfRange .long 3) ∧
      m.store ⟨.long, 3, 7⟩ = m ∧
      ∃ m', m.write .signedByte 5 200 = (.ok (), m') ∧ ∃ x, m'.read .signedByte 5 = .ok x ∧
        (-128 ≤ x.toInt ∧ x.toInt < 128) ∧ x.toInt ≡ 200 [ZMOD 256] := by
  intro m stores
  obtain ⟨-, -, -, hlong, -⟩ := views_consistent m .long 1
  obtain ⟨-, -, -, hword, -⟩ := views_consistent m .signedWord 0
  obtain ⟨hwrite, hfailed, -, hend, -⟩ := views_consistent m .long 3
  obtain ⟨-, -, -, -, hback⟩ := views_consistent m .signedByte 5
  have hpast : Denies m.size .long 3 (.addressOutOfRange .long 3) := .range .long (by decide)
  refine ⟨((hlong stores).2.2 _).2 (.value .long (by decide) (by decide)),
    ((hword stores).2.2 _).2 (.value .signedWord (by decide) (by decide)),
    ((hend stores).2.2 _).2 (.denied hpast),
    hfailed 7 _ (congrArg Prod.fst ((hwrite 7 _ _).2 (.denied hpast))), ?_⟩
  have hm : m.write .signedByte 5 200 = (.ok (), ⟨#[0, 0, 0, 0, 0, 200]⟩) := by decide
  obtain ⟨width, signed, x, hbank, hread, hrange, hmod⟩ := hback 200 _ hm
  cases hbank
  exact ⟨_, hm, x, hread, hrange, hmod⟩

end Memory

end FieldEngine
