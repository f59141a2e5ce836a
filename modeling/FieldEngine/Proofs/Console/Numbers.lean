import Mathlib.Algebra.GroupWithZero.Nat
import FieldEngine.Console.Command
import FieldEngine.Proofs.Text.Words

/-!
# Numbers on lines

A number is written in decimal, or in hexadecimal after `0x` (`Base.Writes`). Which numbers a word
can stand for depends on the type that the command asks for and on the base (`Base.reach`), because
a hexadecimal word is first taken for a signed number of 64 bits:

    b.Writes n w → numeral? t w = if n < b.reach t then some n else none     (numeral?_of_writes)

So both bases mean the same for indices and values, but of the numbers without a sign of 64 bits
the upper half cannot be written in hexadecimal. A negative number (`Base.WritesNegative`) is taken
for a value only. Main statement: `numbers_on_lines`.
-/

namespace FieldEngine

open Text

/-! ## Words for numbers -/

namespace Text

/-- The numbers of a type that are not negative are those below. -/
def IntType.limit (t : IntType) : Nat :=
  if t.signed then 2 ^ (t.bits - 1) else 2 ^ t.bits

/-- How a number is written on a line. -/
inductive Base
  | decimal
  | hexadecimal
deriving DecidableEq

namespace Base

/-- The word is a way to write the number. -/
def Writes : Base → Nat → String → Prop
  | decimal, n, w => Spells 10 n w.toList
  | hexadecimal, n, w => ∃ cs, w.toList = '0' :: 'x' :: cs ∧ Spells 16 n cs

/-- The word is a way to write the number with a minus sign. In hexadecimal the sign stands after
the `0x`. -/
def WritesNegative : Base → Nat → String → Prop
  | decimal, n, w => ∃ cs, w.toList = '-' :: cs ∧ Spells 10 n cs
  | hexadecimal, n, w => ∃ cs, w.toList = '0' :: 'x' :: '-' :: cs ∧ Spells 16 n cs

/-- The numbers of a type that words in the base can stand for are those below. -/
def reach : Base → IntType → Nat
  | decimal, t => t.limit
  | hexadecimal, t => min t.limit (2 ^ 63)

end Base

theorem IntType.holds_natCast {t : IntType} (hbits : 0 < t.bits) (n : Nat) :
    t.holds n = decide (n < t.limit) := by
  obtain ⟨signed, bits⟩ := t
  obtain ⟨bits, rfl⟩ : ∃ k, bits = k + 1 := ⟨bits - 1, (Nat.sub_add_cancel hbits).symm⟩
  have hpow : Nat.pow 2 (bits + 1) = 2 ^ bits * 2 := Nat.pow_succ ..
  have hpow' : 2 ^ (bits + 1) = 2 ^ bits * 2 := Nat.pow_succ ..
  simp only [holds, limit, hpow, hpow', Nat.add_sub_cancel]
  generalize 2 ^ bits = half
  rw [Bool.eq_iff_iff]
  cases signed with
  | false =>
    simp only [Bool.false_eq_true, if_false, Bool.and_eq_true, decide_eq_true_iff]
    omega
  | true =>
    simp only [if_true, Bool.and_eq_true, decide_eq_true_iff]
    omega

theorem IntType.not_holds_negative {t : IntType} (ht : t.signed = false) {n : Int} (hn : n < 0) :
    t.holds n = false := by
  simp only [holds, ht, Bool.false_eq_true, if_false, Bool.and_eq_false_iff]
  exact .inl (decide_eq_false (by omega))

/-- Every type of at most 64 bits has its negative numbers among those of 64 bits. -/
theorem IntType.holds_i64 {t : IntType} (hbits : t.bits ≤ 64) {n : Int} (hn : n < 0)
    (h : t.holds n = true) : IntType.i64.holds n = true := by
  cases ht : t.signed with
  | false =>
    rw [not_holds_negative ht hn] at h
    cases h
  | true =>
    have hpow : 2 ^ t.bits ≤ 2 ^ 64 := Nat.pow_le_pow_right (by decide) hbits
    have hcount : ((Nat.pow 2 t.bits : Nat) : Int) ≤ 2 ^ 64 := Int.ofNat_le.2 hpow
    simp only [holds, ht, if_true, Bool.and_eq_true, decide_eq_true_iff] at h
    show (decide (-2 ^ 64 ≤ 2 * n) && decide (2 * n < 2 ^ 64)) = true
    rw [Bool.and_eq_true, decide_eq_true_iff, decide_eq_true_iff]
    omega

/-- A character that is blank, or that can stand before digits. -/
def isMark (c : Char) : Bool :=
  isBlank c || c == '+' || c == '-' || c == 'x'

theorem not_mark_of_digit {radix d : Nat} {c : Char} (hradix : radix ≤ 16) (h : Digit radix c d) :
    isBlank c = false ∧ c ≠ '+' ∧ c ≠ '-' ∧ c ≠ 'x' := by
  have hall : ∀ d < 16, isMark (Nat.digitChar d) = false ∧
      isMark (Nat.digitChar d).toUpper = false := by
    decide +kernel
  have hmark : isMark c = false := by
    obtain ⟨hd, rfl | rfl⟩ := h
    · exact (hall d (by omega)).1
    · exact (hall d (by omega)).2
  simpa [isMark, and_assoc] using hmark

/-- Digits are taken without a sign. -/
theorem radixInt?_of_spells {radix n : Nat} {cs : List Char} (hradix : radix ≤ 16)
    (h : Spells radix n cs) (t : IntType) :
    radixInt? t radix cs = (some (n : Int)).filter t.holds := by
  have hdigits : signedDigits? t.signed radix cs = some (n : Int) := by
    have hsign : ∀ c ∈ cs, c ≠ '+' ∧ c ≠ '-' := by
      intro c hc
      obtain ⟨d, hd⟩ := h.digit_of_mem hc
      obtain ⟨-, hplus, hminus, -⟩ := not_mark_of_digit hradix hd
      exact ⟨hplus, hminus⟩
    unfold signedDigits?
    split
    · exact absurd rfl (hsign '+' (by simp)).1
    · exact absurd rfl (hsign '-' (by simp)).2
    · rw [digits?_of_spells hradix h]
      rfl
  rw [radixInt?, hdigits]

theorem radixInt?_of_negative {radix n : Nat} {cs : List Char} (hradix : radix ≤ 16)
    (h : Spells radix n cs) (hn : 0 < n) (t : IntType) :
    radixInt? t radix ('-' :: cs) = (some (-(n : Int))).filter t.holds := by
  show (if t.signed then (digits? radix cs).map fun n => -(n : Int) else none).filter t.holds = _
  rw [digits?_of_spells hradix h]
  cases ht : t.signed with
  | true => rfl
  | false =>
    have hnone := IntType.not_holds_negative ht (n := -(n : Int)) (by omega)
    rw [Option.filter_some_neg (by simp [hnone])]
    rfl

/-- **A number that is printed and read again** is there if the type has it. -/
theorem decimal?_toString (t : IntType) (n : Int) :
    decimal? t (toString n) = (some n).filter t.holds := by
  cases n with
  | ofNat n =>
    have htext : (toString (Int.ofNat n)).toList = Nat.toDigits 10 n := by
      show n.repr.toList = _
      rw [Nat.toList_repr]
    rw [decimal?, htext]
    exact radixInt?_of_spells (by decide) (spells_toDigits (by decide) n) t
  | negSucc n =>
    have htext : (toString (Int.negSucc n)).toList = '-' :: Nat.toDigits 10 (n + 1) := by
      show ("-" ++ (n + 1).repr).toList = _
      rw [String.toList_append, Nat.toList_repr]
      rfl
    rw [decimal?, htext]
    exact radixInt?_of_negative (by decide) (spells_toDigits (by decide) _) (Nat.succ_pos n) t

theorem blankless_of_spells {radix n : Nat} {cs : List Char} (hradix : radix ≤ 16)
    (h : Spells radix n cs) : Blankless cs := by
  intro c hc
  obtain ⟨d, hd⟩ := h.digit_of_mem hc
  exact (not_mark_of_digit hradix hd).1

/-- Digits after some characters that are not blank. -/
theorem isWord_of_spells (marks : List Char) {radix n : Nat} {cs : List Char} {w : String}
    (hw : w.toList = marks ++ cs) (hmarks : Blankless marks) (hradix : radix ≤ 16)
    (h : Spells radix n cs) : IsWord w := by
  refine ⟨?_, ?_⟩
  · rintro rfl
    have hnil : cs = [] := (List.append_eq_nil_iff.1 hw.symm).2
    exact h.ne_nil hnil
  · rw [hw]
    intro c hc
    rcases List.mem_append.1 hc with hc | hc
    · exact hmarks c hc
    · exact blankless_of_spells hradix h c hc

theorem Base.isWord_of_writes {b : Base} {n : Nat} {w : String} (h : b.Writes n w) : IsWord w := by
  cases b with
  | decimal =>
    have hs : Spells 10 n w.toList := h
    exact isWord_of_spells [] rfl (by decide) (by decide) hs
  | hexadecimal =>
    obtain ⟨cs, hw, hs⟩ := h
    exact isWord_of_spells ['0', 'x'] hw (by decide) (by decide) hs

theorem Base.isWord_of_writesNegative {b : Base} {n : Nat} {w : String}
    (h : b.WritesNegative n w) : IsWord w := by
  cases b with
  | decimal =>
    obtain ⟨cs, hw, hs⟩ := h
    exact isWord_of_spells ['-'] hw (by decide) (by decide) hs
  | hexadecimal =>
    obtain ⟨cs, hw, hs⟩ := h
    exact isWord_of_spells ['0', 'x', '-'] hw (by decide) (by decide) hs

/-- **A number as it is read.** In hexadecimal it must fit a signed number of 64 bits first. -/
theorem numeral?_of_writes {b : Base} {n : Nat} {w : String} (h : b.Writes n w) {t : IntType}
    (hbits : 0 < t.bits) : numeral? t w = if n < b.reach t then some (n : Int) else none := by
  have hfilter : ∀ {t : IntType}, 0 < t.bits →
      (some (n : Int)).filter t.holds = if n < t.limit then some (n : Int) else none := by
    intro t hbits
    rw [Option.filter_some, IntType.holds_natCast hbits]
    simp
  unfold numeral?
  cases b with
  | decimal =>
    have hs : Spells 10 n w.toList := h
    have hmark : 'x' ∉ w.toList := by
      intro hx
      obtain ⟨d, hd⟩ := hs.digit_of_mem hx
      exact (not_mark_of_digit (by decide) hd).2.2.2 rfl
    split
    · rename_i cs hw
      exact absurd (by simp [hw]) hmark
    · exact (radixInt?_of_spells (by decide) hs t).trans (hfilter hbits)
  | hexadecimal =>
    obtain ⟨cs, hw, hs⟩ := h
    have hlimit : IntType.i64.limit = 2 ^ 63 := rfl
    rw [hw]
    show (radixInt? .i64 16 cs).bind _ = _
    rw [radixInt?_of_spells (by decide) hs, hfilter (by decide), hlimit, Base.reach]
    by_cases hn : n < 2 ^ 63
    · have hmin : n < min t.limit (2 ^ 63) ↔ n < t.limit := by omega
      rw [if_pos hn, Option.bind_some, decimal?_toString, hfilter hbits]
      simp only [hmin]
    · rw [if_neg hn, Option.bind_none, if_neg (by omega)]

/-- A negative number is there in both bases if the type has it. -/
theorem numeral?_of_writesNegative {b : Base} {n : Nat} {w : String} (h : b.WritesNegative n w)
    (hn : 0 < n) {t : IntType} (hbits : t.bits ≤ 64) :
    numeral? t w = (some (-(n : Int))).filter t.holds := by
  unfold numeral?
  cases b with
  | decimal =>
    obtain ⟨cs, hw, hs⟩ := h
    rw [hw]
    exact radixInt?_of_negative (by decide) hs hn t
  | hexadecimal =>
    obtain ⟨cs, hw, hs⟩ := h
    rw [hw]
    show (radixInt? .i64 16 ('-' :: cs)).bind _ = _
    rw [radixInt?_of_negative (by decide) hs hn]
    cases hwide : IntType.i64.holds (-(n : Int)) with
    | true =>
      rw [Option.filter_some_pos hwide, Option.bind_some, decimal?_toString]
    | false =>
      have hnarrow : t.holds (-(n : Int)) = false := by
        rw [← Bool.not_eq_true]
        intro hnarrow
        rw [IntType.holds_i64 hbits (by omega) hnarrow] at hwide
        cases hwide
      rw [Option.filter_some_neg (by simp [hwide]), Option.filter_some_neg (by simp [hnarrow])]
      rfl

end Text

/-! ## Lines -/

namespace Command

theorem parse_joinWith {head : String} {args : List String} (hhead : head.startsWith "#" = false)
    (h : ∀ w ∈ head :: args, IsWord w) :
    parse (joinWith " " (head :: args)) = (parseWords head args).map some := by
  unfold parse
  rw [words_joinWith h]
  exact if_neg (by simp [hhead])

/-- The lines that carry one number without a sign of 64 bits: the words before it, the command,
and what is said of a line that carries no such number. -/
def counted : List (List String × (Nat → Command) × String) :=
  [(["tick"], tick, "tick [count]"),
   (["resume"], resume, "resume <instance>"),
   (["cancel"], fun n => cancel (some n), "cancel <instance>|all"),
   (["notify", "timer"], fun n => notify (.timer n),
    "notify dialogue <channel> | anim <entity> <animation> | timer <instance>")]

/-- A word of a line: it is read as `a` if `c` holds, and as nothing otherwise. -/
structure Stands {α : Type} (read : String → Option α) (w : String) (c : Prop) [Decidable c]
    (a : α) : Prop where
  isWord : IsWord w
  reads : read w = if c then some a else none

section Arguments

variable {b : Base} {n : Nat} {w : String}

theorem stands_count (h : b.Writes n w) : Stands count? w (n < b.reach .u64) n := by
  refine ⟨b.isWord_of_writes h, ?_⟩
  rw [count?, numeral?_of_writes h (by decide)]
  split <;> rfl

theorem stands_index (h : b.Writes n w) :
    Stands index? w (n < b.reach .u16) (UInt16.ofNat n) := by
  refine ⟨b.isWord_of_writes h, ?_⟩
  rw [index?, numeral?_of_writes h (by decide)]
  split <;> rfl

theorem stands_value (h : b.Writes n w) : Stands value? w (n < b.reach .i32) (Int32.ofNat n) := by
  refine ⟨b.isWord_of_writes h, ?_⟩
  rw [value?, numeral?_of_writes h (by decide)]
  split
  · exact congrArg some Int32.ofInt_eq_ofNat
  · rfl

theorem stands_negative_count (h : b.WritesNegative n w) (hn : 0 < n) :
    Stands count? w False 0 := by
  refine ⟨b.isWord_of_writesNegative h, ?_⟩
  have hnone : IntType.u64.holds (-(n : Int)) = false :=
    IntType.not_holds_negative rfl (by omega)
  rw [count?, numeral?_of_writesNegative h hn (by decide), Option.filter_some, hnone]
  rfl

theorem stands_negative_index (h : b.WritesNegative n w) (hn : 0 < n) :
    Stands index? w False 0 := by
  refine ⟨b.isWord_of_writesNegative h, ?_⟩
  have hnone : IntType.u16.holds (-(n : Int)) = false :=
    IntType.not_holds_negative rfl (by omega)
  rw [index?, numeral?_of_writesNegative h hn (by decide), Option.filter_some, hnone]
  rfl

theorem stands_negative_value (h : b.WritesNegative n w) (hn : 0 < n) :
    Stands value? w (n ≤ 2 ^ 31) (Int32.ofInt (-n)) := by
  refine ⟨b.isWord_of_writesNegative h, ?_⟩
  have hholds : IntType.i32.holds (-(n : Int)) = decide (n ≤ 2 ^ 31) := by
    show (decide (-2 ^ 32 ≤ 2 * -(n : Int)) && decide (2 * -(n : Int) < 2 ^ 32)) = _
    rw [Bool.eq_iff_iff, Bool.and_eq_true, decide_eq_true_iff, decide_eq_true_iff,
      decide_eq_true_iff]
    omega
  rw [value?, numeral?_of_writesNegative h hn (by decide), Option.filter_some, hholds]
  simp only [decide_eq_true_eq]
  split <;> rfl

end Arguments

section Lines

variable {α : Type} {read : String → Option α} {w w' : String} {c c' : Prop} [Decidable c]
  [Decidable c'] {a : α} {n : Nat} {index : UInt16} {value : Int32}

theorem required_of_stands (h : Stands read w c a) (usage : String) :
    required usage read (some w) = if c then .ok a else .error (.usage usage) := by
  unfold required
  rw [Option.bind_some, h.reads]
  by_cases hc : c
  · rw [if_pos hc, if_pos hc]
  · rw [if_neg hc, if_neg hc]

/-- A line of which all but one argument is known to be right. -/
theorem parse_required {head usage : String} {args : List String} (command : α → Command)
    (hhead : head.startsWith "#" = false) (hwords : ∀ w ∈ head :: args, IsWord w)
    (h : Stands read w c a)
    (hparse : parseWords head args =
      required usage read (some w) >>= fun a => .ok (command a)) :
    parse (joinWith " " (head :: args)) =
      if c then .ok (some (command a)) else .error (.usage usage) := by
  rw [parse_joinWith hhead hwords, hparse, required_of_stands h]
  split <;> rfl

/-- A line with one number of 64 bits. -/
theorem parse_counted (h : Stands count? w c n) (hall : w ≠ "all")
    {line : List String × (Nat → Command) × String} (hline : line ∈ counted) :
    parse (joinWith " " (line.1 ++ [w])) =
      if c then .ok (some (line.2.1 n)) else .error (.usage line.2.2) := by
  have hword := h.isWord
  simp only [counted, List.mem_cons, List.not_mem_nil, or_false] at hline
  obtain rfl | rfl | rfl | rfl := hline
  · exact parse_required tick (by simp) (by simp [hword]; decide) h rfl
  · exact parse_required resume (by simp) (by simp [hword]; decide) h rfl
  · refine parse_required (fun n => cancel (some n)) (by simp) (by simp [hword]; decide) h ?_
    exact if_neg (by simp [hall])
  · refine parse_required (fun n => notify (.timer n)) (by simp) (by simp [hword]; decide) h ?_
    exact bind_assoc (required _ count? (some w)) (fun n => .ok (NotifyCommand.timer n))
      (fun event => .ok (notify event))

theorem required_bank (usage : String) (bank : Bank) :
    required usage Bank.ofName? (some bank.name) = .ok bank := by
  rw [required, Option.bind_some, Bank.ofName?_name]

theorem isWord_name (bank : Bank) : IsWord bank.name := by
  cases bank <;> decide

theorem parse_peek (h : Stands index? w c index) (bank : Bank) :
    parse (joinWith " " ["peek", bank.name, w]) =
      if c then .ok (some (.peek bank index)) else .error (.usage "peek <bank> <index>") := by
  refine parse_required (peek bank) (by simp) (by simp [h.isWord, isWord_name]; decide) h ?_
  show (required _ Bank.ofName? (some bank.name) >>= fun bank =>
    required _ index? (some w) >>= fun index => .ok (peek bank index)) = _
  rw [required_bank]
  rfl

theorem parse_poke (h : Stands index? w c index) (h' : Stands value? w' c' value) (bank : Bank) :
    parse (joinWith " " ["poke", bank.name, w, w']) =
      if c ∧ c' then .ok (some (.poke bank index value))
      else .error (.usage "poke <bank> <index> <value>") := by
  rw [parse_joinWith (by simp) (by simp [h.isWord, h'.isWord, isWord_name]; decide)]
  have hparse : parseWords "poke" [bank.name, w, w'] =
      required "poke <bank> <index> <value>" Bank.ofName? (some bank.name) >>= fun bank =>
        required "poke <bank> <index> <value>" index? (some w) >>= fun index =>
          required "poke <bank> <index> <value>" value? (some w') >>= fun value =>
            .ok (poke bank index value) := rfl
  rw [hparse, required_bank, required_of_stands h, required_of_stands h']
  by_cases hc : c
  · by_cases hc' : c'
    · simp only [hc, hc', and_self, if_true]
      rfl
    · simp only [hc, hc', and_false, if_true, if_false]
      rfl
  · simp only [hc, false_and, if_false]
    rfl

theorem parse_flag (h : Stands index? w c index) :
    parse (joinWith " " ["flag", w]) =
      if c then .ok (some (.flag index none)) else .error (.usage "flag <index> [on|off]") :=
  parse_required (flag · none) (by simp) (by simp [h.isWord]; decide) h rfl

theorem parse_flag_state (h : Stands index? w c index) {state : String × Bool}
    (hstate : state ∈ [("on", true), ("1", true), ("off", false), ("0", false)]) :
    parse (joinWith " " ["flag", w, state.1]) =
      if c then .ok (some (.flag index (some state.2)))
      else .error (.usage "flag <index> [on|off]") := by
  have hswitch : ∀ state ∈ [("on", true), ("1", true), ("off", false), ("0", false)],
      IsWord state.1 ∧ switch? state.1 = some state.2 := by decide
  obtain ⟨hword', hread⟩ := hswitch state hstate
  refine parse_required (flag · (some state.2)) (by simp) (by simp [h.isWord, hword']; decide) h ?_
  have hvalue : required "flag <index> [on|off]" switch? (some state.1) = .ok state.2 := by
    rw [required, Option.bind_some, hread]
  show (required _ index? (some w) >>= fun index =>
    required _ switch? (some state.1) >>= fun value => .ok (flag index (some value))) = _
  rw [hvalue]
  rfl

end Lines

theorem ne_all_of_writes {b : Base} {n : Nat} {w : String} (h : b.Writes n w) : w ≠ "all" := by
  rintro rfl
  cases b with
  | decimal =>
    obtain ⟨d, hd⟩ := Spells.digit_of_mem (c := 'a') h (by decide)
    cases digit?_of_digit (by decide) hd
  | hexadecimal =>
    obtain ⟨cs, hcs, -⟩ := h
    cases hcs

theorem ne_all_of_writesNegative {b : Base} {n : Nat} {w : String} (h : b.WritesNegative n w) :
    w ≠ "all" := by
  rintro rfl
  cases b with
  | decimal =>
    obtain ⟨cs, hcs, -⟩ := h
    cases hcs
  | hexadecimal =>
    obtain ⟨cs, hcs, -⟩ := h
    cases hcs

end Command

open Command in
/-- **Numbers on lines.** Every way to write a number yields the command that carries it, if the
number is within reach, and an error otherwise. For an index and for a value the reach is the whole
type in both bases. For a number without a sign of 64 bits it is the whole type in decimal only:
hexadecimal reaches half of it. A negative number is refused in both bases, but as a value it is
taken as far as the type goes. -/
theorem numbers_on_lines (b b' : Base) (n m : Nat) (w w' : String) (h : b.Writes n w)
    (h' : b'.Writes m w') :
    (∀ line ∈ counted, parse (joinWith " " (line.1 ++ [w])) =
      if n < b.reach .u64 then .ok (some (line.2.1 n)) else .error (.usage line.2.2)) ∧
    (∀ bank : Bank, parse (joinWith " " ["peek", bank.name, w]) =
      if n < b.reach .u16 then .ok (some (.peek bank (UInt16.ofNat n)))
      else .error (.usage "peek <bank> <index>")) ∧
    (∀ bank : Bank, parse (joinWith " " ["poke", bank.name, w, w']) =
      if n < b.reach .u16 ∧ m < b'.reach .i32 then
        .ok (some (.poke bank (UInt16.ofNat n) (Int32.ofNat m)))
      else .error (.usage "poke <bank> <index> <value>")) ∧
    (parse (joinWith " " ["flag", w]) =
      if n < b.reach .u16 then .ok (some (.flag (UInt16.ofNat n) none))
      else .error (.usage "flag <index> [on|off]")) ∧
    (∀ state ∈ [("on", true), ("1", true), ("off", false), ("0", false)],
      parse (joinWith " " ["flag", w, state.1]) =
        if n < b.reach .u16 then .ok (some (.flag (UInt16.ofNat n) (some state.2)))
        else .error (.usage "flag <index> [on|off]")) ∧
    (∀ c : Base, c.reach .u16 = 2 ^ 16 ∧ c.reach .i32 = 2 ^ 31) ∧
    (Base.reach .decimal .u64 = 2 ^ 64 ∧ Base.reach .hexadecimal .u64 = 2 ^ 63) ∧
    ∀ (c : Base) (k : Nat) (v : String), 0 < k → c.WritesNegative k v →
      (∀ line ∈ counted,
        parse (joinWith " " (line.1 ++ [v])) = .error (.usage line.2.2)) ∧
      (∀ bank : Bank, parse (joinWith " " ["peek", bank.name, v]) =
        .error (.usage "peek <bank> <index>")) ∧
      (∀ bank : Bank, parse (joinWith " " ["poke", bank.name, v, w']) =
        .error (.usage "poke <bank> <index> <value>")) ∧
      (∀ bank : Bank, parse (joinWith " " ["poke", bank.name, w, v]) =
        if n < b.reach .u16 ∧ k ≤ 2 ^ 31 then
          .ok (some (.poke bank (UInt16.ofNat n) (Int32.ofInt (-k))))
        else .error (.usage "poke <bank> <index> <value>")) ∧
      parse (joinWith " " ["flag", v]) = .error (.usage "flag <index> [on|off]") ∧
      ∀ state ∈ [("on", true), ("1", true), ("off", false), ("0", false)],
        parse (joinWith " " ["flag", v, state.1]) = .error (.usage "flag <index> [on|off]") := by
  have hindex := stands_index h
  refine ⟨fun line hline => parse_counted (stands_count h) (ne_all_of_writes h) hline,
    parse_peek hindex, parse_poke hindex (stands_value h'), parse_flag hindex,
    fun state hstate => parse_flag_state hindex hstate, fun c => ?_, by decide, ?_⟩
  · cases c <;> decide
  · intro c k v hk hv
    have hrefused := stands_negative_index hv hk
    refine ⟨fun line hline => ?_, parse_peek hrefused, fun bank => ?_,
      parse_poke hindex (stands_negative_value hv hk), parse_flag hrefused,
      fun state hstate => parse_flag_state hrefused hstate⟩
    · exact parse_counted (stands_negative_count hv hk) (ne_all_of_writesNegative hv) hline
    · rw [parse_poke hrefused (stands_value h') bank, if_neg fun hno => hno.1]

/-- A case at the ends of the types of an index and of a value, and one below zero. -/
theorem numbers_on_lines_ends :
    Base.hexadecimal.Writes 65535 "0xffff" ∧ Base.decimal.Writes 2147483647 "2147483647" ∧
      Command.parse "tick 0xffff" = .ok (some (.tick 65535)) ∧
      Command.parse "poke word 0xffff 2147483647" =
        .ok (some (.poke .word 0xFFFF 0x7FFFFFFF)) ∧
      Command.parse "tick -1" = .error (.usage "tick [count]") := by
  have hhex : Base.hexadecimal.Writes 65535 "0xffff" :=
    ⟨['f', 'f', 'f', 'f'], by decide, spells_toDigits (by decide) 65535⟩
  have hdecimal : Base.decimal.Writes 2147483647 "2147483647" :=
    spells_toDigits (by decide) 2147483647
  have hnegative : Base.decimal.WritesNegative 1 "-1" :=
    ⟨['1'], by decide, spells_toDigits (by decide) 1⟩
  have htick : (["tick"], Command.tick, "tick [count]") ∈ Command.counted := by
    simp [Command.counted]
  obtain ⟨hcount, -, hpoke, -, -, -, -, hbelow⟩ := numbers_on_lines _ _ _ _ _ _ hhex hdecimal
  exact ⟨hhex, hdecimal, hcount _ htick, hpoke .word,
    (hbelow _ _ _ (by decide) hnegative).1 _ htick⟩

/-- The greatest number of 64 bits is a count in decimal but not in hexadecimal. -/
theorem hexadecimal_count_refused :
    Base.decimal.Writes (2 ^ 64 - 1) "18446744073709551615" ∧
      Base.hexadecimal.Writes (2 ^ 64 - 1) "0xffffffffffffffff" ∧
      Command.parse "tick 18446744073709551615" = .ok (some (.tick (2 ^ 64 - 1))) ∧
      Command.parse "tick 0xffffffffffffffff" = .error (.usage "tick [count]") := by
  have hdecimal : Base.decimal.Writes (2 ^ 64 - 1) "18446744073709551615" :=
    spells_toDigits (by decide) (2 ^ 64 - 1)
  have hhex : Base.hexadecimal.Writes (2 ^ 64 - 1) "0xffffffffffffffff" :=
    ⟨List.replicate 16 'f', by decide, spells_toDigits (by decide) (2 ^ 64 - 1)⟩
  have htick : (["tick"], Command.tick, "tick [count]") ∈ Command.counted := by
    simp [Command.counted]
  exact ⟨hdecimal, hhex,
    Command.parse_counted (Command.stands_count hdecimal) (Command.ne_all_of_writes hdecimal) htick,
    Command.parse_counted (Command.stands_count hhex) (Command.ne_all_of_writes hhex) htick⟩

end FieldEngine
