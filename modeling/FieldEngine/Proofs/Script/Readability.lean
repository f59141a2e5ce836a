import FieldEngine.Proofs.Text.Separators
import FieldEngine.Script.Expr

/-!
# Reading expressions

What the text of an expression tells. The text does not tell a negative constant from the negation
of a number, so a tree is first taken as it reads (`Expr.reading`). Readings have the texts and the
values of the trees, and their texts can be read in one way only, whatever follows but a digit:

    e.text.toList = e.reading.chars                                        (toList_text)
    e.eval field temps = e.reading.eval field temps                        (eval_reading)
    a.chars ++ s = b.chars ++ t → a = b ∧ s = t                            (chars_append_inj)

Trees of the same text thus have the same value, on every field (`Expr.eval_of_text`).
-/

namespace FieldEngine

open Text

/-! ## Readings -/

/-- A tree as its text shows it: numbers have no sign. -/
inductive Reading
  | number (n : Nat)
  | var (v : Variable)
  | unary (op : UnaryOp) (operand : Reading)
  | binary (op : BinaryOp) (left right : Reading)
deriving DecidableEq

namespace Reading

def chars : Reading → List Char
  | number n => Nat.toDigits 10 n
  | var v => v.bank.name.toList ++ '[' :: (Nat.toDigits 10 v.index.toNat ++ [']'])
  | unary op operand => op.symbol.toList ++ operand.chars
  | binary op left right =>
    '(' :: (left.chars ++ ' ' :: (op.symbol.toList ++ ' ' :: (right.chars ++ [')'])))

def eval (field : Field) (temps : Temps) : Reading → Except Fault Int32
  | number n => .ok (Int32.ofNat n)
  | var v => Expr.load field temps v
  | unary op operand => (operand.eval field temps).map op.apply
  | binary op left right => do
    let a ← left.eval field temps
    let b ← right.eval field temps
    op.apply a b

/-- An integer as it reads: a negative one is the negation of a number. -/
def ofInt : Int → Reading
  | .ofNat n => number n
  | .negSucc n => unary .neg (number (n + 1))

theorem chars_ofInt (n : Int) : (ofInt n).chars = (toString n).toList := by
  cases n with
  | ofNat n => exact Nat.toList_repr.symm
  | negSucc n =>
    show '-' :: Nat.toDigits 10 (n + 1) = ("-" ++ (n + 1).repr).toList
    rw [String.toList_append, Nat.toList_repr]
    rfl

theorem eval_ofInt (n : Int) (field : Field) (temps : Temps) :
    (ofInt n).eval field temps = .ok (Int32.ofInt n) := by
  cases n with
  | ofNat n => exact congrArg _ Int32.ofInt_eq_ofNat.symm
  | negSucc n => exact congrArg _ Int32.neg_ofNat

end Reading

namespace Expr

def reading : Expr → Reading
  | const value => .ofInt value.toInt
  | var v => .var v
  | unary op operand => .unary op operand.reading
  | binary op left right => .binary op left.reading right.reading

theorem toList_text (e : Expr) : e.text.toList = e.reading.chars := by
  induction e with
  | const value => exact (Reading.chars_ofInt value.toInt).symm
  | var v =>
    show (v.bank.name ++ "[" ++ toString v.index.toNat ++ "]").toList = _
    simp [reading, Reading.chars]
  | unary op operand ih => rw [text, String.toList_append, ih]; rfl
  | binary op left right ihl ihr =>
    show ("(" ++ left.text ++ " " ++ op.symbol ++ " " ++ right.text ++ ")").toList = _
    simp [reading, Reading.chars, ihl, ihr]

theorem eval_reading (e : Expr) (field : Field) (temps : Temps) :
    e.eval field temps = e.reading.eval field temps := by
  induction e with
  | const value => rw [reading, Reading.eval_ofInt, Int32.ofInt_toInt, eval]
  | var v => rfl
  | unary op operand ih => rw [eval, ih]; rfl
  | binary op left right ihl ihr => rw [eval, ihl, ihr]; rfl

end Expr

/-! ## One way to read -/

namespace Bank

theorem bracket_not_mem_name (bank : Bank) : '[' ∉ bank.name.toList := by
  cases bank <;> decide

theorem name_inj {a b : Bank} (h : a.name = b.name) : a = b := by
  have hfound := ofName?_name a
  rw [h, ofName?_name b] at hfound
  exact (Option.some.inj hfound).symm

end Bank

theorem UnaryOp.symbol_append_inj {a b : UnaryOp} {s t : List Char}
    (h : a.symbol.toList ++ s = b.symbol.toList ++ t) : a = b ∧ s = t := by
  cases a with
  | neg =>
    cases b with
    | neg => exact ⟨rfl, List.append_cancel_left h⟩
    | not => exact absurd (List.head_eq_of_cons_eq h) (by decide)
  | not =>
    cases b with
    | neg => exact absurd (List.head_eq_of_cons_eq h) (by decide)
    | not => exact ⟨rfl, List.append_cancel_left h⟩

namespace BinaryOp

theorem ofSymbol?_symbol (op : BinaryOp) : ofSymbol? op.symbol = some op := by
  cases op <;> decide

theorem blank_not_mem_symbol (op : BinaryOp) : ' ' ∉ op.symbol.toList := by
  cases op <;> decide

theorem symbol_inj {a b : BinaryOp} (h : a.symbol = b.symbol) : a = b := by
  have hfound := ofSymbol?_symbol a
  rw [h, ofSymbol?_symbol b] at hfound
  exact (Option.some.inj hfound).symm

end BinaryOp

namespace Reading

/-- What the first character of a text can be. -/
inductive Lead
  | digit
  | letter
  | sign
  | bracket
deriving DecidableEq

/-- What a character starts. -/
def Lead.ofChar (c : Char) : Lead :=
  if c.isDigit then digit else if c.isAlpha then letter else if c = '(' then bracket else sign

/-- What the text of a reading starts with. -/
def lead : Reading → Lead
  | number _ => .digit
  | var _ => .letter
  | unary _ _ => .sign
  | binary _ _ _ => .bracket

theorem head_name (bank : Bank) (s : List Char) :
    (bank.name.toList ++ s).head?.map Lead.ofChar = some .letter := by
  cases bank <;> rfl

/-- The first character of a text tells the constructor. -/
theorem head_chars (a : Reading) : a.chars.head?.map Lead.ofChar = some a.lead := by
  cases a with
  | number n =>
    cases hdigits : Nat.toDigits 10 n with
    | nil => exact absurd hdigits Nat.toDigits_ne_nil
    | cons c cs =>
      have hc : c.isDigit = true := isDigit_of_mem (n := n) (by rw [hdigits]; simp)
      rw [chars, hdigits]
      simp [Lead.ofChar, hc, lead]
  | var v => exact head_name v.bank _
  | unary op operand => cases op <;> rfl
  | binary op left right => rfl

theorem lead_of_chars_append {a b : Reading} {s t : List Char} (h : a.chars ++ s = b.chars ++ t) :
    a.lead = b.lead := by
  have hhead : ∀ (r : Reading) (u : List Char), (r.chars ++ u).head?.map Lead.ofChar =
      some r.lead := by
    intro r u
    have hr := r.head_chars
    cases hchars : r.chars with
    | nil => rw [hchars] at hr; cases hr
    | cons c cs => rw [hchars] at hr; exact hr
  have hab := hhead a s
  rw [h, hhead b t] at hab
  exact (Option.some.inj hab).symm

/-- **One way to read.** The text of a reading, with something after it that starts with no digit,
tells the reading and where it ends. -/
theorem chars_append_inj {a b : Reading} {s t : List Char} (hs : Stops Char.isDigit s)
    (ht : Stops Char.isDigit t) (h : a.chars ++ s = b.chars ++ t) : a = b ∧ s = t := by
  have hlead := lead_of_chars_append h
  induction a generalizing b s t with
  | number m =>
    cases b with
    | number n =>
      obtain ⟨hdigits, hrest⟩ := append_inj_of_stops (fun _ => isDigit_of_mem)
        (fun _ => isDigit_of_mem) hs ht h
      exact ⟨congrArg number (toDigits_inj hdigits), hrest⟩
    | _ => cases hlead
  | var v =>
    cases b with
    | var w =>
      simp only [chars, List.cons_append, List.append_assoc] at h
      obtain ⟨hname, hafter⟩ :=
        append_cons_inj v.bank.bracket_not_mem_name w.bank.bracket_not_mem_name h
      have hclosed : ∀ u, Stops Char.isDigit (']' :: u) := stops_cons (by decide)
      obtain ⟨hindex, hrest⟩ := append_inj_of_stops (fun _ => isDigit_of_mem)
        (fun _ => isDigit_of_mem) (hclosed _) (hclosed _) hafter
      have hv : v = w := by
        rw [Variable.mk.injEq]
        exact ⟨Bank.name_inj (String.toList_inj.1 hname), UInt16.toNat_inj.1 (toDigits_inj hindex)⟩
      exact ⟨congrArg var hv, List.tail_eq_of_cons_eq hrest⟩
    | _ => cases hlead
  | unary op a ih =>
    cases b with
    | unary op' b =>
      rw [chars, chars, List.append_assoc, List.append_assoc] at h
      obtain ⟨rfl, hoperand⟩ := UnaryOp.symbol_append_inj h
      obtain ⟨rfl, hrest⟩ := ih hs ht hoperand (lead_of_chars_append hoperand)
      exact ⟨rfl, hrest⟩
    | _ => cases hlead
  | binary op left right ihl ihr =>
    cases b with
    | binary op' left' right' =>
      simp only [chars, List.cons_append, List.append_assoc, List.cons.injEq, true_and] at h
      have hblank : ∀ u, Stops Char.isDigit (' ' :: u) := stops_cons (by decide)
      obtain ⟨rfl, hafter⟩ := ihl (hblank _) (hblank _) h (lead_of_chars_append h)
      obtain ⟨hsymbol, hright⟩ := append_cons_inj op.blank_not_mem_symbol op'.blank_not_mem_symbol
        (List.tail_eq_of_cons_eq hafter)
      have hclosed : ∀ u, Stops Char.isDigit (')' :: u) := stops_cons (by decide)
      obtain ⟨rfl, hrest⟩ := ihr (hclosed _) (hclosed _) hright (lead_of_chars_append hright)
      rw [BinaryOp.symbol_inj (String.toList_inj.1 hsymbol)]
      exact ⟨rfl, List.tail_eq_of_cons_eq hrest⟩
    | _ => cases hlead

theorem chars_inj {a b : Reading} (h : a.chars = b.chars) : a = b := by
  have hend : a.chars ++ [] = b.chars ++ [] := by rw [h]
  exact (chars_append_inj (stops_nil _) (stops_nil _) hend).1

theorem ofInt_inj {m n : Int} (h : ofInt m = ofInt n) : m = n := by
  cases m with
  | ofNat m =>
    cases n with
    | ofNat n => cases h; rfl
    | negSucc n => cases h
  | negSucc m =>
    cases n with
    | ofNat n => cases h
    | negSucc n => cases h; rfl

theorem toString_int_inj {m n : Int} (h : toString m = toString n) : m = n := by
  have hchars := congrArg String.toList h
  rw [← chars_ofInt, ← chars_ofInt] at hchars
  exact ofInt_inj (chars_inj hchars)

theorem plain_chars (a : Reading) : Plain a.chars := by
  induction a with
  | number n => exact plain_toDigits n
  | var v =>
    have hname : Plain v.bank.name.toList := by cases v.bank <;> decide
    simp [chars, hname]
  | unary op a ih =>
    have hsymbol : Plain op.symbol.toList := by cases op <;> decide
    exact plain_append.2 ⟨hsymbol, ih⟩
  | binary op left right ihl ihr =>
    have hsymbol : Plain op.symbol.toList := by cases op <;> decide
    simp [chars, ihl, ihr, hsymbol]

end Reading

namespace Expr

theorem reading_of_text {a b : Expr} (h : a.text = b.text) : a.reading = b.reading := by
  have hchars := congrArg String.toList h
  rw [toList_text, toList_text] at hchars
  exact Reading.chars_inj hchars

/-- Trees of the same text have the same value. -/
theorem eval_of_text {a b : Expr} (h : a.text = b.text) (field : Field) (temps : Temps) :
    a.eval field temps = b.eval field temps := by
  rw [eval_reading, reading_of_text h, ← eval_reading]

end Expr

end FieldEngine
