import Mathlib.Data.Int.ModEq
import FieldEngine.Script.Expr

/-!
# Exact arithmetic

Negations, sums, differences and products wrap at every node of a tree, yet the value is right
modulo `2 ^ 32` however deep the tree: that of the same tree over integers without bounds. Quotient
and remainder do not depend on what wraps around them, since their operands are words already. They
are those of division toward zero (`Truncated`), but for the one quotient that no word holds.

    p.toExpr.eval field temps = .ok v → v.toInt ≡ p.exact leaf [ZMOD 2 ^ 32]     (eval_modEq)
    b ≠ 0 → Truncated a b (a / b) (a % b)                                         (truncated)
    e.eval field temps = e'.eval field temps →
      (c.fill e).eval field temps = (c.fill e').eval field temps            (eval_fill_congr)

Main statement: `arithmetic_exact`.
-/

namespace FieldEngine

/-! ## Trees of sums and products -/

/-- A tree of constants, variables, negations, sums, differences and products. -/
inductive Polynomial
  | const (value : Int32)
  | var (v : Variable)
  | neg (a : Polynomial)
  | add (a b : Polynomial)
  | sub (a b : Polynomial)
  | mul (a b : Polynomial)

namespace Polynomial

def toExpr : Polynomial → Expr
  | const value => .const value
  | var v => .var v
  | neg a => .unary .neg a.toExpr
  | add a b => .binary .add a.toExpr b.toExpr
  | sub a b => .binary .sub a.toExpr b.toExpr
  | mul a b => .binary .mul a.toExpr b.toExpr

def leaves : Polynomial → List Variable
  | const _ => []
  | var v => [v]
  | neg a => a.leaves
  | add a b | sub a b | mul a b => a.leaves ++ b.leaves

/-- The value over integers without bounds, for given values of the variables. -/
def exact (leaf : Variable → Int) : Polynomial → Int
  | const value => value.toInt
  | var v => leaf v
  | neg a => -a.exact leaf
  | add a b => a.exact leaf + b.exact leaf
  | sub a b => a.exact leaf - b.exact leaf
  | mul a b => a.exact leaf * b.exact leaf

end Polynomial

theorem bmod_modEq (n : Int) : n.bmod (2 ^ 32) ≡ n [ZMOD 2 ^ 32] :=
  Int.bmod_emod

namespace Expr

variable {field : Field} {temps : Temps}

theorem eval_unary {op : UnaryOp} {e : Expr} {v : Int32} :
    (Expr.unary op e).eval field temps = .ok v ↔
      ∃ a, e.eval field temps = .ok a ∧ op.apply a = v := by
  rw [eval]
  cases e.eval field temps with
  | error f => exact ⟨nofun, nofun⟩
  | ok a => simp [Except.map]

/-- The operands of a node with two operands have values, if the node has one. -/
theorem eval_binary {op : BinaryOp} {l r : Expr} {v : Int32} :
    (Expr.binary op l r).eval field temps = .ok v ↔
      ∃ a b, l.eval field temps = .ok a ∧ r.eval field temps = .ok b ∧ op.apply a b = .ok v := by
  rw [eval]
  cases l.eval field temps with
  | error f => simp [bind, Except.bind]
  | ok a =>
    cases r.eval field temps with
    | error f => simp [bind, Except.bind]
    | ok b => simp [bind, Except.bind]

theorem eval_binary_of_ok {op : BinaryOp} {l r : Expr} {a b : Int32}
    (hl : l.eval field temps = .ok a) (hr : r.eval field temps = .ok b) :
    (Expr.binary op l r).eval field temps = op.apply a b := by
  rw [eval, hl, hr]
  rfl

end Expr

namespace Polynomial

variable {field : Field} {temps : Temps}

/-- **Sums and products are exact modulo `2 ^ 32`**, for values that agree with the variables. -/
theorem eval_modEq {leaf : Variable → Int}
    (hleaf : ∀ x w, Expr.load field temps x = .ok w → leaf x = w.toInt) (p : Polynomial) {v : Int32}
    (h : p.toExpr.eval field temps = .ok v) : v.toInt ≡ p.exact leaf [ZMOD 2 ^ 32] := by
  induction p generalizing v with
  | const value =>
    cases h
    rfl
  | var x =>
    rw [exact, hleaf x v h]
  | neg a iha =>
    obtain ⟨x, hx, rfl⟩ := Expr.eval_unary.1 h
    rw [UnaryOp.apply, Int32.toInt_neg]
    exact (bmod_modEq _).trans (iha hx).neg
  | add a b iha ihb =>
    obtain ⟨x, y, hx, hy, ⟨⟩⟩ := Expr.eval_binary.1 h
    rw [Int32.toInt_add]
    exact (bmod_modEq _).trans ((iha hx).add (ihb hy))
  | sub a b iha ihb =>
    obtain ⟨x, y, hx, hy, ⟨⟩⟩ := Expr.eval_binary.1 h
    rw [Int32.toInt_sub]
    exact (bmod_modEq _).trans ((iha hx).sub (ihb hy))
  | mul a b iha ihb =>
    obtain ⟨x, y, hx, hy, ⟨⟩⟩ := Expr.eval_binary.1 h
    rw [Int32.toInt_mul]
    exact (bmod_modEq _).trans ((iha hx).mul (ihb hy))

/-- A sum or product has a value as soon as its variables have. -/
theorem eval_ok (p : Polynomial)
    (h : ∀ x ∈ p.leaves, ∃ w, Expr.load field temps x = .ok w) :
    ∃ v, p.toExpr.eval field temps = .ok v := by
  induction p with
  | const value => exact ⟨value, rfl⟩
  | var x => exact h x List.mem_cons_self
  | neg a iha =>
    obtain ⟨x, hx⟩ := iha h
    exact ⟨-x, Expr.eval_unary.2 ⟨x, hx, rfl⟩⟩
  | add a b iha ihb | sub a b iha ihb | mul a b iha ihb =>
    obtain ⟨x, hx⟩ := iha fun v hv => h v (List.mem_append_left _ hv)
    obtain ⟨y, hy⟩ := ihb fun v hv => h v (List.mem_append_right _ hv)
    exact ⟨_, Expr.eval_binary.2 ⟨x, y, hx, hy, rfl⟩⟩

end Polynomial

/-! ## Quotients and remainders -/

/-- `q` and `r` are quotient and remainder of `a` by `b`, rounded toward zero. Of all words only the
least one has a quotient that is not a word, by minus one. -/
structure Truncated (a b q r : Int32) : Prop where
  exact : ¬(a.toInt = -2 ^ 31 ∧ b.toInt = -1) → a.toInt = q.toInt * b.toInt + r.toInt
  wrapped : a.toInt = -2 ^ 31 → b.toInt = -1 → q.toInt = -2 ^ 31 ∧ r.toInt = 0
  remainder_lt : r.toInt.natAbs < b.toInt.natAbs
  remainder_sign : r.toInt = 0 ∨ r.toInt.sign = a.toInt.sign

theorem toInt_ne_zero {b : Int32} (hb : b ≠ 0) : b.toInt ≠ 0 := by
  intro h
  exact hb (Int32.toInt_inj.1 h)

/-- The quotient is exact unless the least word is divided by minus one. -/
theorem toInt_div {a b : Int32} (h : ¬(a.toInt = -2 ^ 31 ∧ b.toInt = -1)) :
    (a / b).toInt = a.toInt.tdiv b.toInt := by
  by_cases ha : a = Int32.minValue
  · apply Int32.toInt_div_of_ne_right
    rintro rfl
    subst ha
    exact h ⟨by decide, by decide⟩
  · exact Int32.toInt_div_of_ne_left a b ha

theorem truncated (a : Int32) {b : Int32} (hb : b ≠ 0) : Truncated a b (a / b) (a % b) where
  exact h := by
    rw [toInt_div h, Int32.toInt_mod, Int.mul_comm, Int.mul_tdiv_add_tmod]
  wrapped ha hb := by
    have ha' : a = Int32.minValue := Int32.toInt_inj.1 ha
    have hb' : b = -1 := Int32.toInt_inj.1 hb
    subst ha' hb'
    decide
  remainder_lt := by
    rw [Int32.toInt_mod, Int.natAbs_tmod]
    exact Nat.mod_lt _ (Int.natAbs_pos.2 (toInt_ne_zero hb))
  remainder_sign := by
    rw [Int32.toInt_mod, Int.sign_tmod]
    split
    · rename_i hdvd
      exact .inl (Int.tmod_eq_zero_of_dvd hdvd)
    · exact .inr rfl

/-- An operator with two operands has a value, unless it divides by zero. -/
theorem BinaryOp.apply_cases (op : BinaryOp) (a b : Int32) :
    (∃ v, op.apply a b = .ok v) ∨
      ((op = .div ∨ op = .mod) ∧ b = 0 ∧ op.apply a b = .error .divisionByZero) := by
  cases op with
  | div =>
    by_cases hb : b = 0
    · exact .inr ⟨.inl rfl, hb, if_pos hb⟩
    · exact .inl ⟨_, if_neg hb⟩
  | mod =>
    by_cases hb : b = 0
    · exact .inr ⟨.inr rfl, hb, if_pos hb⟩
    · exact .inl ⟨_, if_neg hb⟩
  | _ => exact .inl ⟨_, rfl⟩

/-! ## Nodes in their trees -/

/-- A tree in which one place is open. -/
inductive OpenExpr
  | here
  | unary (op : UnaryOp) (c : OpenExpr)
  | left (op : BinaryOp) (c : OpenExpr) (other : Expr)
  | right (op : BinaryOp) (other : Expr) (c : OpenExpr)

namespace OpenExpr

/-- The tree with another one in the open place. -/
def fill (e : Expr) : OpenExpr → Expr
  | here => e
  | unary op c => .unary op (c.fill e)
  | left op c other => .binary op (c.fill e) other
  | right op other c => .binary op other (c.fill e)

/-- All that is evaluated before the open place has a value. -/
def Reached (field : Field) (temps : Temps) : OpenExpr → Prop
  | here => True
  | unary _ c | left _ c _ => c.Reached field temps
  | right _ other c => (∃ v, other.eval field temps = .ok v) ∧ c.Reached field temps

variable {field : Field} {temps : Temps}

theorem eval_fill_congr {e e' : Expr} (h : e.eval field temps = e'.eval field temps)
    (c : OpenExpr) : (c.fill e).eval field temps = (c.fill e').eval field temps := by
  induction c with
  | here => exact h
  | unary op c ih => rw [fill, fill, Expr.eval, Expr.eval, ih]
  | left op c other ih => rw [fill, fill, Expr.eval, Expr.eval, ih]
  | right op other c ih => rw [fill, fill, Expr.eval, Expr.eval, ih]

/-- A fault in a place that is reached is the fault of the whole tree. -/
theorem eval_fill_error {e : Expr} {f : Fault} (h : e.eval field temps = .error f) {c : OpenExpr}
    (hc : c.Reached field temps) : (c.fill e).eval field temps = .error f := by
  induction c with
  | here => exact h
  | unary op c ih =>
    rw [fill, Expr.eval, ih hc]
    rfl
  | left op c other ih =>
    rw [fill, Expr.eval, ih hc]
    rfl
  | right op other c ih =>
    obtain ⟨⟨v, hv⟩, hrest⟩ := hc
    rw [fill, Expr.eval, hv, ih hrest]
    rfl

end OpenExpr

namespace Expr

variable {field : Field} {temps : Temps} {x y : Expr} {a b : Int32}

/-- A quotient or remainder of operands that have values faults exactly if it divides by zero. -/
theorem eval_divides (hx : x.eval field temps = .ok a) (hy : y.eval field temps = .ok b)
    {op : BinaryOp} (hop : op = .div ∨ op = .mod) :
    (Expr.binary op x y).eval field temps = .error .divisionByZero ↔ b = 0 := by
  rw [eval_binary_of_ok hx hy]
  by_cases hb : b = 0
  · rcases hop with rfl | rfl
    · exact ⟨fun _ => hb, fun _ => if_pos hb⟩
    · exact ⟨fun _ => hb, fun _ => if_pos hb⟩
  · rcases op.apply_cases a b with ⟨v, hv⟩ | ⟨-, hzero, -⟩
    · rw [hv]
      exact ⟨nofun, fun h => absurd h hb⟩
    · exact absurd hzero hb

theorem eval_truncated (hx : x.eval field temps = .ok a) (hy : y.eval field temps = .ok b)
    (hb : b ≠ 0) :
    ∃ q r, (Expr.binary .div x y).eval field temps = .ok q ∧
      (Expr.binary .mod x y).eval field temps = .ok r ∧ Truncated a b q r := by
  refine ⟨a / b, a % b, ?_, ?_, truncated a hb⟩
  · rw [eval_binary_of_ok hx hy]
    exact if_neg hb
  · rw [eval_binary_of_ok hx hy]
    exact if_neg hb

/-- **Arithmetic is exact.** A tree of sums and products has a value if its variables have, which is
a word and congruent modulo `2 ^ 32` to the value of the tree over integers without bounds. A
quotient or remainder of operands `a` and `b` faults exactly if `b` is zero, and then so does every
tree in which it is reached; otherwise both are those of division toward zero, and the tree has the
value that it has with the result in its place. At operands that have values, no operator does
anything else. -/
theorem arithmetic_exact (field : Field) (temps : Temps) :
    (∀ p : Polynomial,
      ((∀ x ∈ p.leaves, ∃ w, load field temps x = .ok w) →
        ∃ v, p.toExpr.eval field temps = .ok v) ∧
      ∀ v, p.toExpr.eval field temps = .ok v → ∀ leaf : Variable → Int,
        (∀ x w, load field temps x = .ok w → leaf x = w.toInt) →
        -2 ^ 31 ≤ v.toInt ∧ v.toInt < 2 ^ 31 ∧ v.toInt ≡ p.exact leaf [ZMOD 2 ^ 32]) ∧
    (∀ (x y : Expr) (a b : Int32), x.eval field temps = .ok a → y.eval field temps = .ok b →
      (b ≠ 0 → ∃ q r, (binary .div x y).eval field temps = .ok q ∧
        (binary .mod x y).eval field temps = .ok r ∧ Truncated a b q r) ∧
      ∀ op, op = .div ∨ op = .mod →
        ((binary op x y).eval field temps = .error .divisionByZero ↔ b = 0) ∧
        ∀ c : OpenExpr,
          (b = 0 → c.Reached field temps →
            (c.fill (binary op x y)).eval field temps = .error .divisionByZero) ∧
          ∀ v, (binary op x y).eval field temps = .ok v →
            (c.fill (binary op x y)).eval field temps = (c.fill (const v)).eval field temps) ∧
    (∀ op x a, eval field temps x = .ok a → ∃ v, (unary op x).eval field temps = .ok v) ∧
    ∀ op x y a b, eval field temps x = .ok a → eval field temps y = .ok b →
      (∃ v, (binary op x y).eval field temps = .ok v) ∨
        ((op = .div ∨ op = .mod) ∧ b = 0 ∧
          (binary op x y).eval field temps = .error .divisionByZero) := by
  refine ⟨?_, ?_, ?_, ?_⟩
  · intro p
    refine ⟨p.eval_ok, fun v hv leaf hleaf => ?_⟩
    exact ⟨v.le_toInt, v.toInt_lt, p.eval_modEq hleaf hv⟩
  · intro x y a b hx hy
    refine ⟨eval_truncated hx hy, fun op hop => ⟨eval_divides hx hy hop, fun c => ⟨?_, ?_⟩⟩⟩
    · intro hb hc
      exact OpenExpr.eval_fill_error ((eval_divides hx hy hop).2 hb) hc
    · intro v hv
      exact OpenExpr.eval_fill_congr hv c
  · intro op x a hx
    exact ⟨op.apply a, eval_unary.2 ⟨a, hx, rfl⟩⟩
  · intro op x y a b hx hy
    rw [eval_binary_of_ok hx hy]
    exact op.apply_cases a b

/-- A case of the least word: it is its own negation, its square wraps to zero, and its quotient by
minus one wraps. The last slot that a variable may name holds it; a remainder by zero after it is
reached. -/
theorem arithmetic_exact_least :
    let field := Field.empty 0 4
    let temps : Temps := #v[0, 0, 0, 0, 0, 0, 0, -2147483648]
    let least : Variable := ⟨.temp, 7⟩
    let p : Polynomial := .sub (.mul (.var least) (.var least)) (.neg (.var least))
    let c : OpenExpr := .right .add (var least) (.unary .not .here)
    p.toExpr.eval field temps = .ok (-2147483648) ∧
      ((-2147483648 : Int32).toInt ≡ 2 ^ 62 - 2 ^ 31 [ZMOD 2 ^ 32]) ∧
      (∃ q r, (binary .div (var least) (const (-1))).eval field temps = .ok q ∧
        (binary .mod (var least) (const (-1))).eval field temps = .ok r ∧
        q.toInt = -2 ^ 31 ∧ r.toInt = 0) ∧
      (c.fill (binary .mod (var least) (const 0))).eval field temps = .error .divisionByZero := by
  intro field temps least p c
  obtain ⟨hexact, hdivides, -, -⟩ := arithmetic_exact field temps
  have hleast : (var least).eval field temps = .ok (-2147483648) := by decide
  have hp : p.toExpr.eval field temps = .ok (-2147483648) := by decide
  refine ⟨hp, ?_, ?_, ?_⟩
  · let leaf : Variable → Int := fun x =>
      match load field temps x with
      | .ok w => w.toInt
      | .error _ => 0
    have hleaf : ∀ x w, load field temps x = .ok w → leaf x = w.toInt := by
      intro x w hw
      simp only [leaf, hw]
    exact ((hexact p).2 _ hp leaf hleaf).2.2
  · obtain ⟨q, r, hq, hr, htruncated⟩ := (hdivides _ (const (-1)) _ _ hleast rfl).1 (by decide)
    exact ⟨q, r, hq, hr, htruncated.wrapped (by decide) (by decide)⟩
  · obtain ⟨-, hzero⟩ := hdivides _ (const 0) _ _ hleast rfl
    exact ((hzero .mod (.inr rfl)).2 c).1 rfl ⟨⟨_, hleast⟩, trivial⟩

end Expr

end FieldEngine
