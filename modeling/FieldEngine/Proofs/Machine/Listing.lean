import FieldEngine.Machine.Step
import FieldEngine.Proofs.Script.Listing

/-!
# Listings and execution

Two decoded programs with the same listing and the same length do the same, step by step. The
programs need not be equal: an operand may be a negative constant in one and the negation of a
number in the other. But a listing tells where every group starts, so that jumps lead to the same
instructions, and of each instruction the form and arguments, which fix its effect:

    i.form = j.form → i.arguments = j.arguments →
      execute ⟨p, owner, depth⟩ s i = execute ⟨q, owner, depth⟩ s j          (execute_of_arguments)

Main statement: `listing_faithful`.
-/

namespace FieldEngine

open Text

/-! ## Jumps -/

namespace Program

variable {p q : Program}

theorem getElem?_shown (p : Program) (k : Nat) :
    p.shown[k]? = p.entries[k]?.map fun entry => (entry.1, entry.2.text) := by
  rw [shown, List.getElem?_map, Array.getElem?_toList]

theorem size_of_shown (h : p.shown = q.shown) : p.size = q.size := by
  have hlength := congrArg List.length h
  simpa [shown, size] using hlength

theorem offsetOf?_of_shown (h : p.shown = q.shown) (k : Nat) : p.offsetOf? k = q.offsetOf? k := by
  have hshown : ∀ r : Program, r.offsetOf? k = r.shown[k]?.map Prod.fst := by
    intro r
    rw [getElem?_shown, Option.map_map]
    rfl
  rw [hshown, hshown, h]

theorem lastIndex?_of_shown (h : p.shown = q.shown) (offset bound : Nat) :
    p.lastIndex? offset bound = q.lastIndex? offset bound := by
  induction bound with
  | zero => rfl
  | succ k ih => rw [lastIndex?, lastIndex?, offsetOf?_of_shown h, ih]

theorem resolve?_of_shown (h : p.shown = q.shown) (hend : p.endOffset = q.endOffset)
    (target : Int) : p.resolve? target = q.resolve? target := by
  cases target with
  | ofNat offset => rw [resolve?, resolve?, hend, size_of_shown h, lastIndex?_of_shown h]
  | negSucc n => rfl

end Program

/-! ## Instructions -/

theorem ExecState.evaluating_of_text {a b : Expr} (h : a.text = b.text) (s : ExecState)
    (next : Int32 → StepResult) : s.evaluating a next = s.evaluating b next := by
  rw [evaluating, evaluating, Expr.eval_of_text h]

theorem eq_of_argument {name a b : String} (h : [(name, a)] = [(name, b)]) : a = b :=
  (Prod.mk.inj (List.cons.inj h).1).2

theorem eq_of_arguments {name name' a b a' b' : String}
    (h : [(name, a), (name', a')] = [(name, b), (name', b')]) : a = b ∧ a' = b' :=
  ⟨(Prod.mk.inj (List.cons.inj h).1).2, eq_of_argument (List.cons.inj h).2⟩

namespace Machine

open ExecState

/-- Instructions of the same form and arguments do the same, if jumps lead to the same indices. -/
theorem execute_of_arguments {p q : Program}
    (hjump : ∀ target, p.resolve? target = q.resolve? target) {i j : Instruction}
    (hform : i.form = j.form) (hargs : i.arguments = j.arguments)
    (owner : EntityId) (depth : Nat) (s : ExecState) :
    execute ⟨p, owner, depth⟩ s i = execute ⟨q, owner, depth⟩ s j := by
  have hresolve : resolve ⟨p, owner, depth⟩ = resolve ⟨q, owner, depth⟩ := by
    funext target
    rw [resolve, resolve, hjump]
  cases i with
  | nop =>
    cases j with
    | nop => rfl
    | _ => cases hform
  | ret =>
    cases j with
    | ret => rfl
    | _ => cases hform
  | halt =>
    cases j with
    | halt => rfl
    | _ => cases hform
  | placeholder opcode mnemonic args =>
    cases j with
    | placeholder opcode' mnemonic' args' => rfl
    | _ => cases hform
  | setPassable passable =>
    cases j with
    | setPassable passable' =>
      cases hform
      rfl
    | _ => cases hform
  | jump target =>
    cases j with
    | jump target' =>
      rw [execute, execute, hresolve, Reading.toString_int_inj (eq_of_argument hargs)]
    | _ => cases hform
  | call target =>
    cases j with
    | call target' =>
      rw [execute, execute, hresolve, Reading.toString_int_inj (eq_of_argument hargs)]
    | _ => cases hform
  | jumpIfZero condition target =>
    cases j with
    | jumpIfZero condition' target' =>
      obtain ⟨hcondition, htarget⟩ := eq_of_arguments hargs
      rw [execute, execute, hresolve, Reading.toString_int_inj htarget]
      exact evaluating_of_text hcondition s _
    | _ => cases hform
  | popTemp slot value =>
    cases j with
    | popTemp slot' value' =>
      obtain ⟨hslot, hvalue⟩ := eq_of_arguments hargs
      rw [execute, execute, UInt8.toNat_inj.1 (toString_nat_inj hslot)]
      exact evaluating_of_text hvalue s _
    | _ => cases hform
  | popMem v value =>
    cases j with
    | popMem v' value' =>
      obtain ⟨haddress, hvalue⟩ := eq_of_arguments hargs
      have hv : v = v' := by
        rw [Variable.mk.injEq]
        exact ⟨Form.popMem.inj hform, UInt16.toNat_inj.1 (toString_nat_inj haddress)⟩
      rw [execute, execute, hv]
      exact evaluating_of_text hvalue s _
    | _ => cases hform
  | setFlag flag value =>
    cases j with
    | setFlag flag' value' =>
      cases hform
      rw [UInt16.toNat_inj.1 (toString_nat_inj (eq_of_argument hargs))]
      rfl
    | _ => cases hform
  | wait frames =>
    cases j with
    | wait frames' => exact evaluating_of_text (eq_of_argument hargs) s _
    | _ => cases hform
  | message channel number =>
    cases j with
    | message channel' number' =>
      obtain ⟨hchannel, hnumber⟩ := eq_of_arguments hargs
      rw [execute, execute, evaluating_of_text hchannel]
      congr 1
      funext c
      exact evaluating_of_text hnumber s _
    | _ => cases hform
  | animate animation =>
    cases j with
    | animate animation' =>
      rw [UInt16.toNat_inj.1 (toString_nat_inj (eq_of_argument hargs))]
      rfl
    | _ => cases hform
  | random slot =>
    cases j with
    | random slot' =>
      rw [UInt8.toNat_inj.1 (toString_nat_inj (eq_of_argument hargs))]
      rfl
    | _ => cases hform

/-- **One step** is the same if the listings and the lengths are. -/
theorem step_of_shown {p q : Program} (hp : ∀ e ∈ p.entries, e.2.Listed)
    (hq : ∀ e ∈ q.entries, e.2.Listed) (h : p.shown = q.shown) (hend : p.endOffset = q.endOffset)
    (owner : EntityId) (depth : Nat) (s : ExecState) :
    step ⟨p, owner, depth⟩ s = step ⟨q, owner, depth⟩ s := by
  have hpc := p.getElem?_shown s.cursor.pc
  rw [h, q.getElem?_shown] at hpc
  rw [step, step, Program.get?, Program.get?]
  cases hentry : p.entries[s.cursor.pc]? with
  | none =>
    rw [hentry, Option.map_none, Option.map_eq_none_iff] at hpc
    rw [hpc]
    rfl
  | some entry =>
    rw [hentry, Option.map_some] at hpc
    obtain ⟨entry', hentry', heq⟩ := Option.map_eq_some_iff.1 hpc
    rw [hentry', Option.map_some, Option.map_some]
    obtain ⟨hform, hargs⟩ := Instruction.arguments_of_text (hp _ (Array.mem_of_getElem? hentry))
      (hq _ (Array.mem_of_getElem? hentry')) (Prod.mk.inj heq).2.symm
    exact execute_of_arguments (Program.resolve?_of_shown h hend) hform hargs owner depth s

end Machine

/-- **A listing tells what a program does.** Expressions of the same text have the same value, and
two programs that were decoded from any bytes, under any settings, and have the same listing and the
same length do the same in every step: for every owner and limit on calls, and from every cursor and
field, the step ends in the same way, with the same cursor and the same field. -/
theorem listing_faithful :
    (∀ a b : Expr, a.text = b.text → ∀ field temps, a.eval field temps = b.eval field temps) ∧
    ∀ (config config' : DecoderConfig) (name name' : String) (bytes bytes' : List UInt8)
      (p q : Program), decode config name bytes = .ok p → decode config' name' bytes' = .ok q →
      Listing.body p = Listing.body q → p.endOffset = q.endOffset →
      ∀ owner depth s, Machine.step ⟨p, owner, depth⟩ s = Machine.step ⟨q, owner, depth⟩ s := by
  constructor
  · intro a b h
    exact Expr.eval_of_text h
  · intro config config' name name' bytes bytes' p q hp hq hbody hend
    have hshown := Listing.shown_of_body (decode_listed hp) (decode_listed hq) hbody
    exact Machine.step_of_shown (decode_listed hp) (decode_listed hq) hshown hend

/-- A wait for a negative constant, pushed in two words, and a wait for the negation of a number are
different programs of the same listing and the same length. -/
theorem listing_faithful_negation :
    let p : Program := ⟨"constant", #[(0, .wait (.const (-5)))], 12⟩
    let q : Program := ⟨"negation", #[(0, .wait (.unary .neg (.const 5)))], 12⟩
    decode {} "constant" [0, 0, 32, 0, 251, 255, 255, 255, 0, 0, 35, 0] = .ok p ∧
    decode {} "negation" [5, 0, 7, 0, 5, 0, 1, 0, 0, 0, 35, 0] = .ok q ∧
    Listing.body p = "0x0000  [0]  WAIT(frames: -5)\n" ∧
    ∀ owner depth s, Machine.step ⟨p, owner, depth⟩ s = Machine.step ⟨q, owner, depth⟩ s := by
  intro p q
  have hp : decode {} "constant" [0, 0, 32, 0, 251, 255, 255, 255, 0, 0, 35, 0] = .ok p := rfl
  have hq : decode {} "negation" [5, 0, 7, 0, 5, 0, 1, 0, 0, 0, 35, 0] = .ok q := rfl
  have hbody : Listing.body p = Listing.body q := by decide +kernel
  exact ⟨hp, hq, by decide +kernel,
    listing_faithful.2 _ _ _ _ _ _ p q hp hq hbody rfl⟩

end FieldEngine
