import FieldEngine.Proofs.Script.StackMachine

/-!
# The operands of an instruction

An instruction word takes as many trees off the stack as its opcode has operands, those that were
pushed last, or it takes none. `decodeInstruction` has four outcomes, and each has its condition:

* the opcode is no instruction's: the stack stays (`decodeInstruction_unknown`);
* there are too few operands: the stack stays (`decodeInstruction_short`);
* a scratch slot is named that does not exist: the operands go (`decodeInstruction_full`);
* otherwise the operands go, and the instruction has them, in the order in which they were pushed.

The table says how many operands an opcode has, and apart from that each form of instruction picks
out its operands one at a time. `Opcode.draw` is that second reading: it goes through a list, and
nothing comes of it if the list runs out. On the operands that are taken off the stack it comes to
the same instruction and uses them all (`draw_eq`).

Main statement: `instruction_takes_operands`.
-/

namespace FieldEngine

/-! ## Operands one at a time -/

/-- What is made of operands that are taken from the front of a list. Nothing comes of it if an
operand is to be taken where none is left. -/
abbrev Draw := StateT (List Expr) Option

namespace Draw

def next : Draw Expr
  | [] => none
  | e :: rest => some (e, rest)

def all : Draw (List Expr) := fun args =>
  some (args, [])

end Draw

namespace Opcode

/-- The instruction of a form, which takes its operands one at a time. The parameter is looked at
first: no operand is taken for a scratch slot that does not exist. -/
def draw (o : Opcode) (parameter : Int16) (offset : Nat) :
    Form → Draw (Except DecodeError Instruction)
  | .nop => return .ok .nop
  | .jump => return .ok (.jump (jumpTarget parameter offset))
  | .jumpIfZero => return .ok (.jumpIfZero (← Draw.next) (jumpTarget parameter offset))
  | .call => return .ok (.call (jumpTarget parameter offset))
  | .ret => return .ok .ret
  | .popTemp =>
    match o.tempSlot parameter offset with
    | .error e => return .error e
    | .ok slot => return .ok (.popTemp slot (← Draw.next))
  | .popMem bank => return .ok (.popMem ⟨bank, parameter.toUInt16⟩ (← Draw.next))
  | .halt => return .ok .halt
  | .setFlag value => return .ok (.setFlag parameter.toUInt16 value)
  | .wait => return .ok (.wait (← Draw.next))
  | .message => do
    let channel ← Draw.next
    let number ← Draw.next
    return .ok (.message channel number)
  | .animate => return .ok (.animate parameter.toUInt16)
  | .random =>
    match o.tempSlot parameter offset with
    | .error e => return .error e
    | .ok slot => return .ok (.random slot)
  | .setPassable passable => return .ok (.setPassable passable)
  | .placeholder _ => return .ok (.placeholder o.code o.mnemonic (← Draw.all))

/-- **No form takes more operands than it has**, and one that becomes an instruction takes them
all. -/
theorem draw_eq (o : Opcode) (parameter : Int16) (offset : Nat) (form : Form)
    (args : Vector Expr form.arity) :
    (∃ i, o.build parameter offset form args = .ok i ∧
        o.draw parameter offset form args.toList = some (.ok i, [])) ∨
      ∃ e, o.build parameter offset form args = .error e ∧
        o.draw parameter offset form args.toList = some (.error e, args.toList) := by
  cases form with
  | jumpIfZero | popMem bank | wait =>
    have hargs : args.toList = _ := toList_one args
    rw [hargs]
    exact .inl ⟨_, rfl, rfl⟩
  | message =>
    have hargs : args.toList = _ := toList_two args
    rw [hargs]
    exact .inl ⟨_, rfl, rfl⟩
  | popTemp =>
    have hargs : args.toList = _ := toList_one args
    rw [hargs, draw, build]
    cases o.tempSlot parameter offset with
    | error e => exact .inr ⟨e, rfl, rfl⟩
    | ok slot => exact .inl ⟨_, rfl, rfl⟩
  | random =>
    have hargs : args.toList = _ := toList_zero args
    rw [hargs, draw, build]
    cases o.tempSlot parameter offset with
    | error e => exact .inr ⟨e, rfl, rfl⟩
    | ok slot => exact .inl ⟨_, rfl, rfl⟩
  | placeholder n => exact .inl ⟨_, rfl, rfl⟩
  | _ =>
    have hargs : args.toList = _ := toList_zero args
    rw [hargs]
    exact .inl ⟨_, rfl, rfl⟩

/-! ## Slots -/

/-- The opcode names a scratch slot by its parameter. -/
def namesSlot (o : Opcode) : Bool :=
  o.role == .instruction .popTemp || o.role == .instruction .random

theorem mnemonic_of_namesSlot :
    ∀ o ∈ table, o.namesSlot = true ↔ o.mnemonic = "POPI_L" ∨ o.mnemonic = "RND" := by
  decide

theorem tempSlot_cases (o : Opcode) (parameter : Int16) (offset : Nat) :
    ((0 ≤ parameter.toInt ∧ parameter.toInt < 8) ∧ ∃ slot, o.tempSlot parameter offset = .ok slot) ∨
      ¬(0 ≤ parameter.toInt ∧ parameter.toInt < 8) ∧
        ∃ reason, o.tempSlot parameter offset =
          .error (.invalidOperand offset o.mnemonic reason) := by
  unfold tempSlot
  split
  · rename_i hrange
    exact .inl ⟨hrange, _, rfl⟩
  · rename_i hrange
    exact .inr ⟨hrange, _, rfl⟩

/-- **An instruction is built**, unless it names a scratch slot that does not exist. -/
theorem build_cases {o : Opcode} {form : Form} (hrole : o.role = .instruction form)
    (parameter : Int16) (offset : Nat) (args : Vector Expr form.arity) :
    (¬(o.namesSlot = true ∧ ¬(0 ≤ parameter.toInt ∧ parameter.toInt < 8)) ∧
        ∃ i, o.build parameter offset form args = .ok i) ∨
      (o.namesSlot = true ∧ ¬(0 ≤ parameter.toInt ∧ parameter.toInt < 8)) ∧
        ∃ reason, o.build parameter offset form args =
          .error (.invalidOperand offset o.mnemonic reason) := by
  have hslot := o.tempSlot_cases parameter offset
  cases form with
  | popTemp | random =>
    have hnames : o.namesSlot = true := by simp [namesSlot, hrole]
    rcases hslot with ⟨hrange, slot, hslot⟩ | ⟨hrange, reason, hslot⟩
    · exact .inl ⟨fun h => h.2 hrange, _, by rw [build, hslot]; rfl⟩
    · exact .inr ⟨⟨hnames, hrange⟩, reason, by rw [build, hslot]; rfl⟩
  | _ =>
    have hnames : ¬o.namesSlot = true := by simp [namesSlot, hrole]
    exact .inl ⟨fun h => hnames h.1, _, rfl⟩

theorem arity?_eq_some_iff {o : Opcode} {n : Nat} :
    o.arity? = some n ↔ ∃ form, o.role = .instruction form ∧ form.arity = n := by
  unfold arity?
  cases o.role with
  | instruction form => simp
  | push kind => simp
  | operator => simp

end Opcode

/-- Operands that are there come off the stack. -/
theorem OperandStack.popN?_of_le {s : OperandStack} {n : Nat} (h : n ≤ s.depth) :
    ∃ args : Vector Expr n, args.toList = (s.nodes.take n).reverse ∧
      s.popN? n = some (args, { s with nodes := s.nodes.drop n }) := by
  unfold depth at h
  unfold popN?
  rw [dif_pos h]
  exact ⟨_, by simp [Vector.toList], rfl⟩

/-! ## Outcomes -/

section Outcomes

variable {opcode : UInt16} {o : Opcode} (parameter : Int16) (offset : Nat) {stack : OperandStack}

/-- An opcode that is not in the table, a push or an operator. -/
theorem decodeInstruction_unknown (h : Opcode.arityOf? opcode = none) (stack : OperandStack) :
    decodeInstruction opcode parameter offset stack =
      (.error (.unknownOpcode offset opcode), stack) := by
  unfold decodeInstruction
  cases ho : Opcode.ofCode? opcode with
  | none => rfl
  | some o =>
    rw [Opcode.arityOf?, ho, Option.bind_some, Opcode.arity?] at h
    cases hrole : o.role with
    | instruction form =>
      rw [hrole] at h
      cases h
    | push kind => simp only [hrole]
    | operator => simp only [hrole]

variable {form : Form} (ho : Opcode.ofCode? opcode = some o) (hrole : o.role = .instruction form)

include ho hrole

theorem decodeInstruction_short (h : stack.depth < form.arity) :
    decodeInstruction opcode parameter offset stack =
      (.error (.stackUnderflow offset o.mnemonic form.arity stack.depth), stack) := by
  rw [Pass.decodeInstruction_eq ho hrole, Opcode.take, OperandStack.popN?_eq_none_iff.2 h]

/-- Enough operands: they are gone afterwards, and the instruction is built of them. -/
theorem decodeInstruction_full (h : form.arity ≤ stack.depth) :
    ∃ args : Vector Expr form.arity, args.toList = (stack.nodes.take form.arity).reverse ∧
      decodeInstruction opcode parameter offset stack =
        (o.build parameter offset form args,
          { stack with nodes := stack.nodes.drop form.arity }) := by
  obtain ⟨args, hargs, hpop⟩ := OperandStack.popN?_of_le h
  refine ⟨args, hargs, ?_⟩
  rw [Pass.decodeInstruction_eq ho hrole, Opcode.take, hpop]

end Outcomes

/-- An opcode has a number of operands exactly if it is an instruction's. -/
theorem Opcode.arityOf?_eq_some_iff {opcode : UInt16} {n : Nat} :
    arityOf? opcode = some n ↔
      ∃ o form, ofCode? opcode = some o ∧ o.role = .instruction form ∧ form.arity = n := by
  rw [arityOf?, Option.bind_eq_some_iff]
  simp only [arity?_eq_some_iff]
  constructor
  · rintro ⟨o, ho, form, hrole, hn⟩
    exact ⟨o, form, ho, hrole, hn⟩
  · rintro ⟨o, form, ho, hrole, hn⟩
    exact ⟨o, ho, form, hrole, hn⟩

theorem Opcode.arityOf?_eq_none_iff {opcode : UInt16} :
    arityOf? opcode = none ↔
      ∀ o, ofCode? opcode = some o → o.role = .operator ∨ ∃ kind, o.role = .push kind := by
  rw [arityOf?, Option.bind_eq_none_iff]
  refine forall_congr' fun o => imp_congr_right fun _ => ?_
  unfold arity?
  cases o.role with
  | instruction form => simp
  | push kind => simp
  | operator => simp

/-- **The outcomes** of an instruction word: its opcode is no instruction's, or it finds too few
operands, or an instruction is built of those that it finds. -/
theorem decodeInstruction_cases (opcode : UInt16) (parameter : Int16) (offset : Nat)
    (stack : OperandStack) :
    (Opcode.arityOf? opcode = none ∧ decodeInstruction opcode parameter offset stack =
        (.error (.unknownOpcode offset opcode), stack)) ∨
      ∃ o form, Opcode.ofCode? opcode = some o ∧ o.role = .instruction form ∧
        ((stack.depth < form.arity ∧ decodeInstruction opcode parameter offset stack =
            (.error (.stackUnderflow offset o.mnemonic form.arity stack.depth), stack)) ∨
          (form.arity ≤ stack.depth ∧ ∃ args : Vector Expr form.arity,
            args.toList = (stack.nodes.take form.arity).reverse ∧
            decodeInstruction opcode parameter offset stack = (o.build parameter offset form args,
              { stack with nodes := stack.nodes.drop form.arity }))) := by
  cases h : Opcode.arityOf? opcode with
  | none => exact .inl ⟨rfl, decodeInstruction_unknown parameter offset h stack⟩
  | some n =>
    obtain ⟨o, form, ho, hrole, -⟩ := Opcode.arityOf?_eq_some_iff.1 h
    refine .inr ⟨o, form, ho, hrole, ?_⟩
    by_cases hshort : stack.depth < form.arity
    · exact .inl ⟨hshort, decodeInstruction_short parameter offset ho hrole hshort⟩
    · have hfull : form.arity ≤ stack.depth := by omega
      exact .inr ⟨hfull, decodeInstruction_full parameter offset ho hrole hfull⟩

section

variable {opcode : UInt16} {o : Opcode} {parameter : Int16} {offset n : Nat} {stack : OperandStack}

theorem decodeInstruction_ok {i : Instruction}
    (h : (decodeInstruction opcode parameter offset stack).1 = .ok i) :
    ∃ n, Opcode.arityOf? opcode = some n ∧ n ≤ stack.depth ∧
      i.operands = (stack.nodes.take n).reverse ∧
      (decodeInstruction opcode parameter offset stack).2 =
        { stack with nodes := stack.nodes.drop n } := by
  rcases decodeInstruction_cases opcode parameter offset stack with ⟨-, hdecode⟩ |
    ⟨o, form, ho, hrole, ⟨-, hdecode⟩ | ⟨hfull, args, hargs, hdecode⟩⟩
  · cases h.symm.trans (congrArg Prod.fst hdecode)
  · cases h.symm.trans (congrArg Prod.fst hdecode)
  · have hbuild : o.build parameter offset form args = .ok i :=
      (congrArg Prod.fst hdecode).symm.trans h
    exact ⟨form.arity, Opcode.arityOf?_eq_some_iff.2 ⟨o, form, ho, hrole, rfl⟩, hfull,
      (Opcode.build_operands hbuild).trans hargs, congrArg Prod.snd hdecode⟩

/-- Each of the three errors with what it says and what it leaves of the stack. -/
theorem decodeInstruction_error {e : DecodeError}
    (h : (decodeInstruction opcode parameter offset stack).1 = .error e) :
    let after := (decodeInstruction opcode parameter offset stack).2
    (e = .unknownOpcode offset opcode ∧ Opcode.arityOf? opcode = none ∧ after = stack) ∨
    (∃ o n, Opcode.ofCode? opcode = some o ∧ o.arity? = some n ∧ stack.depth < n ∧
      e = .stackUnderflow offset o.mnemonic n stack.depth ∧ after = stack) ∨
    ∃ o n reason, Opcode.ofCode? opcode = some o ∧ o.arity? = some n ∧ n ≤ stack.depth ∧
      (o.mnemonic = "POPI_L" ∨ o.mnemonic = "RND") ∧
      ¬(0 ≤ parameter.toInt ∧ parameter.toInt < 8) ∧
      e = .invalidOperand offset o.mnemonic reason ∧
      after = { stack with nodes := stack.nodes.drop n } := by
  rcases decodeInstruction_cases opcode parameter offset stack with ⟨hnone, hdecode⟩ |
    ⟨o, form, ho, hrole, ⟨hshort, hdecode⟩ | ⟨hfull, args, -, hdecode⟩⟩
  · have hunknown := h.symm.trans (congrArg Prod.fst hdecode)
    exact .inl ⟨Except.error.inj hunknown, hnone, congrArg Prod.snd hdecode⟩
  · have hunderflow := h.symm.trans (congrArg Prod.fst hdecode)
    exact .inr (.inl ⟨o, form.arity, ho, Opcode.arity?_eq_some_iff.2 ⟨form, hrole, rfl⟩, hshort,
      Except.error.inj hunderflow, congrArg Prod.snd hdecode⟩)
  · have hbuild : o.build parameter offset form args = .error e :=
      (congrArg Prod.fst hdecode).symm.trans h
    rcases Opcode.build_cases hrole parameter offset args with ⟨-, i, hi⟩ |
      ⟨⟨hnames, hrange⟩, reason, hinvalid⟩
    · cases hbuild.symm.trans hi
    · have hmnemonic := (Opcode.mnemonic_of_namesSlot o (Opcode.ofCode?_eq_some ho).1).1 hnames
      exact .inr (.inr ⟨o, form.arity, reason, ho, Opcode.arity?_eq_some_iff.2 ⟨form, hrole, rfl⟩,
        hfull, hmnemonic, hrange, Except.error.inj (hbuild.symm.trans hinvalid),
        congrArg Prod.snd hdecode⟩)

/-- A scratch slot that does not exist is refused when the operands are there. -/
theorem decodeInstruction_invalid (ho : Opcode.ofCode? opcode = some o) (hn : o.arity? = some n)
    (hfull : n ≤ stack.depth) (hmnemonic : o.mnemonic = "POPI_L" ∨ o.mnemonic = "RND")
    (hrange : ¬(0 ≤ parameter.toInt ∧ parameter.toInt < 8)) :
    ∃ reason, (decodeInstruction opcode parameter offset stack).1 =
      .error (.invalidOperand offset o.mnemonic reason) := by
  obtain ⟨form, hrole, rfl⟩ := Opcode.arity?_eq_some_iff.1 hn
  obtain ⟨args, -, hdecode⟩ := decodeInstruction_full parameter offset ho hrole hfull
  have hnames := (Opcode.mnemonic_of_namesSlot o (Opcode.ofCode?_eq_some ho).1).2 hmnemonic
  rcases Opcode.build_cases hrole parameter offset args with ⟨hfine, -⟩ | ⟨-, reason, hinvalid⟩
  · exact absurd ⟨hnames, hrange⟩ hfine
  · exact ⟨reason, (congrArg Prod.fst hdecode).trans hinvalid⟩

/-- Operands that are there can be picked out one at a time. -/
theorem decodeInstruction_draw {form : Form} (ho : Opcode.ofCode? opcode = some o)
    (hrole : o.role = .instruction form) (hfull : form.arity ≤ stack.depth) :
    let result := (decodeInstruction opcode parameter offset stack).1
    ∃ left, o.draw parameter offset form (stack.nodes.take form.arity).reverse =
        some (result, left) ∧
      ∀ i, result = .ok i → left = [] := by
  intro result
  obtain ⟨args, hargs, hdecode⟩ := decodeInstruction_full parameter offset ho hrole hfull
  have hresult : result = o.build parameter offset form args := congrArg Prod.fst hdecode
  rw [← hargs, hresult]
  rcases o.draw_eq parameter offset form args with ⟨i, hbuild, hdraw⟩ | ⟨e, hbuild, hdraw⟩
  · rw [hbuild]
    exact ⟨[], hdraw, fun _ _ => rfl⟩
  · rw [hbuild]
    exact ⟨_, hdraw, nofun⟩

end

/-- **An instruction word takes its operands or none.** An instruction that is made has for its
operands the trees pushed last, as many as the opcode asks for and in the order in which they were
pushed, and the stack has all but these. There are three errors. An opcode that is no instruction's
(one not in the table, a push or an operator) is unknown, and leaves the stack as it is; so does an
underflow, which there is exactly if there are fewer trees than the opcode asks for. An operand is
invalid exactly for a pop to a scratch slot or a random number whose parameter is not a slot, if the
trees that the opcode asks for are there, and these are taken. If they are there, then whatever the
opcode, picking them out one at a time never finds the list empty; it comes to the same, and leaves
none over if an instruction is made. -/
theorem instruction_takes_operands (opcode : UInt16) (parameter : Int16) (offset : Nat)
    (stack : OperandStack) :
    let result := (decodeInstruction opcode parameter offset stack).1
    let after := (decodeInstruction opcode parameter offset stack).2
    (∀ i, result = .ok i → ∃ n, Opcode.arityOf? opcode = some n ∧ n ≤ stack.depth ∧
      i.operands = (stack.nodes.take n).reverse ∧
      after = { stack with nodes := stack.nodes.drop n }) ∧
    (∀ e, result = .error e →
      (e = .unknownOpcode offset opcode ∧ Opcode.arityOf? opcode = none ∧ after = stack) ∨
      (∃ o n, Opcode.ofCode? opcode = some o ∧ o.arity? = some n ∧ stack.depth < n ∧
        e = .stackUnderflow offset o.mnemonic n stack.depth ∧ after = stack) ∨
      ∃ o n reason, Opcode.ofCode? opcode = some o ∧ o.arity? = some n ∧ n ≤ stack.depth ∧
        (o.mnemonic = "POPI_L" ∨ o.mnemonic = "RND") ∧
        ¬(0 ≤ parameter.toInt ∧ parameter.toInt < 8) ∧
        e = .invalidOperand offset o.mnemonic reason ∧
        after = { stack with nodes := stack.nodes.drop n }) ∧
    (Opcode.arityOf? opcode = none ↔
      ∀ o, Opcode.ofCode? opcode = some o → o.role = .operator ∨ ∃ kind, o.role = .push kind) ∧
    (Opcode.arityOf? opcode = none → result = .error (.unknownOpcode offset opcode)) ∧
    (∀ o n, Opcode.ofCode? opcode = some o → o.arity? = some n → stack.depth < n →
      result = .error (.stackUnderflow offset o.mnemonic n stack.depth)) ∧
    (∀ o n, Opcode.ofCode? opcode = some o → o.arity? = some n → n ≤ stack.depth →
      o.mnemonic = "POPI_L" ∨ o.mnemonic = "RND" → ¬(0 ≤ parameter.toInt ∧ parameter.toInt < 8) →
      ∃ reason, result = .error (.invalidOperand offset o.mnemonic reason)) ∧
    ∀ o form, Opcode.ofCode? opcode = some o → o.role = .instruction form →
      form.arity ≤ stack.depth →
      ∃ left, o.draw parameter offset form (stack.nodes.take form.arity).reverse =
          some (result, left) ∧
        ∀ i, result = .ok i → left = [] := by
  intro result after
  refine ⟨fun i hi => decodeInstruction_ok hi, fun e he => decodeInstruction_error he,
    Opcode.arityOf?_eq_none_iff, ?_, ?_, ?_, ?_⟩
  · intro hnone
    exact congrArg Prod.fst (decodeInstruction_unknown parameter offset hnone stack)
  · intro o n ho hn hshort
    obtain ⟨form, hrole, rfl⟩ := Opcode.arity?_eq_some_iff.1 hn
    exact congrArg Prod.fst (decodeInstruction_short parameter offset ho hrole hshort)
  · intro o n ho hn hfull hmnemonic hrange
    exact decodeInstruction_invalid ho hn hfull hmnemonic hrange
  · intro o form ho hrole hfull
    exact decodeInstruction_draw ho hrole hfull

/-- A message on a stack of three trees takes the last two; a pop to slot eight takes its operand
and is refused; a shake of the screen, which has five operands, finds too few; a literal is no
instruction. -/
theorem instruction_takes_operands_three :
    let stack : OperandStack := ⟨3, [.const 30, .const 20, .const 10]⟩
    decodeInstruction 0x24 0 8 stack =
        (.ok (.message (.const 20) (.const 30)), ⟨3, [.const 10]⟩) ∧
      (Instruction.message (.const 20) (.const 30)).operands = (stack.nodes.take 2).reverse ∧
      (∃ reason,
        (decodeInstruction 0x09 8 8 stack).1 = .error (.invalidOperand 8 "POPI_L" reason)) ∧
      (decodeInstruction 0x09 8 8 stack).2 = ⟨3, [.const 20, .const 10]⟩ ∧
      (decodeInstruction 0x44 0 8 stack).1 = .error (.stackUnderflow 8 "SHAKE" 5 3) ∧
      (decodeInstruction 0x07 0 8 stack).1 = .error (.unknownOpcode 8 0x07) := by
  intro stack
  obtain ⟨hok, -⟩ := instruction_takes_operands 0x24 0 8 stack
  obtain ⟨n, hn, -, hoperands, -⟩ := hok (.message (.const 20) (.const 30)) rfl
  obtain ⟨-, -, -, -, hshort, -⟩ := instruction_takes_operands 0x44 0 8 stack
  obtain ⟨-, -, -, -, -, hslot, -⟩ := instruction_takes_operands 0x09 8 8 stack
  obtain ⟨-, -, -, hunknown, -⟩ := instruction_takes_operands 0x07 0 8 stack
  cases hn
  exact ⟨rfl, hoperands, hslot _ 1 rfl rfl (by decide) (.inl rfl) (by decide), rfl,
    hshort _ 5 rfl rfl (by decide), hunknown rfl⟩

end FieldEngine
