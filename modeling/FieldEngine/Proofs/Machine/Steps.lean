import FieldEngine.Machine.Step
import FieldEngine.Proofs.Field.Refusals

/-!
# What a step can do

A step goes on, waits, ends or faults, and only an instruction can do anything but end
(`Machine.step_kind`). A step that ends changes nothing; a wait for a timer never has a negative
number of frames. A fault has one of nine causes, each of which says what state the fault leaves
(`Machine.FaultsWith`):

    m.step s = (.error f, t) →
      ∃ i, m.program.get? s.cursor.pc = some i ∧ m.FaultsWith s i f t                (step_fault)

All of them leave it as it was but one (`FaultsWith.leaves`).
-/

namespace FieldEngine

/-! ## Attempts -/

namespace ExecState

variable {s t : ExecState} {f : Fault} {stop : Step}

theorem attempt_ok {α : Type} {r : Except Fault α} {next : α → StepResult}
    (h : s.attempt r next = (.ok stop, t)) : ∃ a, r = .ok a ∧ next a = (.ok stop, t) := by
  cases r with
  | error f => simp [attempt, fault] at h
  | ok a => exact ⟨a, rfl, h⟩

theorem attempt_error {α : Type} {r : Except Fault α} {next : α → StepResult}
    (h : s.attempt r next = (.error f, t)) :
    (r = .error f ∧ t = s) ∨ ∃ a, r = .ok a ∧ next a = (.error f, t) := by
  cases r with
  | ok a => exact .inr ⟨a, rfl, h⟩
  | error f' =>
    cases h
    exact .inl ⟨rfl, rfl⟩

theorem withField_ok {change : Except Fault Unit × Field}
    (h : s.withField change = (.ok stop, t)) : stop = .continue := by
  obtain ⟨_, -, h⟩ := attempt_ok h
  cases h
  rfl

theorem withField_error {change : Except Fault Unit × Field} (hchange : Harmless s.field change)
    (h : s.withField change = (.error f, t)) : change.1 = .error f ∧ t = s := by
  rcases hchange.cases with ⟨fault, rfl⟩ | ⟨_, field, rfl⟩
  · cases h
    exact ⟨rfl, rfl⟩
  · cases h

theorem storeTemp_ok {slot : UInt8} {value : Int32} (h : s.storeTemp slot value = (.ok stop, t)) :
    stop = .continue := by
  obtain ⟨_, -, h⟩ := attempt_ok h
  cases h
  rfl

theorem storeTemp_error {slot : UInt8} {value : Int32}
    (h : s.storeTemp slot value = (.error f, t)) :
    tempSlots ≤ slot.toNat ∧ f = .addressOutOfRange .temp slot.toUInt16 ∧ t = s := by
  unfold storeTemp Cursor.setTemp at h
  by_cases hslot : slot.toNat < tempSlots
  · rw [dif_pos hslot] at h
    cases h
  · rw [dif_neg hslot] at h
    cases h
    exact ⟨Nat.le_of_not_lt hslot, rfl, rfl⟩

end ExecState

namespace Machine

open ExecState

variable {m : Machine} {s t : ExecState} {i : Instruction}

theorem resolve_error {target : Int} {f : Fault} (h : m.resolve target = .error f) :
    m.program.resolve? target = none ∧ f = .unresolvedJump target := by
  unfold resolve at h
  cases hr : m.program.resolve? target with
  | some pc => rw [hr] at h; cases h
  | none =>
    rw [hr] at h
    cases h
    exact ⟨rfl, rfl⟩

/-! ## Steps that do not fault -/

/-- An instruction that does not fault goes on, or ends with nothing changed, or waits. -/
theorem execute_ok {stop : Step} (h : m.execute s i = (.ok stop, t)) :
    stop = .continue ∨ (stop = .halt ∧ i = .halt ∧ t = s) ∨
      ∃ reason, stop = .suspend reason ∧ ∀ frames, reason = .timer frames → 0 ≤ frames.toInt := by
  cases i with
  | nop => cases h; exact .inl rfl
  | placeholder opcode mnemonic args => cases h; exact .inl rfl
  | halt => cases h; exact .inr (.inl ⟨rfl, rfl, rfl⟩)
  | jump target =>
    obtain ⟨pc, -, h⟩ := attempt_ok h
    cases h
    exact .inl rfl
  | jumpIfZero condition target =>
    obtain ⟨value, -, h⟩ := attempt_ok h
    split at h
    · obtain ⟨pc, -, h⟩ := attempt_ok h
      cases h
      exact .inl rfl
    · cases h
      exact .inl rfl
  | call target =>
    obtain ⟨pc, -, h⟩ := attempt_ok h
    split at h
    · cases h
      exact .inl rfl
    · cases h
  | ret =>
    rw [execute] at h
    split at h
    · cases h
    · cases h
      exact .inl rfl
  | popTemp slot value =>
    obtain ⟨v, -, h⟩ := attempt_ok h
    exact .inl (storeTemp_ok h)
  | popMem v value =>
    obtain ⟨x, -, h⟩ := attempt_ok h
    exact .inl (withField_ok h)
  | setFlag flag value => exact .inl (withField_ok h)
  | random slot => exact .inl (storeTemp_ok h)
  | setPassable passable =>
    rw [execute] at h
    exact .inl (withField_ok h)
  | wait count =>
    obtain ⟨n, -, h⟩ := attempt_ok h
    cases h
    refine .inr (.inr ⟨_, rfl, ?_⟩)
    rintro frames ⟨rfl⟩
    split
    · decide
    · rename_i hn
      rw [Int32.lt_iff_toInt_lt] at hn
      have hzero : (0 : Int32).toInt = 0 := rfl
      omega
  | message channel number =>
    obtain ⟨c, -, h⟩ := attempt_ok h
    obtain ⟨n, -, h⟩ := attempt_ok h
    cases h
    exact .inr (.inr ⟨_, rfl, nofun⟩)
  | animate animation =>
    cases h
    exact .inr (.inr ⟨_, rfl, nofun⟩)

/-- What a step comes to. Only at an instruction can it do anything but end. -/
inductive StepKind (m : Machine) (s : ExecState) : StepResult → Prop
  | went {t : ExecState} {i : Instruction} (hi : m.program.get? s.cursor.pc = some i) :
      StepKind m s (.ok .continue, t)
  | waited {t : ExecState} {i : Instruction} {reason : WaitReason}
      (hi : m.program.get? s.cursor.pc = some i)
      (htimer : ∀ frames, reason = .timer frames → 0 ≤ frames.toInt) :
      StepKind m s (.ok (.suspend reason), t)
  | ended (hi : ∀ i, m.program.get? s.cursor.pc = some i → i = .halt) : StepKind m s (.ok .halt, s)
  | faulted {t : ExecState} {i : Instruction} {f : Fault}
      (hi : m.program.get? s.cursor.pc = some i) (h : m.execute s i = (.error f, t)) :
      StepKind m s (.error f, t)

/-- **What a step can do.** -/
theorem step_kind (m : Machine) (s : ExecState) : m.StepKind s (m.step s) := by
  unfold step
  split
  · rename_i hnone
    exact .ended fun i hi => by rw [hnone] at hi; cases hi
  · rename_i i hi
    rcases h : m.execute s i with ⟨r, t⟩
    cases r with
    | error f => exact .faulted hi h
    | ok stop =>
      rcases execute_ok h with rfl | ⟨rfl, rfl, rfl⟩ | ⟨reason, rfl, htimer⟩
      · exact .went hi
      · exact .ended fun j hj => Option.some.inj (hj.symm.trans hi)
      · exact .waited hi htimer

/-! ## Faults -/

/-- The causes of faults, with the state that each leaves. -/
inductive FaultsWith (m : Machine) (s : ExecState) : Instruction → Fault → ExecState → Prop
  /-- An operand has no value. -/
  | operand {i : Instruction} {f : Fault} (e : Expr) (he : e ∈ i.operands)
      (h : e.eval s.field s.cursor.temps = .error f) : FaultsWith m s i f s
  /-- The target is no group. -/
  | target {i : Instruction} {target : Int} (hi : i.target? = some target)
      (h : m.program.resolve? target = none) : FaultsWith m s i (.unresolvedJump target) s
  | overflow {target : Int} (h : m.maxCallDepth ≤ s.cursor.calls.length) :
      FaultsWith m s (.call target) (.callStackOverflow m.maxCallDepth) s
  | underflow (h : s.cursor.calls = []) : FaultsWith m s .ret .callStackUnderflow s
  /-- There is no such scratch slot. -/
  | slot {slot : UInt8} {value : Expr} (h : tempSlots ≤ slot.toNat) :
      FaultsWith m s (.popTemp slot value) (.addressOutOfRange .temp slot.toUInt16) s
  /-- There is no such scratch slot for a random byte, which has been drawn. -/
  | drawn {slot : UInt8} (h : tempSlots ≤ slot.toNat) :
      FaultsWith m s (.random slot) (.addressOutOfRange .temp slot.toUInt16)
        { s with field := s.field.randomByte.2 }
  | memory {v : Variable} {value : Expr} {x : Int32} {f : Fault}
      (h : (s.field.write v.bank v.index x).1 = .error f) : FaultsWith m s (.popMem v value) f s
  | flag {flag : UInt16} {value : Bool} {f : Fault}
      (h : (s.field.setFlag flag value).1 = .error f) : FaultsWith m s (.setFlag flag value) f s
  | owner {passable : Bool} {f : Fault}
      (h : (s.field.setPassable m.owner passable).1 = .error f) :
      FaultsWith m s (.setPassable passable) f s

/-- A jump that faults has a target that is no group. -/
theorem faultsWith_jump {f : Fault} {target : Int} (hi : i.target? = some target)
    (h : s.attempt (m.resolve target) s.continueAt = (.error f, t)) : m.FaultsWith s i f t := by
  rcases attempt_error h with ⟨hr, rfl⟩ | ⟨pc, -, h⟩
  · obtain ⟨hresolve, rfl⟩ := resolve_error hr
    exact .target hi hresolve
  · cases h

theorem execute_fault {f : Fault} (h : m.execute s i = (.error f, t)) : m.FaultsWith s i f t := by
  cases i with
  | nop => cases h
  | placeholder opcode mnemonic args => cases h
  | halt => cases h
  | jump target => exact faultsWith_jump rfl h
  | jumpIfZero condition target =>
    rcases attempt_error h with ⟨he, rfl⟩ | ⟨value, -, h⟩
    · exact .operand condition (by simp [Instruction.operands]) he
    · split at h
      · exact faultsWith_jump rfl h
      · cases h
  | call target =>
    rcases attempt_error h with ⟨hr, rfl⟩ | ⟨pc, -, h⟩
    · obtain ⟨hresolve, rfl⟩ := resolve_error hr
      exact .target rfl hresolve
    · split at h
      · cases h
      · rename_i hdepth
        cases h
        exact .overflow (Nat.le_of_not_lt hdepth)
  | ret =>
    rw [execute] at h
    split at h
    · rename_i hcalls
      cases h
      exact .underflow hcalls
    · cases h
  | popTemp slot value =>
    rcases attempt_error h with ⟨he, rfl⟩ | ⟨v, -, h⟩
    · exact .operand value (by simp [Instruction.operands]) he
    · obtain ⟨hslot, rfl, rfl⟩ := storeTemp_error h
      exact .slot hslot
  | popMem v value =>
    rcases attempt_error h with ⟨he, rfl⟩ | ⟨x, -, h⟩
    · exact .operand value (by simp [Instruction.operands]) he
    · obtain ⟨hwrite, rfl⟩ := withField_error (Field.write_harmless _ _ _ _) h
      exact .memory hwrite
  | setFlag flag value =>
    obtain ⟨hset, rfl⟩ := withField_error (Field.setFlag_harmless _ _ _) h
    exact .flag hset
  | random slot =>
    obtain ⟨hslot, rfl, rfl⟩ := storeTemp_error h
    exact .drawn hslot
  | setPassable passable =>
    obtain ⟨hset, rfl⟩ := withField_error (Field.setPassable_harmless _ _ _) h
    exact .owner hset
  | wait frames =>
    rcases attempt_error h with ⟨he, rfl⟩ | ⟨n, -, h⟩
    · exact .operand frames (by simp [Instruction.operands]) he
    · cases h
  | message channel number =>
    rcases attempt_error h with ⟨he, rfl⟩ | ⟨c, -, h⟩
    · exact .operand channel (by simp [Instruction.operands]) he
    · rcases attempt_error h with ⟨he, rfl⟩ | ⟨n, -, h⟩
      · exact .operand number (by simp [Instruction.operands]) he
      · cases h
  | animate animation => cases h

/-- **Every fault** is that of the instruction at the cursor and has one of the causes. -/
theorem step_fault {f : Fault} (h : m.step s = (.error f, t)) :
    ∃ i, m.program.get? s.cursor.pc = some i ∧ m.FaultsWith s i f t := by
  have hkind := m.step_kind s
  rw [h] at hkind
  cases hkind with
  | faulted hi hexec => exact ⟨_, hi, execute_fault hexec⟩

/-- A fault leaves everything as it was, except that a random number has been drawn if it was drawn
for a scratch slot that does not exist. -/
theorem FaultsWith.leaves {f : Fault} (h : m.FaultsWith s i f t) :
    ((∀ slot, i = .random slot → slot.toNat < tempSlots) ∧ t = s) ∨
      ∃ slot, i = .random slot ∧ tempSlots ≤ slot.toNat ∧
        t = { s with field := s.field.randomByte.2 } := by
  cases h with
  | operand e he heval =>
    refine .inl ⟨?_, rfl⟩
    rintro slot rfl
    cases he
  | target htarget hresolve =>
    refine .inl ⟨?_, rfl⟩
    rintro slot rfl
    cases htarget
  | drawn hslot => exact .inr ⟨_, rfl, hslot, rfl⟩
  | _ => exact .inl ⟨nofun, rfl⟩

end Machine

end FieldEngine
