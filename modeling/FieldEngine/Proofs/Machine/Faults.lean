import FieldEngine.Proofs.Machine.Steps
import FieldEngine.Proofs.Script.Targets
import FieldEngine.Proofs.Script.Validity
import FieldEngine.Proofs.Script.Words

/-!
# Faults

What decoding has checked cannot go wrong at run time. A valid instruction never names a missing
scratch slot and never stores in a bank that is not in memory, so all that is left are faults that
depend on the state: `Fault.Arises` lists them with their reasons. Every fault of a step of a
decoded program is one of these (`decode_faults`).

A step that faults changes nothing, with one exception that decoding rules out: a random number for
which there is no scratch slot has been drawn (`faulting_step_atomic`).
-/

namespace FieldEngine

/-! ## Reads and writes -/

/-- There is no such flag, or the memory ends before the variable does. -/
def Field.OutOfRange (field : Field) (bank : Bank) (index : UInt16) : Prop :=
  (bank = .flag ∧ flagCount ≤ index.toNat) ∨
    ∃ width, bank.width = some width ∧ field.memory.size < index.toNat + width

theorem Field.OutOfRange.ne_temp {field : Field} {bank : Bank} {index : UInt16}
    (h : field.OutOfRange bank index) : bank ≠ .temp := by
  rintro rfl
  rcases h with ⟨hflag, -⟩ | ⟨width, hwidth, -⟩
  · cases hflag
  · cases hwidth

theorem Memory.span_error {m : Memory} {bank : Bank} {index : UInt16} {f : Fault}
    (hbank : bank.width ≠ none) (h : m.span bank index = .error f) :
    f = .addressOutOfRange bank index ∧
      ∃ width, bank.width = some width ∧ m.size < index.toNat + width := by
  unfold span at h
  cases hwidth : bank.width with
  | none => exact absurd hwidth hbank
  | some width =>
    simp only [hwidth] at h
    split at h
    · cases h
    · rename_i hend
      cases h
      exact ⟨rfl, width, rfl, Nat.lt_of_not_le hend⟩

namespace Field

variable {field : Field} {bank : Bank} {index : UInt16} {f : Fault}

theorem checkFlag_error (field : Field) (h : checkFlag index = .error f) :
    f = .addressOutOfRange .flag index ∧ field.OutOfRange .flag index := by
  unfold checkFlag at h
  split at h
  · cases h
  · rename_i hindex
    cases h
    exact ⟨rfl, .inl ⟨rfl, Nat.le_of_not_lt hindex⟩⟩

theorem read_error (hbank : bank.width ≠ none) (h : field.read bank index = .error f) :
    f = .addressOutOfRange bank index ∧ field.OutOfRange bank index := by
  obtain ⟨hf, hrange⟩ := Memory.span_error hbank (error_of_map h)
  exact ⟨hf, .inr hrange⟩

theorem write_error {value : Int32} (hbank : bank.width ≠ none)
    (h : (field.write bank index value).1 = .error f) :
    f = .addressOutOfRange bank index ∧ field.OutOfRange bank index := by
  have hspan : field.memory.span bank index = .error f := by
    unfold write Memory.write at h
    cases hspan : field.memory.span bank index <;> rw [hspan] at h <;> cases h
    rfl
  obtain ⟨hf, hrange⟩ := Memory.span_error hbank hspan
  exact ⟨hf, .inr hrange⟩

theorem setFlag_error {value : Bool} (h : (field.setFlag index value).1 = .error f) :
    f = .addressOutOfRange .flag index ∧ field.OutOfRange .flag index := by
  unfold setFlag at h
  cases hcheck : checkFlag index <;> rw [hcheck] at h <;> cases h
  exact checkFlag_error field hcheck

theorem setPassable_error {id : EntityId} {passable : Bool}
    (h : (field.setPassable id passable).1 = .error f) :
    f = .unknownEntity id ∧ field.entity id = .error (.unknownEntity id) := by
  have hget : field.entities.get id = .error f := by
    unfold setPassable EntityTable.setPassable at h
    cases hget : field.entities.get id <;> rw [hget] at h <;> cases h
    rfl
  have hf : f = .unknownEntity id := by
    unfold EntityTable.get at hget
    split at hget
    · split at hget
      · cases hget
      · cases hget
        rfl
    · cases hget
      rfl
  subst hf
  exact ⟨rfl, hget⟩

end Field

/-! ## Operands -/

namespace Expr

/-- A variable that a valid tree names faults only past the end of its bank. -/
theorem load_error {field : Field} {temps : Temps} {v : Variable} {f : Fault}
    (hv : (Expr.var v).Valid) (h : load field temps v = .error f) :
    f = .addressOutOfRange v.bank v.index ∧ field.OutOfRange v.bank v.index := by
  obtain ⟨bank, index⟩ := v
  cases bank with
  | flag => exact Field.checkFlag_error field (error_of_map (error_of_map h))
  | temp =>
    have hindex : index.toNat < tempSlots := hv rfl
    simp only [load, Vector.getElem?_eq_getElem hindex] at h
    cases h
  | _ => exact Field.read_error (by simp [Bank.width]) h

/-- A valid tree has a value, or divides by zero, or reads past the end of a bank. -/
theorem eval_error {field : Field} {temps : Temps} {e : Expr} {f : Fault} (he : e.Valid)
    (h : e.eval field temps = .error f) :
    f = .divisionByZero ∨
      ∃ bank index, f = .addressOutOfRange bank index ∧ field.OutOfRange bank index := by
  induction e with
  | const value => cases h
  | var v =>
    obtain ⟨hf, hrange⟩ := load_error he h
    exact .inr ⟨_, _, hf, hrange⟩
  | unary op operand ih => exact ih he (error_of_map h)
  | binary op left right ihl ihr =>
    rw [eval] at h
    cases hl : left.eval field temps with
    | error f' =>
      rw [hl] at h
      cases h
      exact ihl he.1 hl
    | ok a =>
      cases hr : right.eval field temps with
      | error f' =>
        rw [hl, hr] at h
        cases h
        exact ihr he.2 hr
      | ok b =>
        rw [hl, hr] at h
        have happly : op.apply a b = .error f := h
        -- only a division has no value, and only for one reason
        cases op with
        | div | mod =>
          rw [BinaryOp.apply] at happly
          split at happly
          · cases happly
            exact .inl rfl
          · cases happly
        | _ => cases happly

end Expr

/-! ## Decoded programs -/

/-- How a fault can arise from a valid instruction: from the state, or from a jump target, which
names an offset at which no group starts. -/
def Fault.Arises (m : Machine) (s : ExecState) (i : Instruction) : Fault → Prop
  | .unresolvedJump target =>
    i.target? = some target ∧ target ≠ m.program.endOffset ∧
      ∀ index offset, m.program.offsetOf? index = some offset → target ≠ (offset : Int)
  | .callStackUnderflow => i = .ret ∧ s.cursor.calls = []
  | .callStackOverflow limit =>
    limit = m.maxCallDepth ∧ (∃ target, i = .call target) ∧ limit ≤ s.cursor.calls.length
  | .divisionByZero => ∃ e ∈ i.operands, e.eval s.field s.cursor.temps = .error .divisionByZero
  | .addressOutOfRange bank index => s.field.OutOfRange bank index
  | .invalidBank _ => False
  | .unknownEntity id =>
    id = m.owner ∧ (∃ passable, i = .setPassable passable) ∧
      s.field.entity m.owner = .error (.unknownEntity m.owner)

/-- A valid instruction faults only so. -/
theorem Machine.FaultsWith.arises {m : Machine} {s t : ExecState} {i : Instruction} {f : Fault}
    (h : m.FaultsWith s i f t) (hi : i.Valid) : f.Arises m s i := by
  cases h with
  | operand e he heval =>
    rcases Expr.eval_error (hi.operands e he) heval with rfl | ⟨bank, index, rfl, hrange⟩
    · exact ⟨e, he, heval⟩
    · exact hrange
  | target htarget hresolve => exact ⟨htarget, Program.resolve?_eq_none_iff.1 hresolve⟩
  | overflow hdepth => exact ⟨rfl, ⟨_, rfl⟩, hdepth⟩
  | underflow hcalls => exact ⟨rfl, hcalls⟩
  | slot hslot =>
    have hplace : _ < tempSlots := hi.places
    omega
  | drawn hslot =>
    have hplace : _ < tempSlots := hi.places
    omega
  | memory hwrite =>
    obtain ⟨rfl, hrange⟩ := Field.write_error hi.places hwrite
    exact hrange
  | flag hset =>
    obtain ⟨rfl, hrange⟩ := Field.setFlag_error hset
    exact hrange
  | owner hset =>
    obtain ⟨rfl, hentity⟩ := Field.setPassable_error hset
    exact ⟨rfl, ⟨_, rfl⟩, hentity⟩

/-- A valid instruction that faults changes nothing: only a draw into a missing scratch slot
would. -/
theorem Machine.FaultsWith.unchanged {m : Machine} {s t : ExecState} {i : Instruction} {f : Fault}
    (h : m.FaultsWith s i f t) (hi : i.Valid) : t = s := by
  rcases h.leaves with ⟨-, hstate⟩ | ⟨slot, rfl, hslot, -⟩
  · exact hstate
  · have hplace : slot.toNat < tempSlots := hi.places
    omega

/-- A step of a decoded program that faults changes nothing. -/
theorem decode_fault_unchanged {config : DecoderConfig} {name : String} {bytes : List UInt8}
    {m : Machine} (h : decode config name bytes = .ok m.program) {s t : ExecState} {f : Fault}
    (hstep : m.step s = (.error f, t)) : t = s := by
  obtain ⟨i, hi, hfaults⟩ := Machine.step_fault hstep
  exact hfaults.unchanged (decode_valid h hi)

/-- **Decoding validates once for all runs.** A step of a decoded program, from any cursor on any
field, never faults for a bank that the operation does not serve or for a missing scratch slot; each
fault of it is one that arises from the instruction at the cursor and the state. -/
theorem decode_faults {config : DecoderConfig} {name : String} {bytes : List UInt8}
    {program : Program} (h : decode config name bytes = .ok program) (owner : EntityId)
    (maxCallDepth : Nat) {s t : ExecState} {f : Fault}
    (hstep : Machine.step ⟨program, owner, maxCallDepth⟩ s = (.error f, t)) :
    (∀ bank, f ≠ .invalidBank bank) ∧ (∀ index, f ≠ .addressOutOfRange .temp index) ∧
      ∃ i, program.get? s.cursor.pc = some i ∧ f.Arises ⟨program, owner, maxCallDepth⟩ s i := by
  obtain ⟨i, hi, hfaults⟩ := Machine.step_fault hstep
  have harises := hfaults.arises (decode_valid h hi)
  refine ⟨?_, ?_, i, hi, harises⟩
  · rintro bank rfl
    exact harises
  · rintro index rfl
    exact Field.OutOfRange.ne_temp harises rfl

/-- A case of a word at the last of four bytes: its second byte is missing. -/
theorem decode_faults_lastByte :
    let program : Program := ⟨"door", #[(0, .wait (.var ⟨.word, 3⟩))], 8⟩
    let s : ExecState := ⟨.start, .empty 0 4⟩
    decode {} "door" [3, 0, 11, 0, 0, 0, 35, 0] = .ok program ∧
      Machine.step ⟨program, ⟨0, 1⟩, 16⟩ s = (.error (.addressOutOfRange .word 3), s) ∧
      s.field.OutOfRange .word 3 := by
  intro program s
  have hdecode : decode {} "door" [3, 0, 11, 0, 0, 0, 35, 0] = .ok program := by
    rfl
  have hstep : Machine.step ⟨program, ⟨0, 1⟩, 16⟩ s = (.error (.addressOutOfRange .word 3), s) := by
    rfl
  obtain ⟨-, -, i, -, harises⟩ := decode_faults hdecode ⟨0, 1⟩ 16 hstep
  exact ⟨hdecode, hstep, harises⟩

/-! ## What a fault leaves -/

/-- The instruction at the cursor draws a random number for a scratch slot that does not exist. -/
def Machine.DrawsAstray (m : Machine) (c : Cursor) : Prop :=
  ∃ slot, m.program.get? c.pc = some (.random slot) ∧ tempSlots ≤ slot.toNat

/-- **A step that faults is atomic**, whatever the program, the cursor, the owner, the limit on
calls and the field. The cursor is as before, and so is the field, unless a random number was drawn
for a scratch slot that does not exist: then one more number has been drawn, in a count that wraps
around, and nothing else has changed. No decoded program comes to that. -/
theorem faulting_step_atomic (m : Machine) {s t : ExecState} {f : Fault}
    (h : m.step s = (.error f, t)) :
    t.cursor = s.cursor ∧
    (¬ m.DrawsAstray s.cursor → t.field = s.field) ∧
    (m.DrawsAstray s.cursor → t.field = { s.field with draws := s.field.draws + 1 }) ∧
    ∀ config name bytes, decode config name bytes = .ok m.program → ¬ m.DrawsAstray s.cursor := by
  obtain ⟨i, hi, hfaults⟩ := Machine.step_fault h
  have hdecoded : ∀ config name bytes, decode config name bytes = .ok m.program →
      ¬ m.DrawsAstray s.cursor := by
    rintro config name bytes hdecode ⟨slot, hslot, hmissing⟩
    have hplace : slot.toNat < tempSlots := (decode_valid hdecode hslot).places
    omega
  rcases hfaults.leaves with ⟨hslots, rfl⟩ | ⟨slot, rfl, hslot, rfl⟩
  · refine ⟨rfl, fun _ => rfl, ?_, hdecoded⟩
    rintro ⟨slot, hslot, hmissing⟩
    have hsome : slot.toNat < tempSlots := hslots slot (Option.some.inj (hi.symm.trans hslot))
    omega
  · exact ⟨rfl, fun hnone => absurd ⟨slot, hi, hslot⟩ hnone, fun _ => rfl, hdecoded⟩

/-- A case of two faults on a field whose count of draws is as high as it gets: a random number for
the ninth of eight scratch slots, and a message whose second operand divides by zero. -/
theorem faulting_step_atomic_draw :
    let zeroth := Expr.binary .div (.const 1) (.const 0)
    let m : Machine :=
      ⟨⟨"door", #[(0, .random 8), (4, .message (.const 1) zeroth)], 8⟩, ⟨0, 1⟩, 16⟩
    let field := { Field.empty 7 4 with draws := 0xFFFFFFFFFFFFFFFF }
    let drawn := m.step ⟨.startAt 0, field⟩
    let divided := m.step ⟨.startAt 1, field⟩
    drawn.1 = .error (.addressOutOfRange .temp 8) ∧ drawn.2.cursor = .startAt 0 ∧
      drawn.2.field = { field with draws := 0 } ∧
      divided.1 = .error .divisionByZero ∧ divided.2.cursor = .startAt 1 ∧
      divided.2.field = field := by
  intro zeroth m field drawn divided
  have hdrawn : m.step ⟨.startAt 0, field⟩ =
      (.error (.addressOutOfRange .temp 8), drawn.2) := by rfl
  have hdivided : m.step ⟨.startAt 1, field⟩ = (.error .divisionByZero, divided.2) := by rfl
  have hastray : m.DrawsAstray (.startAt 0) := ⟨8, rfl, by decide⟩
  have hnone : ¬ m.DrawsAstray (.startAt 1) := by
    rintro ⟨slot, hslot, -⟩
    cases hslot
  have hwraps : field.draws + 1 = 0 := by decide
  obtain ⟨hcursor, -, hfield, -⟩ := faulting_step_atomic m hdrawn
  obtain ⟨hcursor', hfield', -, -⟩ := faulting_step_atomic m hdivided
  refine ⟨rfl, hcursor, (hfield hastray).trans ?_, rfl, hcursor', hfield' hnone⟩
  exact congrArg (fun draws => { field with draws }) hwraps

end FieldEngine
