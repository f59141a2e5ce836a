import FieldEngine.Proofs.Script.Settings

/-!
# What one word does

A word that a pass takes either leaves something waiting, an operand or the first half of a wide
push, or it is the last of its group and adds one instruction, which an opcode of the table becomes
(`Pass.feed_advance`). Which of these it is depends on the opcode of the word and on nothing else,
unless the word is the literal of a wide push (`Pass.feed_takes`).
-/

namespace FieldEngine

/-- What a mapped value comes from. -/
theorem map_eq_ok {ε α β : Type} {f : α → β} {r : Except ε α} {b : β} (h : r.map f = .ok b) :
    ∃ a, r = .ok a ∧ f a = b := by
  cases r with
  | error e => cases h
  | ok a => exact ⟨a, rfl, Except.ok.inj h⟩

/-- What a mapped error comes from. -/
theorem error_of_map {ε α β : Type} {r : Except ε α} {g : α → β} {e : ε}
    (h : r.map g = .error e) : r = .error e := by
  cases r with
  | ok a => cases h
  | error e' =>
    cases h
    rfl

namespace Pass

/-- The word left something waiting. -/
structure Waits (p q : Pass) : Prop where
  entries : q.entries = p.entries
  busy : q.stack.nodes = [] → q.wide ≠ none

/-- The word ended a group with an instruction. -/
structure Ends (p q : Pass) (i : Instruction) : Prop where
  entries : q.entries = p.entries.push (p.groupStart, i)
  group : q.groupStart = q.offset
  built : ∃ o ∈ Opcode.table, ∃ form parameter args, o.role = .instruction form ∧
    o.build parameter p.offset form args = .ok i

/-- A pass before and after one word. -/
structure Advance (p q : Pass) : Prop where
  offset : q.offset = p.offset + 4
  limit : q.stack.limit = p.stack.limit
  effect : p.Waits q ∨ ∃ i, p.Ends q i

variable {p q : Pass}

theorem push_advance {e : Expr} {offset : Nat} (h : p.push e offset = .ok q) : p.Advance q := by
  obtain ⟨stack, hstack, rfl⟩ := map_eq_ok h
  obtain ⟨-, rfl⟩ := OperandStack.push_ok_iff.1 hstack
  exact ⟨rfl, rfl, .inl ⟨rfl, nofun⟩⟩

theorem feedPush_advance {o : Opcode} {parameter : Int16} {kind : PushKind}
    (h : p.feedPush o parameter kind = .ok q) : p.Advance q := by
  cases kind with
  | literal => exact push_advance h
  | wideLiteral =>
    cases h
    exact ⟨rfl, rfl, .inl ⟨rfl, nofun⟩⟩
  | var bank =>
    cases bank with
    | temp =>
      rw [feedPush] at h
      cases hslot : o.tempSlot parameter p.offset with
      | error e => rw [hslot] at h; cases h
      | ok slot =>
        rw [hslot] at h
        exact push_advance h
    | _ => exact push_advance h

/-- The tree that replaces the operands of an operator is pushed like any other. -/
theorem Advance.of_popN? {n : Nat} {taken : Vector Expr n × OperandStack}
    (hpop : p.stack.popN? n = some taken) (h : Advance { p with stack := taken.2 } q) :
    p.Advance q := by
  refine ⟨h.offset, h.limit.trans (popN?_limit hpop), ?_⟩
  rcases h.effect with hwaits | ⟨i, hends⟩
  · exact .inl ⟨hwaits.entries, hwaits.busy⟩
  · exact .inr ⟨i, hends.entries, hends.group, hends.built⟩

theorem feedOperator_advance {parameter : Int16} (h : p.feedOperator parameter = .ok q) :
    p.Advance q := by
  unfold feedOperator at h
  split at h
  · cases h
  · split at h
    · cases h
    · rename_i hpop
      exact .of_popN? hpop (push_advance h)
  · split at h
    · cases h
    · rename_i hpop
      exact .of_popN? hpop (push_advance h)

theorem feedInstruction_advance {strict : Bool} {o : Opcode} (ho : o ∈ Opcode.table)
    {parameter : Int16} {form : Form} (hrole : o.role = .instruction form)
    (h : p.feedInstruction strict o parameter form = .ok q) : p.Advance q := by
  unfold feedInstruction Opcode.take at h
  cases hpop : p.stack.popN? form.arity with
  | none => rw [hpop] at h; cases h
  | some taken =>
    simp only [hpop] at h
    cases hbuild : o.build parameter p.offset form taken.1 with
    | error e => rw [hbuild] at h; cases h
    | ok i =>
      simp only [hbuild] at h
      split at h
      · cases h
      · cases h
        exact ⟨rfl, popN?_limit hpop,
          .inr ⟨i, rfl, rfl, o, ho, form, parameter, taken.1, hrole, hbuild⟩⟩

/-- **One word** leaves something waiting, or ends a group. -/
theorem feed_advance {strict : Bool} {w : UInt32} (h : p.feed strict w = .ok q) :
    p.Advance q := by
  unfold feed at h
  split at h
  · exact push_advance h
  · dsimp only at h
    split at h
    · cases h
    · rename_i o ho
      split at h
      · exact feedPush_advance h
      · exact feedOperator_advance h
      · rename_i form hrole
        exact feedInstruction_advance (Opcode.ofCode?_eq_some ho).1 hrole h

end Pass

/-! ## By opcode -/

/-- The part that a word plays by its opcode, if there is such an opcode. -/
def Word.role? (w : UInt32) : Option Role :=
  (Opcode.ofCode? (Word.ofBits w).opcode).map Opcode.role

namespace Pass

/-- The instructions found so far and the start of the group stay as they are. -/
structure Keeps (p q : Pass) : Prop where
  entries : q.entries = p.entries
  group : q.groupStart = p.groupStart

/-- What a pass takes a word for. -/
inductive Takes (p : Pass) (w : UInt32) (q : Pass) : Prop
  /-- The word is the literal of the wide push before it. -/
  | literal (waiting : p.wide ≠ none) (wide : q.wide = none) (keeps : p.Keeps q)
  | push {kind : PushKind} (role : Word.role? w = some (.push kind)) (short : kind ≠ .wideLiteral)
      (waiting : p.wide = none) (wide : q.wide = none) (keeps : p.Keeps q)
  | widePush (role : Word.role? w = some (.push .wideLiteral)) (waiting : p.wide = none)
      (wide : q.wide = some p.offset) (keeps : p.Keeps q)
  | operator (role : Word.role? w = some .operator) (waiting : p.wide = none)
      (wide : q.wide = none) (keeps : p.Keeps q)
  | instruction (i : Instruction) (waiting : p.wide = none) (wide : q.wide = none)
      (entries : q.entries = p.entries.push (p.groupStart, i)) (group : q.groupStart = q.offset)
      (makes : decodeInstruction (Word.ofBits w).opcode (Word.ofBits w).parameter p.offset p.stack =
        (.ok i, q.stack))

variable {p q : Pass} {w : UInt32}

theorem push_keeps {e : Expr} {offset : Nat} (h : p.push e offset = .ok q) :
    q.wide = none ∧ p.Keeps q := by
  obtain ⟨stack, -, rfl⟩ := map_eq_ok h
  exact ⟨rfl, rfl, rfl⟩

theorem feedPush_takes {o : Opcode} {kind : PushKind} {parameter : Int16} (hwide : p.wide = none)
    (hrole : Word.role? w = some (.push kind)) (h : p.feedPush o parameter kind = .ok q) :
    p.Takes w q := by
  cases kind with
  | literal =>
    obtain ⟨hnext, hkeeps⟩ := push_keeps h
    exact .push hrole nofun hwide hnext hkeeps
  | wideLiteral =>
    cases h
    exact .widePush hrole hwide rfl ⟨rfl, rfl⟩
  | var bank =>
    have hpush : ∃ e offset, p.push e offset = .ok q := by
      cases bank with
      | temp =>
        rw [feedPush] at h
        cases hslot : o.tempSlot parameter p.offset with
        | error e => rw [hslot] at h; cases h
        | ok slot =>
          rw [hslot] at h
          exact ⟨_, _, h⟩
      | _ => exact ⟨_, _, h⟩
    obtain ⟨e, offset, hpush⟩ := hpush
    obtain ⟨hnext, hkeeps⟩ := push_keeps hpush
    exact .push hrole nofun hwide hnext hkeeps

theorem feedOperator_takes {parameter : Int16} (hwide : p.wide = none)
    (hrole : Word.role? w = some .operator) (h : p.feedOperator parameter = .ok q) :
    p.Takes w q := by
  have hpush : ∃ stack e offset, Pass.push { p with stack } e offset = .ok q := by
    unfold feedOperator at h
    split at h
    · cases h
    · split at h
      · cases h
      · exact ⟨_, _, _, h⟩
    · split at h
      · cases h
      · exact ⟨_, _, _, h⟩
  obtain ⟨stack, e, offset, hpush⟩ := hpush
  obtain ⟨hnext, hkeeps⟩ := push_keeps hpush
  exact .operator hrole hwide hnext ⟨hkeeps.entries, hkeeps.group⟩

/-- An instruction word on a stack, by the entry of its opcode. -/
theorem decodeInstruction_eq {o : Opcode} {form : Form} {opcode : UInt16}
    (ho : Opcode.ofCode? opcode = some o) (hrole : o.role = .instruction form) (parameter : Int16)
    (offset : Nat) (stack : OperandStack) :
    decodeInstruction opcode parameter offset stack = o.take form parameter offset stack := by
  simp only [decodeInstruction, ho, hrole]

theorem feedInstruction_takes {strict : Bool} {o : Opcode} {form : Form} (hwide : p.wide = none)
    (ho : Opcode.ofCode? (Word.ofBits w).opcode = some o) (hrole : o.role = .instruction form)
    (h : p.feedInstruction strict o (Word.ofBits w).parameter form = .ok q) : p.Takes w q := by
  unfold feedInstruction at h
  rcases htake : o.take form (Word.ofBits w).parameter p.offset p.stack with ⟨r, stack⟩
  rw [htake] at h
  cases r with
  | error e => cases h
  | ok i =>
    dsimp only at h
    split at h
    · cases h
    · cases h
      exact .instruction i hwide hwide rfl rfl ((decodeInstruction_eq ho hrole _ _ _).trans htake)

/-- **What a word is taken for** is told by its opcode, or by the wide push before it. -/
theorem feed_takes {strict : Bool} (h : p.feed strict w = .ok q) : p.Takes w q := by
  unfold feed at h
  split at h
  · rename_i offset hwide
    obtain ⟨hnext, hkeeps⟩ := push_keeps h
    exact .literal (by simp [hwide]) hnext hkeeps
  · rename_i hwide
    dsimp only at h
    split at h
    · cases h
    · rename_i o ho
      have hrole : Word.role? w = some o.role := by rw [Word.role?, ho]; rfl
      split at h
      · rename_i kind hkind
        exact feedPush_takes hwide (by rw [hrole, hkind]) h
      · rename_i hoperator
        exact feedOperator_takes hwide (by rw [hrole, hoperator]) h
      · rename_i form hform
        exact feedInstruction_takes hwide ho hform h

end Pass

end FieldEngine
