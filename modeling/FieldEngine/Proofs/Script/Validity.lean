import FieldEngine.Script.Decoder

/-!
# What decoding checks

Some parameters are checked while a script is decoded, so that nobody has to check them again: a
scratch slot exists, and a stored value goes to a bank in memory. `Instruction.Valid` says so of an
instruction, down to the leaves of its operands. Each word keeps valid what the pass has found so
far, so every instruction of a decoded program is valid:

    decode config name bytes = .ok program → program.get? index = some i → i.Valid    (decode_valid)
-/

namespace FieldEngine

/-! ## Valid instructions -/

/-- The scratch slots that the tree names exist. -/
def Expr.Valid : Expr → Prop
  | const _ => True
  | var v => v.bank = .temp → v.index.toNat < tempSlots
  | unary _ operand => operand.Valid
  | binary _ left right => left.Valid ∧ right.Valid

/-- The instruction stores its value in a scratch slot that exists, or in a bank in memory. -/
def Instruction.Places : Instruction → Prop
  | .popTemp slot _ | .random slot => slot.toNat < tempSlots
  | .popMem v _ => v.bank.width ≠ none
  | _ => True

structure Instruction.Valid (i : Instruction) : Prop where
  operands : ∀ e ∈ i.operands, e.Valid
  places : i.Places

/-! ## One instruction -/

namespace Opcode

theorem tempSlot_ok {o : Opcode} {parameter : Int16} {offset : Nat} {slot : UInt8}
    (h : o.tempSlot parameter offset = .ok slot) : slot.toNat < tempSlots := by
  unfold tempSlot at h
  split at h
  · rename_i hrange
    cases h
    have hslots : tempSlots = 8 := rfl
    rw [UInt8.toNat_ofNat']
    omega
  · cases h

/-- The opcode stores only in banks in memory. -/
def storesInMemory (o : Opcode) : Bool :=
  match o.role with
  | .instruction (.popMem bank) => bank.width.isSome
  | _ => true

theorem storesInMemory_of_mem : ∀ o ∈ table, o.storesInMemory = true := by
  decide

theorem build_valid {o : Opcode} (ho : o.storesInMemory = true) {parameter : Int16} {offset : Nat}
    {form : Form} (hform : o.role = .instruction form) {args : Vector Expr form.arity}
    (hargs : ∀ e ∈ args, e.Valid) {i : Instruction}
    (h : o.build parameter offset form args = .ok i) : i.Valid := by
  have hget : ∀ k, (args.get k).Valid := fun k => hargs _ (Vector.getElem_mem k.isLt)
  cases form with
  | popTemp =>
    rw [build] at h
    cases hslot : o.tempSlot parameter offset with
    | error e => rw [hslot] at h; cases h
    | ok slot =>
      rw [hslot] at h
      cases h
      refine ⟨?_, tempSlot_ok hslot⟩
      simpa [Instruction.operands] using hget _
  | random =>
    rw [build] at h
    cases hslot : o.tempSlot parameter offset with
    | error e => rw [hslot] at h; cases h
    | ok slot =>
      rw [hslot] at h
      cases h
      exact ⟨by simp [Instruction.operands], tempSlot_ok hslot⟩
  | popMem bank =>
    cases h
    refine ⟨?_, ?_⟩
    · simpa [Instruction.operands] using hget _
    · simp only [storesInMemory, hform] at ho
      exact Option.isSome_iff_ne_none.1 ho
  | message =>
    cases h
    refine ⟨?_, trivial⟩
    intro e he
    simp only [Instruction.operands, List.mem_cons, List.not_mem_nil, or_false] at he
    rcases he with rfl | rfl
    · exact hget _
    · exact hget _
  | placeholder n =>
    cases h
    refine ⟨?_, trivial⟩
    intro e he
    exact hargs e (by simpa [Instruction.operands] using he)
  | jumpIfZero =>
    cases h
    refine ⟨?_, trivial⟩
    simpa [Instruction.operands] using hget _
  | wait =>
    cases h
    refine ⟨?_, trivial⟩
    simpa [Instruction.operands] using hget _
  | _ =>
    cases h
    exact ⟨by simp [Instruction.operands], trivial⟩

end Opcode

/-- Operands that are taken off a stack were on it, and so were those that stay. -/
theorem OperandStack.mem_popN? {s : OperandStack} {n : Nat} {args : Vector Expr n}
    {rest : OperandStack} (h : s.popN? n = some (args, rest)) :
    (∀ e ∈ args, e ∈ s.nodes) ∧ ∀ e ∈ rest.nodes, e ∈ s.nodes := by
  unfold popN? at h
  split at h
  · cases h
    constructor
    · intro e he
      simp only [Vector.mem_mk, List.mem_toArray, List.mem_reverse] at he
      exact List.mem_of_mem_take he
    · intro e he
      exact List.mem_of_mem_drop he
  · cases h

/-! ## One word -/

namespace Pass

/-- The trees on the stack and the instructions found so far are valid. -/
structure Valid (p : Pass) : Prop where
  nodes : ∀ e ∈ p.stack.nodes, e.Valid
  entries : ∀ e ∈ p.entries, e.2.Valid

variable {p q : Pass}

theorem push_valid (hp : p.Valid) {e : Expr} {offset : Nat} (h : p.push e offset = .ok q)
    (he : e.Valid) : q.Valid := by
  unfold push at h
  cases hs : p.stack.push e offset with
  | error err => rw [hs] at h; cases h
  | ok stack =>
    rw [hs] at h
    cases h
    obtain ⟨-, rfl⟩ := OperandStack.push_ok_iff.1 hs
    refine ⟨?_, hp.entries⟩
    intro x hx
    rcases List.mem_cons.1 hx with rfl | hx
    · exact he
    · exact hp.nodes x hx

/-- The pass with fewer trees on its stack. -/
theorem valid_of_popN? (hp : p.Valid) {n : Nat} {args : Vector Expr n} {stack : OperandStack}
    (h : p.stack.popN? n = some (args, stack)) :
    (∀ e ∈ args, e.Valid) ∧ Valid { p with stack } := by
  obtain ⟨hargs, hrest⟩ := OperandStack.mem_popN? h
  exact ⟨fun e he => hp.nodes e (hargs e he), fun e he => hp.nodes e (hrest e he), hp.entries⟩

theorem feedPush_valid (hp : p.Valid) {o : Opcode} {parameter : Int16} {kind : PushKind}
    (h : p.feedPush o parameter kind = .ok q) : q.Valid := by
  cases kind with
  | literal => exact push_valid hp h trivial
  | wideLiteral =>
    cases h
    exact ⟨hp.nodes, hp.entries⟩
  | var bank =>
    cases bank with
    | temp =>
      rw [feedPush] at h
      cases hslot : o.tempSlot parameter p.offset with
      | error e => rw [hslot] at h; cases h
      | ok slot =>
        rw [hslot] at h
        refine push_valid hp h ?_
        intro _
        simpa using Opcode.tempSlot_ok hslot
    | _ => exact push_valid hp h nofun

theorem feedOperator_valid (hp : p.Valid) {parameter : Int16}
    (h : p.feedOperator parameter = .ok q) : q.Valid := by
  unfold feedOperator at h
  split at h
  · cases h
  · split at h
    · cases h
    · rename_i args stack hpop
      obtain ⟨hargs, hrest⟩ := valid_of_popN? hp hpop
      have hoperand : args[0].Valid := hargs _ (Vector.getElem_mem _)
      exact push_valid hrest h hoperand
  · split at h
    · cases h
    · rename_i args stack hpop
      obtain ⟨hargs, hrest⟩ := valid_of_popN? hp hpop
      exact push_valid hrest h ⟨hargs _ (Vector.getElem_mem _), hargs _ (Vector.getElem_mem _)⟩

theorem feedInstruction_valid (hp : p.Valid) {strict : Bool} {o : Opcode}
    (ho : o.storesInMemory = true) {parameter : Int16} {form : Form}
    (hform : o.role = .instruction form)
    (h : p.feedInstruction strict o parameter form = .ok q) : q.Valid := by
  unfold feedInstruction Opcode.take at h
  cases hpop : p.stack.popN? form.arity with
  | none => rw [hpop] at h; cases h
  | some taken =>
    obtain ⟨args, stack⟩ := taken
    obtain ⟨hargs, hrest⟩ := valid_of_popN? hp hpop
    simp only [hpop] at h
    cases hbuild : o.build parameter p.offset form args with
    | error e => rw [hbuild] at h; cases h
    | ok i =>
      simp only [hbuild] at h
      split at h
      · cases h
      · cases h
        refine ⟨hrest.nodes, ?_⟩
        intro e he
        rcases Array.mem_push.1 he with he | rfl
        · exact hp.entries e he
        · exact Opcode.build_valid ho hform hargs hbuild

/-- **One word** keeps valid what the pass has found. -/
theorem feed_valid (hp : p.Valid) {strict : Bool} {w : UInt32} (h : p.feed strict w = .ok q) :
    q.Valid := by
  unfold feed at h
  split at h
  · exact push_valid hp h trivial
  · dsimp only at h
    split at h
    · cases h
    · rename_i o ho
      have hstores := Opcode.storesInMemory_of_mem o (Opcode.ofCode?_eq_some ho).1
      split at h
      · exact feedPush_valid hp h
      · exact feedOperator_valid hp h
      · rename_i form hform
        exact feedInstruction_valid hp hstores hform h

end Pass

/-! ## All words -/

/-- What a fold that succeeds keeps, if each of its steps keeps it. -/
theorem foldlM_ok {ε α β : Type} {f : β → α → Except ε β} {P : β → Prop}
    (step : ∀ b a c, P b → f b a = .ok c → P c) (l : List α) {b c : β} (hb : P b)
    (h : l.foldlM f b = .ok c) : P c := by
  induction l generalizing b with
  | nil => cases h; exact hb
  | cons a l ih =>
    rw [List.foldlM_cons] at h
    cases ha : f b a with
    | error e => rw [ha] at h; cases h
    | ok d =>
      rw [ha] at h
      exact ih (step b a d hb ha) h

/-- A program is what a pass over all words has found. -/
theorem decode_ok {config : DecoderConfig} {name : String} {bytes : List UInt8} {program : Program}
    (h : decode config name bytes = .ok program) :
    ∃ pass, (Word.ofBytes bytes).1.foldlM (Pass.feed config.strict) (.start config.maxDepth) =
        .ok pass ∧
      pass.finish (Word.ofBytes bytes).2 = .ok program.entries ∧
      program.name = name ∧ program.endOffset = bytes.length := by
  unfold decode at h
  cases hpass : (Word.ofBytes bytes).1.foldlM (Pass.feed config.strict)
      (.start config.maxDepth) with
  | error e => simp only [hpass] at h; cases h
  | ok pass =>
    simp only [hpass] at h
    cases hfinish : pass.finish (Word.ofBytes bytes).2 with
    | error e => simp only [bind, Except.bind, hfinish] at h; cases h
    | ok entries =>
      simp only [bind, Except.bind, hfinish] at h
      cases h
      exact ⟨pass, rfl, hfinish, rfl, rfl⟩

theorem Pass.finish_ok {p : Pass} {spare : Nat} {entries : Array (Nat × Instruction)}
    (h : p.finish spare = .ok entries) :
    p.wide = none ∧ spare = 0 ∧ p.stack.nodes = [] ∧ entries = p.entries := by
  unfold finish at h
  split at h
  · cases h
  · rename_i hwhole
    split at h
    · cases h
    · rename_i hempty
      cases h
      have hwide : p.wide = none := by
        cases hw : p.wide with
        | none => rfl
        | some offset => simp [hw] at hwhole
      have hspare : spare = 0 := by simpa [hwide] using hwhole
      have hnodes : p.stack.nodes = [] := by simpa [OperandStack.depth] using hempty
      exact ⟨hwide, hspare, hnodes, rfl⟩

/-- **Every instruction of a decoded program is valid**, whatever the settings. -/
theorem decode_valid {config : DecoderConfig} {name : String} {bytes : List UInt8}
    {program : Program} (h : decode config name bytes = .ok program) {index : Nat}
    {i : Instruction} (hi : program.get? index = some i) : i.Valid := by
  obtain ⟨pass, hpass, hfinish, -, -⟩ := decode_ok h
  have hstart : (Pass.start config.maxDepth).Valid := by
    constructor
    · intro e he
      simp [Pass.start, OperandStack.empty] at he
    · intro e he
      simp [Pass.start] at he
  have hvalid : pass.Valid :=
    foldlM_ok (fun _ _ _ hp hfeed => Pass.feed_valid hp hfeed) _ hstart hpass
  obtain ⟨-, -, -, hentries⟩ := Pass.finish_ok hfinish
  unfold Program.get? at hi
  obtain ⟨entry, hentry, rfl⟩ := Option.map_eq_some_iff.1 hi
  rw [hentries] at hentry
  exact hvalid.entries entry (Array.mem_of_getElem? hentry)

end FieldEngine
