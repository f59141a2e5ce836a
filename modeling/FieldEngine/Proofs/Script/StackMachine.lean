import FieldEngine.Proofs.Script.Concatenation

/-!
# Groups on a stack of values

The words before an instruction word can be run as they stand: a push puts a literal or the present
value of a variable on a stack of values, and an operator word replaces the values on top by its
result (`ValueStack.step`). Decoding puts trees on the operand stack instead. The values of these
trees, the first pushed first, are at every point what the machine has on its stack (`Pass.valued`):

    p.feed true w = .ok q → w pushes or operates →
      q.valued field temps = p.valued field temps >>= (·.step field temps w)            (feed_reads)

So the operands of an instruction come to the values that its group of words leaves, or to the fault
at which the machine stops, whichever of several it meets first (`trees_compute_groups`).
-/

namespace FieldEngine

/-! ## The machine -/

/-- Why words leave no values. -/
inductive Trap
  /-- A variable or an operator has no value. -/
  | fault (fault : Fault)
  /-- A word is neither push nor operator, or finds too few values, or its literal is missing. -/
  | malformed
deriving DecidableEq

/-- A result that may fault, as the machine has it. -/
def Trap.ofFault {α : Type} (r : Except Fault α) : Except Trap α :=
  r.mapError .fault

/-- A stack of values, the last pushed first. -/
structure ValueStack where
  values : List Int32
  /-- The next word is a literal. -/
  wide : Bool
deriving DecidableEq

namespace ValueStack

def empty : ValueStack :=
  ⟨[], false⟩

def push (s : ValueStack) (r : Except Fault Int32) : Except Trap ValueStack :=
  (Trap.ofFault r).map fun value => ⟨value :: s.values, false⟩

/-- Apply an operator to the values on top. The first popped is the right operand. -/
def operate (s : ValueStack) (op : Operator) : Except Trap ValueStack :=
  match op, s.values with
  | .unary op, a :: rest => push ⟨rest, false⟩ (.ok (op.apply a))
  | .binary op, b :: a :: rest => push ⟨rest, false⟩ (op.apply a b)
  | _, _ => .error .malformed

def step (field : Field) (temps : Temps) (s : ValueStack) (w : UInt32) : Except Trap ValueStack :=
  if s.wide then s.push (.ok w.toInt32)
  else
    let word := Word.ofBits w
    match (Opcode.ofCode? word.opcode).map Opcode.role with
    | some (.push .literal) => s.push (.ok word.parameter.toInt32)
    | some (.push .wideLiteral) => .ok { s with wide := true }
    | some (.push (.var bank)) => s.push (Expr.load field temps ⟨bank, word.parameter.toUInt16⟩)
    | some .operator =>
      match Operator.ofCode? word.parameter with
      | some op => s.operate op
      | none => .error .malformed
    | some (.instruction _) | none => .error .malformed

/-- The values that words leave on an empty stack, in the order in which they were pushed. -/
def run (field : Field) (temps : Temps) (words : List UInt32) : Except Trap (List Int32) := do
  let s ← words.foldlM (step field temps) empty
  if s.wide then .error .malformed else .ok s.values.reverse

theorem push_operate_unary (s : ValueStack) (r : Except Fault Int32) (op : UnaryOp) :
    (s.push r >>= (·.operate (.unary op))) = s.push (r.map op.apply) := by
  cases r with
  | error f => rfl
  | ok a => rfl

theorem push_operate_binary (s : ValueStack) (left right : Except Fault Int32) (op : BinaryOp) :
    (s.push left >>= (·.push right) >>= (·.operate (.binary op))) =
      s.push (do let a ← left; let b ← right; op.apply a b) := by
  cases left with
  | error f => rfl
  | ok a =>
    cases right with
    | error f => rfl
    | ok b => rfl

end ValueStack

/-! ## Values of trees -/

/-- The values of trees on a stack. The first pushed is the last of the list, and is evaluated
first. -/
def Expr.stacked (field : Field) (temps : Temps) : List Expr → Except Fault (List Int32)
  | [] => .ok []
  | e :: nodes => do
    let values ← stacked field temps nodes
    let value ← e.eval field temps
    .ok (value :: values)

theorem Expr.stacked_eq (field : Field) (temps : Temps) (nodes : List Expr) :
    stacked field temps nodes =
      (nodes.reverse.mapM (Expr.eval field temps)).map List.reverse := by
  induction nodes with
  | nil => rfl
  | cons e nodes ih =>
    rw [stacked, ih, List.reverse_cons, List.mapM_append]
    cases nodes.reverse.mapM (Expr.eval field temps) with
    | error f => rfl
    | ok values =>
      cases he : e.eval field temps with
      | error f => simp [he, Except.map, bind, Except.bind]
      | ok value => simp [he, Except.map, bind, Except.bind, pure, Except.pure]

section Few

variable {α : Type}

theorem toList_zero (v : Vector α 0) : v.toList = [] :=
  List.eq_nil_of_length_eq_zero (by simp)

theorem toList_one (v : Vector α 1) : v.toList = [v.get ⟨0, Nat.zero_lt_one⟩] := by
  apply List.ext_getElem
  · simp
  · intro k hk _
    have hzero : k = 0 := by simpa using hk
    subst hzero
    simp [Vector.get]

theorem toList_two (v : Vector α 2) :
    v.toList = [v.get ⟨0, Nat.zero_lt_two⟩, v.get ⟨1, Nat.one_lt_two⟩] := by
  apply List.ext_getElem
  · simp
  · intro k hk _
    have hk : k = 0 ∨ k = 1 := by
      rw [Vector.length_toList] at hk
      omega
    rcases hk with rfl | rfl <;> simp [Vector.get]

end Few

/-- Operands come off a stack in the order in which they were pushed. -/
theorem OperandStack.popN?_nodes {s : OperandStack} {n : Nat} {args : Vector Expr n}
    {rest : OperandStack} (h : s.popN? n = some (args, rest)) :
    s.nodes = args.toList.reverse ++ rest.nodes := by
  unfold popN? at h
  split at h
  · cases h
    simp [Vector.toList]
  · cases h

namespace Pass

/-- What the machine has on its stack where a pass has trees. -/
def valued (field : Field) (temps : Temps) (p : Pass) : Except Trap ValueStack :=
  (Trap.ofFault (Expr.stacked field temps p.stack.nodes)).map fun values => ⟨values, p.wide.isSome⟩

section Valued

variable (field : Field) (temps : Temps) {p q : Pass}

/-- A tree on top of a stack is a value pushed. -/
theorem valued_cons {e : Expr} {nodes : List Expr} (hp : p.stack.nodes = e :: nodes)
    (hwide : p.wide = none) {r : Pass} (hr : r.stack.nodes = nodes) :
    p.valued field temps = r.valued field temps >>= (·.push (e.eval field temps)) := by
  unfold valued
  rw [hp, hr, hwide, Expr.stacked]
  cases Expr.stacked field temps nodes with
  | error f => rfl
  | ok values =>
    cases e.eval field temps with
    | error f => rfl
    | ok value => rfl

theorem push_valued {e : Expr} {offset : Nat} (h : p.push e offset = .ok q) :
    q.valued field temps = p.valued field temps >>= (·.push (e.eval field temps)) := by
  obtain ⟨stack, hstack, rfl⟩ := map_eq_ok h
  obtain ⟨-, rfl⟩ := OperandStack.push_ok_iff.1 hstack
  exact valued_cons field temps rfl rfl rfl

/-- The machine is past a wide push exactly if the pass is. -/
theorem valued_bind_congr {f g : ValueStack → Except Trap ValueStack}
    (h : ∀ s : ValueStack, s.wide = p.wide.isSome → f s = g s) :
    p.valued field temps >>= f = p.valued field temps >>= g := by
  unfold valued
  cases Expr.stacked field temps p.stack.nodes with
  | error e => rfl
  | ok values => exact h ⟨values, p.wide.isSome⟩ rfl

end Valued

/-! ## One word -/

/-- What a word does to a strict pass: the machine carries it out on the values as the pass does on
the trees, or it makes an instruction of all trees there are. -/
inductive Reads (p : Pass) (w : UInt32) (q : Pass) : Prop
  | operand (entries : q.entries = p.entries) (group : q.groupStart = p.groupStart)
      (valued : ∀ field temps, q.valued field temps =
        p.valued field temps >>= (·.step field temps w))
  | instruction (i : Instruction) (entries : q.entries = p.entries.push (p.groupStart, i))
      (group : q.groupStart = p.offset + 4) (wide : p.wide = none)
      (nodes : p.stack.nodes = i.operands.reverse) (rest : q.stack.nodes = [])
      (idle : q.wide = none)
      (makes : decodeInstruction (Word.ofBits w).opcode (Word.ofBits w).parameter p.offset p.stack =
        (.ok i, q.stack))

variable {p q : Pass} {w : UInt32}

/-- A word that pushes a tree is carried out if the machine pushes its value. -/
theorem Reads.of_push {e : Expr} {offset : Nat} (h : p.push e offset = .ok q)
    (hstep : ∀ field temps (s : ValueStack), s.wide = p.wide.isSome →
      s.step field temps w = s.push (e.eval field temps)) : p.Reads w q := by
  have hvalued := fun field temps => push_valued field temps h
  obtain ⟨stack, -, rfl⟩ := map_eq_ok h
  refine .operand rfl rfl fun field temps => ?_
  rw [hvalued]
  exact (valued_bind_congr field temps (hstep field temps)).symm

end Pass

theorem Opcode.tempSlot_eq {o : Opcode} {parameter : Int16} {offset : Nat} {slot : UInt8}
    (h : o.tempSlot parameter offset = .ok slot) : slot.toUInt16 = parameter.toUInt16 := by
  unfold tempSlot at h
  split at h
  · rename_i hrange
    cases h
    have hslots : tempSlots = 8 := rfl
    have hparameter : parameter.toUInt16.toNat = parameter.toInt.toNat := by
      have hcond := parameter.toBitVec.toInt_eq_toNat_cond
      have hint : parameter.toInt = parameter.toBitVec.toInt := rfl
      have hnat : parameter.toUInt16.toNat = parameter.toBitVec.toNat := rfl
      split at hcond <;> omega
    apply UInt16.toNat_inj.1
    rw [UInt8.toNat_toUInt16, UInt8.toNat_ofNat', hparameter]
    omega
  · cases h

/-- An instruction has the operands that it is built of. -/
theorem Opcode.build_operands {o : Opcode} {parameter : Int16} {offset : Nat} {form : Form}
    {args : Vector Expr form.arity} {i : Instruction}
    (h : o.build parameter offset form args = .ok i) : i.operands = args.toList := by
  cases form with
  | jumpIfZero | popMem bank | wait =>
    cases h
    exact (toList_one args).symm
  | popTemp =>
    obtain ⟨slot, -, rfl⟩ := map_eq_ok h
    exact (toList_one args).symm
  | random =>
    obtain ⟨slot, -, rfl⟩ := map_eq_ok h
    exact (toList_zero args).symm
  | message =>
    cases h
    exact (toList_two args).symm
  | placeholder n =>
    cases h
    rfl
  | _ =>
    cases h
    exact (toList_zero args).symm

theorem Opcode.take_ok {o : Opcode} {form : Form} {parameter : Int16} {offset : Nat}
    {stack rest : OperandStack} {i : Instruction}
    (h : o.take form parameter offset stack = (.ok i, rest)) :
    ∃ args, stack.popN? form.arity = some (args, rest) ∧
      o.build parameter offset form args = .ok i := by
  unfold take at h
  cases hpop : stack.popN? form.arity with
  | none => rw [hpop] at h; cases h
  | some taken =>
    rw [hpop] at h
    obtain ⟨hbuild, rfl⟩ := Prod.mk.inj h
    exact ⟨taken.1, rfl, hbuild⟩

namespace Pass

variable {p q : Pass} {w : UInt32}

theorem feedPush_reads {o : Opcode} {kind : PushKind} (hwide : p.wide = none)
    (ho : Opcode.ofCode? (Word.ofBits w).opcode = some o) (hrole : o.role = .push kind)
    (h : p.feedPush o (Word.ofBits w).parameter kind = .ok q) : p.Reads w q := by
  cases kind with
  | literal =>
    refine .of_push h fun field temps s hs => ?_
    simp [ValueStack.step, hs, hwide, ho, hrole, Expr.eval]
  | wideLiteral =>
    cases h
    refine .operand rfl rfl fun field temps => ?_
    have hstep : ∀ s : ValueStack, s.wide = p.wide.isSome →
        s.step field temps w = .ok { s with wide := true } := by
      intro s hs
      simp [ValueStack.step, hs, hwide, ho, hrole]
    rw [valued_bind_congr field temps hstep]
    unfold valued
    cases Expr.stacked field temps p.stack.nodes with
    | error f => rfl
    | ok values => rfl
  | var bank =>
    have hstep : ∀ field temps (s : ValueStack), s.wide = p.wide.isSome → s.step field temps w =
        s.push ((Expr.var ⟨bank, (Word.ofBits w).parameter.toUInt16⟩).eval field temps) := by
      intro field temps s hs
      simp [ValueStack.step, hs, hwide, ho, hrole, Expr.eval]
    cases bank with
    | temp =>
      rw [feedPush] at h
      cases hslot : o.tempSlot (Word.ofBits w).parameter p.offset with
      | error e => rw [hslot] at h; cases h
      | ok slot =>
        rw [hslot] at h
        rw [← Opcode.tempSlot_eq hslot] at hstep
        exact .of_push h hstep
    | _ => exact .of_push h hstep

/-- The trees of an operator are those on top of the stack, the right one last pushed. -/
theorem feedOperator_reads (hwide : p.wide = none) {o : Opcode}
    (ho : Opcode.ofCode? (Word.ofBits w).opcode = some o) (hrole : o.role = .operator)
    (h : p.feedOperator (Word.ofBits w).parameter = .ok q) : p.Reads w q := by
  have hstep : ∀ field temps (s : ValueStack) op,
      Operator.ofCode? (Word.ofBits w).parameter = some op → s.wide = p.wide.isSome →
      s.step field temps w = s.operate op := by
    intro field temps s op hop hs
    simp [ValueStack.step, hs, hwide, ho, hrole, hop]
  unfold feedOperator at h
  split at h
  · cases h
  · rename_i op hop
    split at h
    · cases h
    · rename_i args stack hpop
      have hvalued := fun field temps => push_valued field temps h
      obtain ⟨pushed, -, rfl⟩ := map_eq_ok h
      refine .operand rfl rfl fun field temps => ?_
      have hnodes : p.stack.nodes = args[0] :: stack.nodes := by
        rw [OperandStack.popN?_nodes hpop, toList_one]
        rfl
      have hoperand : p.valued field temps =
          valued field temps { p with stack } >>= (·.push (args[0].eval field temps)) :=
        valued_cons field temps hnodes hwide rfl
      rw [hvalued, valued_bind_congr field temps (fun s => hstep field temps s _ hop), hoperand,
        bind_assoc]
      simp only [ValueStack.push_operate_unary]
      rfl
  · rename_i op hop
    split at h
    · cases h
    · rename_i args stack hpop
      have hvalued := fun field temps => push_valued field temps h
      obtain ⟨pushed, -, rfl⟩ := map_eq_ok h
      refine .operand rfl rfl fun field temps => ?_
      have hnodes : p.stack.nodes = args[1] :: args[0] :: stack.nodes := by
        rw [OperandStack.popN?_nodes hpop, toList_two]
        rfl
      let left : Pass := { p with stack := ⟨p.stack.limit, args[0] :: stack.nodes⟩ }
      have hright : p.valued field temps =
          left.valued field temps >>= (·.push (args[1].eval field temps)) :=
        valued_cons field temps hnodes hwide rfl
      have hleft : left.valued field temps =
          valued field temps { p with stack } >>= (·.push (args[0].eval field temps)) :=
        valued_cons field temps (p := left) rfl hwide rfl
      rw [hvalued, valued_bind_congr field temps (fun s => hstep field temps s _ hop), hright,
        hleft, bind_assoc, bind_assoc]
      simp only [← bind_assoc, ValueStack.push_operate_binary]
      rfl

/-- A strict pass leaves no tree behind, so the operands are all that the stack held. -/
theorem feedInstruction_reads (hwide : p.wide = none) {o : Opcode} {form : Form}
    (ho : Opcode.ofCode? (Word.ofBits w).opcode = some o) (hrole : o.role = .instruction form)
    (h : p.feedInstruction true o (Word.ofBits w).parameter form = .ok q) : p.Reads w q := by
  unfold feedInstruction at h
  rcases htake : o.take form (Word.ofBits w).parameter p.offset p.stack with ⟨r, stack⟩
  rw [htake] at h
  cases r with
  | error e => cases h
  | ok i =>
    simp only [Bool.true_and] at h
    split at h
    · cases h
    · rename_i hdepth
      cases h
      obtain ⟨args, hpop, hbuild⟩ := Opcode.take_ok htake
      have hrest : stack.nodes = [] := by simpa [OperandStack.depth] using hdepth
      refine .instruction i rfl rfl hwide ?_ hrest hwide
        ((decodeInstruction_eq ho hrole _ _ _).trans htake)
      rw [OperandStack.popN?_nodes hpop, hrest, List.append_nil, Opcode.build_operands hbuild]

/-- **One word** on trees and on values. -/
theorem feed_reads (h : p.feed true w = .ok q) : p.Reads w q := by
  unfold feed at h
  split at h
  · rename_i offset hwide
    refine .of_push h fun field temps s hs => ?_
    rw [hwide] at hs
    simp [ValueStack.step, hs, Expr.eval]
  · rename_i hwide
    dsimp only at h
    split at h
    · cases h
    · rename_i o ho
      split at h
      · rename_i kind hrole
        exact feedPush_reads hwide ho hrole h
      · rename_i hrole
        exact feedOperator_reads hwide ho hrole h
      · rename_i form hrole
        exact feedInstruction_reads hwide ho hrole h

end Pass

/-! ## All words -/

/-- Words that leave the operands of an instruction on a stack, and the word after them that makes
the instruction of them. The group starts at an offset. -/
structure Instruction.Group (i : Instruction) (limit offset : Nat) (operands : List UInt32)
    (last : UInt32) : Prop where
  values : ∀ field temps, ValueStack.run field temps operands =
    Trap.ofFault (i.operands.mapM (Expr.eval field temps))
  makes : decodeInstruction (Word.ofBits last).opcode (Word.ofBits last).parameter
    (offset + 4 * operands.length) ⟨limit, i.operands.reverse⟩ = (.ok i, ⟨limit, []⟩)

/-- Words cut into groups, with the offset and the instruction of each. -/
inductive Cut (limit : Nat) : List UInt32 → Array (Nat × Instruction) → Prop
  | start : Cut limit [] #[]
  | group {words operands : List UInt32} {entries : Array (Nat × Instruction)} {last : UInt32}
      {i : Instruction} (before : Cut limit words entries)
      (group : i.Group limit (4 * words.length) operands last) :
      Cut limit (words ++ (operands ++ [last])) (entries.push (4 * words.length, i))

namespace Pass

/-- A strict pass over groups and the words of one that is not yet whole. -/
structure Cuts (p : Pass) (whole opened : List UInt32) : Prop where
  cut : Cut p.stack.limit whole p.entries
  start : p.groupStart = 4 * whole.length
  offset : p.offset = 4 * (whole.length + opened.length)
  values : ∀ field temps,
    opened.foldlM (ValueStack.step field temps) .empty = p.valued field temps

variable {p q : Pass} {whole opened : List UInt32}

/-- The values that the words of an open group leave are those of its trees. -/
theorem Cuts.run_eq (h : p.Cuts whole opened) (hwide : p.wide = none) (field : Field)
    (temps : Temps) : ValueStack.run field temps opened =
      Trap.ofFault (p.stack.nodes.reverse.mapM (Expr.eval field temps)) := by
  rw [ValueStack.run, h.values, valued, Expr.stacked_eq, hwide]
  cases p.stack.nodes.reverse.mapM (Expr.eval field temps) with
  | error f => rfl
  | ok values =>
    show Except.ok values.reverse.reverse = _
    rw [List.reverse_reverse]
    rfl

/-- **One word** is added to the open group, or ends it. -/
theorem Cuts.feed (hp : p.Cuts whole opened) {w : UInt32} (h : p.feed true w = .ok q) :
    q.Cuts whole (opened ++ [w]) ∨ q.Cuts (whole ++ (opened ++ [w])) [] := by
  have hadvance := feed_advance h
  have hoffset : q.offset = 4 * (whole.length + (opened ++ [w]).length) := by
    rw [hadvance.offset, hp.offset, List.length_append, List.length_singleton]
    omega
  cases feed_reads h with
  | operand entries group valued =>
    refine .inl ⟨?_, group.trans hp.start, hoffset, ?_⟩
    · rw [hadvance.limit, entries]
      exact hp.cut
    · intro field temps
      rw [List.foldlM_append, hp.values, valued]
      simp
  | instruction i entries group wide nodes rest idle makes =>
    have hend : 4 * whole.length + 4 * opened.length = p.offset := by
      rw [hp.offset]
      omega
    have hgroup : i.Group p.stack.limit (4 * whole.length) opened w := by
      refine ⟨fun field temps => ?_, ?_⟩
      · rw [hp.run_eq wide, nodes, List.reverse_reverse]
      · have hstack : p.stack = ⟨p.stack.limit, i.operands.reverse⟩ := by rw [← nodes]
        have hrest : q.stack = ⟨p.stack.limit, []⟩ := by rw [← hadvance.limit, ← rest]
        rw [hend, ← hstack, ← hrest, makes]
    refine .inr ⟨?_, ?_, ?_, ?_⟩
    · rw [hadvance.limit, entries, hp.start]
      exact .group hp.cut hgroup
    · rw [group, hp.offset, List.length_append, List.length_append, List.length_singleton]
      omega
    · rw [hoffset, ← List.length_append]
      rfl
    · intro field temps
      rw [Pass.valued, rest, idle]
      rfl

/-- **All words.** -/
theorem Cuts.foldlM (words : List UInt32) (hp : p.Cuts whole opened)
    (h : words.foldlM (Pass.feed true) p = .ok q) :
    ∃ whole' opened', whole' ++ opened' = whole ++ opened ++ words ∧ q.Cuts whole' opened' := by
  induction words generalizing p whole opened with
  | nil =>
    cases h
    exact ⟨whole, opened, (List.append_nil _).symm, hp⟩
  | cons w words ih =>
    rw [List.foldlM_cons] at h
    cases hw : p.feed true w with
    | error e => rw [hw] at h; cases h
    | ok r =>
      rw [hw] at h
      rcases hp.feed hw with hr | hr
      · obtain ⟨whole', opened', heq, hq⟩ := ih hr h
        exact ⟨whole', opened', by simpa using heq, hq⟩
      · obtain ⟨whole', opened', heq, hq⟩ := ih hr h
        exact ⟨whole', opened', by simpa using heq, hq⟩

theorem start_cuts (limit : Nat) : (start limit).Cuts [] [] :=
  ⟨.start, rfl, rfl, fun _ _ => rfl⟩

end Pass

/-- **A script that is decoded strictly** is cut into the groups of its instructions. -/
theorem decode_cut {config : DecoderConfig} (hstrict : config.strict = true) {name : String}
    {bytes : List UInt8} {program : Program} (h : decode config name bytes = .ok program) :
    Cut config.maxDepth (Word.ofBytes bytes).1 program.entries ∧
      program.endOffset = 4 * (Word.ofBytes bytes).1.length := by
  obtain ⟨pass, hpass, hfinish, -, hend⟩ := decode_ok h
  obtain ⟨hwide, hspare, hnodes, hentries⟩ := Pass.finish_ok hfinish
  have htidy := Pass.foldlM_tidy _ (Pass.start_tidy config.maxDepth) hpass
  rw [hstrict] at hpass
  obtain ⟨whole, opened, hwords, hcuts⟩ := Pass.Cuts.foldlM _ (Pass.start_cuts _) hpass
  -- nothing waits at the end, so the last group is whole
  have hopened : opened = [] := by
    have hgroup := htidy.group hnodes hwide
    rw [hcuts.start, hcuts.offset] at hgroup
    exact List.eq_nil_of_length_eq_zero (by omega)
  rw [hopened, List.append_nil] at hwords
  have hcut := hcuts.cut
  rw [htidy.limit, hwords] at hcut
  refine ⟨by rw [hentries]; exact hcut, ?_⟩
  have hlength := Word.length_ofBytes bytes
  omega

/-! ## The group of an instruction -/

namespace Program

/-- Where the group of an index starts; past the last one, the end of the script. -/
def groupStart (p : Program) (index : Nat) : Nat :=
  (p.offsetOf? index).getD p.endOffset

/-- The words of a group: those of the script from the start of the group up to that of the next
one. -/
def group (p : Program) (words : List UInt32) (index : Nat) : List UInt32 :=
  (words.take (p.groupStart (index + 1) / 4)).drop (p.groupStart index / 4)

theorem groupStart_of_size_le (p : Program) {index : Nat} (h : p.entries.size ≤ index) :
    p.groupStart index = p.endOffset := by
  simp [groupStart, offsetOf?, Array.getElem?_eq_none_iff.2 h]

/-- Another instruction at the end leaves the starts of groups as they are. -/
theorem groupStart_push (name : String) (entries : Array (Nat × Instruction)) (offset stop : Nat)
    (i : Instruction) {index : Nat} (h : index ≤ entries.size) :
    groupStart ⟨name, entries.push (offset, i), stop⟩ index =
      groupStart ⟨name, entries, offset⟩ index := by
  unfold groupStart offsetOf?
  simp only [Array.getElem?_push]
  split
  · rename_i hsize
    simp [hsize]
  · rename_i hsize
    have hlt : index < entries.size := by omega
    simp [Array.getElem?_eq_getElem hlt]

/-- Another instruction at the end leaves the groups before it as they are. -/
theorem group_push_of_lt (name : String) (entries : Array (Nat × Instruction)) (offset stop : Nat)
    (i : Instruction) {words : List UInt32} (more : List UInt32) {index : Nat}
    (h : index < entries.size)
    (hle : groupStart ⟨name, entries, offset⟩ (index + 1) ≤ 4 * words.length) :
    group ⟨name, entries.push (offset, i), stop⟩ (words ++ more) index =
      group ⟨name, entries, offset⟩ words index := by
  have hnext : index + 1 ≤ entries.size := h
  unfold group
  rw [groupStart_push name entries _ _ i (Nat.le_of_lt h), groupStart_push name entries _ _ i hnext,
    List.take_append_of_le_length (by omega)]

/-- The last group goes from the end of the others to the end of the words. -/
theorem group_push_size (name : String) (entries : Array (Nat × Instruction)) (i : Instruction)
    (words more : List UInt32) :
    group ⟨name, entries.push (4 * words.length, i), 4 * (words ++ more).length⟩ (words ++ more)
      entries.size = more := by
  have hstart : groupStart ⟨name, entries.push (4 * words.length, i), 4 * (words ++ more).length⟩
      entries.size = 4 * words.length := by
    rw [groupStart_push name entries _ _ i (Nat.le_refl _)]
    exact groupStart_of_size_le _ (Nat.le_refl _)
  have hstop : groupStart ⟨name, entries.push (4 * words.length, i), 4 * (words ++ more).length⟩
      (entries.size + 1) = 4 * (words ++ more).length :=
    groupStart_of_size_le _ (Nat.le_of_eq (Array.size_push _))
  rw [group, hstart, hstop, Nat.mul_div_cancel_left _ (by decide),
    Nat.mul_div_cancel_left _ (by decide), List.take_length, List.drop_left]

end Program

section Cuts

variable {limit : Nat} {words : List UInt32} {entries : Array (Nat × Instruction)}

/-- No group starts past the end of the words. -/
theorem Cut.groupStart_le (h : Cut limit words entries) (name : String) (index : Nat) :
    Program.groupStart ⟨name, entries, 4 * words.length⟩ index ≤ 4 * words.length := by
  induction h with
  | start => exact Nat.le_refl 0
  | @group words operands entries last i before group ih =>
    by_cases hindex : index ≤ entries.size
    · rw [Program.groupStart_push name entries _ _ i hindex, List.length_append]
      omega
    · exact Nat.le_of_eq (Program.groupStart_of_size_le _ (by rw [Array.size_push]; omega))

/-- **The group of each instruction** pushes its operands and ends with the word that makes it. -/
theorem Cut.group_eq (h : Cut limit words entries) (name : String) {index offset : Nat}
    {i : Instruction} (hentry : entries[index]? = some (offset, i)) :
    ∃ operands last,
      Program.group ⟨name, entries, 4 * words.length⟩ words index = operands ++ [last] ∧
      i.Group limit offset operands last := by
  induction h with
  | start => simp at hentry
  | @group words operands entries last j before group ih =>
    rw [Array.getElem?_push] at hentry
    split at hentry
    · rename_i hsize
      cases hentry
      rw [hsize]
      exact ⟨operands, last, Program.group_push_size name entries i words _, group⟩
    · have hindex : index < entries.size := (Array.getElem?_eq_some_iff.1 hentry).1
      obtain ⟨ops, w, hgroup, hi⟩ := ih hentry
      refine ⟨ops, w, ?_, hi⟩
      rw [← hgroup]
      exact Program.group_push_of_lt name entries _ _ j _ hindex
        (before.groupStart_le name (index + 1))

end Cuts

/-- **Decoded trees compute what the stack machine would.** Take any script that is decoded
strictly, and any instruction of the program. The words of its group are those that push its
operands, and then the one that makes the instruction of just these. Whatever the field and the
scratch slots hold, the former, run one after the other on a stack of values, leave the values of
the operands in the order in which they were pushed, or stop at the fault that evaluating the
operands in that order meets first. -/
theorem trees_compute_groups {config : DecoderConfig} (hstrict : config.strict = true)
    {name : String} {bytes : List UInt8} {program : Program}
    (h : decode config name bytes = .ok program) {index : Nat} {i : Instruction}
    (hi : program.get? index = some i) :
    ∃ offset operands last, program.offsetOf? index = some offset ∧
      program.group (Word.ofBytes bytes).1 index = operands ++ [last] ∧
      decodeInstruction (Word.ofBits last).opcode (Word.ofBits last).parameter
          (offset + 4 * operands.length) ⟨config.maxDepth, i.operands.reverse⟩ =
        (.ok i, ⟨config.maxDepth, []⟩) ∧
      ∀ field temps, ValueStack.run field temps operands =
        Trap.ofFault (i.operands.mapM (Expr.eval field temps)) := by
  obtain ⟨hcut, hend⟩ := decode_cut hstrict h
  unfold Program.get? at hi
  obtain ⟨⟨offset, j⟩, hentry, rfl⟩ := Option.map_eq_some_iff.1 hi
  obtain ⟨operands, last, hgroup, hj⟩ := hcut.group_eq program.name hentry
  refine ⟨offset, operands, last, ?_, ?_, hj.makes, hj.values⟩
  · rw [Program.offsetOf?, hentry]
    rfl
  · rw [← hgroup, ← hend]

/-- A case of two messages. The first has operands `10 - 3` and `7`. The operands of the second read
past the end of the memory and then divide by zero, and the former is the fault that both ways
meet. -/
theorem trees_compute_groups_messages :
    let bytes : List UInt8 :=
      [10, 0, 7, 0, 3, 0, 7, 0, 1, 0, 1, 0, 7, 0, 7, 0, 0, 0, 36, 0,
        3, 0, 11, 0, 1, 0, 7, 0, 0, 0, 7, 0, 3, 0, 1, 0, 0, 0, 36, 0]
    let first : Instruction := .message (.binary .sub (.const 10) (.const 3)) (.const 7)
    let second : Instruction :=
      .message (.var ⟨.word, 3⟩) (.binary .div (.const 1) (.const 0))
    let program : Program := ⟨"talk", #[(0, first), (20, second)], 40⟩
    let words := (Word.ofBytes bytes).1
    let field := Field.empty 0 4
    decode {} "talk" bytes = .ok program ∧
    (∃ operands last, program.group words 0 = operands ++ [last] ∧
      ValueStack.run field (.replicate tempSlots 0) operands = .ok [7, 7]) ∧
    ∃ operands last, program.group words 1 = operands ++ [last] ∧
      ValueStack.run field (.replicate tempSlots 0) operands =
        .error (.fault (.addressOutOfRange .word 3)) := by
  intro bytes first second program words field
  have hdecode : decode {} "talk" bytes = .ok program := by rfl
  refine ⟨hdecode, ?_, ?_⟩
  · obtain ⟨offset, operands, last, -, hgroup, -, hvalues⟩ :=
      trees_compute_groups rfl hdecode (show program.get? 0 = some first from rfl)
    exact ⟨operands, last, hgroup, hvalues _ _⟩
  · obtain ⟨offset, operands, last, -, hgroup, -, hvalues⟩ :=
      trees_compute_groups rfl hdecode (show program.get? 1 = some second from rfl)
    exact ⟨operands, last, hgroup, hvalues _ _⟩

end FieldEngine
