import FieldEngine.Script.Assembler
import FieldEngine.Script.Decoder

/-!
# Groups of words

The words that push an expression leave its tree on the operand stack, however deep the tree is,
as long as the stack does not run out on the way. An instruction word then takes its operands off
and ends the group. The facts that a caller needs:

    e.Writable → nodes.length + e.need ≤ limit →
      (feeding e.words) on nodes = e :: nodes                            (feed_words)
    w.Encodes i → feeding w on i.operands adds the instruction i         (feed_encodes)
    feeding a jump word adds the jump with its relative target           (feed_jump)
-/

namespace FieldEngine

/-! ## Expressions as words -/

/-- The words among items. -/
def AsmItem.word? : AsmItem → Option UInt32
  | word w => some w
  | label _ | jump _ _ => none

namespace Expr

def words (e : Expr) : List UInt32 :=
  (AsmItem.pushExpr e).filterMap AsmItem.word?

/-- Most trees that are on the stack at a time while a tree is pushed. -/
def need : Expr → Nat
  | const _ | var _ => 1
  | unary _ operand => operand.need
  | binary _ left right => max left.need (right.need + 1)

/-- The same for trees that are pushed one after the other. -/
def needs : List Expr → Nat
  | [] => 0
  | e :: es => max e.need (needs es + 1)

/-- Every scratch slot that the tree names exists. -/
def Writable : Expr → Prop
  | const _ => True
  | var v => v.bank = .temp → v.index.toNat < tempSlots
  | unary _ operand => operand.Writable
  | binary _ left right => left.Writable ∧ right.Writable

instance decidableWritable : (e : Expr) → Decidable e.Writable
  | const _ => inferInstanceAs (Decidable True)
  | var v => inferInstanceAs (Decidable (v.bank = .temp → v.index.toNat < tempSlots))
  | unary _ operand => decidableWritable operand
  | binary _ left right =>
    have := decidableWritable left
    have := decidableWritable right
    inferInstanceAs (Decidable (left.Writable ∧ right.Writable))

theorem need_pos (e : Expr) : 0 < e.need := by
  induction e with
  | const value => exact Nat.one_pos
  | var v => exact Nat.one_pos
  | unary op operand ih => exact ih
  | binary op left right ihl ihr => exact Nat.lt_of_lt_of_le ihl (Nat.le_max_left _ _)

theorem pushExpr_eq (e : Expr) : AsmItem.pushExpr e = e.words.map .word := by
  induction e with
  | const value =>
    unfold words AsmItem.pushExpr AsmItem.pushConst
    split <;> rfl
  | var v => rfl
  | unary op operand ih =>
    simp only [words, AsmItem.pushExpr, List.filterMap_append, List.map_append] at ih ⊢
    rw [← ih]
    rfl
  | binary op left right ihl ihr =>
    simp only [words, AsmItem.pushExpr, List.filterMap_append, List.map_append] at ihl ihr ⊢
    rw [← ihl, ← ihr]
    rfl

theorem words_unary (op : UnaryOp) (operand : Expr) :
    (unary op operand).words = operand.words ++ [Word.bits ⟨0x01, op.code⟩] := by
  simp only [words, AsmItem.pushExpr, List.filterMap_append]
  rfl

theorem words_binary (op : BinaryOp) (left right : Expr) :
    (binary op left right).words = left.words ++ right.words ++ [Word.bits ⟨0x01, op.code⟩] := by
  simp only [words, AsmItem.pushExpr, List.filterMap_append]
  rfl

end Expr

/-! ## Taking operands off -/

namespace OperandStack

/-- The last pushed trees come off in the order in which they were pushed. -/
theorem popN?_reverse {n : Nat} (args : Vector Expr n) (limit : Nat) (nodes : List Expr) :
    popN? ⟨limit, args.toList.reverse ++ nodes⟩ n = some (args, ⟨limit, nodes⟩) := by
  have hlen : args.toList.reverse.length = n := by simp
  have htake : (args.toList.reverse ++ nodes).take n = args.toList.reverse := by
    rw [List.take_append_of_le_length (by omega), List.take_of_length_le (by omega)]
  have hdrop : (args.toList.reverse ++ nodes).drop n = nodes := by
    rw [List.drop_append_of_le_length (by omega), List.drop_of_length_le (by omega)]
    rfl
  unfold popN?
  rw [dif_pos (by simp)]
  congr 2
  · apply Vector.toArray_inj.1
    simp only [htake, List.reverse_reverse]
    rfl
  · simp only [hdrop]

end OperandStack

namespace Opcode

theorem tempSlot_of_lt (o : Opcode) (offset : Nat) {slot : UInt16}
    (h : slot.toNat < tempSlots) :
    o.tempSlot slot.toInt16 offset = .ok slot.toUInt8 := by
  have hs : slot.toNat < 8 := h
  have hint : slot.toInt16.toInt = slot.toNat := by
    show slot.toBitVec.toInt = slot.toNat
    rw [BitVec.toInt_eq_toNat_cond, if_pos (by show 2 * slot.toNat < 2 ^ 16; omega)]
    rfl
  unfold tempSlot
  rw [if_pos (by rw [hint]; constructor <;> omega), hint]
  rfl

end Opcode

/-! ## One word -/

namespace Pass

variable {strict : Bool} {opcode : UInt16} {o : Opcode}

theorem feed_push {p : Pass} {kind : PushKind} (hp : p.wide = none)
    (ho : Opcode.ofCode? opcode = some o) (hr : o.role = .push kind) (parameter : Int16) :
    p.feed strict (Word.bits ⟨opcode, parameter⟩) = p.feedPush o parameter kind := by
  unfold feed
  rw [hp, Word.ofBits_bits]
  simp only [ho, hr]

theorem feed_operator {p : Pass} (hp : p.wide = none) (parameter : Int16) :
    p.feed strict (Word.bits ⟨0x01, parameter⟩) = p.feedOperator parameter := by
  have ho : Opcode.ofCode? 0x01 = some ⟨0x01, "CAL", .operator⟩ := by decide
  unfold feed
  rw [hp, Word.ofBits_bits]
  simp only [ho]

theorem feed_instruction {p : Pass} {form : Form} (hp : p.wide = none)
    (ho : Opcode.ofCode? opcode = some o) (hr : o.role = .instruction form) (parameter : Int16) :
    p.feed strict (Word.bits ⟨opcode, parameter⟩) = p.feedInstruction strict o parameter form := by
  unfold feed
  rw [hp, Word.ofBits_bits]
  simp only [ho, hr]

variable {offset limit groupStart : Nat} {nodes : List Expr} {entries : Array (Nat × Instruction)}

theorem push_of_lt (e : Expr) (place : Nat) (wide : Option Nat) (h : nodes.length < limit) :
    push ⟨offset, ⟨limit, nodes⟩, groupStart, entries, wide⟩ e place =
      .ok ⟨offset + 4, ⟨limit, e :: nodes⟩, groupStart, entries, none⟩ := by
  have hs : OperandStack.push ⟨limit, nodes⟩ e place = .ok ⟨limit, e :: nodes⟩ :=
    OperandStack.push_ok_iff.2 ⟨h, rfl⟩
  unfold push
  simp only [hs]
  rfl

/-- A constant takes one word if it fits the parameter and two if it does not. -/
theorem feed_const (value : Int32) (h : nodes.length < limit) :
    (Expr.const value).words.foldlM (feed strict)
        ⟨offset, ⟨limit, nodes⟩, groupStart, entries, none⟩ =
      .ok ⟨offset + 4 * (Expr.const value).words.length, ⟨limit, .const value :: nodes⟩,
        groupStart, entries, none⟩ := by
  by_cases hv : value.toInt16.toInt32 = value
  · have hw : (Expr.const value).words = [Word.bits ⟨0x07, value.toInt16⟩] := by
      simp only [Expr.words, AsmItem.pushExpr, AsmItem.pushConst, if_pos hv]
      rfl
    rw [hw, List.foldlM_cons, feed_push rfl rfl rfl]
    unfold feedPush
    rw [push_of_lt _ _ _ h, hv]
    rfl
  · have hw : (Expr.const value).words = [Word.bits ⟨0x20, 0⟩, value.toUInt32] := by
      simp only [Expr.words, AsmItem.pushExpr, AsmItem.pushConst, if_neg hv]
      rfl
    rw [hw, List.foldlM_cons, feed_push rfl rfl rfl]
    show feed strict ⟨offset + 4, ⟨limit, nodes⟩, groupStart, entries, some offset⟩ _ >>= _ = _
    unfold feed
    simp only []
    rw [push_of_lt _ _ _ h, Int32.toInt32_toUInt32]
    rfl

theorem feed_var (v : Variable) (hv : (Expr.var v).Writable) (h : nodes.length < limit) :
    feed strict ⟨offset, ⟨limit, nodes⟩, groupStart, entries, none⟩
        (Word.bits ⟨AsmItem.pushOpcode v.bank, v.index.toInt16⟩) =
      .ok ⟨offset + 4, ⟨limit, .var v :: nodes⟩, groupStart, entries, none⟩ := by
  obtain ⟨bank, index⟩ := v
  cases bank with
  | temp =>
    have hi : index.toNat < tempSlots := hv rfl
    have hback : index.toUInt8.toUInt16 = index := by
      apply UInt16.toNat_inj.1
      have hlt : index.toNat < 8 := hi
      rw [UInt8.toNat_toUInt16, UInt16.toNat_toUInt8]
      omega
    rw [AsmItem.pushOpcode, feed_push rfl rfl rfl]
    unfold feedPush
    rw [Opcode.tempSlot_of_lt _ _ hi]
    show push _ _ _ = _
    rw [push_of_lt _ _ _ h, hback]
  | byte | word | long | signedByte | signedWord | flag =>
    rw [AsmItem.pushOpcode, feed_push rfl rfl rfl]
    exact push_of_lt _ _ _ h

/-- An operator with one operand takes the last tree. -/
theorem feed_unary (op : UnaryOp) (operand : Expr) (h : nodes.length < limit) :
    feed strict ⟨offset, ⟨limit, operand :: nodes⟩, groupStart, entries, none⟩
        (Word.bits ⟨0x01, op.code⟩) =
      .ok ⟨offset + 4, ⟨limit, .unary op operand :: nodes⟩, groupStart, entries, none⟩ := by
  have hcode : Operator.ofCode? op.code = some (.unary op) := Operator.ofCode?_code (.unary op)
  have hpop : OperandStack.popN? ⟨limit, operand :: nodes⟩ 1 = some (#v[operand], ⟨limit, nodes⟩) :=
    OperandStack.popN?_reverse #v[operand] limit nodes
  rw [feed_operator rfl]
  unfold feedOperator
  simp only [hcode, hpop]
  exact push_of_lt _ _ _ h

/-- An operator with two operands takes the last two trees, the left one pushed first. -/
theorem feed_binary (op : BinaryOp) (left right : Expr) (h : nodes.length < limit) :
    feed strict ⟨offset, ⟨limit, right :: left :: nodes⟩, groupStart, entries, none⟩
        (Word.bits ⟨0x01, op.code⟩) =
      .ok ⟨offset + 4, ⟨limit, .binary op left right :: nodes⟩, groupStart, entries, none⟩ := by
  have hcode : Operator.ofCode? op.code = some (.binary op) := Operator.ofCode?_code (.binary op)
  have hpop : OperandStack.popN? ⟨limit, right :: left :: nodes⟩ 2 =
      some (#v[left, right], ⟨limit, nodes⟩) :=
    OperandStack.popN?_reverse #v[left, right] limit nodes
  rw [feed_operator rfl]
  unfold feedOperator
  simp only [hcode, hpop]
  exact push_of_lt _ _ _ h

/-! ## Expressions -/

/-- The words of a tree leave the tree on the stack. -/
theorem feed_words (e : Expr) (he : e.Writable) (h : nodes.length + e.need ≤ limit) :
    e.words.foldlM (feed strict) ⟨offset, ⟨limit, nodes⟩, groupStart, entries, none⟩ =
      .ok ⟨offset + 4 * e.words.length, ⟨limit, e :: nodes⟩, groupStart, entries, none⟩ := by
  induction e generalizing offset nodes with
  | const value => exact feed_const value h
  | var v =>
    show List.foldlM (feed strict) _ [Word.bits ⟨AsmItem.pushOpcode v.bank, v.index.toInt16⟩] = _
    rw [List.foldlM_cons, feed_var v he h]
    rfl
  | unary op operand ih =>
    have hn : nodes.length < limit := by
      have := operand.need_pos
      simp only [Expr.need] at h
      omega
    rw [Expr.words_unary, List.foldlM_append, ih he h]
    show (feed strict _ _ >>= fun p => List.foldlM (feed strict) p []) = _
    rw [feed_unary op operand hn, List.length_append]
    rfl
  | binary op left right ihl ihr =>
    have hl : nodes.length + left.need ≤ limit := by
      simp only [Expr.need] at h
      omega
    have hr : (left :: nodes).length + right.need ≤ limit := by
      simp only [Expr.need] at h
      rw [List.length_cons]
      omega
    have hn : nodes.length < limit := by
      have := left.need_pos
      omega
    rw [Expr.words_binary, List.foldlM_append, List.foldlM_append, ihl he.1 hl]
    show ((List.foldlM (feed strict) _ right.words) >>= fun p => List.foldlM (feed strict) p _) = _
    rw [ihr he.2 hr]
    show (feed strict _ _ >>= fun p => List.foldlM (feed strict) p []) = _
    rw [feed_binary op left right hn]
    simp only [List.length_append, List.length_singleton, Nat.mul_add, Nat.add_assoc]
    rfl

/-- The words of operands leave the operands on the stack, the last one first. -/
theorem feed_operands (es : List Expr) (hes : ∀ e ∈ es, e.Writable)
    (h : nodes.length + Expr.needs es ≤ limit) :
    (es.flatMap Expr.words).foldlM (feed strict)
        ⟨offset, ⟨limit, nodes⟩, groupStart, entries, none⟩ =
      .ok ⟨offset + 4 * (es.flatMap Expr.words).length, ⟨limit, es.reverse ++ nodes⟩, groupStart,
        entries, none⟩ := by
  induction es generalizing offset nodes with
  | nil => rfl
  | cons e es ih =>
    have he : nodes.length + e.need ≤ limit := by
      simp only [Expr.needs] at h
      omega
    have hrest : (e :: nodes).length + Expr.needs es ≤ limit := by
      simp only [Expr.needs] at h
      rw [List.length_cons]
      omega
    rw [List.flatMap_cons, List.foldlM_append, feed_words e (hes e List.mem_cons_self) he]
    show List.foldlM (feed strict) _ (es.flatMap Expr.words) = _
    rw [ih (fun e' h' => hes e' (List.mem_cons_of_mem e h')) hrest, List.length_append,
      List.reverse_cons, List.append_assoc]
    simp only [Nat.mul_add, Nat.add_assoc]
    rfl

end Pass

/-! ## Instructions as words -/

/-- The word stands for an instruction that is no jump; its operands are pushed before it. A
parameter that the instruction does not use may be anything. -/
inductive Word.Encodes : Word → Instruction → Prop
  | nop (parameter : Int16) : Encodes ⟨0x00, parameter⟩ .nop
  | ret (parameter : Int16) : Encodes ⟨0x06, parameter⟩ .ret
  | halt (parameter : Int16) : Encodes ⟨0x1C, parameter⟩ .halt
  | popTemp (slot : UInt8) (value : Expr) (h : slot.toNat < tempSlots) :
    Encodes ⟨0x09, slot.toUInt16.toInt16⟩ (.popTemp slot value)
  | popByte (address : UInt16) (value : Expr) :
    Encodes ⟨0x10, address.toInt16⟩ (.popMem ⟨.byte, address⟩ value)
  | popWord (address : UInt16) (value : Expr) :
    Encodes ⟨0x11, address.toInt16⟩ (.popMem ⟨.word, address⟩ value)
  | popLong (address : UInt16) (value : Expr) :
    Encodes ⟨0x12, address.toInt16⟩ (.popMem ⟨.long, address⟩ value)
  | flagOn (flag : UInt16) : Encodes ⟨0x1D, flag.toInt16⟩ (.setFlag flag true)
  | flagOff (flag : UInt16) : Encodes ⟨0x1E, flag.toInt16⟩ (.setFlag flag false)
  | wait (parameter : Int16) (frames : Expr) : Encodes ⟨0x23, parameter⟩ (.wait frames)
  | message (parameter : Int16) (channel number : Expr) :
    Encodes ⟨0x24, parameter⟩ (.message channel number)
  | animate (animation : UInt16) : Encodes ⟨0x25, animation.toInt16⟩ (.animate animation)
  | random (slot : UInt8) (h : slot.toNat < tempSlots) :
    Encodes ⟨0x26, slot.toUInt16.toInt16⟩ (.random slot)
  | passable (parameter : Int16) : Encodes ⟨0x27, parameter⟩ (.setPassable true)
  | impassable (parameter : Int16) : Encodes ⟨0x28, parameter⟩ (.setPassable false)
  | placeholder (o : Opcode) (parameter : Int16) (args : List Expr) (ho : o ∈ Opcode.table)
    (hr : o.role = .instruction (.placeholder args.length)) :
    Encodes ⟨o.code, parameter⟩ (.placeholder o.code o.mnemonic args)

/-- A jump without its target. -/
inductive Branch
  | jump
  | jumpIfZero (condition : Expr)
  | call
deriving DecidableEq

namespace Branch

def kind : Branch → JumpKind
  | jump => .jump
  | jumpIfZero _ => .jumpIfZero
  | call => .call

def operands : Branch → List Expr
  | jumpIfZero condition => [condition]
  | jump | call => []

/-- The jump to a byte offset. -/
def instruction (target : Int) : Branch → Instruction
  | jump => .jump target
  | jumpIfZero condition => .jumpIfZero condition target
  | call => .call target

end Branch

namespace Opcode

theorem tempSlot_toUInt16 (o : Opcode) (offset : Nat) {slot : UInt8}
    (h : slot.toNat < tempSlots) : o.tempSlot slot.toUInt16.toInt16 offset = .ok slot := by
  have h16 : slot.toUInt16.toNat < tempSlots := by rwa [UInt8.toNat_toUInt16]
  rw [tempSlot_of_lt o offset h16, UInt8.toUInt8_toUInt16]

/-- An opcode of the table is found by its code. -/
theorem ofCode?_of_mem {o : Opcode} (h : o ∈ table) : ofCode? o.code = some o := by
  have hall : ∀ o ∈ table, ofCode? o.code = some o := by decide
  exact hall o h

end Opcode

namespace Pass

variable {strict : Bool} {offset limit groupStart : Nat} {entries : Array (Nat × Instruction)}

/-- An instruction word takes the operands that the stack holds and ends the group. -/
theorem feed_build {opcode : UInt16} {o : Opcode} {parameter : Int16} {i : Instruction}
    (form : Form) (args : Vector Expr form.arity) (ho : Opcode.ofCode? opcode = some o)
    (hr : o.role = .instruction form) (hb : o.build parameter offset form args = .ok i) :
    feed strict ⟨offset, ⟨limit, args.toList.reverse⟩, groupStart, entries, none⟩
        (Word.bits ⟨opcode, parameter⟩) =
      .ok ⟨offset + 4, ⟨limit, []⟩, offset + 4, entries.push (groupStart, i), none⟩ := by
  have hpop := OperandStack.popN?_reverse args limit []
  rw [List.append_nil] at hpop
  rw [feed_instruction rfl ho hr]
  unfold feedInstruction Opcode.take
  simp only [hpop, hb]
  cases strict <;> rfl

/-- The word of an instruction adds the instruction. -/
theorem feed_encodes {w : Word} {i : Instruction} (h : w.Encodes i) :
    feed strict ⟨offset, ⟨limit, i.operands.reverse⟩, groupStart, entries, none⟩ w.bits =
      .ok ⟨offset + 4, ⟨limit, []⟩, offset + 4, entries.push (groupStart, i), none⟩ := by
  cases h with
  | nop => exact feed_build .nop #v[] rfl rfl rfl
  | ret => exact feed_build .ret #v[] rfl rfl rfl
  | halt => exact feed_build .halt #v[] rfl rfl rfl
  | popTemp slot value h =>
    refine feed_build .popTemp #v[value] rfl rfl ?_
    unfold Opcode.build
    rw [Opcode.tempSlot_toUInt16 _ _ h]
    rfl
  | popByte address value => exact feed_build (.popMem .byte) #v[value] rfl rfl rfl
  | popWord address value => exact feed_build (.popMem .word) #v[value] rfl rfl rfl
  | popLong address value => exact feed_build (.popMem .long) #v[value] rfl rfl rfl
  | flagOn flag => exact feed_build (.setFlag true) #v[] rfl rfl rfl
  | flagOff flag => exact feed_build (.setFlag false) #v[] rfl rfl rfl
  | wait parameter frames => exact feed_build .wait #v[frames] rfl rfl rfl
  | message parameter channel number =>
    exact feed_build .message #v[channel, number] rfl rfl rfl
  | animate animation => exact feed_build .animate #v[] rfl rfl rfl
  | random slot h =>
    refine feed_build .random #v[] rfl rfl ?_
    unfold Opcode.build
    rw [Opcode.tempSlot_toUInt16 _ _ h]
    rfl
  | passable => exact feed_build (.setPassable true) #v[] rfl rfl rfl
  | impassable => exact feed_build (.setPassable false) #v[] rfl rfl rfl
  | placeholder o parameter args ho hr =>
    exact feed_build (.placeholder args.length) ⟨args.toArray, List.size_toArray⟩
      (Opcode.ofCode?_of_mem ho) hr rfl

/-- A jump word adds the jump to the offset that lies its parameter of words away. -/
theorem feed_jump (b : Branch) (distance : Int16) :
    feed strict ⟨offset, ⟨limit, b.operands.reverse⟩, groupStart, entries, none⟩
        (Word.bits ⟨b.kind.opcode, distance⟩) =
      .ok ⟨offset + 4, ⟨limit, []⟩, offset + 4,
        entries.push (groupStart, b.instruction (Opcode.jumpTarget distance offset)), none⟩ := by
  cases b with
  | jump => exact feed_build .jump #v[] rfl rfl rfl
  | jumpIfZero condition => exact feed_build .jumpIfZero #v[condition] rfl rfl rfl
  | call => exact feed_build .call #v[] rfl rfl rfl

end Pass

end FieldEngine
