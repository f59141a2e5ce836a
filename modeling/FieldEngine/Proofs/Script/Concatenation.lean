import FieldEngine.Proofs.Script.Validity
import FieldEngine.Proofs.Script.Words

/-!
# Scripts one after the other

A script is decoded the same way wherever it stands. Two facts make that so:

* after a script that is decoded by itself a pass is as it was before the first word, only further
  on and with the instructions found so far (`decode_pass`);
* a pass that is further on does with every word what the pass at the start does, with all offsets
  and jump targets moved by as much (`Pass.feed_shift`).

So a script followed by another one is decoded to both programs, the second moved on, or to the
error of the second, moved on (`decode_append`). Main statement: `decode_concatenated`.
-/

namespace FieldEngine

/-! ## Moved on -/

/-- The instruction in a script that stands so many bytes further on. -/
def Instruction.shift (n : Nat) : Instruction → Instruction
  | jump target => jump (target + n)
  | jumpIfZero condition target => jumpIfZero condition (target + n)
  | call target => call (target + n)
  | i => i

/-- The error in a script that stands so many bytes further on. -/
def DecodeError.shift (n : Nat) : DecodeError → DecodeError
  | truncated offset needed => truncated (offset + n) needed
  | unknownOpcode offset opcode => unknownOpcode (offset + n) opcode
  | unknownOperator offset operator => unknownOperator (offset + n) operator
  | stackUnderflow offset mnemonic arity available =>
    stackUnderflow (offset + n) mnemonic arity available
  | stackImbalance offset mnemonic depth => stackImbalance (offset + n) mnemonic depth
  | danglingOperands depth => danglingOperands depth
  | stackOverflow offset limit => stackOverflow (offset + n) limit
  | invalidOperand offset mnemonic reason => invalidOperand (offset + n) mnemonic reason

/-- A group offset and its instruction so many bytes further on. -/
def shiftEntry (n : Nat) (entry : Nat × Instruction) : Nat × Instruction :=
  (entry.1 + n, entry.2.shift n)

/-- A program and, after it, another one. -/
def Program.append (p q : Program) : Program where
  name := p.name
  entries := p.entries ++ q.entries.map (shiftEntry p.endOffset)
  endOffset := p.endOffset + q.endOffset

/-- The outcome for a script that stands so many bytes further on. -/
def shifted {α β : Type} (n : Nat) (f : α → β) : Except DecodeError α → Except DecodeError β
  | .ok a => .ok (f a)
  | .error e => .error (e.shift n)

/-! ## One instruction -/

namespace Opcode

theorem jumpTarget_shift (parameter : Int16) {offset n : Nat}
    (h : offset + n < 0x8000000000000000) :
    jumpTarget parameter (offset + n) = jumpTarget parameter offset + n := by
  rw [jumpTarget_of_lt _ h, jumpTarget_of_lt _ (by omega)]
  omega

theorem tempSlot_shift (o : Opcode) (parameter : Int16) (offset n : Nat) :
    o.tempSlot parameter (offset + n) = shifted n id (o.tempSlot parameter offset) := by
  unfold tempSlot
  split <;> rfl

theorem build_shift (o : Opcode) (parameter : Int16) {offset n : Nat}
    (h : offset + n < 0x8000000000000000) (form : Form) (args : Vector Expr form.arity) :
    o.build parameter (offset + n) form args =
      shifted n (Instruction.shift n) (o.build parameter offset form args) := by
  cases form with
  | jump | jumpIfZero | call =>
    rw [build, build, jumpTarget_shift parameter h]
    rfl
  | popTemp | random =>
    rw [build, build, tempSlot_shift]
    cases o.tempSlot parameter offset with
    | error e => rfl
    | ok slot => rfl
  | _ => rfl

end Opcode

/-! ## One word -/

namespace Pass

/-- The pass so many bytes further on, after the instructions of another script. -/
def shift (n : Nat) (before : Array (Nat × Instruction)) (p : Pass) : Pass where
  offset := p.offset + n
  stack := p.stack
  groupStart := p.groupStart + n
  entries := before ++ p.entries.map (shiftEntry n)
  wide := p.wide.map (· + n)

section Shift

variable (n : Nat) (before : Array (Nat × Instruction)) (p : Pass)

theorem push_shift (e : Expr) (offset : Nat) :
    (p.shift n before).push e (offset + n) = shifted n (shift n before) (p.push e offset) := by
  have hstack : (p.shift n before).stack = p.stack := rfl
  unfold push OperandStack.push
  rw [hstack]
  split
  · have hnext : p.offset + n + 4 = p.offset + 4 + n := by omega
    simp only [Except.map, shifted, shift, hnext, Option.map_none]
  · rfl

theorem feedPush_shift (o : Opcode) (parameter : Int16) (kind : PushKind) :
    (p.shift n before).feedPush o parameter kind =
      shifted n (shift n before) (p.feedPush o parameter kind) := by
  cases kind with
  | literal => exact push_shift n before p _ _
  | wideLiteral =>
    have hnext : p.offset + n + 4 = p.offset + 4 + n := by omega
    simp only [feedPush, shifted, shift, hnext, Option.map_some]
  | var bank =>
    cases bank with
    | temp =>
      have hoffset : (p.shift n before).offset = p.offset + n := rfl
      rw [feedPush, feedPush, hoffset, Opcode.tempSlot_shift]
      cases o.tempSlot parameter p.offset with
      | error e => rfl
      | ok slot => exact push_shift n before p _ _
    | _ => exact push_shift n before p _ _

theorem feedOperator_shift (parameter : Int16) :
    (p.shift n before).feedOperator parameter =
      shifted n (shift n before) (p.feedOperator parameter) := by
  have hstack : (p.shift n before).stack = p.stack := rfl
  unfold feedOperator
  rw [hstack]
  cases Operator.ofCode? parameter with
  | none => rfl
  | some op =>
    cases op with
    | unary op =>
      dsimp only
      cases p.stack.popN? 1 with
      | none => rfl
      | some taken => exact push_shift n before { p with stack := taken.2 } _ _
    | binary op =>
      dsimp only
      cases p.stack.popN? 2 with
      | none => rfl
      | some taken => exact push_shift n before { p with stack := taken.2 } _ _

theorem feedInstruction_shift (h : p.offset + n < 0x8000000000000000) (strict : Bool) (o : Opcode)
    (parameter : Int16) (form : Form) :
    (p.shift n before).feedInstruction strict o parameter form =
      shifted n (shift n before) (p.feedInstruction strict o parameter form) := by
  have hstack : (p.shift n before).stack = p.stack := rfl
  have hoffset : (p.shift n before).offset = p.offset + n := rfl
  unfold feedInstruction Opcode.take
  rw [hstack, hoffset]
  cases p.stack.popN? form.arity with
  | none => rfl
  | some taken =>
    dsimp only
    rw [Opcode.build_shift o parameter h]
    cases o.build parameter p.offset form taken.1 with
    | error e => rfl
    | ok instruction =>
      simp only [shifted]
      split
      · rfl
      · have hnext : p.offset + n + 4 = p.offset + 4 + n := by omega
        simp only [shift, hnext, Array.map_push, Array.append_push, shiftEntry]

/-- **One word** further on. -/
theorem feed_shift (h : p.offset + n < 0x8000000000000000) (strict : Bool) (w : UInt32) :
    (p.shift n before).feed strict w = shifted n (shift n before) (p.feed strict w) := by
  have hwide : (p.shift n before).wide = p.wide.map (· + n) := rfl
  unfold feed
  rw [hwide]
  cases p.wide with
  | some offset => exact push_shift n before p _ _
  | none =>
    dsimp only [Option.map_none]
    cases Opcode.ofCode? (Word.ofBits w).opcode with
    | none => rfl
    | some o =>
      dsimp only
      cases o.role with
      | push kind => exact feedPush_shift n before p o _ kind
      | operator => exact feedOperator_shift n before p _
      | instruction form => exact feedInstruction_shift n before p h strict o _ form

theorem finish_shift (spare : Nat) :
    (p.shift n before).finish spare =
      shifted n (fun entries => before ++ entries.map (shiftEntry n)) (p.finish spare) := by
  have hwide : (p.shift n before).wide.isSome = p.wide.isSome := Option.isSome_map
  have hstack : (p.shift n before).stack = p.stack := rfl
  unfold finish
  rw [hwide, hstack]
  split
  · rfl
  · split
    · rfl
    · rfl

end Shift

/-! ## Between words -/

/-- A pass that has read so many bytes; if no operand waits, a group starts here. -/
structure Tidy (limit offset : Nat) (p : Pass) : Prop where
  offset : p.offset = offset
  limit : p.stack.limit = limit
  group : p.stack.nodes = [] → p.wide = none → p.groupStart = p.offset

variable {limit offset : Nat} {p q : Pass}

theorem feed_tidy (hp : p.Tidy limit offset) {strict : Bool} {w : UInt32}
    (h : p.feed strict w = .ok q) : q.Tidy limit (offset + 4) := by
  have hadvance := feed_advance h
  refine ⟨by rw [hadvance.offset, hp.offset], hadvance.limit.trans hp.limit, ?_⟩
  intro hnodes hwide
  rcases hadvance.effect with hwaits | ⟨i, hends⟩
  · exact absurd hwide (hwaits.busy hnodes)
  · exact hends.group

/-! ## All words -/

theorem foldlM_tidy (words : List UInt32) (hp : p.Tidy limit offset) {strict : Bool}
    (h : words.foldlM (feed strict) p = .ok q) : q.Tidy limit (offset + 4 * words.length) := by
  induction words generalizing p offset with
  | nil =>
    cases h
    exact hp
  | cons w words ih =>
    rw [List.foldlM_cons] at h
    cases hw : p.feed strict w with
    | error e => rw [hw] at h; cases h
    | ok r =>
      rw [hw] at h
      have hq := ih (feed_tidy hp hw) h
      have hsum : offset + 4 + 4 * words.length = offset + 4 * (w :: words).length := by
        rw [List.length_cons]
        omega
      rwa [hsum] at hq

/-- **All words** further on. -/
theorem foldlM_shift (n : Nat) (before : Array (Nat × Instruction)) (words : List UInt32)
    (hp : p.Tidy limit offset) (h : offset + 4 * words.length + n < 0x8000000000000000)
    (strict : Bool) :
    words.foldlM (feed strict) (p.shift n before) =
      shifted n (shift n before) (words.foldlM (feed strict) p) := by
  induction words generalizing p offset with
  | nil => rfl
  | cons w words ih =>
    rw [List.length_cons] at h
    rw [List.foldlM_cons, List.foldlM_cons, feed_shift n before p (by rw [hp.offset]; omega)]
    cases hw : p.feed strict w with
    | error e => rfl
    | ok r => exact ih (feed_tidy hp hw) (by omega)

theorem start_tidy (limit : Nat) : (start limit).Tidy limit 0 :=
  ⟨rfl, rfl, fun _ _ => rfl⟩

end Pass

/-! ## Bytes -/

namespace Word

theorem length_ofBytes (bytes : List UInt8) :
    4 * (ofBytes bytes).1.length + (ofBytes bytes).2 = bytes.length := by
  fun_induction ofBytes bytes with
  | case1 a b c d rest words spare heq ih =>
    rw [heq] at ih
    simp only [List.length_cons] at ih ⊢
    omega
  | case2 rest hshort => simp

/-- The words of a stream of whole words come before those of what follows it. -/
theorem ofBytes_append {a : List UInt8} (h : (ofBytes a).2 = 0) (b : List UInt8) :
    ofBytes (a ++ b) = ((ofBytes a).1 ++ (ofBytes b).1, (ofBytes b).2) := by
  fun_induction ofBytes a with
  | case1 a b c d rest words spare heq ih =>
    rw [heq] at ih
    simp only [List.cons_append, ofBytes, ih h]
  | case2 rest hshort =>
    have hnil : rest = [] := List.eq_nil_of_length_eq_zero h
    rw [hnil]
    rfl

end Word

/-- **After a script that is decoded by itself** a pass is as at the start, only further on. -/
theorem decode_pass {config : DecoderConfig} {name : String} {bytes : List UInt8} {p : Program}
    (h : decode config name bytes = .ok p) :
    (Word.ofBytes bytes).1.foldlM (Pass.feed config.strict) (.start config.maxDepth) =
      .ok ((Pass.start config.maxDepth).shift bytes.length p.entries) := by
  obtain ⟨pass, hpass, hfinish, -, -⟩ := decode_ok h
  obtain ⟨hwide, hspare, hnodes, hentries⟩ := Pass.finish_ok hfinish
  have htidy := Pass.foldlM_tidy _ (Pass.start_tidy config.maxDepth) hpass
  have hlength := Word.length_ofBytes bytes
  have hoffset : pass.offset = bytes.length := by
    rw [htidy.offset]
    omega
  have hgroup := htidy.group hnodes hwide
  have hlimit := htidy.limit
  rw [hpass, hentries]
  obtain ⟨offset, ⟨limit, nodes⟩, groupStart, entries, wide⟩ := pass
  simp only at hoffset hgroup hnodes hwide hlimit
  rw [hgroup, hoffset, hnodes, hwide, hlimit]
  simp [Pass.shift, Pass.start, OperandStack.empty]

/-- **Scripts one after the other** are decoded one after the other. -/
theorem decode_append {config : DecoderConfig} {name : String} {a b : List UInt8} {p : Program}
    (h : decode config name a = .ok p) (hlength : a.length + b.length < 0x8000000000000000) :
    decode config name (a ++ b) = shifted a.length p.append (decode config name b) := by
  obtain ⟨pass, -, hfinish, hname, hend⟩ := decode_ok h
  obtain ⟨-, hspare, -, -⟩ := Pass.finish_ok hfinish
  have hbytes := Word.length_ofBytes b
  unfold decode
  rw [Word.ofBytes_append hspare]
  simp only [List.foldlM_append, decode_pass h]
  show (do
    let pass ← (Word.ofBytes b).1.foldlM (Pass.feed config.strict)
      ((Pass.start config.maxDepth).shift a.length p.entries)
    let entries ← pass.finish (Word.ofBytes b).2
    Except.ok (Program.mk name entries (a ++ b).length)) = _
  rw [Pass.foldlM_shift a.length p.entries _ (Pass.start_tidy config.maxDepth) (by omega)]
  cases (Word.ofBytes b).1.foldlM (Pass.feed config.strict) (.start config.maxDepth) with
  | error e => rfl
  | ok q =>
    show (do
      let entries ← (q.shift a.length p.entries).finish (Word.ofBytes b).2
      Except.ok (Program.mk name entries (a ++ b).length)) =
        shifted a.length p.append (do
          let entries ← q.finish (Word.ofBytes b).2
          Except.ok (Program.mk name entries b.length))
    rw [Pass.finish_shift]
    cases q.finish (Word.ofBytes b).2 with
    | error e => rfl
    | ok entries =>
      show Except.ok (Program.mk name (p.entries ++ entries.map (shiftEntry a.length))
        (a ++ b).length) = Except.ok (p.append ⟨name, entries, b.length⟩)
      rw [Program.append, hname, hend, List.length_append]

/-- **Decoding is compositional and position independent.** If a script is decoded, then so is the
script with another one after it: to the instructions of both, where the second ones have group
offsets and jump targets moved by the length of the first script; or it fails with the error of the
second one, whose offset is moved likewise. No byte stream has `2 ^ 63` bytes. -/
theorem decode_concatenated {config : DecoderConfig} {name : String} {a b : List UInt8}
    {p : Program} (h : decode config name a = .ok p)
    (hlength : a.length + b.length < 0x8000000000000000) :
    (∀ q, decode config name b = .ok q →
      decode config name (a ++ b) =
        .ok { name := name
              entries := p.entries ++
                q.entries.map fun (offset, i) => (offset + a.length, i.shift a.length)
              endOffset := a.length + b.length }) ∧
    ∀ e, decode config name b = .error e →
      decode config name (a ++ b) = .error (e.shift a.length) := by
  have happend := decode_append h hlength
  constructor
  · intro q hq
    obtain ⟨-, -, -, hname, hend⟩ := decode_ok h
    obtain ⟨-, -, -, -, hendq⟩ := decode_ok hq
    rw [happend, hq, shifted, Program.append, hname, hend, hendq]
    rfl
  · intro e he
    rw [happend, he]
    rfl

/-- A wait, and after it a loop or a stray byte. -/
theorem decode_concatenated_wait :
    let wait : List UInt8 := [1, 0, 7, 0, 0, 0, 35, 0]
    let loop : List UInt8 := [0, 0, 0, 0, 255, 255, 2, 0]
    decode {} "door" (wait ++ loop) =
        .ok ⟨"door", #[(0, .wait (.const 1)), (8, .nop), (12, .jump 8)], 16⟩ ∧
      decode {} "door" (wait ++ [7]) = .error (.truncated 8 3) := by
  intro wait loop
  have hwait : decode {} "door" wait = .ok ⟨"door", #[(0, .wait (.const 1))], 8⟩ := by rfl
  have hloop : decode {} "door" loop =
      .ok ⟨"door", #[(0, .nop), (4, .jump (Opcode.jumpTarget (-1) 4))], 8⟩ := by rfl
  have htarget : Opcode.jumpTarget (-1) 4 = 0 := by decide
  rw [htarget] at hloop
  constructor
  · rw [(decode_concatenated hwait (by decide)).1 _ hloop]
    simp [wait, loop, Instruction.shift]
  · exact (decode_concatenated (b := [7]) hwait (by decide)).2 (.truncated 0 3) rfl

end FieldEngine
