import FieldEngine.Proofs.Script.Readability
import FieldEngine.Proofs.Script.Validity
import FieldEngine.Proofs.Script.Words
import FieldEngine.Script.Listing

/-!
# What listings tell

A listing shows every instruction of a program by its mnemonic and its arguments, and the offset of
its group. The mnemonics of decoded instructions are those of the opcode table and tell the form of
the instruction. Texts are taken apart from the left: a line at its end, an address at the first
blank, a mnemonic at the bracket, the arguments at the commas:

    Listing.body p = Listing.body q → p.shown = q.shown                    (shown_of_body)
    i.text = j.text → i.form = j.form ∧ i.arguments = j.arguments          (arguments_of_text)
-/

namespace FieldEngine

open Text

/-! ## Forms -/

namespace Instruction

def form : Instruction → Form
  | nop => .nop
  | jump _ => .jump
  | jumpIfZero _ _ => .jumpIfZero
  | call _ => .call
  | ret => .ret
  | halt => .halt
  | popTemp _ _ => .popTemp
  | popMem v _ => .popMem v.bank
  | setFlag _ value => .setFlag value
  | wait _ => .wait
  | message _ _ => .message
  | animate _ => .animate
  | random _ => .random
  | setPassable passable => .setPassable passable
  | placeholder _ _ args => .placeholder args.length

/-- The opcode table has the form of the instruction, under its mnemonic. -/
def Listed (i : Instruction) : Prop :=
  ∃ o ∈ Opcode.table, o.role = .instruction i.form ∧ o.mnemonic = i.mnemonic

end Instruction

namespace Opcode

variable {o : Opcode} {parameter : Int16} {offset : Nat} {form : Form}
  {args : Vector Expr form.arity} {i : Instruction}

theorem build_form (h : o.build parameter offset form args = .ok i) : i.form = form := by
  cases form with
  | popTemp =>
    obtain ⟨slot, -, rfl⟩ := map_eq_ok h
    rfl
  | random =>
    obtain ⟨slot, -, rfl⟩ := map_eq_ok h
    rfl
  | placeholder n =>
    cases h
    exact congrArg Form.placeholder args.size_toArray
  | _ =>
    cases h
    rfl

/-- The mnemonic does not depend on the parameter, the offset and the operands. -/
theorem build_mnemonic (h : o.build parameter offset form args = .ok i) {parameter' : Int16}
    {offset' : Nat} {args' : Vector Expr form.arity} {j : Instruction}
    (h' : o.build parameter' offset' form args' = .ok j) : i.mnemonic = j.mnemonic := by
  cases form with
  | popTemp =>
    obtain ⟨slot, -, rfl⟩ := map_eq_ok h
    obtain ⟨slot', -, rfl⟩ := map_eq_ok h'
    rfl
  | random =>
    obtain ⟨slot, -, rfl⟩ := map_eq_ok h
    obtain ⟨slot', -, rfl⟩ := map_eq_ok h'
    rfl
  | setFlag value =>
    cases h
    cases h'
    cases value <;> rfl
  | jump =>
    cases h
    cases h'
    rw [Instruction.mnemonic, Instruction.mnemonic]
  | call =>
    cases h
    cases h'
    rw [Instruction.mnemonic, Instruction.mnemonic]
  | _ =>
    cases h
    cases h'
    rfl

/-- Building with zeros gives an instruction of the opcode's mnemonic. -/
def namesZeros (o : Opcode) : Bool :=
  match o.role with
  | .instruction form =>
    match o.build 0 0 form (.replicate form.arity (.const 0)) with
    | .ok i => i.mnemonic == o.mnemonic
    | .error _ => false
  | .push _ | .operator => true

theorem namesZeros_of_mem : ∀ o ∈ table, o.namesZeros = true := by
  decide

theorem build_listed (ho : o ∈ table) (hrole : o.role = .instruction form)
    (h : o.build parameter offset form args = .ok i) : i.Listed := by
  refine ⟨o, ho, by rw [build_form h]; exact hrole, ?_⟩
  have hzeros := namesZeros_of_mem o ho
  simp only [namesZeros, hrole] at hzeros
  split at hzeros
  · rename_i j hj
    rw [build_mnemonic h hj]
    exact (beq_iff_eq.1 hzeros).symm
  · cases hzeros

end Opcode

/-! ## Decoded instructions -/

/-- **One word** adds an instruction of the table, or none. -/
theorem Pass.feed_listed {p q : Pass} (hp : ∀ e ∈ p.entries, e.2.Listed) {strict : Bool}
    {w : UInt32} (h : p.feed strict w = .ok q) : ∀ e ∈ q.entries, e.2.Listed := by
  rcases (feed_advance h).effect with hwaits | ⟨i, hends⟩
  · rw [hwaits.entries]
    exact hp
  · obtain ⟨o, ho, form, parameter, args, hrole, hbuild⟩ := hends.built
    rw [hends.entries]
    intro e he
    rcases Array.mem_push.1 he with he | rfl
    · exact hp e he
    · exact Opcode.build_listed ho hrole hbuild

/-- **Every instruction of a decoded program** is one of the table. -/
theorem decode_listed {config : DecoderConfig} {name : String} {bytes : List UInt8} {p : Program}
    (h : decode config name bytes = .ok p) : ∀ e ∈ p.entries, e.2.Listed := by
  obtain ⟨pass, hpass, hfinish, -, -⟩ := decode_ok h
  obtain ⟨-, -, -, hentries⟩ := Pass.finish_ok hfinish
  rw [hentries]
  refine foldlM_ok (fun _ _ _ hp hfeed => Pass.feed_listed hp hfeed) _ ?_ hpass
  intro e he
  simp [Pass.start] at he

/-! ## Mnemonics -/

namespace Opcode

/-- Every opcode is found by its mnemonic. -/
theorem ofMnemonic?_mnemonic : ∀ o ∈ table, ofMnemonic? o.mnemonic = some o := by
  decide +kernel

theorem not_mem_mnemonic : ∀ o ∈ table, '(' ∉ o.mnemonic.toList ∧ '\n' ∉ o.mnemonic.toList := by
  decide

end Opcode

namespace Instruction

variable {i j : Instruction}

/-- The mnemonic tells the form. -/
theorem Listed.form_eq (hi : i.Listed) (hj : j.Listed) (h : i.mnemonic = j.mnemonic) :
    i.form = j.form := by
  obtain ⟨o, ho, hrole, hname⟩ := hi
  obtain ⟨o', ho', hrole', hname'⟩ := hj
  have hfound := Opcode.ofMnemonic?_mnemonic o ho
  rw [hname, h, ← hname', Opcode.ofMnemonic?_mnemonic o' ho'] at hfound
  cases hfound
  rw [hrole] at hrole'
  exact (Role.instruction.inj hrole')

theorem Listed.not_mem_mnemonic (hi : i.Listed) :
    '(' ∉ i.mnemonic.toList ∧ '\n' ∉ i.mnemonic.toList := by
  obtain ⟨o, ho, -, hname⟩ := hi
  rw [← hname]
  exact Opcode.not_mem_mnemonic o ho

/-! ## Arguments -/

/-- A text that can name an argument: plain, and without a colon. -/
def IsLabel (name : String) : Prop :=
  ':' ∉ name.toList ∧ Plain name.toList

instance (name : String) : Decidable (IsLabel name) :=
  inferInstanceAs (Decidable (':' ∉ name.toList ∧ Plain name.toList))

/-- A named argument that can be told from those around it. -/
structure Separable (argument : String × String) : Prop where
  name : IsLabel argument.1
  value : Plain argument.2.toList

theorem separable {name value : String} (hname : IsLabel name) (hvalue : Plain value.toList) :
    Separable (name, value) :=
  ⟨hname, hvalue⟩

theorem plain_int (n : Int) : Plain (toString n).toList := by
  rw [← Reading.chars_ofInt]
  exact Reading.plain_chars _

theorem plain_nat (n : Nat) : Plain (toString n).toList := by
  rw [Nat.toString_eq_repr, Nat.toList_repr]
  exact plain_toDigits n

theorem plain_expr (e : Expr) : Plain e.text.toList := by
  rw [e.toList_text]
  exact Reading.plain_chars _

theorem isLabel_arg (n : Nat) : IsLabel s!"arg{n}" := by
  have htext : (s!"arg{n}").toList = "arg".toList ++ Nat.toDigits 10 n := by
    rw [← Nat.toList_repr, ← String.toList_append]
    rfl
  unfold IsLabel
  rw [htext, List.mem_append, plain_append]
  refine ⟨?_, by decide, plain_toDigits n⟩
  rintro (h | h)
  · exact absurd h (by decide)
  · exact not_mem_toDigits (by decide) n h

theorem separable_arguments (i : Instruction) : ∀ a ∈ i.arguments, Separable a := by
  cases i with
  | jump target | call target =>
    exact List.forall_mem_singleton.2 (separable (by decide) (plain_int target))
  | jumpIfZero condition target =>
    exact List.forall_mem_cons.2 ⟨separable (by decide) (plain_expr condition),
      List.forall_mem_singleton.2 (separable (by decide) (plain_int target))⟩
  | popTemp slot value =>
    exact List.forall_mem_cons.2 ⟨separable (by decide) (plain_nat slot.toNat),
      List.forall_mem_singleton.2 (separable (by decide) (plain_expr value))⟩
  | popMem v value =>
    exact List.forall_mem_cons.2 ⟨separable (by decide) (plain_nat v.index.toNat),
      List.forall_mem_singleton.2 (separable (by decide) (plain_expr value))⟩
  | message channel number =>
    exact List.forall_mem_cons.2 ⟨separable (by decide) (plain_expr channel),
      List.forall_mem_singleton.2 (separable (by decide) (plain_expr number))⟩
  | setFlag flag value =>
    exact List.forall_mem_singleton.2 (separable (by decide) (plain_nat flag.toNat))
  | wait frames => exact List.forall_mem_singleton.2 (separable (by decide) (plain_expr frames))
  | animate animation =>
    exact List.forall_mem_singleton.2 (separable (by decide) (plain_nat animation.toNat))
  | random slot => exact List.forall_mem_singleton.2 (separable (by decide) (plain_nat slot.toNat))
  | placeholder opcode mnemonic args =>
    intro a ha
    obtain ⟨⟨arg, n⟩, -, rfl⟩ := List.mem_map.1 ha
    exact ⟨isLabel_arg n, plain_expr arg⟩
  | nop | ret | halt | setPassable _ => nofun

/-- One argument as listings show it. -/
def argumentText (argument : String × String) : String :=
  s!"{argument.1}: {argument.2}"

theorem toList_argumentText (a : String × String) :
    (argumentText a).toList = a.1.toList ++ ':' :: ' ' :: a.2.toList := by
  show (a.1 ++ ": " ++ a.2).toList = _
  simp

theorem argumentText_inj {a b : String × String} (ha : Separable a) (hb : Separable b)
    (h : argumentText a = argumentText b) : a = b := by
  have hchars := congrArg String.toList h
  rw [toList_argumentText, toList_argumentText] at hchars
  obtain ⟨hname, hvalue⟩ := append_cons_inj ha.name.1 hb.name.1 hchars
  rw [Prod.mk.injEq]
  exact ⟨String.toList_inj.1 hname, String.toList_inj.1 (List.tail_eq_of_cons_eq hvalue)⟩

theorem plain_argumentText {a : String × String} (ha : Separable a) :
    Plain (argumentText a).toList := by
  rw [toList_argumentText]
  simp [ha.name.2, ha.value]

def argumentsText (i : Instruction) : String :=
  joinWith ", " (i.arguments.map argumentText)

theorem toList_text (i : Instruction) :
    i.text.toList = i.mnemonic.toList ++ '(' :: (i.argumentsText.toList ++ [')']) := by
  show (i.mnemonic ++ "(" ++ i.argumentsText ++ ")").toList = _
  simp

theorem map_argumentText_inj {as bs : List (String × String)} (ha : ∀ a ∈ as, Separable a)
    (hb : ∀ b ∈ bs, Separable b) (h : as.map argumentText = bs.map argumentText) : as = bs := by
  induction as generalizing bs with
  | nil => exact (List.map_eq_nil_iff.1 h.symm).symm
  | cons a as ih =>
    cases bs with
    | nil => cases h
    | cons b bs =>
      rw [List.forall_mem_cons] at ha hb
      obtain ⟨hhead, htail⟩ := List.cons.inj h
      rw [argumentText_inj ha.1 hb.1 hhead, ih ha.2 hb.2 htail]

theorem arguments_of_argumentsText (h : i.argumentsText = j.argumentsText) :
    i.arguments = j.arguments := by
  have hparts : ∀ k : Instruction, ∀ a ∈ k.arguments.map argumentText, a ≠ "" ∧ ',' ∉ a.toList := by
    intro k a ha
    obtain ⟨argument, hmem, rfl⟩ := List.mem_map.1 ha
    refine ⟨?_, (plain_argumentText (k.separable_arguments _ hmem)).1⟩
    intro hempty
    have hchars := congrArg String.toList hempty
    rw [toList_argumentText] at hchars
    simp at hchars
  have hsep : ", ".toList = ',' :: [' '] := by decide
  exact map_argumentText_inj i.separable_arguments j.separable_arguments
    (joinWith_inj hsep (hparts i) (hparts j) h)

/-- **The text of an instruction tells its form and its arguments.** -/
theorem arguments_of_text (hi : i.Listed) (hj : j.Listed) (h : i.text = j.text) :
    i.form = j.form ∧ i.arguments = j.arguments := by
  have hchars := congrArg String.toList h
  rw [toList_text, toList_text] at hchars
  obtain ⟨hname, hrest⟩ := append_cons_inj hi.not_mem_mnemonic.1 hj.not_mem_mnemonic.1 hchars
  exact ⟨hi.form_eq hj (String.toList_inj.1 hname),
    arguments_of_argumentsText (String.toList_inj.1 (List.append_cancel_right hrest))⟩

theorem Listed.not_mem_text (hi : i.Listed) : '\n' ∉ i.text.toList := by
  rw [toList_text, List.mem_append, List.mem_cons, List.mem_append]
  rintro (h | h | h | h)
  · exact hi.not_mem_mnemonic.2 h
  · exact absurd h (by decide)
  · rcases mem_joinWith h with h | ⟨a, ha, h⟩
    · exact absurd h (by decide)
    · obtain ⟨argument, hmem, rfl⟩ := List.mem_map.1 ha
      exact (plain_argumentText (i.separable_arguments _ hmem)).2 h
  · exact absurd h (by decide)

end Instruction

/-! ## Lines -/

/-- What a listing shows of a program: offsets, and the texts of instructions. -/
def Program.shown (p : Program) : List (Nat × String) :=
  p.entries.toList.map fun entry => (entry.1, entry.2.text)

namespace Listing

theorem toList_line (offset index : Nat) (i : Instruction) : (line offset index i).toList =
    (address offset).toList ++ ' ' :: (" [".toList ++ Nat.toDigits 10 index ++ "]  ".toList ++
      i.text.toList) := by
  show (address offset ++ "  [" ++ index.repr ++ "]  " ++ i.text).toList = _
  simp

/-- Lines of the same index tell the offset and the instruction. -/
theorem line_inj {offset offset' index : Nat} {i j : Instruction}
    (h : line offset index i = line offset' index j) : offset = offset' ∧ i.text = j.text := by
  have hchars := congrArg String.toList h
  rw [toList_line, toList_line] at hchars
  obtain ⟨hoffset, hrest⟩ := append_cons_inj (not_mem_address (by decide) (by decide) offset)
    (not_mem_address (by decide) (by decide) offset') hchars
  exact ⟨address_inj (String.toList_inj.1 hoffset),
    String.toList_inj.1 (List.append_cancel_left hrest)⟩

theorem not_mem_line {i : Instruction} (hi : i.Listed) (offset index : Nat) :
    '\n' ∉ (line offset index i).toList := by
  rw [toList_line]
  simp only [List.mem_append, List.mem_cons]
  rintro (h | h | (((h | h) | h) | h))
  · exact not_mem_address (by decide) (by decide) offset h
  · exact absurd h (by decide)
  · exact absurd h (by decide)
  · exact not_mem_toDigits (by decide) index h
  · exact absurd h (by decide)
  · exact hi.not_mem_text h

def lines (p : Program) : List String :=
  p.entries.toList.zipIdx.map fun ((offset, i), index) => line offset index i

theorem toList_body (p : Program) :
    (body p).toList = ((lines p).map String.toList).flatMap (· ++ ['\n']) := by
  rw [body, String.toList_join, lines, List.flatMap_map, List.map_map, List.flatMap_map]
  refine congrArg (fun f => List.flatMap f _) (funext fun ⟨⟨offset, i⟩, index⟩ => ?_)
  show (line offset index i ++ "\n").toList = (line offset index i).toList ++ ['\n']
  rw [String.toList_append]
  rfl

theorem getElem?_lines (p : Program) (k : Nat) :
    (lines p)[k]? = p.entries.toList[k]?.map fun entry => line entry.1 k entry.2 := by
  rw [lines, List.getElem?_map, List.getElem?_zipIdx, Option.map_map, Nat.zero_add]
  rfl

theorem not_mem_lines {p : Program} (hp : ∀ e ∈ p.entries, e.2.Listed) :
    ∀ cs ∈ (lines p).map String.toList, '\n' ∉ cs := by
  intro cs hcs
  obtain ⟨text, htext, rfl⟩ := List.mem_map.1 hcs
  obtain ⟨k, hk⟩ := List.mem_iff_getElem?.1 htext
  rw [getElem?_lines] at hk
  obtain ⟨entry, hentry, rfl⟩ := Option.map_eq_some_iff.1 hk
  exact not_mem_line (hp entry (Array.mem_toList_iff.1 (List.mem_of_getElem? hentry))) _ _

/-- **A listing tells the offsets and the texts of the instructions.** -/
theorem shown_of_body {p q : Program} (hp : ∀ e ∈ p.entries, e.2.Listed)
    (hq : ∀ e ∈ q.entries, e.2.Listed) (h : body p = body q) : p.shown = q.shown := by
  have hchars := congrArg String.toList h
  rw [toList_body, toList_body] at hchars
  have hlines : lines p = lines q := (List.map_inj_right fun _ _ => String.toList_inj.1).1
    (flatMap_ended_inj (not_mem_lines hp) (not_mem_lines hq) hchars)
  apply List.ext_getElem?
  intro k
  have hk := getElem?_lines p k
  rw [hlines, getElem?_lines] at hk
  rw [Program.shown, Program.shown, List.getElem?_map, List.getElem?_map]
  cases hp' : p.entries.toList[k]? with
  | none =>
    rw [hp', Option.map_none, Option.map_eq_none_iff] at hk
    rw [hk]
  | some entry =>
    rw [hp', Option.map_some] at hk
    obtain ⟨entry', hentry', hline⟩ := Option.map_eq_some_iff.1 hk
    obtain ⟨hoffset, htext⟩ := line_inj hline
    rw [hentry', Option.map_some, Option.map_some, hoffset, htext]

end Listing

end FieldEngine
