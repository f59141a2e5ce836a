import FieldEngine.Proofs.Script.Postfix
import FieldEngine.Proofs.Script.Targets

/-!
# Assembling and decoding

A script is drafted as a list of parts: groups, and labels between them. The assembler places the
words and the jumps, the decoder knows nothing of labels and of where groups were meant to start.
Still it finds the groups again, one instruction for each, and every jump leads to the group after
its label:

    words of the draft are the pushes and the last word of each group      (words_group)
    feeding them gives the listing of the draft                            (feed_parts)
    assembling fails only on a jump that cannot be placed, and decoding
      what was assembled gives the draft back                              (assemble_decode)
-/

namespace FieldEngine

/-! ## Drafts -/

/-- A group as it is drafted: the pushes of the operands are left out. -/
inductive Group
  /-- An instruction with the word that ends its group. -/
  | plain (w : Word) (i : Instruction) (h : w.Encodes i)
  /-- A jump by a number of words. -/
  | hop (b : Branch) (distance : Int16)
  /-- A jump to a label. -/
  | goto (b : Branch) (label : String)
deriving DecidableEq

namespace Group

def operands : Group → List Expr
  | plain _ i _ => i.operands
  | hop b _ | goto b _ => b.operands

def last : Group → AsmItem
  | plain w _ _ => .word w.bits
  | hop b distance => .op b.kind.opcode distance
  | goto b label => .jump b.kind label

/-- The items of a group: every operand is pushed, then the instruction follows. -/
def items (g : Group) : List AsmItem :=
  g.operands.flatMap AsmItem.pushExpr ++ [g.last]

/-- The scratch slots that the operands name exist, and pushing them does not exceed a depth. -/
def Fits (limit : Nat) (g : Group) : Prop :=
  (∀ e ∈ g.operands, e.Writable) ∧ Expr.needs g.operands ≤ limit

instance (limit : Nat) (g : Group) : Decidable (g.Fits limit) :=
  inferInstanceAs (Decidable ((∀ e ∈ g.operands, e.Writable) ∧ Expr.needs g.operands ≤ limit))

end Group

/-- A part of a draft. -/
inductive Part
  | label (name : String)
  | group (g : Group)
deriving DecidableEq

namespace Part

def group? : Part → Option Group
  | label _ => none
  | group g => some g

def items : Part → List AsmItem
  | label name => [.label name]
  | group g => g.items

def groups (parts : List Part) : List Group :=
  parts.filterMap group?

def emit (parts : List Part) : List AsmItem :=
  parts.flatMap items

def width (parts : List Part) : Nat :=
  AsmItem.totalSize (emit parts)

/-- The label is last defined after the parts `mark`. -/
def LastMark (parts : List Part) (name : String) (mark : List Part) : Prop :=
  ∃ after, parts = mark ++ .label name :: after ∧ .label name ∉ after

end Part

/-! ## Sizes -/

namespace AsmItem

@[simp] theorem totalSize_nil : totalSize [] = 0 := rfl

@[simp] theorem totalSize_cons (item : AsmItem) (items : List AsmItem) :
    totalSize (item :: items) = item.size + totalSize items := rfl

@[simp] theorem totalSize_append (a b : List AsmItem) :
    totalSize (a ++ b) = totalSize a + totalSize b := by
  induction a with
  | nil => simp
  | cons item a ih => simp [ih, Nat.add_assoc]

@[simp] theorem totalSize_map_word (ws : List UInt32) : totalSize (ws.map word) = ws.length := by
  induction ws with
  | nil => rfl
  | cons w ws ih => simp [ih, size, Nat.add_comm]

end AsmItem

namespace Group

def pushes (g : Group) : List UInt32 :=
  g.operands.flatMap Expr.words

theorem items_eq (g : Group) : g.items = g.pushes.map .word ++ [g.last] := by
  unfold items pushes
  rw [List.map_flatMap]
  congr 2
  funext e
  exact e.pushExpr_eq

theorem size_last (g : Group) : g.last.size = 1 := by
  cases g <;> rfl

theorem totalSize_items (g : Group) : AsmItem.totalSize g.items = g.pushes.length + 1 := by
  rw [items_eq, AsmItem.totalSize_append, AsmItem.totalSize_map_word, AsmItem.totalSize_cons,
    size_last, AsmItem.totalSize_nil]

end Group

namespace Part

@[simp] theorem groups_append (a b : List Part) : groups (a ++ b) = groups a ++ groups b :=
  List.filterMap_append

@[simp] theorem groups_label (name : String) (parts : List Part) :
    groups (.label name :: parts) = groups parts := rfl

@[simp] theorem groups_group (g : Group) (parts : List Part) :
    groups (.group g :: parts) = g :: groups parts := rfl

@[simp] theorem emit_label (name : String) (parts : List Part) :
    emit (.label name :: parts) = .label name :: emit parts := rfl

@[simp] theorem emit_group (g : Group) (parts : List Part) :
    emit (.group g :: parts) = g.items ++ emit parts := rfl

@[simp] theorem width_nil : width [] = 0 := rfl

@[simp] theorem width_append (a b : List Part) : width (a ++ b) = width a + width b := by
  simp [width, emit]

@[simp] theorem width_label (name : String) (parts : List Part) :
    width (.label name :: parts) = width parts := by
  simp [width, AsmItem.size]

@[simp] theorem width_group (g : Group) (parts : List Part) :
    width (.group g :: parts) = g.pushes.length + 1 + width parts := by
  simp [width, Group.totalSize_items]

/-- A draft of labels only has no words, and every other one has some. -/
theorem width_eq_zero_iff (parts : List Part) : width parts = 0 ↔ groups parts = [] := by
  induction parts with
  | nil => simp [groups]
  | cons part parts ih =>
    cases part with
    | label name => simpa using ih
    | group g => simp

end Part

/-! ## Labels -/

namespace Part

theorem labelIndex?_words (name : String) (start : Nat) (ws : List UInt32) (rest : List AsmItem) :
    AsmItem.labelIndex? name start (ws.map .word ++ rest) =
      AsmItem.labelIndex? name (start + ws.length) rest := by
  induction ws generalizing start with
  | nil => rfl
  | cons w ws ih =>
    simp only [List.map_cons, List.cons_append, AsmItem.labelIndex?]
    rw [ih, if_neg (by simp), Option.or_none]
    simp only [AsmItem.size, List.length_cons]
    congr 1
    omega

/-- A group defines no label. -/
theorem labelIndex?_group (name : String) (start : Nat) (g : Group) (rest : List AsmItem) :
    AsmItem.labelIndex? name start (g.items ++ rest) =
      AsmItem.labelIndex? name (start + (g.pushes.length + 1)) rest := by
  have hne : g.last ≠ .label name := by cases g <;> simp [Group.last, AsmItem.op]
  rw [g.items_eq, List.append_assoc, labelIndex?_words]
  simp only [List.singleton_append, AsmItem.labelIndex?]
  rw [if_neg hne, Option.or_none, g.size_last]
  rfl

theorem labelIndex?_eq_none (name : String) (start : Nat) (parts : List Part) :
    AsmItem.labelIndex? name start (emit parts) = none ↔ .label name ∉ parts := by
  induction parts generalizing start with
  | nil => simp [emit, AsmItem.labelIndex?]
  | cons part parts ih =>
    cases part with
    | label other =>
      simp only [emit_label, AsmItem.labelIndex?, Option.or_eq_none_iff, ih, List.mem_cons,
        not_or]
      simp [and_comm, eq_comm]
    | group g =>
      rw [emit_group, labelIndex?_group, ih]
      simp

/-- A label means its last place. -/
theorem labelIndex?_eq_some {name : String} {parts mark : List Part} (start : Nat)
    (h : LastMark parts name mark) :
    AsmItem.labelIndex? name start (emit parts) = some (start + width mark) := by
  obtain ⟨after, rfl, hafter⟩ := h
  induction mark generalizing start with
  | nil =>
    have hnone := (labelIndex?_eq_none name (start + 0) after).2 hafter
    simp only [List.nil_append, emit_label, AsmItem.labelIndex?, AsmItem.size]
    rw [hnone, Option.none_or, if_pos trivial]
    rfl
  | cons part mark ih =>
    cases part with
    | label other =>
      have hrest := ih (start + 0)
      simp only [List.cons_append, emit_label, AsmItem.labelIndex?, AsmItem.size]
      rw [hrest, Option.some_or, width_label, Nat.add_zero]
    | group g =>
      rw [List.cons_append, emit_group, labelIndex?_group, ih, width_group]
      congr 1
      omega

/-- A defined label has a last place. -/
theorem exists_lastMark {name : String} {parts : List Part} (h : .label name ∈ parts) :
    ∃ mark, LastMark parts name mark := by
  obtain ⟨after, mark, hrev, hafter⟩ := List.eq_append_cons_of_mem (List.mem_reverse.2 h)
  refine ⟨mark.reverse, after.reverse, ?_, by rwa [List.mem_reverse]⟩
  rw [← List.reverse_reverse parts, hrev]
  simp

theorem LastMark.unique {parts mark mark' : List Part} {name : String}
    (h : LastMark parts name mark) (h' : LastMark parts name mark') : mark = mark' := by
  obtain ⟨after, rfl, hafter⟩ := h
  obtain ⟨after', heq, hafter'⟩ := h'
  rcases List.append_eq_append_iff.1 heq with ⟨mid, rfl, hmid⟩ | ⟨mid, rfl, hmid⟩
  · rcases List.cons_eq_append_iff.1 hmid with ⟨rfl, -⟩ | ⟨mid', rfl, rfl⟩
    · rw [List.append_nil]
    · exact absurd (List.mem_append_right mid' List.mem_cons_self) hafter
  · rcases List.cons_eq_append_iff.1 hmid with ⟨rfl, -⟩ | ⟨mid', rfl, rfl⟩
    · rw [List.append_nil]
    · exact absurd (List.mem_append_right mid' List.mem_cons_self) hafter'

end Part

/-! ## Words of a draft -/

namespace AsmItem

theorem words_map_word (items : List AsmItem) (index : Nat) (ws : List UInt32)
    (rest : List AsmItem) :
    words items index (ws.map word ++ rest) =
      (words items (index + ws.length) rest).map (ws ++ ·) := by
  induction ws generalizing index with
  | nil => cases h : words items index rest <;> simp [h, Except.map]
  | cons w ws ih =>
    simp only [List.map_cons, List.cons_append, words]
    rw [ih, Nat.add_assoc, Nat.add_comm 1 ws.length]
    cases words items (index + (ws.length + 1)) rest <;> rfl

end AsmItem

namespace Group

/-- The word that ends a group, at a word index in items. -/
def word (items : List AsmItem) (index : Nat) : Group → Except AssemblyError UInt32
  | plain w _ _ => .ok w.bits
  | hop b distance => .ok (Word.bits ⟨b.kind.opcode, distance⟩)
  | goto b label => AsmItem.jumpWord items index b.kind label

end Group

theorem words_group (items : List AsmItem) (index : Nat) (g : Group) (rest : List AsmItem) :
    AsmItem.words items index (g.items ++ rest) =
      (g.word items (index + g.pushes.length)).bind fun w =>
        (AsmItem.words items (index + (g.pushes.length + 1)) rest).map (g.pushes ++ w :: ·) := by
  have hsite : index + (g.pushes.length + 1) = index + g.pushes.length + 1 := rfl
  rw [g.items_eq, List.append_assoc, AsmItem.words_map_word, hsite]
  generalize index + g.pushes.length = site
  generalize g.pushes = ws
  cases g with
  | plain w i h =>
    simp only [Group.last, List.singleton_append, AsmItem.words, Group.word]
    cases AsmItem.words items (site + 1) rest <;> rfl
  | hop b distance =>
    simp only [Group.last, AsmItem.op, List.singleton_append, AsmItem.words, Group.word]
    cases AsmItem.words items (site + 1) rest <;> rfl
  | goto b label =>
    simp only [Group.last, List.singleton_append, AsmItem.words, Group.word]
    cases AsmItem.jumpWord items site b.kind label with
    | error e => rfl
    | ok w => cases AsmItem.words items (site + 1) rest <;> rfl

theorem words_group_ok {items : List AsmItem} {index : Nat} {g : Group} {rest : List AsmItem}
    {ws : List UInt32} (h : AsmItem.words items index (g.items ++ rest) = .ok ws) :
    ∃ w us, g.word items (index + g.pushes.length) = .ok w ∧
      AsmItem.words items (index + (g.pushes.length + 1)) rest = .ok us ∧
      ws = g.pushes ++ w :: us := by
  rw [words_group] at h
  cases hw : g.word items (index + g.pushes.length) with
  | error e => simp [hw, Except.bind] at h
  | ok w =>
    cases hus : AsmItem.words items (index + (g.pushes.length + 1)) rest with
    | error e => simp [hw, hus, Except.bind, Except.map] at h
    | ok us =>
      rw [hw, hus] at h
      exact ⟨w, us, rfl, rfl, (Except.ok.inj h).symm⟩

theorem length_words {items : List AsmItem} {start : Nat} {parts : List Part} {ws : List UInt32}
    (h : AsmItem.words items start (Part.emit parts) = .ok ws) :
    ws.length = Part.width parts := by
  induction parts generalizing start ws with
  | nil =>
    obtain rfl : [] = ws := by simpa [Part.emit, AsmItem.words] using h
    rfl
  | cons part parts ih =>
    cases part with
    | label name => exact (ih h).trans (Part.width_label name parts).symm
    | group g =>
      obtain ⟨w, us, -, hus, rfl⟩ := words_group_ok h
      have hlen := ih hus
      rw [Part.width_group, List.length_append, List.length_cons]
      omega

/-! ## Jumps that cannot be placed -/

/-- Some jump to a label is not in reach: the label is not defined, or its last place is more words
away than a parameter can say. The distance counts from the jump word. -/
def Part.OutOfReach (parts : List Part) : Prop :=
  ∃ before b name after, parts = before ++ .group (.goto b name) :: after ∧
    (.label name ∉ parts ∨ ∃ mark, LastMark parts name mark ∧
      let distance : Int := width mark - (width before + (Group.goto b name).pushes.length)
      ¬(-32768 ≤ distance ∧ distance ≤ 32767))

theorem AsmItem.jumpWord_eq_error (parts : List Part) (index : Nat) (kind : JumpKind)
    (name : String) :
    (∃ e, jumpWord (Part.emit parts) index kind name = .error e) ↔
      (.label name ∉ parts ∨ ∃ mark, Part.LastMark parts name mark ∧
        ¬(-32768 ≤ (Part.width mark : Int) - index ∧ (Part.width mark : Int) - index ≤ 32767)) := by
  by_cases hmem : .label name ∈ parts
  · obtain ⟨mark, hmark⟩ := Part.exists_lastMark hmem
    have hindex := Part.labelIndex?_eq_some 0 hmark
    rw [Nat.zero_add] at hindex
    simp only [jumpWord, hindex]
    split
    next hin =>
      simp only [reduceCtorEq, exists_false, hmem, not_true_eq_false, false_or, false_iff]
      rintro ⟨other, hother, hout⟩
      rw [hother.unique hmark] at hout
      exact hout hin
    next hout => exact ⟨fun _ => .inr ⟨mark, hmark, hout⟩, fun _ => ⟨_, rfl⟩⟩
  · have hnone := (Part.labelIndex?_eq_none name 0 parts).2 hmem
    simp only [jumpWord, hnone]
    exact ⟨fun _ => .inl hmem, fun _ => ⟨_, rfl⟩⟩

theorem words_eq_error (items : List AsmItem) (start : Nat) (parts : List Part) :
    (∃ e, AsmItem.words items start (Part.emit parts) = .error e) ↔
      ∃ before g after, parts = before ++ .group g :: after ∧
        ∃ e, g.word items (start + (Part.width before + g.pushes.length)) = .error e := by
  induction parts generalizing start with
  | nil => simp [Part.emit, AsmItem.words]
  | cons part parts ih =>
    cases part with
    | label name =>
      rw [Part.emit_label, AsmItem.words, ih]
      constructor
      · rintro ⟨before, g, after, rfl, herr⟩
        exact ⟨.label name :: before, g, after, rfl, by rwa [Part.width_label]⟩
      · rintro ⟨before, g, after, hparts, herr⟩
        rcases List.cons_eq_append_iff.1 hparts with ⟨-, h⟩ | ⟨before', rfl, rfl⟩
        · simp at h
        · exact ⟨before', g, after, rfl, by rwa [Part.width_label] at herr⟩
    | group g =>
      rw [Part.emit_group, words_group]
      cases hw : g.word items (start + g.pushes.length) with
      | error e =>
        refine ⟨fun _ => ⟨[], g, parts, rfl, e, ?_⟩, fun _ => ⟨e, rfl⟩⟩
        rwa [Part.width_nil, Nat.zero_add]
      | ok w =>
        have hrest : (∃ e, Except.bind (.ok w) (fun w =>
            (AsmItem.words items (start + (g.pushes.length + 1)) (Part.emit parts)).map
              (g.pushes ++ w :: ·)) = .error e) ↔
            ∃ e, AsmItem.words items (start + (g.pushes.length + 1)) (Part.emit parts) =
              .error e := by
          cases AsmItem.words items (start + (g.pushes.length + 1)) (Part.emit parts) <;>
            simp [Except.bind, Except.map]
        rw [hrest, ih]
        constructor
        · rintro ⟨before, g', after, rfl, herr⟩
          refine ⟨.group g :: before, g', after, rfl, ?_⟩
          rwa [Part.width_group, Nat.add_assoc (g.pushes.length + 1), ← Nat.add_assoc start]
        · rintro ⟨before, g', after, hparts, e, herr⟩
          rcases List.cons_eq_append_iff.1 hparts with ⟨rfl, h⟩ | ⟨before', rfl, rfl⟩
          · simp only [List.cons.injEq, Part.group.injEq] at h
            obtain ⟨rfl, rfl⟩ := h
            rw [Part.width_nil, Nat.zero_add, hw] at herr
            simp at herr
          · refine ⟨before', g', after, rfl, e, ?_⟩
            rwa [Part.width_group, Nat.add_assoc (g.pushes.length + 1),
              ← Nat.add_assoc start] at herr

/-- Assembling fails exactly if some jump is not in reach. -/
theorem assemble_eq_error (parts : List Part) :
    (∃ e, AsmItem.assemble (Part.emit parts) = .error e) ↔ Part.OutOfReach parts := by
  have hwords : (∃ e, AsmItem.assemble (Part.emit parts) = .error e) ↔
      ∃ e, AsmItem.words (Part.emit parts) 0 (Part.emit parts) = .error e := by
    unfold AsmItem.assemble
    cases AsmItem.words (Part.emit parts) 0 (Part.emit parts) <;> simp [Except.map]
  rw [hwords, words_eq_error]
  constructor
  · rintro ⟨before, g, after, hparts, e, herr⟩
    cases g with
    | plain w i h => simp [Group.word] at herr
    | hop b distance => simp [Group.word] at herr
    | goto b name =>
      rw [Nat.zero_add] at herr
      exact ⟨before, b, name, after, hparts,
        (AsmItem.jumpWord_eq_error parts _ b.kind name).1 ⟨e, herr⟩⟩
  · rintro ⟨before, b, name, after, hparts, hout⟩
    refine ⟨before, .goto b name, after, hparts, ?_⟩
    rw [Nat.zero_add]
    exact (AsmItem.jumpWord_eq_error parts _ b.kind name).2 hout

/-! ## Bytes -/

namespace Word

theorem length_toBytes (ws : List UInt32) : (toBytes ws).length = 4 * ws.length := by
  induction ws with
  | nil => rfl
  | cons w ws ih =>
    simp only [toBytes, List.flatMap_cons, List.length_append, LittleEndian.length_encode,
      List.length_cons] at ih ⊢
    omega

theorem ofBytes_toBytes (ws : List UInt32) : ofBytes (toBytes ws) = (ws, 0) := by
  induction ws with
  | nil => rfl
  | cons w ws ih =>
    have hw : UInt32.ofNat (LittleEndian.decode (LittleEndian.encode 4 w.toNat)) = w := by
      rw [LittleEndian.decode_encode]
      exact UInt32.toNat_inj.1 (by simp [LittleEndian.capacity])
    show (_ :: (ofBytes (toBytes ws)).1, (ofBytes (toBytes ws)).2) = _
    rw [ih]
    exact congrArg (fun u => (u :: ws, 0)) hw

end Word

/-! ## Feeding a draft -/

namespace Group

/-- The instruction of a group whose last word has a word index, where labels mean byte offsets. -/
def instruction (place : String → Int) (index : Nat) : Group → Instruction
  | plain _ i _ => i
  | hop b distance => b.instruction (4 * index + 4 * distance.toInt)
  | goto b label => b.instruction (place label)

end Group

namespace Part

/-- The byte offset that a label means in a draft. -/
def place (parts : List Part) (name : String) : Int :=
  4 * ((AsmItem.labelIndex? name 0 (emit parts)).getD 0 : Nat)

/-- Group offsets and instructions of a draft that starts at a word index. -/
def listing (place : String → Int) : (start : Nat) → List Part → List (Nat × Instruction)
  | _, [] => []
  | start, label _ :: parts => listing place start parts
  | start, group g :: parts =>
    (4 * start, g.instruction place (start + g.pushes.length)) ::
      listing place (start + (g.pushes.length + 1)) parts

end Part

/-- The word of a jump is placed so that it leads where its label is. -/
theorem Group.jumpTarget_word {parts : List Part} {b : Branch} {name : String} {index : Nat}
    {w : UInt32} (hw : (Group.goto b name).word (Part.emit parts) index = .ok w)
    (hindex : 4 * index < 0x8000000000000000) :
    ∃ distance : Int16, w = Word.bits ⟨b.kind.opcode, distance⟩ ∧
      Opcode.jumpTarget distance (4 * index) = Part.place parts name := by
  simp only [Group.word, AsmItem.jumpWord] at hw
  split at hw
  next => simp at hw
  next target htarget =>
    split at hw
    next hin =>
      simp only [Except.ok.injEq] at hw
      refine ⟨_, hw.symm, ?_⟩
      have hback : (Int16.ofInt ((target : Int) - index)).toInt = (target : Int) - index :=
        Int16.toInt_ofInt_of_le (by omega) (by omega)
      rw [Opcode.jumpTarget_of_lt _ hindex, hback]
      simp only [Part.place, htarget, Option.getD_some]
      omega
    next => simp at hw

/-- The words of a group add its instruction. -/
theorem Pass.feed_group {strict : Bool} {limit start : Nat} {entries : Array (Nat × Instruction)}
    {parts : List Part} {g : Group} {w : UInt32} (hg : g.Fits limit)
    (hw : g.word (Part.emit parts) (start + g.pushes.length) = .ok w)
    (hstart : 4 * (start + g.pushes.length) < 0x8000000000000000) :
    (g.pushes ++ [w]).foldlM (feed strict)
        ⟨4 * start, ⟨limit, []⟩, 4 * start, entries, none⟩ =
      .ok ⟨4 * (start + (g.pushes.length + 1)), ⟨limit, []⟩,
        4 * (start + (g.pushes.length + 1)),
        entries.push (4 * start, g.instruction (Part.place parts) (start + g.pushes.length)),
        none⟩ := by
  have hneed : ([] : List Expr).length + Expr.needs g.operands ≤ limit := by
    rw [List.length_nil, Nat.zero_add]
    exact hg.2
  have hsite : 4 * start + 4 * g.pushes.length = 4 * (start + g.pushes.length) := by omega
  have hlast : feed strict ⟨4 * (start + g.pushes.length), ⟨limit, g.operands.reverse⟩, 4 * start,
        entries, none⟩ w =
      .ok ⟨4 * (start + g.pushes.length) + 4, ⟨limit, []⟩, 4 * (start + g.pushes.length) + 4,
        entries.push (4 * start, g.instruction (Part.place parts) (start + g.pushes.length)),
        none⟩ := by
    cases g with
    | plain u i h =>
      obtain rfl : u.bits = w := by simpa [Group.word] using hw
      exact feed_encodes h
    | hop b distance =>
      obtain rfl : Word.bits ⟨b.kind.opcode, distance⟩ = w := by simpa [Group.word] using hw
      have htarget :
          Opcode.jumpTarget distance (4 * (start + (Group.hop b distance).pushes.length)) =
          4 * (start + (Group.hop b distance).pushes.length : Nat) + 4 * distance.toInt := by
        rw [Opcode.jumpTarget_of_lt _ hstart]
        omega
      rw [Group.operands, feed_jump, htarget]
      rfl
    | goto b name =>
      obtain ⟨distance, rfl, htarget⟩ := Group.jumpTarget_word hw hstart
      rw [Group.operands, feed_jump, htarget]
      rfl
  have hpush : g.pushes.foldlM (feed strict) ⟨4 * start, ⟨limit, []⟩, 4 * start, entries, none⟩ =
      .ok ⟨4 * start + 4 * g.pushes.length, ⟨limit, g.operands.reverse ++ []⟩, 4 * start, entries,
        none⟩ :=
    feed_operands g.operands hg.1 hneed
  rw [List.foldlM_append, hpush, hsite, List.append_nil]
  show (feed strict _ w >>= fun p => List.foldlM (feed strict) p []) = _
  rw [hlast]
  rfl

/-- The words of a draft give its listing. -/
theorem Pass.feed_parts {strict : Bool} {limit : Nat} (all parts : List Part) (start : Nat)
    {entries : Array (Nat × Instruction)} {ws : List UInt32}
    (hws : AsmItem.words (Part.emit all) start (Part.emit parts) = .ok ws)
    (hsize : 4 * (start + Part.width parts) < 0x8000000000000000)
    (hfits : ∀ g ∈ Part.groups parts, g.Fits limit) :
    ws.foldlM (feed strict) ⟨4 * start, ⟨limit, []⟩, 4 * start, entries, none⟩ =
      .ok ⟨4 * (start + Part.width parts), ⟨limit, []⟩, 4 * (start + Part.width parts),
        entries ++ (Part.listing (Part.place all) start parts).toArray, none⟩ := by
  induction parts generalizing start entries ws with
  | nil =>
    obtain rfl : [] = ws := by simpa [Part.emit, AsmItem.words] using hws
    rw [Part.listing, Array.append_empty]
    rfl
  | cons part parts ih =>
    cases part with
    | label name =>
      rw [Part.emit_label, AsmItem.words] at hws
      rw [Part.width_label] at hsize ⊢
      exact ih start hws hsize hfits
    | group g =>
      rw [Part.emit_group] at hws
      rw [Part.width_group] at hsize ⊢
      obtain ⟨w, us, hw, hus, rfl⟩ := words_group_ok hws
      have hg : g.Fits limit := hfits g (by simp)
      have hrest : ∀ g' ∈ Part.groups parts, g'.Fits limit := fun g' h => hfits g' (by simp [h])
      have hend : start + (g.pushes.length + 1) + Part.width parts =
          start + (g.pushes.length + 1 + Part.width parts) := by omega
      rw [List.append_cons, List.foldlM_append, feed_group hg hw (by omega)]
      show List.foldlM (feed strict) _ us = _
      rw [ih _ hus (by omega) hrest, hend, Part.listing]
      simp

/-! ## The program of a draft -/

/-- The program that a draft stands for. -/
def Part.program (name : String) (parts : List Part) : Program :=
  ⟨name, (listing (place parts) 0 parts).toArray, 4 * width parts⟩

theorem decode_assemble {config : DecoderConfig} {parts : List Part} {bytes : List UInt8}
    (name : String) (hbytes : AsmItem.assemble (Part.emit parts) = .ok bytes)
    (hsize : bytes.length < 0x8000000000000000)
    (hfits : ∀ g ∈ Part.groups parts, g.Fits config.maxDepth) :
    decode config name bytes = .ok (Part.program name parts) := by
  cases hws : AsmItem.words (Part.emit parts) 0 (Part.emit parts) with
  | error e => simp [AsmItem.assemble, hws, Except.map] at hbytes
  | ok ws =>
    obtain rfl : Word.toBytes ws = bytes := by
      simpa [AsmItem.assemble, hws, Except.map] using hbytes
    have hlen := length_words hws
    rw [Word.length_toBytes, hlen] at hsize
    have hfeed : ws.foldlM (Pass.feed config.strict) (.start config.maxDepth) = .ok _ :=
      Pass.feed_parts parts parts 0 hws (by omega) hfits
    unfold decode
    rw [Word.ofBytes_toBytes, Word.length_toBytes, hlen]
    simp only [hfeed]
    simp [bind, Except.bind, Pass.finish, OperandStack.depth, Part.program]

namespace Part

theorem listing_append (place : String → Int) (start : Nat) (a b : List Part) :
    listing place start (a ++ b) = listing place start a ++ listing place (start + width a) b := by
  induction a generalizing start with
  | nil => rfl
  | cons part a ih =>
    cases part with
    | label name =>
      rw [List.cons_append, listing, ih, width_label]
      rfl
    | group g =>
      have hend : start + (g.pushes.length + 1) + width a =
          start + (g.pushes.length + 1 + width a) := by omega
      rw [List.cons_append, listing, ih, width_group, hend]
      rfl

theorem length_listing (place : String → Int) (start : Nat) (parts : List Part) :
    (listing place start parts).length = (groups parts).length := by
  induction parts generalizing start with
  | nil => rfl
  | cons part parts ih =>
    cases part with
    | label name => exact ih start
    | group g => exact congrArg (· + 1) (ih _)

/-- Offsets do not come before the start. -/
theorem le_of_mem_listing {place : String → Int} {start : Nat} {parts : List Part}
    {entry : Nat × Instruction} (h : entry ∈ listing place start parts) : 4 * start ≤ entry.1 := by
  induction parts generalizing start with
  | nil => simp [listing] at h
  | cons part parts ih =>
    cases part with
    | label name => exact ih h
    | group g =>
      rcases List.mem_cons.1 h with rfl | h
      · exact Nat.le_refl _
      · have := ih h
        omega

/-- The first group starts at the start, and no other does. -/
theorem listing_eq_cons (place : String → Int) (start : Nat) {parts : List Part}
    (h : groups parts ≠ []) :
    ∃ i rest, listing place start parts = (4 * start, i) :: rest ∧
      ∀ entry ∈ rest, 4 * start < entry.1 := by
  induction parts with
  | nil => exact absurd rfl h
  | cons part parts ih =>
    cases part with
    | label name => exact ih h
    | group g =>
      refine ⟨_, _, rfl, fun entry hentry => ?_⟩
      have := le_of_mem_listing hentry
      omega

theorem program_entry (name : String) {parts before after : List Part} {g : Group}
    (h : parts = before ++ .group g :: after) :
    (program name parts).entries[(groups before).length]? =
      some (4 * width before,
        g.instruction (place parts) (width before + g.pushes.length)) := by
  have hlist : listing (place parts) 0 parts = listing (place parts) 0 before ++
      (4 * width before, g.instruction (place parts) (width before + g.pushes.length)) ::
        listing (place parts) (width before + (g.pushes.length + 1)) after := by
    conv => lhs; arg 3; rw [h]
    rw [listing_append, Nat.zero_add, listing]
  have hlen := length_listing (place parts) 0 before
  show (listing (place parts) 0 parts).toArray[_]? = _
  rw [List.getElem?_toArray, hlist, ← hlen, List.getElem?_append_right (Nat.le_refl _),
    Nat.sub_self]
  rfl

end Part

/-- The offset between two parts of a draft leads to the first group after it, and the offset at
the end to the index past the last group. -/
theorem Part.resolve?_width (name : String) (a b : List Part) :
    (program name (a ++ b)).resolve? (4 * width a : Nat) = some (groups a).length := by
  have hsize : (program name (a ++ b)).size = (groups a).length + (groups b).length := by
    show (listing _ 0 (a ++ b)).toArray.size = _
    rw [List.size_toArray, length_listing, groups_append, List.length_append]
  show (if 4 * width a = 4 * width (a ++ b) then some (program name (a ++ b)).size
    else (program name (a ++ b)).lastIndex? (4 * width a) (program name (a ++ b)).size) = _
  rw [width_append]
  by_cases hb : groups b = []
  · rw [if_pos (by rw [(width_eq_zero_iff b).2 hb]; rfl), hsize, hb, List.length_nil, Nat.add_zero]
  · have hpos : width b ≠ 0 := fun h => hb ((width_eq_zero_iff b).1 h)
    obtain ⟨i, rest, hrest, hlt⟩ := listing_eq_cons (place (a ++ b)) (width a) hb
    have hlist : listing (place (a ++ b)) 0 (a ++ b) =
        listing (place (a ++ b)) 0 a ++ (4 * width a, i) :: rest := by
      rw [listing_append, Nat.zero_add, hrest]
    have hoff : ∀ k, (program name (a ++ b)).offsetOf? k =
        (listing (place (a ++ b)) 0 a ++ (4 * width a, i) :: rest)[k]?.map Prod.fst := by
      intro k
      rw [← hlist]
      show (listing _ 0 (a ++ b)).toArray[k]?.map _ = _
      rw [List.getElem?_toArray]
    have hlen := length_listing (place (a ++ b)) 0 a
    rw [if_neg (by omega)]
    refine Program.lastIndex?_eq_some_iff.2 ⟨?_, ?_, ?_⟩
    · have := List.length_pos_iff.2 hb
      omega
    · rw [hoff, ← hlen, List.getElem?_append_right (Nat.le_refl _), Nat.sub_self]
      rfl
    · intro k hk _ hsome
      rw [hoff, List.getElem?_append_right (by omega)] at hsome
      obtain ⟨entry, hentry, hfst⟩ := Option.map_eq_some_iff.1 hsome
      obtain ⟨d, hd⟩ : ∃ d, k - (listing (place (a ++ b)) 0 a).length = d + 1 :=
        ⟨k - (listing (place (a ++ b)) 0 a).length - 1, by omega⟩
      rw [hd, List.getElem?_cons_succ] at hentry
      have := hlt entry (List.mem_of_getElem? hentry)
      omega

/-! ## Round trip -/

/-- The instruction at an index of a program is the one that a group of a draft was meant to be; a
jump to a label leads to the first group after the last place of the label. The group's last word
has a word index, from which jumps by a number of words count. -/
def Group.FoundAt (parts : List Part) (p : Program) (index last : Nat) : Group → Prop
  | plain _ i _ => p.get? index = some i
  | hop b distance => p.get? index = some (b.instruction (4 * last + 4 * distance.toInt))
  | goto b name => ∃ mark, Part.LastMark parts name mark ∧
    p.get? index = some (b.instruction (4 * Part.width mark : Nat)) ∧
    p.resolve? (4 * Part.width mark : Nat) = some (Part.groups mark).length

theorem Part.label_mem_of_assemble {parts before after : List Part} {b : Branch} {name : String}
    {bytes : List UInt8} (hbytes : AsmItem.assemble (emit parts) = .ok bytes)
    (hparts : parts = before ++ .group (.goto b name) :: after) : .label name ∈ parts := by
  by_cases hmem : .label name ∈ parts
  · exact hmem
  · obtain ⟨e, herr⟩ := (assemble_eq_error parts).2 ⟨before, b, name, after, hparts, .inl hmem⟩
    rw [hbytes] at herr
    simp at herr

theorem Group.foundAt_program (name : String) {parts before after : List Part} {g : Group}
    {bytes : List UInt8} (hbytes : AsmItem.assemble (Part.emit parts) = .ok bytes)
    (hparts : parts = before ++ .group g :: after) :
    g.FoundAt parts (Part.program name parts) (Part.groups before).length
      (Part.width before + g.pushes.length) := by
  have hget : (Part.program name parts).get? (Part.groups before).length =
      some (g.instruction (Part.place parts) (Part.width before + g.pushes.length)) := by
    unfold Program.get?
    rw [Part.program_entry name hparts]
    rfl
  cases g with
  | plain w i h => exact hget
  | hop b distance => exact hget
  | goto b label =>
    obtain ⟨mark, hmark⟩ := Part.exists_lastMark (Part.label_mem_of_assemble hbytes hparts)
    have hplace : Part.place parts label = (4 * Part.width mark : Nat) := by
      unfold Part.place
      rw [Part.labelIndex?_eq_some 0 hmark, Option.getD_some, Nat.zero_add]
      omega
    refine ⟨mark, hmark, ?_, ?_⟩
    · rw [hget, Group.instruction, hplace]
    · obtain ⟨rest, rfl, -⟩ := hmark
      exact Part.resolve?_width name mark _

/-- **Assembling and decoding round-trip.** Assembling a draft fails exactly if some jump to a label
is not in reach. What was assembled is decoded, strictly or not, to one instruction for each group:
it stands at the offset where the group was written, has the operands of the group, and if it is a
jump to a label it leads to the first group after the label. No byte stream has `2 ^ 63` bytes. -/
theorem assemble_decode (config : DecoderConfig) (name : String) (parts : List Part) :
    ((∃ e, AsmItem.assemble (Part.emit parts) = .error e) ↔ Part.OutOfReach parts) ∧
    ∀ bytes, AsmItem.assemble (Part.emit parts) = .ok bytes → bytes.length < 0x8000000000000000 →
      (∀ g ∈ Part.groups parts, g.Fits config.maxDepth) →
      ∃ p, decode config name bytes = .ok p ∧ p.name = name ∧
        p.size = (Part.groups parts).length ∧
        ∀ before g after, parts = before ++ .group g :: after →
          p.offsetOf? (Part.groups before).length = some (4 * Part.width before) ∧
          g.FoundAt parts p (Part.groups before).length (Part.width before + g.pushes.length) := by
  refine ⟨assemble_eq_error parts, fun bytes hbytes hsize hfits => ?_⟩
  refine ⟨Part.program name parts, decode_assemble name hbytes hsize hfits, rfl, ?_, ?_⟩
  · show (Part.listing _ 0 parts).toArray.size = _
    rw [List.size_toArray, Part.length_listing]
  · intro before g after hparts
    refine ⟨?_, Group.foundAt_program name hbytes hparts⟩
    unfold Program.offsetOf?
    rw [Part.program_entry name hparts]
    rfl

/-- A loop with a way out: `end` is defined twice and means the end of the script. -/
def Part.loop : List Part :=
  [.label "end",
    .group (.plain ⟨0x23, 0⟩ _
      (.wait 0 (.binary .sub (.const 40000) (.unary .neg (.var ⟨.temp, 3⟩))))),
    .label "test",
    .group (.goto (.jumpIfZero (.var ⟨.flag, 65535⟩)) "end"),
    .group (.goto .jump "test"),
    .label "end"]

theorem assemble_decode_loop : ∃ bytes p, AsmItem.assemble (Part.emit Part.loop) = .ok bytes ∧
    (∀ g ∈ Part.groups Part.loop, g.Fits 3) ∧ decode ⟨3, true⟩ "loop" bytes = .ok p ∧ p.size = 3 ∧
    p.get? 0 = some (.wait (.binary .sub (.const 40000) (.unary .neg (.var ⟨.temp, 3⟩)))) ∧
    p.offsetOf? 1 = some 24 ∧ p.get? 1 = some (.jumpIfZero (.var ⟨.flag, 65535⟩) 36) ∧
    p.resolve? 36 = some 3 := by
  have hfits : ∀ g ∈ Part.groups Part.loop, g.Fits 3 := by decide
  obtain ⟨bytes, hbytes, hlen⟩ : ∃ bytes, AsmItem.assemble (Part.emit Part.loop) = .ok bytes ∧
      bytes.length = 36 := ⟨_, rfl, by decide⟩
  obtain ⟨p, hp, -, hsize, hgroups⟩ :=
    (assemble_decode ⟨3, true⟩ "loop" Part.loop).2 bytes hbytes (by omega) hfits
  have hwait := hgroups (Part.loop.take 1) _ _ rfl
  have hjump := hgroups (Part.loop.take 3) _ _ rfl
  have hlast : Part.LastMark Part.loop "end" (Part.loop.take 5) := ⟨[], rfl, by simp⟩
  obtain ⟨mark, hmark, hget, hresolve⟩ := hjump.2
  rw [hmark.unique hlast] at hget hresolve
  exact ⟨bytes, p, hbytes, hfits, hp, hsize, hwait.2, hjump.1, hget, hresolve⟩

end FieldEngine
