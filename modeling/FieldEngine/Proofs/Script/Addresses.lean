import FieldEngine.Proofs.Script.StackMachine
import FieldEngine.Proofs.Script.Targets

/-!
# Addresses

Where the groups of a decoded script lie, whatever the settings. Its words are those of its groups,
one after the other; each group has words of operands and then one instruction word, from which its
instruction is made (`Program.Laid`). A pass keeps that up word by word (`Pass.Lays.feed`). So
groups start at different offsets, in order, and each address is that of one group, or of the end,
or of nothing. Main statement: `address_map`.
-/

namespace FieldEngine

/-! ## Groups -/

/-- Words that push operands or join them. A wide push takes the next word along, whatever it
holds. -/
inductive OperandWords : List UInt32 → Prop
  | none : OperandWords []
  | push {words : List UInt32} {w : UInt32} {kind : PushKind} (before : OperandWords words)
      (role : Word.role? w = some (.push kind)) (short : kind ≠ .wideLiteral) :
      OperandWords (words ++ [w])
  | widePush {words : List UInt32} {w : UInt32} (before : OperandWords words)
      (role : Word.role? w = some (.push .wideLiteral)) (literal : UInt32) :
      OperandWords (words ++ [w, literal])
  | operator {words : List UInt32} {w : UInt32} (before : OperandWords words)
      (role : Word.role? w = some .operator) : OperandWords (words ++ [w])

/-- The words of a group that starts at an offset: first those of operands, then the word that makes
the instruction of what the stack holds there. -/
def Instruction.Spelled (i : Instruction) (offset : Nat) (words : List UInt32) : Prop :=
  ∃ operands last, words = operands ++ [last] ∧ OperandWords operands ∧
    ∃ stack rest, decodeInstruction (Word.ofBits last).opcode (Word.ofBits last).parameter
      (offset + 4 * operands.length) stack = (.ok i, rest)

namespace Program

/-- The words are those of the groups of the program, one after the other up to its end. -/
structure Laid (p : Program) (words : List UInt32) : Prop where
  stop : p.endOffset = 4 * words.length
  first : p.groupStart 0 = 0
  next : ∀ index < p.size,
    p.groupStart (index + 1) = p.groupStart index + 4 * (p.group words index).length
  spelled : ∀ index i, p.get? index = some i →
    i.Spelled (p.groupStart index) (p.group words index)

theorem offsetOf?_eq_some_iff {p : Program} {index offset : Nat} :
    p.offsetOf? index = some offset ↔ index < p.size ∧ p.groupStart index = offset := by
  unfold groupStart
  constructor
  · intro h
    exact ⟨lt_size_of_offsetOf? h, by rw [h]; rfl⟩
  · rintro ⟨hindex, hstart⟩
    have hbound : index < p.entries.size := hindex
    have hentry : p.offsetOf? index = some p.entries[index].1 := by
      rw [offsetOf?, Array.getElem?_eq_getElem hbound]
      rfl
    rw [hentry] at hstart ⊢
    exact congrArg some hstart

theorem exists_get? {p : Program} {index : Nat} (h : index < p.size) :
    ∃ i, p.get? index = some i :=
  ⟨_, by rw [get?, Array.getElem?_eq_getElem h]; rfl⟩

namespace Laid

variable {p : Program} {words : List UInt32}

theorem groupStart_size (h : p.Laid words) : p.groupStart p.size = 4 * words.length :=
  (groupStart_of_size_le p (Nat.le_refl _)).trans h.stop

theorem groupStart_lt_succ (h : p.Laid words) {index : Nat} (hindex : index < p.size) :
    p.groupStart index < p.groupStart (index + 1) := by
  obtain ⟨i, hi⟩ := exists_get? hindex
  obtain ⟨operands, last, hgroup, -⟩ := h.spelled index i hi
  rw [h.next index hindex, hgroup, List.length_append, List.length_singleton]
  omega

/-- **Groups start in order**, and the end comes after the last one. -/
theorem groupStart_lt (h : p.Laid words) {index later : Nat} (hafter : index < later)
    (hlater : later ≤ p.size) : p.groupStart index < p.groupStart later := by
  induction later with
  | zero => omega
  | succ later ih =>
    have hnext := h.groupStart_lt_succ hlater
    by_cases heq : index = later
    · rw [heq]
      exact hnext
    · exact Nat.lt_trans (ih (by omega) (by omega)) hnext

theorem groupStart_le (h : p.Laid words) {index : Nat} (hindex : index ≤ p.size) :
    p.groupStart index ≤ 4 * words.length := by
  rw [← h.groupStart_size]
  rcases Nat.lt_or_eq_of_le hindex with hlt | rfl
  · exact Nat.le_of_lt (h.groupStart_lt hlt (Nat.le_refl _))
  · exact Nat.le_refl _

theorem groupStart_mod (h : p.Laid words) {index : Nat} (hindex : index ≤ p.size) :
    p.groupStart index % 4 = 0 := by
  induction index with
  | zero => rw [h.first]
  | succ index ih =>
    have hstart := ih (by omega)
    rw [h.next index hindex]
    omega

/-- **One more group** at the end. -/
theorem push {name : String} {entries : Array (Nat × Instruction)}
    (h : Laid ⟨name, entries, 4 * words.length⟩ words) {i : Instruction} {group : List UInt32}
    (hi : i.Spelled (4 * words.length) group) :
    Laid ⟨name, entries.push (4 * words.length, i), 4 * (words ++ group).length⟩
      (words ++ group) := by
  have hstart : ∀ index ≤ entries.size,
      groupStart ⟨name, entries.push (4 * words.length, i), 4 * (words ++ group).length⟩ index =
        groupStart ⟨name, entries, 4 * words.length⟩ index :=
    fun index hindex => groupStart_push name entries _ _ i hindex
  have hsize : groupStart ⟨name, entries, 4 * words.length⟩ entries.size = 4 * words.length :=
    h.groupStart_size
  have hend : groupStart ⟨name, entries.push (4 * words.length, i), 4 * (words ++ group).length⟩
      (entries.size + 1) = 4 * (words ++ group).length :=
    groupStart_of_size_le _ (Nat.le_of_eq (Array.size_push _))
  have hnew := group_push_size name entries i words group
  have hold : ∀ index < entries.size,
      Program.group ⟨name, entries.push (4 * words.length, i), 4 * (words ++ group).length⟩
        (words ++ group) index = Program.group ⟨name, entries, 4 * words.length⟩ words index :=
    fun index hindex => group_push_of_lt name entries _ _ i group hindex (h.groupStart_le hindex)
  refine ⟨rfl, (hstart 0 (Nat.zero_le _)).trans h.first, ?_, ?_⟩
  · intro index hindex
    rw [size, Array.size_push] at hindex
    rcases Nat.lt_succ_iff_lt_or_eq.1 hindex with hlt | rfl
    · rw [hstart _ hlt, hstart _ (Nat.le_of_lt hlt), hold index hlt]
      exact h.next index hlt
    · rw [hend, hnew, hstart _ (Nat.le_refl _), hsize, List.length_append]
      omega
  · intro index j hj
    rw [get?, Array.getElem?_push] at hj
    split at hj
    · rename_i hlast
      cases hj
      rw [hlast, hnew, hstart _ (Nat.le_refl _), hsize]
      exact hi
    · have hlt : index < entries.size := lt_size_of_get? (p := ⟨name, entries, 0⟩) hj
      rw [hold index hlt, hstart _ (Nat.le_of_lt hlt)]
      exact h.spelled index j hj

end Laid

end Program

/-! ## The pass -/

namespace Pass

/-- A pass over whole groups and then the words of one that is not yet whole. -/
structure Lays (name : String) (p : Pass) (whole opened : List UInt32) : Prop where
  laid : Program.Laid ⟨name, p.entries, 4 * whole.length⟩ whole
  start : p.groupStart = 4 * whole.length
  offset : p.offset = 4 * whole.length + 4 * opened.length
  operands : p.wide = none → OperandWords opened
  /-- The last word may be a wide push that waits for its literal. -/
  pending : p.wide ≠ none → ∃ before w, opened = before ++ [w] ∧ OperandWords before ∧
    Word.role? w = some (.push .wideLiteral)

variable {name : String} {p q : Pass} {whole opened : List UInt32} {w : UInt32}

/-- A word that adds no instruction is added to the open group. -/
theorem Lays.extend (hp : p.Lays name whole opened) (hkeeps : p.Keeps q)
    (hoffset : q.offset = p.offset + 4)
    (hoperands : q.wide = none → OperandWords (opened ++ [w]))
    (hpending : q.wide ≠ none → OperandWords opened ∧ Word.role? w = some (.push .wideLiteral)) :
    q.Lays name whole (opened ++ [w]) where
  laid := by
    rw [hkeeps.entries]
    exact hp.laid
  start := hkeeps.group.trans hp.start
  offset := by
    rw [hoffset, hp.offset, List.length_append, List.length_singleton]
    omega
  operands := hoperands
  pending hwide := ⟨opened, w, rfl, hpending hwide⟩

/-- **One word** is added to the open group, or ends it. -/
theorem Lays.feed (hp : p.Lays name whole opened) {strict : Bool} (h : p.feed strict w = .ok q) :
    q.Lays name whole (opened ++ [w]) ∨ q.Lays name (whole ++ (opened ++ [w])) [] := by
  have hoffset := (feed_advance h).offset
  cases feed_takes h with
  | literal waiting wide keeps =>
    obtain ⟨before, push, rfl, hbefore, hpush⟩ := hp.pending waiting
    refine .inl (hp.extend keeps hoffset (fun _ => ?_) fun hwide => absurd wide hwide)
    rw [List.append_assoc]
    exact .widePush hbefore hpush w
  | push role short waiting wide keeps =>
    exact .inl (hp.extend keeps hoffset (fun _ => .push (hp.operands waiting) role short)
      fun hwide => absurd wide hwide)
  | widePush role waiting wide keeps =>
    refine .inl (hp.extend keeps hoffset (fun hnone => ?_) fun _ => ⟨hp.operands waiting, role⟩)
    rw [wide] at hnone
    cases hnone
  | operator role waiting wide keeps =>
    exact .inl (hp.extend keeps hoffset (fun _ => .operator (hp.operands waiting) role)
      fun hwide => absurd wide hwide)
  | instruction i waiting wide entries group makes =>
    have hspelled : i.Spelled (4 * whole.length) (opened ++ [w]) := by
      refine ⟨opened, w, rfl, hp.operands waiting, p.stack, q.stack, ?_⟩
      rw [← hp.offset]
      exact makes
    have hend : q.offset = 4 * (whole ++ (opened ++ [w])).length := by
      rw [hoffset, hp.offset, List.length_append, List.length_append, List.length_singleton]
      omega
    refine .inr ⟨?_, group.trans hend, hend, fun _ => .none, fun hwide => absurd wide hwide⟩
    rw [entries, hp.start]
    exact hp.laid.push hspelled

/-- **All words.** -/
theorem Lays.foldlM (words : List UInt32) (hp : p.Lays name whole opened) {strict : Bool}
    (h : words.foldlM (Pass.feed strict) p = .ok q) :
    ∃ whole' opened', whole' ++ opened' = whole ++ opened ++ words ∧
      q.Lays name whole' opened' := by
  induction words generalizing p whole opened with
  | nil =>
    cases h
    exact ⟨whole, opened, (List.append_nil _).symm, hp⟩
  | cons w words ih =>
    rw [List.foldlM_cons] at h
    cases hw : p.feed strict w with
    | error e => rw [hw] at h; cases h
    | ok r =>
      rw [hw] at h
      rcases hp.feed hw with hr | hr
      · obtain ⟨whole', opened', heq, hq⟩ := ih hr h
        exact ⟨whole', opened', by simpa using heq, hq⟩
      · obtain ⟨whole', opened', heq, hq⟩ := ih hr h
        exact ⟨whole', opened', by simpa using heq, hq⟩

theorem start_lays (name : String) (limit : Nat) : (start limit).Lays name [] [] where
  laid := ⟨rfl, rfl, fun _ hindex => absurd hindex (Nat.not_lt_zero _),
    fun _ _ hi => absurd (Program.lt_size_of_get? hi) (Nat.not_lt_zero _)⟩
  start := rfl
  offset := rfl
  operands _ := .none
  pending hwide := absurd rfl hwide

end Pass

/-- **A decoded script** consists of the groups of its instructions. -/
theorem decode_laid {config : DecoderConfig} {name : String} {bytes : List UInt8}
    {program : Program} (h : decode config name bytes = .ok program) :
    program.Laid (Word.ofBytes bytes).1 ∧ bytes.length = 4 * (Word.ofBytes bytes).1.length := by
  obtain ⟨pass, hpass, hfinish, hname, hend⟩ := decode_ok h
  obtain ⟨hwide, hspare, hnodes, hentries⟩ := Pass.finish_ok hfinish
  have htidy := Pass.foldlM_tidy _ (Pass.start_tidy config.maxDepth) hpass
  obtain ⟨whole, opened, hwords, hlays⟩ := Pass.Lays.foldlM _ (Pass.start_lays name _) hpass
  -- nothing waits at the end, so the last group is whole
  have hopened : opened = [] := by
    have hgroup := htidy.group hnodes hwide
    rw [hlays.start, hlays.offset] at hgroup
    exact List.eq_nil_of_length_eq_zero (by omega)
  have hwhole : whole = (Word.ofBytes bytes).1 := by
    rw [hopened, List.append_nil] at hwords
    exact hwords
  have hbytes : bytes.length = 4 * (Word.ofBytes bytes).1.length := by
    have hlength := Word.length_ofBytes bytes
    omega
  have hprogram : program = ⟨name, pass.entries, 4 * whole.length⟩ := by
    rw [← hname, ← hentries, hwhole, ← hbytes, ← hend]
  refine ⟨?_, hbytes⟩
  rw [hprogram, ← hwhole]
  exact hlays.laid

/-! ## The map -/

namespace Program.Laid

variable {p : Program} {words : List UInt32}

theorem lt_endOffset (h : p.Laid words) {index offset : Nat}
    (hoffset : p.offsetOf? index = some offset) : offset < p.endOffset := by
  obtain ⟨hindex, rfl⟩ := offsetOf?_eq_some_iff.1 hoffset
  rw [h.stop, ← h.groupStart_size]
  exact h.groupStart_lt hindex (Nat.le_refl _)

/-- No other group starts where a group starts. -/
theorem offsetOf?_ne (h : p.Laid words) {index later offset : Nat} (hafter : index < later)
    (hoffset : p.offsetOf? index = some offset) : p.offsetOf? later ≠ some offset := by
  intro hlater
  obtain ⟨-, rfl⟩ := offsetOf?_eq_some_iff.1 hoffset
  obtain ⟨hsize, heq⟩ := offsetOf?_eq_some_iff.1 hlater
  have hlt := h.groupStart_lt hafter (Nat.le_of_lt hsize)
  omega

/-- A jump leads to a group exactly if it names its start. -/
theorem resolve?_eq_some_iff (h : p.Laid words) {target : Int} {index : Nat}
    (hindex : index < p.size) :
    p.resolve? target = some index ↔
      ∃ offset : Nat, p.offsetOf? index = some offset ∧ target = offset := by
  rw [Program.resolve?_eq_some_iff]
  constructor
  · rintro (⟨-, rfl⟩ | ⟨-, offset, htarget, hoffset, -⟩)
    · omega
    · exact ⟨offset, hoffset, htarget⟩
  · rintro ⟨offset, hoffset, rfl⟩
    have hlt := h.lt_endOffset hoffset
    exact .inr ⟨by omega, offset, rfl, hoffset, fun later hafter => h.offsetOf?_ne hafter hoffset⟩

end Program.Laid

/-- A jump leads past the last instruction exactly if it names the end of the script. -/
theorem Program.resolve?_eq_size_iff {p : Program} {target : Int} :
    p.resolve? target = some p.size ↔ target = p.endOffset := by
  rw [resolve?_eq_some_iff]
  constructor
  · rintro (⟨htarget, -⟩ | ⟨-, offset, -, hoffset, -⟩)
    · exact htarget
    · exact absurd (lt_size_of_offsetOf? hoffset) (Nat.lt_irrefl _)
  · intro htarget
    exact .inl ⟨htarget, rfl⟩

/-- **The address map of a decoded script**, whatever the settings. The script has whole words and
ends where they end. Its groups start in order, the first at the start of the script, each at a word
of it; a group has words of operands and then the word that makes its instruction, and where that
word ends the next group starts, or the script ends. A jump leads to an instruction exactly if it
names the start of its group, past the last instruction exactly if it names the end of the script,
and nowhere if it names anything else. -/
theorem address_map {config : DecoderConfig} {name : String} {bytes : List UInt8}
    {program : Program} (h : decode config name bytes = .ok program) :
    (bytes.length % 4 = 0 ∧ program.endOffset = bytes.length) ∧
    (0 < program.size → program.offsetOf? 0 = some 0) ∧
    (∀ index offset, program.offsetOf? index = some offset →
      offset % 4 = 0 ∧ offset < program.endOffset ∧
      ∀ later offset', index < later → program.offsetOf? later = some offset' → offset < offset') ∧
    (∀ index i, program.get? index = some i → ∃ offset operands last,
      program.offsetOf? index = some offset ∧
      program.group (Word.ofBytes bytes).1 index = operands ++ [last] ∧
      program.groupStart (index + 1) = offset + 4 * operands.length + 4 ∧
      OperandWords operands ∧
      ∃ stack rest, decodeInstruction (Word.ofBits last).opcode (Word.ofBits last).parameter
        (offset + 4 * operands.length) stack = (.ok i, rest)) ∧
    ∀ target : Int,
      (∀ index < program.size, program.resolve? target = some index ↔
        ∃ offset : Nat, program.offsetOf? index = some offset ∧ target = offset) ∧
      (program.resolve? target = some program.size ↔ target = program.endOffset) ∧
      (program.resolve? target = none ↔ target ≠ program.endOffset ∧
        ∀ index offset, program.offsetOf? index = some offset → target ≠ (offset : Int)) := by
  obtain ⟨hlaid, hbytes⟩ := decode_laid h
  refine ⟨⟨by omega, hlaid.stop.trans hbytes.symm⟩, ?_, ?_, ?_, ?_⟩
  · intro hpos
    exact Program.offsetOf?_eq_some_iff.2 ⟨hpos, hlaid.first⟩
  · intro index offset hoffset
    refine ⟨?_, hlaid.lt_endOffset hoffset, ?_⟩
    · obtain ⟨hindex, rfl⟩ := Program.offsetOf?_eq_some_iff.1 hoffset
      exact hlaid.groupStart_mod (Nat.le_of_lt hindex)
    · intro later offset' hafter hoffset'
      obtain ⟨-, rfl⟩ := Program.offsetOf?_eq_some_iff.1 hoffset
      obtain ⟨hlater, rfl⟩ := Program.offsetOf?_eq_some_iff.1 hoffset'
      exact hlaid.groupStart_lt hafter (Nat.le_of_lt hlater)
  · intro index i hi
    have hindex := Program.lt_size_of_get? hi
    obtain ⟨operands, last, hgroup, hoperands, hmakes⟩ := hlaid.spelled index i hi
    refine ⟨program.groupStart index, operands, last,
      Program.offsetOf?_eq_some_iff.2 ⟨hindex, rfl⟩, hgroup, ?_, hoperands, hmakes⟩
    rw [hlaid.next index hindex, hgroup, List.length_append, List.length_singleton]
    omega
  · intro target
    exact ⟨fun index hindex => hlaid.resolve?_eq_some_iff hindex, Program.resolve?_eq_size_iff,
      Program.resolve?_eq_none_iff⟩

/-- A case of lenient settings: an operand is left over by the first group and taken by the second,
whose wide literal looks like the instruction to halt and is no address. -/
theorem address_map_lenient :
    let bytes : List UInt8 :=
      [5, 0, 7, 0, 0, 0, 0, 0, 0, 0, 32, 0, 0, 0, 28, 0, 0, 0, 36, 0]
    let program : Program := ⟨"door", #[(0, .nop), (8, .message (.const 5) (.const 0x1C0000))], 20⟩
    decode ⟨64, false⟩ "door" bytes = .ok program ∧
      (∃ operands last, program.group (Word.ofBytes bytes).1 1 = operands ++ [last] ∧
        OperandWords operands) ∧
      program.resolve? 8 = some 1 ∧ program.resolve? 20 = some 2 ∧ program.resolve? 12 = none := by
  intro bytes program
  have hdecode : decode ⟨64, false⟩ "door" bytes = .ok program := by rfl
  obtain ⟨-, -, -, hgroups, hjumps⟩ := address_map hdecode
  obtain ⟨offset, operands, last, -, hgroup, -, hoperands, -⟩ := hgroups 1 _ rfl
  refine ⟨hdecode, ⟨operands, last, hgroup, hoperands⟩,
    ((hjumps 8).1 1 (by decide)).2 ⟨8, rfl, rfl⟩, (hjumps 20).2.1.2 rfl,
    (hjumps 12).2.2.2 ⟨by decide, ?_⟩⟩
  intro index offset hoffset
  match index, hoffset with
  | 0, hoffset | 1, hoffset =>
    cases hoffset
    decide
  | index + 2, hoffset => cases hoffset

end FieldEngine
