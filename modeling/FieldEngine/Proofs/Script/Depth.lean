import Mathlib.Data.List.Induction
import FieldEngine.Proofs.Script.Operands
import FieldEngine.Proofs.Script.Reading
import FieldEngine.Proofs.Script.Refusals

/-!
# The depth of the operand stack

A pass keeps its stack within the limit at every word, and a strict one has nothing on it where a
group starts (`Pass.Disciplined`): one word keeps that up (`Disciplined.feed`), so it holds at every
word. Within the limit an operator always finds room for its tree, since it has just taken at least
one off (`feedOperator_room`). Only a push can find the stack full, and the error names that push,
also where it is noticed at the literal of a wide one (`foldlM_overflow`). Main statement:
`depth_discipline`.
-/

namespace FieldEngine

/-! ## Operators -/

/-- The tree that an operator makes of a list of operands. Nothing comes of it if their number is
wrong. -/
def Operator.join? : Operator → List Expr → Option Expr
  | .unary op, [operand] => some (.unary op operand)
  | .binary op, [left, right] => some (.binary op left right)
  | _, _ => none

theorem OperandStack.depth_popN? {s : OperandStack} {n : Nat} {args : Vector Expr n}
    {rest : OperandStack} (h : s.popN? n = some (args, rest)) : rest.depth + n = s.depth := by
  have hnodes := congrArg List.length (popN?_nodes h)
  rw [List.length_append, List.length_reverse, Vector.length_toList] at hnodes
  unfold depth
  omega

namespace Pass

variable {p q : Pass} {strict : Bool} {w : UInt32}

theorem push_room (h : p.stack.depth < p.stack.limit) (e : Expr) (offset : Nat) :
    p.push e offset =
      .ok { p with
        offset := p.offset + 4
        stack := { p.stack with nodes := e :: p.stack.nodes }
        wide := none } := by
  rw [push, OperandStack.push_ok_iff.2 ⟨h, rfl⟩]
  rfl

/-- An operator that has its operands joins them, whichever operator it is. -/
theorem feedOperator_join {parameter : Int16} {op : Operator}
    (hop : Operator.ofCode? parameter = some op) {args : Vector Expr op.arity}
    {stack : OperandStack} (hpop : p.stack.popN? op.arity = some (args, stack)) :
    ∃ tree, op.join? args.toList = some tree ∧
      p.feedOperator parameter = { p with stack }.push tree p.offset := by
  unfold feedOperator
  cases op with
  | unary op =>
    have hargs : args.toList = _ := toList_one args
    rw [hargs, hop]
    refine ⟨_, rfl, ?_⟩
    simp only [show p.stack.popN? 1 = some (args, stack) from hpop]
    rfl
  | binary op =>
    have hargs : args.toList = _ := toList_two args
    rw [hargs, hop]
    refine ⟨_, rfl, ?_⟩
    simp only [show p.stack.popN? 2 = some (args, stack) from hpop]
    rfl

/-- **An operator finds room for its tree**: it has taken at least one tree off. -/
theorem feedOperator_room {parameter : Int16} {op : Operator}
    (hdepth : p.stack.depth ≤ p.stack.limit) (hop : Operator.ofCode? parameter = some op)
    {args : Vector Expr op.arity} {stack : OperandStack}
    (hpop : p.stack.popN? op.arity = some (args, stack)) :
    ∃ tree q, op.join? args.toList = some tree ∧ p.feedOperator parameter = .ok q ∧
      q.stack = { stack with nodes := tree :: stack.nodes } := by
  obtain ⟨tree, htree, hfeed⟩ := feedOperator_join hop hpop
  have hpos : 0 < op.arity := by cases op <;> exact Nat.succ_pos _
  have hless := OperandStack.depth_popN? hpop
  have hlimit : stack.limit = p.stack.limit := popN?_limit hpop
  rw [push_room (p := { p with stack }) (by show stack.depth < stack.limit; omega)] at hfeed
  exact ⟨tree, _, htree, hfeed, rfl⟩

/-! ## One word -/

/-- A push word other than a wide one pushes a tree, or names a scratch slot that does not exist. -/
theorem feedPush_cases (p : Pass) (o : Opcode) (parameter : Int16) {kind : PushKind}
    (hkind : kind ≠ .wideLiteral) :
    (∃ tree, p.feedPush o parameter kind = p.push tree p.offset) ∨
      ∃ reason, p.feedPush o parameter kind =
        .error (.invalidOperand p.offset o.mnemonic reason) := by
  cases kind with
  | literal => exact .inl ⟨_, rfl⟩
  | wideLiteral => exact absurd rfl hkind
  | var bank =>
    cases bank with
    | temp =>
      rw [feedPush]
      rcases o.tempSlot_cases parameter p.offset with ⟨-, slot, hslot⟩ | ⟨-, reason, hslot⟩
      · rw [hslot]
        exact .inl ⟨_, rfl⟩
      · rw [hslot]
        exact .inr ⟨reason, rfl⟩
    | _ => exact .inl ⟨_, rfl⟩

/-- An operator word names an operator that has its operands, or there is an error which says that
it does not. -/
theorem feedOperator_cases (p : Pass) (parameter : Int16) :
    (∃ op args stack, Operator.ofCode? parameter = some op ∧
        p.stack.popN? op.arity = some (args, stack)) ∨
      p.feedOperator parameter = .error (.unknownOperator p.offset parameter) ∨
      ∃ op : Operator, p.feedOperator parameter =
        .error (.stackUnderflow p.offset "CAL" op.arity p.stack.depth) := by
  unfold feedOperator
  cases hop : Operator.ofCode? parameter with
  | none => exact .inr (.inl rfl)
  | some op =>
    cases hpop : p.stack.popN? op.arity with
    | some taken => exact .inl ⟨op, taken.1, taken.2, rfl, hpop⟩
    | none =>
      refine .inr (.inr ⟨op, ?_⟩)
      cases op with
      | unary op => simp only [show p.stack.popN? 1 = none from hpop]; rfl
      | binary op => simp only [show p.stack.popN? 2 = none from hpop]; rfl

theorem push_depth {e : Expr} {offset : Nat} (h : p.push e offset = .ok q) :
    q.stack.depth ≤ q.stack.limit := by
  obtain ⟨stack, hstack, rfl⟩ := map_eq_ok h
  obtain ⟨hroom, rfl⟩ := OperandStack.push_ok_iff.1 hstack
  exact hroom

theorem feedPush_depth (hp : p.stack.depth ≤ p.stack.limit) {o : Opcode} {parameter : Int16}
    {kind : PushKind} (h : p.feedPush o parameter kind = .ok q) :
    q.stack.depth ≤ q.stack.limit := by
  by_cases hkind : kind = .wideLiteral
  · subst hkind
    cases h
    exact hp
  · rcases p.feedPush_cases o parameter hkind with ⟨tree, htree⟩ | ⟨reason, hreason⟩
    · exact push_depth (htree.symm.trans h)
    · cases hreason.symm.trans h

theorem feedOperator_depth {parameter : Int16} (h : p.feedOperator parameter = .ok q) :
    q.stack.depth ≤ q.stack.limit := by
  rcases p.feedOperator_cases parameter with ⟨op, args, stack, hop, hpop⟩ | herror | ⟨op, herror⟩
  · obtain ⟨tree, -, hfeed⟩ := feedOperator_join hop hpop
    exact push_depth (hfeed.symm.trans h)
  · cases herror.symm.trans h
  · cases herror.symm.trans h

theorem feedInstruction_depth (hp : p.stack.depth ≤ p.stack.limit) {o : Opcode}
    {parameter : Int16} {form : Form} (h : p.feedInstruction strict o parameter form = .ok q) :
    q.stack.depth ≤ q.stack.limit := by
  unfold feedInstruction at h
  rcases htake : o.take form parameter p.offset p.stack with ⟨r, stack⟩
  rw [htake] at h
  cases r with
  | error e => cases h
  | ok i =>
    obtain ⟨args, hpop, -⟩ := Opcode.take_ok htake
    have hless := OperandStack.depth_popN? hpop
    have hlimit : stack.limit = p.stack.limit := popN?_limit hpop
    dsimp only at h
    split at h
    · cases h
    · cases h
      show stack.depth ≤ stack.limit
      omega

theorem feed_depth (hp : p.stack.depth ≤ p.stack.limit) (h : p.feed strict w = .ok q) :
    q.stack.depth ≤ q.stack.limit := by
  unfold feed at h
  split at h
  · exact push_depth h
  · dsimp only at h
    split at h
    · cases h
    · split at h
      · exact feedPush_depth hp h
      · exact feedOperator_depth h
      · exact feedInstruction_depth hp h

/-! ## Overflow -/

theorem push_overflow {e : Expr} {offset offset' limit : Nat}
    (h : p.push e offset = .error (.stackOverflow offset' limit)) :
    offset' = offset ∧ limit = p.stack.limit ∧ p.stack.limit ≤ p.stack.depth := by
  have hstack := error_of_map h
  unfold OperandStack.push at hstack
  split at hstack
  · cases hstack
  · rename_i hfull
    cases hstack
    exact ⟨rfl, rfl, Nat.le_of_not_lt hfull⟩

theorem feedOperator_ne_overflow (hp : p.stack.depth ≤ p.stack.limit) (parameter : Int16)
    (offset limit : Nat) : p.feedOperator parameter ≠ .error (.stackOverflow offset limit) := by
  intro h
  rcases p.feedOperator_cases parameter with ⟨op, args, stack, hop, hpop⟩ | herror | ⟨op, herror⟩
  · obtain ⟨tree, q, -, hfeed, -⟩ := feedOperator_room hp hop hpop
    cases hfeed.symm.trans h
  · cases herror.symm.trans h
  · cases herror.symm.trans h

theorem feedInstruction_ne_overflow {o : Opcode} {form : Form} (hrole : o.role = .instruction form)
    (parameter : Int16) (offset limit : Nat) :
    p.feedInstruction strict o parameter form ≠ .error (.stackOverflow offset limit) := by
  intro h
  unfold feedInstruction Opcode.take at h
  cases hpop : p.stack.popN? form.arity with
  | none => rw [hpop] at h; cases h
  | some taken =>
    simp only [hpop] at h
    rcases Opcode.build_cases hrole parameter p.offset taken.1 with ⟨-, i, hi⟩ |
      ⟨-, reason, hinvalid⟩
    · simp only [hi] at h
      split at h <;> cases h
    · simp only [hinvalid] at h
      cases h

/-- **A word for which the stack is full** is a push, or the literal of a wide push, and the error
names the push. -/
theorem feed_overflow (hp : p.stack.depth ≤ p.stack.limit) {offset limit : Nat}
    (h : p.feed strict w = .error (.stackOverflow offset limit)) :
    offset = p.wide.getD p.offset ∧ limit = p.stack.limit ∧ p.stack.depth = p.stack.limit ∧
      (p.wide = none → ∃ kind, Word.role? w = some (.push kind)) := by
  unfold feed at h
  split at h
  · rename_i start hwide
    obtain ⟨hoffset, hlimit, hfull⟩ := push_overflow h
    rw [hwide]
    exact ⟨hoffset, hlimit, by omega, nofun⟩
  · rename_i hwide
    dsimp only at h
    split at h
    · cases h
    · rename_i o ho
      split at h
      · rename_i kind hrole
        have hpush : Word.role? w = some (.push kind) := by rw [Word.role?, ho, ← hrole]; rfl
        by_cases hkind : kind = .wideLiteral
        · subst hkind
          cases h
        · rcases p.feedPush_cases o (Word.ofBits w).parameter hkind with ⟨tree, htree⟩ |
            ⟨reason, hreason⟩
          · obtain ⟨hoffset, hlimit, hfull⟩ := push_overflow (htree.symm.trans h)
            rw [hwide]
            exact ⟨hoffset, hlimit, by omega, fun _ => ⟨kind, hpush⟩⟩
          · cases hreason.symm.trans h
      · exact absurd h (feedOperator_ne_overflow hp _ _ _)
      · rename_i form hrole
        exact absurd h (feedInstruction_ne_overflow hrole _ _ _)

/-! ## All words -/

/-- What holds at every word: the stack is within the limit, and empty at the start of a group if
the pass is strict. -/
structure Disciplined (config : DecoderConfig) (p : Pass) : Prop where
  limit : p.stack.limit = config.maxDepth
  depth : p.stack.depth ≤ config.maxDepth
  group : p.groupStart ≤ p.offset
  empty : config.strict = true → p.groupStart = p.offset → p.stack.nodes = []

theorem start_disciplined (config : DecoderConfig) : (start config.maxDepth).Disciplined config :=
  ⟨rfl, Nat.zero_le _, Nat.le_refl _, fun _ _ => rfl⟩

variable {config : DecoderConfig}

/-- **One word** keeps up the discipline. -/
theorem Disciplined.feed (hp : p.Disciplined config) (h : p.feed config.strict w = .ok q) :
    q.Disciplined config := by
  have hadvance := feed_advance h
  have hoffset := hadvance.offset
  have hgroup := hp.group
  have hlimit := hadvance.limit.trans hp.limit
  have hdepth := feed_depth (by rw [hp.limit]; exact hp.depth) h
  rw [hlimit] at hdepth
  refine ⟨hlimit, hdepth, ?_, ?_⟩
  · cases feed_takes h with
    | literal _ _ keeps | push _ _ _ _ keeps | widePush _ _ _ keeps | operator _ _ _ keeps =>
      rw [keeps.group]
      omega
    | instruction i _ _ _ group => exact Nat.le_of_eq group
  · intro hstrict hstart
    rw [hstrict] at h
    cases feed_reads h with
    | operand _ group =>
      -- a word of operands stands after the start of its group
      rw [group] at hstart
      omega
    | instruction i _ _ _ _ rest => exact rest

/-- **All words.** -/
theorem foldlM_disciplined {words : List UInt32}
    (h : words.foldlM (Pass.feed config.strict) (start config.maxDepth) = .ok p) :
    p.Disciplined config :=
  foldlM_ok (fun _ _ _ hp hfeed => hp.feed hfeed) words (start_disciplined config) h

/-- The last word of a pass. -/
theorem foldlM_concat {words : List UInt32}
    (h : (words ++ [w]).foldlM (Pass.feed config.strict) (start config.maxDepth) = .ok q) :
    ∃ p, words.foldlM (Pass.feed config.strict) (start config.maxDepth) = .ok p ∧
      p.feed config.strict w = .ok q := by
  rw [List.foldlM_append] at h
  cases hp : words.foldlM (Pass.feed config.strict) (start config.maxDepth) with
  | error e => rw [hp] at h; cases h
  | ok p =>
    rw [hp] at h
    refine ⟨p, rfl, ?_⟩
    have hlast : ([w].foldlM (Pass.feed config.strict) p) = .ok q := h
    rw [List.foldlM_cons] at hlast
    cases hw : p.feed config.strict w with
    | error e => rw [hw] at hlast; cases hlast
    | ok t =>
      rw [hw] at hlast
      exact hlast

theorem feed_widePush (hwide : p.wide = none) (hrole : Word.role? w = some (.push .wideLiteral)) :
    p.feed strict w = .ok { p with offset := p.offset + 4, wide := some p.offset } := by
  obtain ⟨o, ho, hrole⟩ := Option.map_eq_some_iff.1 hrole
  simp only [feed, hwide, ho, hrole]
  rfl

/-- A wide push that waits for its literal is the last word, and the stack is as it was before
it. -/
theorem foldlM_pending {words : List UInt32} {place : Nat}
    (h : words.foldlM (Pass.feed config.strict) (start config.maxDepth) = .ok q)
    (hplace : q.wide = some place) :
    ∃ before w p, words = before ++ [w] ∧
      before.foldlM (Pass.feed config.strict) (start config.maxDepth) = .ok p ∧ p.wide = none ∧
      Word.role? w = some (.push .wideLiteral) ∧ p.offset = place ∧ q.stack = p.stack := by
  rcases List.eq_nil_or_concat words with rfl | ⟨before, w, rfl⟩
  · cases h
    cases hplace
  · rw [List.concat_eq_append] at h ⊢
    obtain ⟨p, hp, hw⟩ := foldlM_concat h
    cases feed_takes hw with
    | widePush role waiting wide keeps =>
      rw [feed_widePush waiting role] at hw
      cases hw
      cases hplace
      exact ⟨before, w, p, rfl, hp, waiting, role, rfl, rfl⟩
    | literal _ wide | push _ _ _ wide | operator _ _ wide | instruction _ _ wide =>
      cases wide.symm.trans hplace

/-- **An overflow** is that of a push word on a full stack. -/
theorem foldlM_overflow {words : List UInt32} {offset limit : Nat}
    (h : words.foldlM (Pass.feed config.strict) (start config.maxDepth) =
      .error (.stackOverflow offset limit)) :
    limit = config.maxDepth ∧ ∃ before w after p kind, words = before ++ w :: after ∧
      before.foldlM (Pass.feed config.strict) (start config.maxDepth) = .ok p ∧ p.wide = none ∧
      p.offset = offset ∧ p.stack.depth = config.maxDepth ∧ Word.role? w = some (.push kind) := by
  obtain ⟨before, w, after, p, rfl, hp, hw⟩ := foldlM_error _ h
  have hdiscipline := foldlM_disciplined hp
  have hlimit := hdiscipline.limit
  obtain ⟨hoffset, hfull, hdepth, hrole⟩ :=
    feed_overflow (by rw [hlimit]; exact hdiscipline.depth) hw
  refine ⟨hfull.trans hlimit, ?_⟩
  cases hwide : p.wide with
  | none =>
    obtain ⟨kind, hkind⟩ := hrole hwide
    rw [hwide] at hoffset
    exact ⟨before, w, after, p, kind, rfl, hp, hwide, hoffset.symm, hdepth.trans hlimit, hkind⟩
  | some place =>
    -- the word is a literal, and the push stands before it
    obtain ⟨earlier, push, q, rfl, hq, hnone, hrole, hplace, hstack⟩ := foldlM_pending hp hwide
    rw [hwide] at hoffset
    refine ⟨earlier, push, w :: after, q, .wideLiteral, by simp, hq, hnone,
      hplace.trans hoffset.symm, ?_, hrole⟩
    rw [← hstack]
    exact hdepth.trans hlimit

/-- The groups that a pass has found, and the one that it is in, start where a pass over fewer words
had come to the start of a group. -/
theorem foldlM_groups {words : List UInt32}
    (h : words.foldlM (Pass.feed config.strict) (start config.maxDepth) = .ok q) {offset : Nat}
    (hoffset : offset = q.groupStart ∨ ∃ i, (offset, i) ∈ q.entries) :
    ∃ before after p, words = before ++ after ∧
      before.foldlM (Pass.feed config.strict) (start config.maxDepth) = .ok p ∧
      p.offset = offset ∧ p.groupStart = offset := by
  induction words using List.reverseRecOn generalizing q offset with
  | nil =>
    cases h
    rcases hoffset with rfl | ⟨i, hi⟩
    · exact ⟨[], [], _, rfl, rfl, rfl, rfl⟩
    · simp [start] at hi
  | append_singleton words w ih =>
    obtain ⟨p, hp, hw⟩ := foldlM_concat h
    have hearlier : offset = p.groupStart ∨ (∃ i, (offset, i) ∈ p.entries) →
        ∃ before after t, words ++ [w] = before ++ after ∧
          before.foldlM (Pass.feed config.strict) (start config.maxDepth) = .ok t ∧
          t.offset = offset ∧ t.groupStart = offset := by
      intro hold
      obtain ⟨before, after, t, rfl, ht⟩ := ih hp hold
      exact ⟨before, after ++ [w], t, List.append_assoc _ _ _, ht⟩
    cases feed_takes hw with
    | literal _ _ keeps | push _ _ _ _ keeps | widePush _ _ _ keeps | operator _ _ _ keeps =>
      rw [keeps.group, keeps.entries] at hoffset
      exact hearlier hoffset
    | instruction i _ _ entries group =>
      rcases hoffset with rfl | ⟨j, hj⟩
      · exact ⟨words ++ [w], [], q, (List.append_nil _).symm, h, group.symm, rfl⟩
      · rw [entries, Array.mem_push] at hj
        rcases hj with hj | hj
        · exact hearlier (.inr ⟨j, hj⟩)
        · exact hearlier (.inl (Prod.mk.inj hj).1)

end Pass

/-- **The depth of the stack is kept in check**, whatever the bytes and the settings. Before every
word the stack has at most as many trees as the settings allow, and a strict pass has none where a
group starts; in particular there is none before the first word of each group of a decoded script.
Decoding is a loop, each iteration of which reads at least four bytes, so there are at most as many
iterations as the script has words. An operator word never finds the stack full; if it finds its
operands, it makes a tree of them, and there is room for it. An overflow names the configured limit
and the offset of a push word, and comes of a stack that is full there. -/
theorem depth_discipline (config : DecoderConfig) (name : String) (bytes : List UInt8) :
    (∀ before after p, (Word.ofBytes bytes).1 = before ++ after →
      before.foldlM (Pass.feed config.strict) (.start config.maxDepth) = .ok p →
      p.stack.depth ≤ config.maxDepth ∧
      (config.strict = true → p.groupStart = p.offset → p.stack.nodes = []) ∧
      (∀ parameter offset limit,
        p.feedOperator parameter ≠ .error (.stackOverflow offset limit)) ∧
      ∀ parameter op args stack, Operator.ofCode? parameter = some op →
        p.stack.popN? op.arity = some (args, stack) →
        ∃ tree q, op.join? args.toList = some tree ∧ p.feedOperator parameter = .ok q ∧
          q.stack = { stack with nodes := tree :: stack.nodes }) ∧
    (∀ program, decode config name bytes = .ok program → config.strict = true →
      ∀ index offset, program.offsetOf? index = some offset →
      ∃ before after p, (Word.ofBytes bytes).1 = before ++ after ∧ offset = 4 * before.length ∧
        before.foldlM (Pass.feed config.strict) (.start config.maxDepth) = .ok p ∧
        p.stack.nodes = []) ∧
    (decode config name bytes =
        (Pass.loop config.strict (.start config.maxDepth) (.ofBytes bytes)).bind
          (·.settle name bytes.length) ∧
      (∀ p r q r', Pass.iterate config.strict p r = .ok (some (q, r')) → r'.left + 4 ≤ r.left) ∧
      ∀ n p r, Pass.Iterates config.strict n (.start config.maxDepth) (.ofBytes bytes) p r →
        4 * n + r.left ≤ bytes.length) ∧
    ∀ offset limit, decode config name bytes = .error (.stackOverflow offset limit) →
      limit = config.maxDepth ∧
      ∃ before w after p kind, (Word.ofBytes bytes).1 = before ++ w :: after ∧
        offset = 4 * before.length ∧
        before.foldlM (Pass.feed config.strict) (.start config.maxDepth) = .ok p ∧
        p.wide = none ∧ p.stack.depth = config.maxDepth ∧ Word.role? w = some (.push kind) := by
  refine ⟨?_, ?_, ⟨decode_eq_loop config name bytes, ?_, ?_⟩, ?_⟩
  · intro before after p _ hp
    have hdiscipline := Pass.foldlM_disciplined hp
    have hdepth : p.stack.depth ≤ p.stack.limit := by
      rw [hdiscipline.limit]
      exact hdiscipline.depth
    exact ⟨hdiscipline.depth, hdiscipline.empty, Pass.feedOperator_ne_overflow hdepth,
      fun parameter op args stack hop hpop => Pass.feedOperator_room hdepth hop hpop⟩
  · intro program hdecode hstrict index offset hoffset
    obtain ⟨pass, hpass, hfinish, -, -⟩ := decode_ok hdecode
    obtain ⟨-, -, -, hentries⟩ := Pass.finish_ok hfinish
    obtain ⟨entry, hentry, rfl⟩ := Option.map_eq_some_iff.1 hoffset
    rw [hentries] at hentry
    obtain ⟨before, after, p, hwords, hp, hstart, hgroup⟩ :=
      Pass.foldlM_groups hpass (.inr ⟨entry.2, Array.mem_of_getElem? hentry⟩)
    have hplace := (Pass.foldlM_tidy before (Pass.start_tidy config.maxDepth) hp).offset
    exact ⟨before, after, p, hwords, by omega, hp,
      (Pass.foldlM_disciplined hp).empty hstrict (hgroup.trans hstart.symm)⟩
  · intro p r q r' h
    have hleft := Pass.iterate_left h
    omega
  · intro n p r h
    rw [← Reader.left_ofBytes bytes]
    exact h.left
  · intro offset limit h
    rcases decode_error h with hword | ⟨pass, -, hfinish⟩
    · obtain ⟨hlimit, before, w, after, p, kind, hwords, hp, hwide, hoffset, hdepth, hrole⟩ :=
        Pass.foldlM_overflow hword
      have hplace := (Pass.foldlM_tidy before (Pass.start_tidy config.maxDepth) hp).offset
      exact ⟨hlimit, before, w, after, p, kind, hwords, by omega, hp, hwide, hdepth, hrole⟩
    · rcases Pass.finish_error hfinish with he | he <;> cases he

/-- Room for one tree: an operator that stands on a full stack is taken, and a group later a wide
push overflows, which is noticed at its literal. -/
theorem depth_discipline_full :
    let config : DecoderConfig := ⟨1, true⟩
    let bytes : List UInt8 :=
      [5, 0, 7, 0, 5, 0, 1, 0, 0, 0, 35, 0, 1, 0, 7, 0, 0, 0, 32, 0, 9, 9, 9, 9]
    let p : Pass := ⟨4, ⟨1, [.const 5]⟩, 0, #[], none⟩
    decode config "door" bytes = .error (.stackOverflow 16 1) ∧
      (∃ before w after kind, (Word.ofBytes bytes).1 = before ++ w :: after ∧
        16 = 4 * before.length ∧ Word.role? w = some (.push kind)) ∧
      [0x70005].foldlM (Pass.feed config.strict) (.start config.maxDepth) = .ok p ∧
      p.stack.depth ≤ 1 ∧
      ∃ tree q, Operator.join? (.unary .neg) [.const 5] = some tree ∧
        p.feedOperator 5 = .ok q ∧ q.stack.nodes = [tree] := by
  intro config bytes p
  have hdecode : decode config "door" bytes = .error (.stackOverflow 16 1) := by rfl
  have hp : [0x70005].foldlM (Pass.feed config.strict) (.start config.maxDepth) = .ok p := by rfl
  obtain ⟨hwords, -, -, hoverflow⟩ := depth_discipline config "door" bytes
  obtain ⟨-, before, w, after, -, kind, hsplit, hoffset, -, -, -, hrole⟩ := hoverflow 16 1 hdecode
  obtain ⟨hdepth, -, -, hoperator⟩ := hwords [0x70005] _ p rfl hp
  obtain ⟨tree, q, hjoin, hfeed, hstack⟩ := hoperator 5 (.unary .neg) #v[.const 5] ⟨1, []⟩ rfl rfl
  exact ⟨hdecode, ⟨before, w, after, kind, hsplit, hoffset, hrole⟩, hp, hdepth, tree, q, hjoin,
    hfeed, congrArg OperandStack.nodes hstack⟩

end FieldEngine
