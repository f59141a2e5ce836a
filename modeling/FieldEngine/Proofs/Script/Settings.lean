import FieldEngine.Script.Decoder

/-!
# Decoder settings

Settings decide whether a script is decoded, never what it is decoded to. More generous settings, of
a higher depth limit or less strict, give the same program or the same error, unless the other ones
refuse the script for the very thing in which they are less generous:

    c.Tighter c' → (∃ e, decode c name bytes = .error e ∧ e.Blames c c') ∨
      decode c name bytes = decode c' name bytes                            (decode_generous)

So two settings that both accept a script decode it to the same program (`decode_agree`).
-/

namespace FieldEngine

/-- The first settings are nowhere more generous than the others. -/
structure DecoderConfig.Tighter (c c' : DecoderConfig) : Prop where
  maxDepth : c.maxDepth ≤ c'.maxDepth
  strict : c'.strict = true → c.strict = true

/-- An error that the first settings give for being less generous than the others. -/
def DecodeError.Blames (c c' : DecoderConfig) : DecodeError → Prop
  | .stackOverflow _ limit => limit = c.maxDepth ∧ c.maxDepth < c'.maxDepth
  | .stackImbalance _ _ _ => c.strict = true ∧ c'.strict = false
  | _ => False

namespace Pass

def withLimit (p : Pass) (limit : Nat) : Pass :=
  { p with stack := { p.stack with limit } }

/-- What a pass comes to with settings `c`, beside what it comes to with `c'`. -/
inductive Eased (c c' : DecoderConfig) : Except DecodeError Pass → Except DecodeError Pass → Prop
  | refused {e : DecodeError} {y : Except DecodeError Pass} (h : e.Blames c c') :
      Eased c c' (.error e) y
  | failed (e : DecodeError) : Eased c c' (.error e) (.error e)
  | passed {p : Pass} (h : p.stack.limit = c.maxDepth) :
      Eased c c' (.ok p) (.ok (p.withLimit c'.maxDepth))

variable {c c' : DecoderConfig}

/-! ## One word -/

theorem push_eased (hc : c.Tighter c') {p : Pass} (hp : p.stack.limit = c.maxDepth) (e : Expr)
    (offset : Nat) :
    Eased c c' (p.push e offset) ((p.withLimit c'.maxDepth).push e offset) := by
  unfold push OperandStack.push withLimit
  have hdepth : OperandStack.depth ⟨c'.maxDepth, p.stack.nodes⟩ = p.stack.depth := rfl
  have hle := hc.maxDepth
  rw [hdepth, hp]
  by_cases hfull : p.stack.depth < c.maxDepth
  · rw [if_pos hfull, if_pos (Nat.lt_of_lt_of_le hfull hle)]
    exact .passed rfl
  · rw [if_neg hfull]
    by_cases heq : c.maxDepth = c'.maxDepth
    · rw [← heq, if_neg hfull]
      exact .failed _
    · have hlt : c.maxDepth < c'.maxDepth := by omega
      exact .refused ⟨rfl, hlt⟩

theorem feedPush_eased (hc : c.Tighter c') {p : Pass} (hp : p.stack.limit = c.maxDepth)
    (o : Opcode) (parameter : Int16) (kind : PushKind) :
    Eased c c' (p.feedPush o parameter kind)
      ((p.withLimit c'.maxDepth).feedPush o parameter kind) := by
  cases kind with
  | literal => exact push_eased hc hp _ _
  | wideLiteral => exact .passed hp
  | var bank =>
    cases bank with
    | temp =>
      unfold feedPush
      have hoffset : (p.withLimit c'.maxDepth).offset = p.offset := rfl
      rw [hoffset]
      cases o.tempSlot parameter p.offset with
      | error e => exact .failed e
      | ok slot => exact push_eased hc hp _ _
    | _ => exact push_eased hc hp _ _

/-- The operands on the stack do not depend on its limit. -/
theorem popN?_withLimit (p : Pass) (limit n : Nat) :
    (p.withLimit limit).stack.popN? n =
      (p.stack.popN? n).map fun e => (e.1, { e.2 with limit }) := by
  unfold OperandStack.popN? withLimit
  split <;> rfl

theorem popN?_limit {s : OperandStack} {n : Nat} {taken : Vector Expr n × OperandStack}
    (h : s.popN? n = some taken) : taken.2.limit = s.limit := by
  unfold OperandStack.popN? at h
  split at h
  · cases h
    rfl
  · cases h

theorem feedOperator_eased (hc : c.Tighter c') {p : Pass} (hp : p.stack.limit = c.maxDepth)
    (parameter : Int16) :
    Eased c c' (p.feedOperator parameter) ((p.withLimit c'.maxDepth).feedOperator parameter) := by
  unfold feedOperator
  cases Operator.ofCode? parameter with
  | none => exact .failed _
  | some op =>
    cases op with
    | unary op =>
      simp only [popN?_withLimit]
      cases hpop : p.stack.popN? 1 with
      | none => exact .failed _
      | some taken =>
        have hlimit : taken.2.limit = c.maxDepth := (popN?_limit hpop).trans hp
        exact push_eased (p := { p with stack := taken.2 }) hc hlimit _ _
    | binary op =>
      simp only [popN?_withLimit]
      cases hpop : p.stack.popN? 2 with
      | none => exact .failed _
      | some taken =>
        have hlimit : taken.2.limit = c.maxDepth := (popN?_limit hpop).trans hp
        exact push_eased (p := { p with stack := taken.2 }) hc hlimit _ _

theorem feedInstruction_eased (hc : c.Tighter c') {p : Pass} (hp : p.stack.limit = c.maxDepth)
    (o : Opcode) (parameter : Int16) (form : Form) :
    Eased c c' (p.feedInstruction c.strict o parameter form)
      ((p.withLimit c'.maxDepth).feedInstruction c'.strict o parameter form) := by
  unfold feedInstruction Opcode.take
  rw [popN?_withLimit]
  cases hpop : p.stack.popN? form.arity with
  | none => exact .failed _
  | some taken =>
    have hlimit : taken.2.limit = c.maxDepth := (popN?_limit hpop).trans hp
    obtain ⟨args, stack⟩ := taken
    have hoffset : (p.withLimit c'.maxDepth).offset = p.offset := rfl
    simp only [Option.map_some, hoffset]
    cases o.build parameter p.offset form args with
    | error e => exact .failed e
    | ok instruction =>
      have hdepth : OperandStack.depth { stack with limit := c'.maxDepth } = stack.depth := rfl
      simp only [hdepth]
      by_cases hleft : stack.depth = 0
      · rw [if_neg (by simp [hleft]), if_neg (by simp [hleft])]
        exact .passed hlimit
      · cases hstrict : c.strict with
        | false =>
          have hstrict' : c'.strict = false := by
            cases h : c'.strict with
            | false => rfl
            | true => exact absurd (hc.strict h) (by simp [hstrict])
          rw [hstrict', if_neg (by simp), if_neg (by simp)]
          exact .passed hlimit
        | true =>
          rw [if_pos (by simp [hleft])]
          cases hstrict' : c'.strict with
          | false => exact .refused ⟨hstrict, hstrict'⟩
          | true =>
            rw [if_pos (by simp [hleft])]
            exact .failed _

/-- **One word.** -/
theorem feed_eased (hc : c.Tighter c') {p : Pass} (hp : p.stack.limit = c.maxDepth) (w : UInt32) :
    Eased c c' (p.feed c.strict w) ((p.withLimit c'.maxDepth).feed c'.strict w) := by
  unfold feed
  have hwide : (p.withLimit c'.maxDepth).wide = p.wide := rfl
  rw [hwide]
  cases p.wide with
  | some offset => exact push_eased hc hp _ _
  | none =>
    dsimp only
    cases Opcode.ofCode? (Word.ofBits w).opcode with
    | none => exact .failed _
    | some o =>
      dsimp only
      cases o.role with
      | push kind => exact feedPush_eased hc hp o _ kind
      | operator => exact feedOperator_eased hc hp _
      | instruction form => exact feedInstruction_eased hc hp o _ form

/-! ## All words -/

theorem foldlM_eased (hc : c.Tighter c') (words : List UInt32) {p : Pass}
    (hp : p.stack.limit = c.maxDepth) :
    Eased c c' (words.foldlM (feed c.strict) p)
      (words.foldlM (feed c'.strict) (p.withLimit c'.maxDepth)) := by
  induction words generalizing p with
  | nil => exact .passed hp
  | cons w words ih =>
    have hw := feed_eased hc hp w
    rw [List.foldlM_cons, List.foldlM_cons]
    generalize p.feed c.strict w = x at hw
    generalize (p.withLimit c'.maxDepth).feed c'.strict w = y at hw
    cases hw with
    | refused h => exact .refused h
    | failed e => exact .failed e
    | passed h => exact ih h

end Pass

/-- **More generous settings** change the outcome only where the others refuse the script for what
they are less generous in. -/
theorem decode_generous {c c' : DecoderConfig} (hc : c.Tighter c') (name : String)
    (bytes : List UInt8) :
    (∃ e, decode c name bytes = .error e ∧ e.Blames c c') ∨
      decode c name bytes = decode c' name bytes := by
  have hpass := Pass.foldlM_eased hc (Word.ofBytes bytes).1 (p := .start c.maxDepth) rfl
  have hstart : (Pass.start c.maxDepth).withLimit c'.maxDepth = .start c'.maxDepth := rfl
  rw [hstart] at hpass
  unfold decode
  dsimp only
  generalize (Word.ofBytes bytes).1.foldlM (Pass.feed c.strict) (.start c.maxDepth) = x at hpass
  generalize (Word.ofBytes bytes).1.foldlM (Pass.feed c'.strict) (.start c'.maxDepth) = y at hpass
  cases hpass with
  | refused h => exact .inl ⟨_, rfl, h⟩
  | failed e => exact .inr rfl
  | passed h => exact .inr rfl

/-- **Settings that accept a script agree on it.** -/
theorem decode_agree {c c' : DecoderConfig} {name : String} {bytes : List UInt8}
    {program program' : Program} (h : decode c name bytes = .ok program)
    (h' : decode c' name bytes = .ok program') : program = program' := by
  -- both agree with settings that are at least as generous as either
  have hmost : ∀ {d : DecoderConfig} {p : Program}, decode d name bytes = .ok p →
      d.maxDepth ≤ max c.maxDepth c'.maxDepth →
      decode ⟨max c.maxDepth c'.maxDepth, false⟩ name bytes = .ok p := by
    intro d p hd hle
    have hmore : d.Tighter ⟨max c.maxDepth c'.maxDepth, false⟩ := ⟨hle, by simp⟩
    rcases decode_generous hmore name bytes with ⟨e, he, -⟩ | heq
    · rw [hd] at he
      cases he
    · rw [← heq]
      exact hd
  have hboth := (hmost h (Nat.le_max_left _ _)).symm.trans (hmost h' (Nat.le_max_right _ _))
  exact Except.ok.inj hboth

end FieldEngine
