import FieldEngine.Proofs.Script.Concatenation

/-!
# Where a script is refused

A pass ends at the first word that it cannot take, and its error names that word, or the wide push
of which the word is the literal (`Pass.feed_error`). So the bytes up to the end of that word decide
the error, and those after it have no part in it. An error that is found only at the end of the
stream names no word: the stream is cut short, and the error says by how much, or operands are left
over (`Pass.finish_error`). Main statement: `decode_first_error`.
-/

namespace FieldEngine

/-- The offset of the word for which a script is refused. A script that is cut short, or that ends
with operands left over, is refused for its end. -/
def DecodeError.word? : DecodeError → Option Nat
  | unknownOpcode offset _
  | unknownOperator offset _
  | stackUnderflow offset _ _ _
  | stackImbalance offset _ _
  | stackOverflow offset _
  | invalidOperand offset _ _ => some offset
  | truncated _ _ | danglingOperands _ => none

/-! ## One word -/

theorem Opcode.tempSlot_error {o : Opcode} {parameter : Int16} {offset : Nat} {e : DecodeError}
    (h : o.tempSlot parameter offset = .error e) : e.word? = some offset := by
  unfold tempSlot at h
  split at h
  · cases h
  · cases h
    rfl

theorem Opcode.build_error {o : Opcode} {parameter : Int16} {offset : Nat} {form : Form}
    {args : Vector Expr form.arity} {e : DecodeError}
    (h : o.build parameter offset form args = .error e) : e.word? = some offset := by
  cases form with
  | popTemp | random => exact tempSlot_error (error_of_map h)
  | _ => cases h

namespace Pass

variable {p q : Pass} {w : UInt32} {e : DecodeError}

theorem push_error {tree : Expr} {offset : Nat} (h : p.push tree offset = .error e) :
    e.word? = some offset := by
  have hstack := error_of_map h
  unfold OperandStack.push at hstack
  split at hstack
  · cases hstack
  · cases hstack
    rfl

theorem feedPush_error {o : Opcode} {parameter : Int16} {kind : PushKind}
    (h : p.feedPush o parameter kind = .error e) : e.word? = some p.offset := by
  cases kind with
  | literal => exact push_error h
  | wideLiteral => cases h
  | var bank =>
    cases bank with
    | temp =>
      rw [feedPush] at h
      cases hslot : o.tempSlot parameter p.offset with
      | error e' =>
        rw [hslot] at h
        cases h
        exact Opcode.tempSlot_error hslot
      | ok slot =>
        rw [hslot] at h
        exact push_error h
    | _ => exact push_error h

theorem feedOperator_error {parameter : Int16} (h : p.feedOperator parameter = .error e) :
    e.word? = some p.offset := by
  unfold feedOperator at h
  split at h
  · cases h
    rfl
  · split at h
    · cases h
      rfl
    · exact push_error h
  · split at h
    · cases h
      rfl
    · exact push_error h

theorem feedInstruction_error {strict : Bool} {o : Opcode} {parameter : Int16} {form : Form}
    (h : p.feedInstruction strict o parameter form = .error e) : e.word? = some p.offset := by
  unfold feedInstruction Opcode.take at h
  cases hpop : p.stack.popN? form.arity with
  | none =>
    rw [hpop] at h
    cases h
    rfl
  | some taken =>
    simp only [hpop] at h
    cases hbuild : o.build parameter p.offset form taken.1 with
    | error e' =>
      rw [hbuild] at h
      cases h
      exact Opcode.build_error hbuild
    | ok i =>
      simp only [hbuild] at h
      split at h
      · cases h
        rfl
      · cases h

/-- **A word that is refused** is the one that the error names, or the literal of the wide push that
the error names. -/
theorem feed_error {strict : Bool} (h : p.feed strict w = .error e) :
    e.word? = some (p.wide.getD p.offset) := by
  unfold feed at h
  split at h
  · rename_i offset hwide
    rw [hwide]
    exact push_error h
  · rename_i hwide
    rw [hwide]
    dsimp only at h
    split at h
    · cases h
      rfl
    · split at h
      · exact feedPush_error h
      · exact feedOperator_error h
      · exact feedInstruction_error h

/-- An error at the end of the stream names no word. -/
theorem finish_error {spare : Nat} (h : p.finish spare = .error e) :
    (e = .truncated p.offset (4 - spare)) ∨ e = .danglingOperands p.stack.depth := by
  unfold finish at h
  split at h
  · cases h
    exact .inl rfl
  · split at h
    · cases h
      exact .inr rfl
    · cases h

/-! ## All words -/

/-- A wide push that waits for its literal is the word before. -/
theorem foldlM_wide (words : List UInt32) {strict : Bool} {limit offset : Nat}
    (h : words.foldlM (feed strict) (start limit) = .ok p) (hwide : p.wide = some offset) :
    offset + 4 = p.offset := by
  have hstart : ∀ offset, (start limit).wide = some offset →
      offset + 4 = (start limit).offset := nofun
  refine foldlM_ok (P := fun p => ∀ offset, p.wide = some offset → offset + 4 = p.offset)
    ?_ words hstart h offset hwide
  intro p w q _ hfeed offset hoffset
  have hnext := (feed_advance hfeed).offset
  cases feed_takes hfeed with
  | widePush role waiting wide keeps =>
    rw [wide] at hoffset
    cases hoffset
    exact hnext.symm
  | literal waiting wide | push role short waiting wide | operator role waiting wide
  | instruction i waiting wide =>
    rw [wide] at hoffset
    cases hoffset

end Pass

/-- A fold that fails does so at one element, after a fold over the ones before it. -/
theorem foldlM_error {ε α β : Type} {f : β → α → Except ε β} {e : ε} (l : List α) {b : β}
    (h : l.foldlM f b = .error e) :
    ∃ before a after c, l = before ++ a :: after ∧ before.foldlM f b = .ok c ∧
      f c a = .error e := by
  induction l generalizing b with
  | nil => cases h
  | cons a l ih =>
    rw [List.foldlM_cons] at h
    cases ha : f b a with
    | error e' =>
      rw [ha] at h
      cases h
      exact ⟨[], a, l, b, rfl, rfl, ha⟩
    | ok d =>
      rw [ha] at h
      obtain ⟨before, x, after, c, rfl, hbefore, hx⟩ := ih h
      refine ⟨a :: before, x, after, c, rfl, ?_, hx⟩
      rw [List.foldlM_cons, ha]
      exact hbefore

/-! ## Bytes -/

namespace Word

theorem spare_lt (bytes : List UInt8) : (ofBytes bytes).2 < 4 := by
  fun_induction ofBytes bytes with
  | case1 a b c d rest words spare heq ih =>
    rw [heq] at ih
    exact ih
  | case2 rest hshort =>
    rcases rest with _ | ⟨a, _ | ⟨b, _ | ⟨c, _ | ⟨d, rest⟩⟩⟩⟩
    case cons.cons.cons.cons => exact (hshort a b c d rest rfl).elim
    all_goals simp

/-- The first words of a stream are those of its first bytes. -/
theorem ofBytes_take {bytes : List UInt8} {n : Nat} (h : 4 * n ≤ bytes.length) :
    ofBytes (bytes.take (4 * n)) = ((ofBytes bytes).1.take n, 0) := by
  have hlength := length_ofBytes (bytes.take (4 * n))
  have hspare := spare_lt (bytes.take (4 * n))
  rw [List.length_take, Nat.min_eq_left h] at hlength
  have hwhole : (ofBytes (bytes.take (4 * n))).2 = 0 := by omega
  have hcount : (ofBytes (bytes.take (4 * n))).1.length = n := by omega
  have hsplit := ofBytes_append hwhole (bytes.drop (4 * n))
  rw [List.take_append_drop] at hsplit
  have hwords : (ofBytes bytes).1.take n = (ofBytes (bytes.take (4 * n))).1 := by
    rw [hsplit, List.take_left' hcount]
  rw [hwords, ← hwhole]

/-- A stream that is cut off anywhere keeps the words before the cut. -/
theorem words_take {bytes : List UInt8} {n : Nat} (h : n ≤ bytes.length) :
    (ofBytes (bytes.take n)).1 = (ofBytes bytes).1.take (n / 4) := by
  have hlength := length_ofBytes (bytes.take n)
  have hspare := spare_lt (bytes.take n)
  rw [List.length_take, Nat.min_eq_left h] at hlength
  have hcut : (bytes.take n).take (4 * (n / 4)) = bytes.take (4 * (n / 4)) := by
    rw [List.take_take, Nat.min_eq_left (by omega)]
  have hwithin : 4 * (n / 4) ≤ (bytes.take n).length := by
    rw [List.length_take]
    omega
  calc (ofBytes (bytes.take n)).1
      = (ofBytes (bytes.take n)).1.take (n / 4) := (List.take_of_length_le (by omega)).symm
    _ = (ofBytes (bytes.take (4 * (n / 4)))).1 := by rw [← hcut, ofBytes_take hwithin]
    _ = (ofBytes bytes).1.take (n / 4) := by rw [ofBytes_take (by omega)]

end Word

/-! ## Refusals -/

section Refusals

variable {config : DecoderConfig} {name : String} {bytes : List UInt8} {e : DecodeError}

/-- An error comes from a word or from the end of the stream. -/
theorem decode_error (h : decode config name bytes = .error e) :
    (Word.ofBytes bytes).1.foldlM (Pass.feed config.strict) (.start config.maxDepth) = .error e ∨
      ∃ pass, (Word.ofBytes bytes).1.foldlM (Pass.feed config.strict) (.start config.maxDepth) =
          .ok pass ∧ pass.finish (Word.ofBytes bytes).2 = .error e := by
  unfold decode at h
  cases hpass : (Word.ofBytes bytes).1.foldlM (Pass.feed config.strict)
      (.start config.maxDepth) with
  | error e' =>
    simp only [hpass] at h
    cases h
    exact .inl rfl
  | ok pass =>
    simp only [hpass] at h
    cases hfinish : pass.finish (Word.ofBytes bytes).2 with
    | error e' =>
      simp only [bind, Except.bind, hfinish] at h
      cases h
      exact .inr ⟨pass, rfl, hfinish⟩
    | ok entries =>
      simp only [bind, Except.bind, hfinish] at h
      cases h

/-- The first `n` words of a stream are taken, and the next one is refused. The error names that
word, or the wide push before it. -/
structure Refused (config : DecoderConfig) (bytes : List UInt8) (e : DecodeError) (n offset : Nat) :
    Prop where
  within : 4 * (n + 1) ≤ bytes.length
  takes : ∃ pass, ((Word.ofBytes bytes).1.take n).foldlM (Pass.feed config.strict)
    (.start config.maxDepth) = .ok pass
  refuses : ((Word.ofBytes bytes).1.take (n + 1)).foldlM (Pass.feed config.strict)
    (.start config.maxDepth) = .error e
  word : e.word? = some offset
  place : offset = 4 * n ∨ offset + 4 = 4 * n

/-- **A pass that fails** refuses one word. -/
theorem refused_of_error
    (h : (Word.ofBytes bytes).1.foldlM (Pass.feed config.strict) (.start config.maxDepth) =
      .error e) : ∃ n offset, Refused config bytes e n offset := by
  obtain ⟨before, w, after, pass, hwords, hbefore, hw⟩ := foldlM_error _ h
  have hlength := Word.length_ofBytes bytes
  rw [hwords, List.length_append, List.length_cons] at hlength
  have htidy := Pass.foldlM_tidy _ (Pass.start_tidy config.maxDepth) hbefore
  have hoffset := htidy.offset
  refine ⟨before.length, pass.wide.getD pass.offset, by omega, ⟨pass, ?_⟩, ?_,
    Pass.feed_error hw, ?_⟩
  · rw [hwords, List.take_left]
    exact hbefore
  · have htake : (before ++ w :: after).take (before.length + 1) = before ++ [w] := by
      rw [List.take_length_add_append, List.take_succ_cons, List.take_zero]
    rw [hwords, htake, List.foldlM_append, hbefore]
    show ([w].foldlM (Pass.feed config.strict) pass) = .error e
    rw [List.foldlM_cons, hw]
    rfl
  · cases hwide : pass.wide with
    | none =>
      rw [Option.getD_none]
      omega
    | some offset =>
      have hwait := Pass.foldlM_wide before hbefore hwide
      rw [Option.getD_some]
      omega

/-- The bytes after the refused word have no part in the error. -/
theorem Refused.decode_eq {n offset : Nat} (h : Refused config bytes e n offset)
    {bytes' : List UInt8} (hsame : bytes'.take (4 * (n + 1)) = bytes.take (4 * (n + 1))) :
    decode config name bytes' = .error e := by
  have hfirst := Word.ofBytes_take h.within
  have hsplit := Word.ofBytes_append (congrArg Prod.snd hfirst) (bytes'.drop (4 * (n + 1)))
  rw [← hsame, List.take_append_drop, hsame, hfirst] at hsplit
  unfold decode
  rw [hsplit]
  simp only [List.foldlM_append, h.refuses]
  rfl

/-- No stream that is cut off before the refused word is refused for a word. -/
theorem Refused.word?_of_take {n offset : Nat} (h : Refused config bytes e n offset) {m : Nat}
    (hm : m ≤ 4 * n) {e' : DecodeError} (herror : decode config name (bytes.take m) = .error e') :
    e'.word? = none := by
  have hwithin := h.within
  obtain ⟨pass, hpass⟩ := h.takes
  have htaken : ∃ pass', (Word.ofBytes (bytes.take m)).1.foldlM (Pass.feed config.strict)
      (.start config.maxDepth) = .ok pass' := by
    rw [Word.words_take (by omega)]
    have hcut : ((Word.ofBytes bytes).1.take n).take (m / 4) =
        (Word.ofBytes bytes).1.take (m / 4) := by
      rw [List.take_take, Nat.min_eq_left (by omega)]
    rw [← List.take_append_drop (m / 4) ((Word.ofBytes bytes).1.take n), hcut,
      List.foldlM_append] at hpass
    cases hfirst : ((Word.ofBytes bytes).1.take (m / 4)).foldlM (Pass.feed config.strict)
        (.start config.maxDepth) with
    | error e => rw [hfirst] at hpass; cases hpass
    | ok pass' => exact ⟨pass', rfl⟩
  obtain ⟨pass', htaken⟩ := htaken
  rcases decode_error herror with hword | ⟨last, -, hfinish⟩
  · rw [htaken] at hword
    cases hword
  · rcases Pass.finish_error hfinish with rfl | rfl
    · rfl
    · rfl

end Refusals

/-- **The first error, at the right place.** If a script is refused for a word, then the error names
a word of the script, which needs at most the word after it to be refused: every stream that agrees
with this one up to there is refused with the same error, whatever follows. And the error is the
first one: no beginning of the script that stops before that word is refused for a word. If a script
is refused for being cut short, the error names the offset of the word that is not whole, and the
number of bytes that it lacks. -/
theorem decode_first_error {config : DecoderConfig} {name : String} {bytes : List UInt8}
    {e : DecodeError} (h : decode config name bytes = .error e) :
    (∀ offset, e.word? = some offset →
      offset % 4 = 0 ∧ offset + 4 ≤ bytes.length ∧
      (∀ bytes' : List UInt8, bytes'.take (min bytes.length (offset + 8)) =
          bytes.take (min bytes.length (offset + 8)) → decode config name bytes' = .error e) ∧
      ∀ m ≤ offset, ∀ e', decode config name (bytes.take m) = .error e' → e'.word? = none) ∧
    ∀ offset needed, e = .truncated offset needed →
      offset % 4 = 0 ∧ 1 ≤ needed ∧ needed ≤ 4 ∧ offset + 4 = bytes.length + needed := by
  rcases decode_error h with hword | ⟨pass, hpass, hfinish⟩
  · obtain ⟨n, offset, hrefused⟩ := refused_of_error hword
    have hwithin := hrefused.within
    have hplace := hrefused.place
    constructor
    · intro offset' hoffset
      rw [hrefused.word] at hoffset
      cases hoffset
      refine ⟨by omega, by omega, ?_, ?_⟩
      · intro bytes' hsame
        -- the refused word ends within the bytes on which the streams agree
        have hless : 4 * (n + 1) ≤ min bytes.length (offset + 8) := by omega
        have hcut := congrArg (List.take (4 * (n + 1))) hsame
        rw [List.take_take, List.take_take, Nat.min_eq_left hless] at hcut
        exact hrefused.decode_eq hcut
      · intro m hm e' herror
        exact hrefused.word?_of_take (by omega) herror
    · rintro offset' needed rfl
      cases hrefused.word
  · have hoffset := (Pass.foldlM_tidy _ (Pass.start_tidy config.maxDepth) hpass).offset
    have hlength := Word.length_ofBytes bytes
    have hspare := Word.spare_lt bytes
    rcases Pass.finish_error hfinish with rfl | rfl
    · refine ⟨nofun, ?_⟩
      rintro offset needed ⟨rfl, rfl⟩
      omega
    · exact ⟨nofun, nofun⟩

/-- A case of a wide push onto a full stack, which is refused once its literal is there, and of the
same push without its literal. -/
theorem decode_first_error_overflow :
    let config : DecoderConfig := ⟨1, true⟩
    let push : List UInt8 := [1, 0, 7, 0, 0, 0, 32, 0]
    decode config "door" (push ++ [9, 9, 9, 9, 7]) = .error (.stackOverflow 4 1) ∧
      (∀ rest, decode config "door" (push ++ [9, 9, 9, 9] ++ rest) = .error (.stackOverflow 4 1)) ∧
      decode config "door" (push ++ [9]) = .error (.truncated 8 3) ∧
      8 + 4 = (push ++ [9]).length + 3 := by
  intro config push
  have hfull : decode config "door" (push ++ [9, 9, 9, 9, 7]) = .error (.stackOverflow 4 1) := by
    rfl
  have hshort : decode config "door" (push ++ [9]) = .error (.truncated 8 3) := by rfl
  obtain ⟨-, -, hsame, -⟩ := (decode_first_error hfull).1 4 rfl
  refine ⟨hfull, fun rest => hsame _ rfl, hshort, ?_⟩
  exact ((decode_first_error hshort).2 8 3 rfl).2.2.2

end FieldEngine
