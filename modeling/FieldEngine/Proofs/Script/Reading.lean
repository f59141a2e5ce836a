import FieldEngine.Proofs.Script.Concatenation

/-!
# Decoding as a loop over a reader

`decode` is a fold over all words of a script. Here it is as a loop that reads from a `Reader`: one
iteration reads a word and, if that is a wide push, at once its literal. An iteration that goes on
has read four bytes or eight (`Pass.iterate_left`), so the loop ends. The two come to the same,
errors included:

    decode config name bytes =
      (loop config.strict (.start config.maxDepth) (.ofBytes bytes)).bind
        (·.settle name bytes.length)                                            (decode_eq_loop)
-/

namespace FieldEngine

namespace Reader

def left (r : Reader) : Nat :=
  4 * r.words.length + r.spare

theorem left_ofBytes (bytes : List UInt8) : (ofBytes bytes).left = bytes.length :=
  Word.length_ofBytes bytes

end Reader

namespace Pass

/-! ## One iteration -/

/-- Read a word and take it, and its literal too if it is a wide push. At the end of the stream
there is nothing to be done. -/
def iterate (strict : Bool) (p : Pass) (r : Reader) :
    Except DecodeError (Option (Pass × Reader)) := do
  match ← r.next? with
  | none => .ok none
  | some (w, r) =>
    let p ← p.feed strict w
    if p.wide.isSome then
      let (literal, r) ← r.expect
      let p ← p.feed strict literal
      .ok (some (p, r))
    else
      .ok (some (p, r))

section Iterate

variable (strict : Bool) (p : Pass) (offset spare : Nat) (w : UInt32) (words : List UInt32)

theorem iterate_nil : p.iterate strict ⟨offset, [], spare⟩ =
    if spare = 0 then .ok none else .error (.truncated offset (4 - spare)) := by
  show (if spare = 0 then Except.ok none else Except.error _).bind _ = _
  by_cases hspare : spare = 0
  · rw [if_pos hspare, if_pos hspare]
    rfl
  · rw [if_neg hspare, if_neg hspare]
    rfl

theorem expect_nil :
    Reader.expect ⟨offset, [], spare⟩ = .error (.truncated offset (4 - spare)) := by
  show (if spare = 0 then Except.ok none else Except.error _).bind _ = _
  by_cases hspare : spare = 0
  · rw [if_pos hspare]
    rfl
  · rw [if_neg hspare]
    rfl

theorem iterate_cons_error {e : DecodeError} (h : p.feed strict w = .error e) :
    p.iterate strict ⟨offset, w :: words, spare⟩ = .error e := by
  show (p.feed strict w).bind _ = _
  rw [h]
  rfl

variable {q : Pass} (h : p.feed strict w = .ok q)

include h

theorem iterate_cons_short (hwide : q.wide = none) :
    p.iterate strict ⟨offset, w :: words, spare⟩ = .ok (some (q, ⟨offset + 4, words, spare⟩)) := by
  show (p.feed strict w).bind _ = _
  simp only [h, Except.bind, hwide]
  rfl

theorem iterate_cons_cut (hwide : q.wide.isSome = true) :
    p.iterate strict ⟨offset, [w], spare⟩ = .error (.truncated (offset + 4) (4 - spare)) := by
  show (p.feed strict w).bind _ = _
  simp only [h, Except.bind, hwide, expect_nil]
  rfl

theorem iterate_cons_wide (hwide : q.wide.isSome = true) (literal : UInt32) :
    p.iterate strict ⟨offset, w :: literal :: words, spare⟩ =
      (q.feed strict literal).map fun q => some (q, ⟨offset + 4 + 4, words, spare⟩) := by
  show (p.feed strict w).bind _ = _
  simp only [h, Except.bind, hwide]
  show (q.feed strict literal).bind _ = _
  cases q.feed strict literal with
  | error e => rfl
  | ok q => rfl

end Iterate

variable {strict : Bool} {p q : Pass} {r r' : Reader}

/-- **An iteration that goes on** has read a word, or a word and its literal. -/
theorem iterate_left (h : p.iterate strict r = .ok (some (q, r'))) :
    (r'.left + 4 = r.left ∨ r'.left + 8 = r.left) ∧ r'.offset + r'.left = r.offset + r.left := by
  obtain ⟨offset, words, spare⟩ := r
  cases words with
  | nil =>
    rw [iterate_nil] at h
    split at h <;> cases h
  | cons w words =>
    cases hw : p.feed strict w with
    | error e =>
      rw [iterate_cons_error strict p offset spare w words hw] at h
      cases h
    | ok s =>
      cases hwide : s.wide with
      | none =>
        rw [iterate_cons_short strict p offset spare w words hw hwide] at h
        cases h
        simp only [Reader.left, List.length_cons]
        omega
      | some start =>
        have hsome : s.wide.isSome = true := by rw [hwide]; rfl
        cases words with
        | nil =>
          rw [iterate_cons_cut strict p offset spare w hw hsome] at h
          cases h
        | cons literal rest =>
          rw [iterate_cons_wide strict p offset spare w rest hw hsome] at h
          obtain ⟨t, -, ht⟩ := map_eq_ok h
          cases ht
          simp only [Reader.left, List.length_cons]
          omega

/-! ## All iterations -/

def loop (strict : Bool) (p : Pass) (r : Reader) : Except DecodeError Pass :=
  match h : p.iterate strict r with
  | .error e => .error e
  | .ok none => .ok p
  | .ok (some (q, r')) =>
    have := iterate_left h
    loop strict q r'
termination_by r.left
decreasing_by omega

/-- The program of a stream that ends here. -/
def settle (p : Pass) (name : String) (length : Nat) : Except DecodeError Program :=
  if p.stack.depth != 0 then .error (.danglingOperands p.stack.depth)
  else .ok ⟨name, p.entries, length⟩

theorem loop_eq (strict : Bool) (p : Pass) (r : Reader) :
    loop strict p r =
      match p.iterate strict r with
      | .error e => .error e
      | .ok none => .ok p
      | .ok (some (q, r')) => loop strict q r' := by
  rw [loop]
  split <;> rename_i h <;> simp only [h]

/-- The literal of a wide push is the last word of its iteration. -/
theorem wide_of_literal {w : UInt32} (hwide : p.wide ≠ none) (h : p.feed strict w = .ok q) :
    q.wide = none := by
  cases feed_takes h with
  | literal _ wide => exact wide
  | push _ _ waiting | widePush _ waiting | operator _ waiting | instruction _ waiting =>
    exact absurd waiting hwide

theorem loop_settle_nil (strict : Bool) (name : String) (length spare : Nat) (p : Pass)
    (hwide : p.wide = none) :
    (loop strict p ⟨p.offset, [], spare⟩).bind (·.settle name length) =
      (p.finish spare).map fun entries => ⟨name, entries, length⟩ := by
  rw [loop_eq, iterate_nil]
  unfold finish settle
  by_cases hspare : spare = 0
  · by_cases hdepth : p.stack.depth = 0
    · simp [Except.bind, Except.map, hspare, hwide, hdepth]
    · simp [Except.bind, Except.map, hspare, hwide, hdepth]
  · simp [Except.bind, Except.map, hspare]

/-- **The loop comes to what the fold comes to.** Between iterations no wide push waits. -/
theorem loop_settle (strict : Bool) (name : String) (length spare : Nat) (words : List UInt32)
    (p : Pass) (hwide : p.wide = none) :
    (loop strict p ⟨p.offset, words, spare⟩).bind (·.settle name length) =
      (words.foldlM (feed strict) p).bind fun q =>
        (q.finish spare).map fun entries => ⟨name, entries, length⟩ := by
  -- a wide push takes its literal along, so an iteration leaves one word less or two
  induction hn : words.length using Nat.strongRecOn generalizing words p with
  | ind n ih =>
    cases words with
    | nil => exact loop_settle_nil strict name length spare p hwide
    | cons w words =>
      rw [List.length_cons] at hn
      rw [List.foldlM_cons]
      cases hw : p.feed strict w with
      | error e =>
        rw [loop_eq, iterate_cons_error strict p p.offset spare w words hw]
        rfl
      | ok q =>
        have hoffset := (feed_advance hw).offset
        cases hnext : q.wide with
        | none =>
          rw [loop_eq, iterate_cons_short strict p p.offset spare w words hw hnext, ← hoffset]
          exact ih words.length (by omega) words q hnext rfl
        | some start =>
          have hsome : q.wide.isSome = true := by rw [hnext]; rfl
          cases words with
          | nil =>
            rw [loop_eq, iterate_cons_cut strict p p.offset spare w hw hsome, ← hoffset]
            show _ = (q.finish spare).map _
            rw [finish, if_pos (by simp [hsome])]
            rfl
          | cons literal rest =>
            rw [List.length_cons] at hn
            rw [loop_eq, iterate_cons_wide strict p p.offset spare w rest hw hsome literal]
            show _ = ((literal :: rest).foldlM (feed strict) q).bind _
            rw [List.foldlM_cons]
            cases hliteral : q.feed strict literal with
            | error e => rfl
            | ok t =>
              have hnone := wide_of_literal (by simp [hnext]) hliteral
              have hnext' := (feed_advance hliteral).offset
              rw [← hoffset, ← hnext']
              exact ih rest.length (by omega) rest t hnone rfl

/-! ## The number of iterations -/

/-- So many iterations lead from one pass and reader to another. -/
inductive Iterates (strict : Bool) : Nat → Pass → Reader → Pass → Reader → Prop
  | none (p : Pass) (r : Reader) : Iterates strict 0 p r p r
  | more {n : Nat} {p q t : Pass} {r s u : Reader} (first : p.iterate strict r = .ok (some (q, s)))
      (rest : Iterates strict n q s t u) : Iterates strict (n + 1) p r t u

/-- **Every iteration reads at least four bytes.** -/
theorem Iterates.left {n : Nat} (h : Iterates strict n p r q r') : 4 * n + r'.left ≤ r.left := by
  induction h with
  | none p r => omega
  | more first _ ih =>
    have hfirst := iterate_left first
    omega

end Pass

/-- **Decoding is a reading loop.** -/
theorem decode_eq_loop (config : DecoderConfig) (name : String) (bytes : List UInt8) :
    decode config name bytes =
      (Pass.loop config.strict (.start config.maxDepth) (.ofBytes bytes)).bind
        (·.settle name bytes.length) := by
  have hloop := Pass.loop_settle config.strict name bytes.length (Word.ofBytes bytes).2
    (Word.ofBytes bytes).1 (.start config.maxDepth) rfl
  exact hloop.symm

end FieldEngine
