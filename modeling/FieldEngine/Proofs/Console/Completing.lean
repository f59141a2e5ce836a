import FieldEngine.Console.Completion
import FieldEngine.Proofs.Text.Words

/-!
# Completing a word

A position in a line is a character boundary if it is the size of a piece that the line starts with.
That piece is cut after its last blank (`Cut`): what stands after it is the word to complete, what
stands before it tells which words are offered (`offered`). The word is found one byte after the
start of the last blank, so there is no completion at all after a blank of several bytes:

    Cut before front typed →
      (complete? keywords paths (before ++ after) before.utf8ByteSize = none ↔ Wide front)

and otherwise exactly the words offered that start with the typed one. Main statement:
`completions_at_boundary`.
-/

namespace FieldEngine.Completion

open Text

/-! ## Bytes -/

theorem byteLength_append (a b : List Char) :
    byteLength (a ++ b) = byteLength a + byteLength b := by
  induction a with
  | nil => simp [byteLength]
  | cons c a ih =>
    simp only [byteLength, List.cons_append, List.foldr_cons] at ih ⊢
    omega

theorem byteLength_eq (cs : List Char) : byteLength cs = (String.ofList cs).utf8ByteSize := by
  induction cs with
  | nil => rfl
  | cons c cs ih =>
    rw [String.ofList_cons, String.utf8ByteSize_append, String.utf8ByteSize_singleton, ← ih]
    rfl

theorem byteLength_toList (s : String) : byteLength s.toList = s.utf8ByteSize := by
  rw [byteLength_eq, String.ofList_toList]

/-- A position between two pieces is a boundary. -/
theorem cut?_append (before after : List Char) :
    cut? (byteLength before) (before ++ after) = some (before, after) := by
  induction before with
  | nil => cases after <;> simp [cut?, byteLength]
  | cons c before ih =>
    have hpos := c.utf8Size_pos
    have hsize : byteLength (c :: before) = c.utf8Size + byteLength before := rfl
    rw [List.cons_append, cut?, hsize, if_neg (by omega), if_pos (by omega),
      Nat.add_sub_cancel_left, ih]
    rfl

/-- A position inside a character is none. -/
theorem cut?_inside {c : Char} {k : Nat} (hk : 0 < k) (hc : k < c.utf8Size) (pre rest : List Char) :
    cut? (byteLength pre + k) (pre ++ c :: rest) = none := by
  induction pre with
  | nil =>
    show cut? (0 + k) (c :: rest) = none
    rw [cut?, if_neg (by omega), if_neg (by omega)]
  | cons d pre ih =>
    have hpos := d.utf8Size_pos
    have hsize : byteLength (d :: pre) = d.utf8Size + byteLength pre := rfl
    have hrest : byteLength (d :: pre) + k - d.utf8Size = byteLength pre + k := by omega
    rw [List.cons_append, cut?, if_neg (by omega), if_pos (by omega), hrest, ih]
    rfl

/-! ## The word before the cursor -/

/-- A piece of a line is what stands before a word, up to a blank, and what is typed of the word. -/
structure Cut (before front typed : String) : Prop where
  eq : before = front ++ typed
  typed_blankless : Blankless typed.toList
  front_ends : front = "" ∨ ∃ blank, front.toList.getLast? = some blank ∧ isBlank blank = true

/-- The text ends in a character of several bytes. -/
def Wide (front : String) : Prop :=
  ∃ blank, front.toList.getLast? = some blank ∧ 1 < blank.utf8Size

theorem throughLast_append {p : Char → Bool} {front typed : List Char}
    (htyped : ∀ c ∈ typed, p c = false)
    (hfront : front = [] ∨ ∃ c, front.getLast? = some c ∧ p c = true) :
    throughLast p (front ++ typed) = front := by
  unfold throughLast
  rw [List.reverse_append, List.dropWhile_append_of_pos (by simpa using htyped)]
  rcases hfront with rfl | ⟨c, hlast, hc⟩
  · rfl
  · obtain ⟨init, rfl⟩ := List.getLast?_eq_some_iff.1 hlast
    simp [hc]

/-- Every piece has a cut. -/
theorem exists_cut (before : String) : ∃ front typed, Cut before front typed := by
  have hsplit :=
    List.takeWhile_append_dropWhile (p := fun c => !isBlank c) (l := before.toList.reverse)
  generalize htyped : before.toList.reverse.takeWhile (fun c => !isBlank c) = typed at hsplit
  generalize hfront : before.toList.reverse.dropWhile (fun c => !isBlank c) = front at hsplit
  refine ⟨String.ofList front.reverse, String.ofList typed.reverse, ?_, ?_, ?_⟩
  · rw [← String.ofList_append, ← List.reverse_append, hsplit, List.reverse_reverse,
      String.ofList_toList]
  · intro c hc
    rw [String.toList_ofList, List.mem_reverse, ← htyped] at hc
    simpa using List.all_eq_true.1 List.all_takeWhile c hc
  · rw [String.toList_ofList, List.getLast?_reverse]
    cases hhead : front.head? with
    | none => exact .inl (by simp [List.head?_eq_none_iff.1 hhead])
    | some blank =>
      have hnot := List.head?_dropWhile_not (fun c => !isBlank c) before.toList.reverse
      rw [hfront, hhead] at hnot
      exact .inr ⟨blank, rfl, by simpa using hnot⟩

theorem Cut.wordStart_eq {before front typed : String} (h : Cut before front typed) :
    wordStart before.toList =
      match front.toList.getLast? with
      | none => 0
      | some blank => front.utf8ByteSize - blank.utf8Size + 1 := by
  have hfront : front.toList = [] ∨ ∃ c, front.toList.getLast? = some c ∧ isBlank c = true := by
    simpa using h.front_ends
  have hthrough : throughLast isBlank before.toList = front.toList := by
    rw [h.eq, String.toList_append]
    exact throughLast_append h.typed_blankless hfront
  unfold wordStart
  rw [hthrough]
  cases front.toList.getLast? with
  | none => rfl
  | some blank => exact congrArg (· - blank.utf8Size + 1) (byteLength_toList front)

/-- The last character of a text and the bytes before it. -/
theorem byteLength_of_getLast? {s : String} {c : Char} (h : s.toList.getLast? = some c) :
    ∃ init, s.toList = init ++ [c] ∧ s.utf8ByteSize = byteLength init + c.utf8Size := by
  obtain ⟨init, hinit⟩ := List.getLast?_eq_some_iff.1 h
  refine ⟨init, hinit, ?_⟩
  rw [← byteLength_toList, hinit, byteLength_append]
  rfl

/-- After a blank of one byte, or at the start of the line, the word is found. -/
theorem Cut.wordStart_of_not_wide {before front typed : String} (h : Cut before front typed)
    (hwide : ¬Wide front) : wordStart before.toList = front.utf8ByteSize := by
  rw [h.wordStart_eq]
  split
  · rename_i hnone
    have hempty : front = "" := by simpa using hnone
    rw [hempty]
    rfl
  · rename_i blank hlast
    obtain ⟨init, -, hsize⟩ := byteLength_of_getLast? hlast
    have hone : ¬1 < blank.utf8Size := fun hgt => hwide ⟨blank, hlast, hgt⟩
    have hpos := blank.utf8Size_pos
    omega

theorem Cut.cut?_of_not_wide {before front typed : String} (h : Cut before front typed)
    (hwide : ¬Wide front) :
    cut? (wordStart before.toList) before.toList = some (front.toList, typed.toList) := by
  rw [h.wordStart_of_not_wide hwide, h.eq, String.toList_append, ← byteLength_toList]
  exact cut?_append _ _

/-- After a blank of several bytes it is looked for inside the blank. -/
theorem Cut.cut?_of_wide {before front typed : String} (h : Cut before front typed)
    (hwide : Wide front) : cut? (wordStart before.toList) before.toList = none := by
  obtain ⟨blank, hlast, hsize⟩ := hwide
  obtain ⟨init, hinit, hfront⟩ := byteLength_of_getLast? hlast
  have hstart : wordStart before.toList = byteLength init + 1 := by
    rw [h.wordStart_eq, hlast]
    show front.utf8ByteSize - blank.utf8Size + 1 = _
    omega
  rw [hstart, h.eq, String.toList_append, hinit, List.append_assoc, List.singleton_append]
  exact cut?_inside Nat.one_pos hsize init typed.toList

/-! ## The words that are offered -/

/-- The words that can stand after a command. -/
def choices (command : String) : List String :=
  ((arguments.find? fun entry => entry.1 == command).map Prod.snd).getD []

/-- The words that are offered after a text: commands if there is no word in it, the choices of a
command if it is the only word, and else none. -/
def offered (keywords : List String) (front : String) : List String :=
  match words front with
  | [] => keywords
  | [command] => choices command
  | _ => []

/-- The only word of the text is a command on files, for which names of files are offered. -/
def AsksPath (front : String) : Prop :=
  ∃ command ∈ pathCommands, words front = [command]

section Lines

variable {before front typed : String} (h : Cut before front typed) (keywords : List String)
  (paths : String → Nat → Nat × List Candidate) (after : String)
include h

theorem complete?_of_wide (hwide : Wide front) :
    complete? keywords paths (before ++ after) before.utf8ByteSize = none := by
  unfold complete?
  rw [String.toList_append, ← byteLength_toList, cut?_append]
  show (cut? (wordStart before.toList) before.toList >>= _) = none
  rw [h.cut?_of_wide hwide]
  rfl

theorem complete?_of_not_wide (hwide : ¬Wide front) :
    ∃ start found, complete? keywords paths (before ++ after) before.utf8ByteSize =
        some (start, found) ∧
      (¬AsksPath front → start = front.utf8ByteSize ∧
        found = matching typed.toList (offered keywords front)) := by
  unfold complete?
  rw [String.toList_append, ← byteLength_toList, cut?_append]
  simp only [Option.bind_eq_bind, Option.bind_some]
  rw [h.cut?_of_not_wide hwide, Option.bind_some]
  have hwords : (wordsOf front.toList).map String.ofList = words front := rfl
  simp only [hwords, h.wordStart_of_not_wide hwide]
  cases hfront : words front with
  | nil => exact ⟨_, _, rfl, fun _ => ⟨rfl, by simp only [offered, hfront]⟩⟩
  | cons command rest =>
    cases rest with
    | nil =>
      by_cases hpath : command ∈ pathCommands
      · simp only [List.contains_iff_mem.2 hpath, if_true]
        exact ⟨_, _, rfl, fun hno => absurd ⟨command, hpath, hfront⟩ hno⟩
      · have hcontains : pathCommands.contains command = false := by simpa using hpath
        have hoffered : offered keywords front = choices command := by simp only [offered, hfront]
        simp only [hcontains, Bool.false_eq_true, if_false, hoffered, choices]
        cases arguments.find? fun entry => entry.1 == command with
        | none => exact ⟨_, _, rfl, fun _ => ⟨rfl, rfl⟩⟩
        | some entry => exact ⟨_, _, rfl, fun _ => ⟨rfl, rfl⟩⟩
    | cons other rest => exact ⟨_, _, rfl, fun _ => ⟨rfl, by simp only [offered, hfront]; rfl⟩⟩

end Lines

/-- **Completion at a boundary.** Every line `before ++ after` and every position at the end of
`before` has one word under the cursor, which starts at the line start or after a blank. There is no
completion exactly after a blank of several bytes. Else the completion starts where the word does,
and offers those of the words for its place that start with what is typed; names of files are left
open. -/
theorem completions_at_boundary (keywords : List String)
    (paths : String → Nat → Nat × List Candidate) (before after : String) :
    ∃ front typed, Cut before front typed ∧
      (complete? keywords paths (before ++ after) before.utf8ByteSize = none ↔ Wide front) ∧
      ∀ start found, complete? keywords paths (before ++ after) before.utf8ByteSize =
          some (start, found) → ¬AsksPath front →
        start = front.utf8ByteSize ∧
          found = ((offered keywords front).filter fun word =>
            typed.toList <+: word.toList).map fun word => ⟨word, word⟩ := by
  obtain ⟨front, typed, h⟩ := exists_cut before
  refine ⟨front, typed, h, ⟨fun hnone => ?_, complete?_of_wide h keywords paths after⟩, ?_⟩
  · apply Classical.byContradiction
    intro hwide
    obtain ⟨start, found, hsome, -⟩ := complete?_of_not_wide h keywords paths after hwide
    rw [hnone] at hsome
    cases hsome
  · intro start found hsome hpath
    have hwide : ¬Wide front := by
      intro hwide
      rw [complete?_of_wide h keywords paths after hwide] at hsome
      cases hsome
    obtain ⟨start', found', hsome', hfound⟩ :=
      complete?_of_not_wide h keywords paths after hwide
    rw [hsome] at hsome'
    cases hsome'
    obtain ⟨hstart, hfound⟩ := hfound hpath
    refine ⟨hstart, hfound.trans ?_⟩
    unfold matching
    congr 2
    funext word
    rw [Bool.eq_iff_iff, List.isPrefixOf_iff_prefix, decide_eq_true_iff]

/-- A blank of two bytes after a command: the choices of the command are `sbyte` and `sword`, but
there is no completion. -/
theorem no_completion_after_wide_blank :
    Cut "peek\u00a0s" "peek\u00a0" "s" ∧ ¬AsksPath "peek\u00a0" ∧
      (offered Command.keywords "peek\u00a0").filter ("s".toList <+: ·.toList) =
        ["sbyte", "sword"] ∧
      ∀ paths,
        complete? Command.keywords paths "peek\u00a0s" "peek\u00a0s".utf8ByteSize = none := by
  have hcut : Cut "peek\u00a0s" "peek\u00a0" "s" := by
    refine ⟨by decide, by decide, .inr ⟨'\u00a0', by decide, by decide⟩⟩
  refine ⟨hcut, ?_, by decide, ?_⟩
  · rintro ⟨command, hpath, hwords⟩
    have hpeek : words "peek\u00a0" = ["peek"] := by decide
    rw [hpeek] at hwords
    cases hwords
    revert hpath
    decide
  · intro paths
    have hnone := complete?_of_wide hcut Command.keywords paths "" ⟨'\u00a0', by decide, by decide⟩
    rwa [String.append_empty] at hnone

end FieldEngine.Completion
