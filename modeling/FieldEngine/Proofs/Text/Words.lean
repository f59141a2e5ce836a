import FieldEngine.Proofs.Text.Separators
import FieldEngine.Text.Blank

/-!
# Words of a line

A word is a text without blanks that is not empty. Words joined by blanks are cut apart again, and
digits with an optional `0x` before them are a word that is read as the number they spell:

    (∀ w ∈ ws, IsWord w) → words (joinWith " " ws) = ws                        (words_joinWith)
    Spells radix n cs → digits? radix cs = some n                           (digits?_of_spells)

Leading zeros and the case of letters do not matter (`Digit`).
-/

namespace FieldEngine.Text

/-! ## Cutting -/

/-- None of the characters is blank. -/
def Blankless (cs : List Char) : Prop :=
  ∀ c ∈ cs, isBlank c = false

instance (cs : List Char) : Decidable (Blankless cs) :=
  List.decidableBAll (isBlank · = false) cs

/-- A text that can stand as one word on a line. -/
def IsWord (w : String) : Prop :=
  w ≠ "" ∧ Blankless w.toList

instance (w : String) : Decidable (IsWord w) :=
  inferInstanceAs (Decidable (w ≠ "" ∧ Blankless w.toList))

section Cutting

variable {p : Char → Bool} {w : List Char}

theorem splitAt_of_forall (h : ∀ c ∈ w, p c = false) : splitAt p w = [w] := by
  induction w with
  | nil => rfl
  | cons c w ih =>
    have hc : p c = false := h c (by simp)
    have hw : splitAt p w = [w] := ih fun d hd => h d (by simp [hd])
    simp [splitAt, hc, hw]

theorem splitAt_append_cons {b : Char} (h : ∀ c ∈ w, p c = false) (hb : p b = true)
    (s : List Char) : splitAt p (w ++ b :: s) = w :: splitAt p s := by
  induction w with
  | nil => simp [splitAt, hb]
  | cons c w ih =>
    have hc : p c = false := h c (by simp)
    have hw : splitAt p (w ++ b :: s) = w :: splitAt p s := ih fun d hd => h d (by simp [hd])
    simp [splitAt, hc, hw]

end Cutting

theorem wordsOf_append_cons {w : List Char} {b : Char} (hne : w ≠ []) (hw : Blankless w)
    (hb : isBlank b = true) (s : List Char) : wordsOf (w ++ b :: s) = w :: wordsOf s := by
  unfold wordsOf
  rw [splitAt_append_cons hw hb, List.filter_cons_of_pos (by simpa using hne)]

theorem wordsOf_of_blankless {w : List Char} (hne : w ≠ []) (hw : Blankless w) :
    wordsOf w = [w] := by
  unfold wordsOf
  rw [splitAt_of_forall hw, List.filter_cons_of_pos (by simpa using hne), List.filter_nil]

/-- **Words joined by blanks** are cut apart again. -/
theorem words_joinWith {ws : List String} (h : ∀ w ∈ ws, IsWord w) :
    words (joinWith " " ws) = ws := by
  unfold words joinWith
  rw [String.toList_intercalate]
  induction ws with
  | nil => rfl
  | cons w ws ih =>
    obtain ⟨hne, hblank⟩ := h w (by simp)
    have hne' : w.toList ≠ [] := by simpa using hne
    have hrest := ih fun v hv => h v (by simp [hv])
    cases ws with
    | nil => simp [wordsOf_of_blankless hne' hblank]
    | cons v ws =>
      rw [List.map_cons, List.map_cons, List.intercalate_cons_cons, ← List.map_cons]
      have hcut := wordsOf_append_cons (b := ' ') hne' hblank (by decide)
        ((" ".toList).intercalate ((v :: ws).map String.toList))
      have hblanks : " ".toList = [' '] := rfl
      rw [hblanks] at hcut hrest ⊢
      rw [List.append_assoc, List.singleton_append, hcut, List.map_cons, hrest,
        String.ofList_toList]

/-! ## Numbers -/

/-- A digit and its value; a letter may be of either case. -/
def Digit (radix : Nat) (c : Char) (d : Nat) : Prop :=
  d < radix ∧ (c = Nat.digitChar d ∨ c = (Nat.digitChar d).toUpper)

/-- One or more digits, the most significant first, that come to a number. -/
inductive Spells (radix : Nat) : Nat → List Char → Prop
  | single {c : Char} {d : Nat} (h : Digit radix c d) : Spells radix d [c]
  | concat {n d : Nat} {cs : List Char} {c : Char} (hs : Spells radix n cs) (h : Digit radix c d) :
    Spells radix (n * radix + d) (cs ++ [c])

theorem digit?_of_digit {radix d : Nat} {c : Char} (hradix : radix ≤ 16) (h : Digit radix c d) :
    digit? radix c = some d := by
  have hall : ∀ radix ≤ 16, ∀ d < radix, digit? radix (Nat.digitChar d) = some d ∧
      digit? radix (Nat.digitChar d).toUpper = some d := by
    decide +kernel
  obtain ⟨hd, rfl | rfl⟩ := h
  · exact (hall radix hradix d hd).1
  · exact (hall radix hradix d hd).2

namespace Spells

variable {radix n : Nat} {cs : List Char}

theorem ne_nil (h : Spells radix n cs) : cs ≠ [] := by
  cases h <;> simp

theorem digit_of_mem (h : Spells radix n cs) {c : Char} (hc : c ∈ cs) : ∃ d, Digit radix c d := by
  induction h with
  | single hd =>
    rw [List.mem_singleton.1 hc]
    exact ⟨_, hd⟩
  | concat hs hd ih =>
    rcases List.mem_append.1 hc with hc | hc
    · exact ih hc
    · rw [List.mem_singleton.1 hc]
      exact ⟨_, hd⟩

end Spells

/-- **Digits** are read as the number they spell. -/
theorem digits?_of_spells {radix n : Nat} {cs : List Char} (hradix : radix ≤ 16)
    (h : Spells radix n cs) : digits? radix cs = some n := by
  unfold digits?
  rw [if_neg (by simpa using h.ne_nil)]
  induction h with
  | single hd => simp [digit?_of_digit hradix hd]
  | concat hs hd ih => simp [ih, digit?_of_digit hradix hd]

/-- The usual digits of a number spell it. -/
theorem spells_toDigits {radix : Nat} (hradix : 1 < radix) (n : Nat) :
    Spells radix n (Nat.toDigits radix n) := by
  induction n using Nat.strongRecOn with
  | ind n ih =>
    rw [Nat.toDigits_eq_if hradix]
    split
    · rename_i hlt
      exact .single ⟨hlt, .inl rfl⟩
    · have hlt : n / radix < n := Nat.div_lt_self (by omega) hradix
      have hmod : n % radix < radix := Nat.mod_lt _ (by omega)
      have hconcat := (ih _ hlt).concat ⟨hmod, .inl rfl⟩
      rwa [Nat.div_add_mod'] at hconcat

end FieldEngine.Text
