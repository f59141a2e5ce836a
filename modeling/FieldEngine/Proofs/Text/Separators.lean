import FieldEngine.Text.Layout
import FieldEngine.Text.Numeral

/-!
# Taking printed texts apart

A text that was put together can be taken apart again if every piece ends where a character stands
that it cannot hold:

    c ∉ a → c ∉ b → (a ++ c :: s = b ++ c :: t ↔ a = b ∧ s = t)                 (append_cons_inj)

So do lists of lines and of arguments, and an address is read back by the digits after `0x`.
-/

namespace FieldEngine.Text

/-! ## Pieces -/

/-- A text that starts with no character of a class, as one does after a piece of that class. -/
def Stops (p : Char → Bool) (s : List Char) : Prop :=
  s.takeWhile p = []

@[simp] theorem stops_nil (p : Char → Bool) : Stops p [] := rfl

theorem stops_cons {p : Char → Bool} {c : Char} (h : p c = false) (s : List Char) :
    Stops p (c :: s) :=
  List.takeWhile_cons_of_neg (by simp [h])

theorem stops_cons_iff {p : Char → Bool} {c : Char} {s : List Char} :
    Stops p (c :: s) ↔ p c = false := by
  constructor
  · intro h
    cases hc : p c with
    | false => rfl
    | true =>
      rw [Stops, List.takeWhile_cons_of_pos hc] at h
      cases h
  · intro h
    exact stops_cons h s

theorem Stops.mono {p q : Char → Bool} (hpq : ∀ c, q c = true → p c = true) {s : List Char}
    (h : Stops p s) : Stops q s := by
  cases s with
  | nil => exact stops_nil q
  | cons c s =>
    have hc := stops_cons_iff.1 h
    apply stops_cons
    cases hq : q c with
    | false => rfl
    | true => rw [hpq c hq] at hc; cases hc

/-- Pieces of one class are told from what follows them. -/
theorem append_inj_of_stops {p : Char → Bool} {a b s t : List Char} (ha : ∀ c ∈ a, p c = true)
    (hb : ∀ c ∈ b, p c = true) (hs : Stops p s) (ht : Stops p t) (h : a ++ s = b ++ t) :
    a = b ∧ s = t := by
  have hpiece : a = b := by
    calc a = (a ++ s).takeWhile p := by rw [List.takeWhile_append_of_pos ha, hs, List.append_nil]
      _ = (b ++ t).takeWhile p := by rw [h]
      _ = b := by rw [List.takeWhile_append_of_pos hb, ht, List.append_nil]
  rw [hpiece] at h
  exact ⟨hpiece, List.append_cancel_left h⟩

/-- Pieces without the character that ends them. -/
theorem append_cons_inj {c : Char} {a b s t : List Char} (ha : c ∉ a) (hb : c ∉ b)
    (h : a ++ c :: s = b ++ c :: t) : a = b ∧ s = t := by
  have hclass : ∀ {l : List Char}, c ∉ l → ∀ d ∈ l, (d != c) = true := by
    intro l hl d hd
    exact bne_iff_ne.2 fun heq => hl (heq ▸ hd)
  have hstops : ∀ l, Stops (· != c) (c :: l) := stops_cons (bne_self_eq_false c)
  obtain ⟨hab, htail⟩ := append_inj_of_stops (hclass ha) (hclass hb) (hstops s) (hstops t) h
  exact ⟨hab, List.tail_eq_of_cons_eq htail⟩

/-- Pieces that all end the same way. -/
theorem flatMap_ended_inj {c : Char} {ending : List Char} {as bs : List (List Char)}
    (ha : ∀ a ∈ as, c ∉ a) (hb : ∀ b ∈ bs, c ∉ b)
    (h : as.flatMap (· ++ c :: ending) = bs.flatMap (· ++ c :: ending)) : as = bs := by
  induction as generalizing bs with
  | nil =>
    cases bs with
    | nil => rfl
    | cons b bs => simp at h
  | cons a as ih =>
    cases bs with
    | nil => simp at h
    | cons b bs =>
      rw [List.flatMap_cons, List.flatMap_cons, List.append_assoc, List.append_assoc] at h
      obtain ⟨rfl, hrest⟩ := append_cons_inj (ha a (by simp)) (hb b (by simp)) h
      have htail := List.append_cancel_left hrest
      rw [ih (fun x hx => ha x (by simp [hx])) (fun x hx => hb x (by simp [hx])) htail]

theorem intercalate_append_self (separator : List Char) {as : List (List Char)} (h : as ≠ []) :
    separator.intercalate as ++ separator = as.flatMap (· ++ separator) := by
  induction as with
  | nil => exact absurd rfl h
  | cons a as ih =>
    cases as with
    | nil => simp
    | cons b as =>
      rw [List.intercalate_cons_cons, List.flatMap_cons, ← ih (by simp)]
      simp

theorem joinWith_cons_ne_empty {a : String} (h : a ≠ "") (separator : String) (as : List String) :
    joinWith separator (a :: as) ≠ "" := by
  unfold joinWith
  cases as with
  | nil => rwa [String.intercalate_singleton]
  | cons b as =>
    rw [String.intercalate_cons_cons]
    simp [h]

/-- Parts joined by a separator are told apart if they are not empty and none has its first
character. -/
theorem joinWith_inj {separator : String} {c : Char} {ending : List Char}
    (hsep : separator.toList = c :: ending) {as bs : List String}
    (ha : ∀ a ∈ as, a ≠ "" ∧ c ∉ a.toList) (hb : ∀ b ∈ bs, b ≠ "" ∧ c ∉ b.toList)
    (h : joinWith separator as = joinWith separator bs) : as = bs := by
  cases as with
  | nil =>
    cases bs with
    | nil => rfl
    | cons b bs => exact absurd h.symm (joinWith_cons_ne_empty (hb b (by simp)).1 _ _)
  | cons a as =>
    cases bs with
    | nil => exact absurd h (joinWith_cons_ne_empty (ha a (by simp)).1 _ _)
    | cons b bs =>
      have hlists := congrArg (fun s => s.toList ++ separator.toList) h
      simp only [joinWith, String.toList_intercalate] at hlists
      rw [intercalate_append_self _ (by simp), intercalate_append_self _ (by simp), hsep] at hlists
      have hparts := flatMap_ended_inj (c := c)
        (by simpa using ⟨(ha a (by simp)).2, fun x hx => (ha x (by simp [hx])).2⟩)
        (by simpa using ⟨(hb b (by simp)).2, fun x hx => (hb x (by simp [hx])).2⟩) hlists
      exact (List.map_inj_right fun _ _ => String.toList_inj.1).1 hparts

theorem mem_joinWith {separator : String} {as : List String} {c : Char}
    (h : c ∈ (joinWith separator as).toList) :
    c ∈ separator.toList ∨ ∃ a ∈ as, c ∈ a.toList := by
  rw [joinWith, String.toList_intercalate] at h
  cases as with
  | nil => simp at h
  | cons a as =>
    have hended := List.mem_append_left separator.toList h
    rw [intercalate_append_self _ (by simp)] at hended
    obtain ⟨part, hpart, hmem⟩ := List.mem_flatMap.1 hended
    obtain ⟨b, hb, rfl⟩ := List.mem_map.1 hpart
    rcases List.mem_append.1 hmem with hmem | hmem
    · exact .inr ⟨b, hb, hmem⟩
    · exact .inl hmem

theorem mem_joinWith_of_mem {separator a : String} {as : List String} {c : Char} (ha : a ∈ as)
    (hc : c ∈ a.toList) : c ∈ (joinWith separator as).toList := by
  rw [joinWith, String.toList_intercalate]
  induction as with
  | nil => cases ha
  | cons b as ih =>
    cases as with
    | nil =>
      obtain rfl := List.mem_singleton.1 ha
      simpa using hc
    | cons d as =>
      rw [List.map_cons, List.map_cons, List.intercalate_cons_cons, ← List.map_cons]
      rcases List.mem_cons.1 ha with rfl | ha
      · exact List.mem_append_left _ (List.mem_append_left _ hc)
      · exact List.mem_append_right _ (ih ha)

/-- A text that can be one argument among others, on a line: it has no comma and no line end. -/
def Plain (s : List Char) : Prop :=
  ',' ∉ s ∧ '\n' ∉ s

instance (s : List Char) : Decidable (Plain s) :=
  inferInstanceAs (Decidable (',' ∉ s ∧ '\n' ∉ s))

@[simp] theorem plain_nil : Plain [] := by
  decide

@[simp] theorem plain_cons {c : Char} {s : List Char} :
    Plain (c :: s) ↔ c ≠ ',' ∧ c ≠ '\n' ∧ Plain s := by
  simp only [Plain, List.mem_cons, not_or, ne_eq, eq_comm (a := c)]
  constructor
  · rintro ⟨⟨hc, hs⟩, hc', hs'⟩
    exact ⟨hc, hc', hs, hs'⟩
  · rintro ⟨hc, hc', hs, hs'⟩
    exact ⟨⟨hc, hs⟩, hc', hs'⟩

@[simp] theorem plain_append {s t : List Char} : Plain (s ++ t) ↔ Plain s ∧ Plain t := by
  simp only [Plain, List.mem_append, not_or]
  constructor
  · rintro ⟨⟨hs, ht⟩, hs', ht'⟩
    exact ⟨⟨hs, hs'⟩, ht, ht'⟩
  · rintro ⟨⟨hs, hs'⟩, ht, ht'⟩
    exact ⟨⟨hs, ht⟩, hs', ht'⟩

/-! ## Numbers -/

theorem isDigit_of_mem {n : Nat} {c : Char} (h : c ∈ Nat.toDigits 10 n) : c.isDigit = true :=
  Nat.isDigit_of_mem_toDigits (by decide) (by decide) h

theorem not_mem_toDigits {c : Char} (h : c.isDigit = false) (n : Nat) : c ∉ Nat.toDigits 10 n := by
  intro hmem
  rw [isDigit_of_mem hmem] at h
  cases h

theorem toDigits_inj {m n : Nat} (h : Nat.toDigits 10 m = Nat.toDigits 10 n) : m = n := by
  rw [← Nat.ofDigitChars_ten_toDigits (n := m), h, Nat.ofDigitChars_ten_toDigits]

theorem toString_nat_inj {m n : Nat} (h : toString m = toString n) : m = n := by
  have hdigits := congrArg String.toList h
  rw [Nat.toString_eq_repr, Nat.toString_eq_repr, Nat.toList_repr, Nat.toList_repr] at hdigits
  exact toDigits_inj hdigits

@[simp] theorem plain_toDigits (n : Nat) : Plain (Nat.toDigits 10 n) :=
  ⟨not_mem_toDigits (by decide) n, not_mem_toDigits (by decide) n⟩

/-! ## Addresses -/

theorem foldlM_toDigits (n : Nat) :
    (Nat.toDigits 16 n).foldlM (fun m c => (digit? 16 c).map (m * 16 + ·)) 0 = some n := by
  induction n using Nat.strongRecOn with
  | ind n ih =>
    have hdigit : ∀ d < 16, digit? 16 (Nat.digitChar d) = some d := by decide
    rw [Nat.toDigits_eq_if (by decide)]
    split
    · rename_i hlt
      simp [hdigit n hlt]
    · rw [List.foldlM_append, ih (n / 16) (by omega)]
      simp [hdigit (n % 16) (by omega)]
      omega

/-- Digits read back as their number, whatever zeros stand before them. -/
theorem digits?_padded (zeros n : Nat) :
    digits? 16 (List.replicate zeros '0' ++ Nat.toDigits 16 n) = some n := by
  have hzeros : (List.replicate zeros '0').foldlM
      (fun m c => (digit? 16 c).map (m * 16 + ·)) 0 = some 0 := by
    induction zeros with
    | zero => rfl
    | succ zeros ih => exact ih
  unfold digits?
  rw [if_neg (by simp), List.foldlM_append, hzeros]
  exact foldlM_toDigits n

theorem isSome_digit?_of_mem {radix n : Nat} {cs : List Char} (h : digits? radix cs = some n)
    {c : Char} (hc : c ∈ cs) : (digit? radix c).isSome = true := by
  unfold digits? at h
  split at h
  · cases h
  · rename_i hne
    clear hne
    generalize (0 : Nat) = start at h
    induction cs generalizing start with
    | nil => cases hc
    | cons d cs ih =>
      rw [List.foldlM_cons] at h
      cases hd : digit? radix d with
      | none => rw [hd] at h; cases h
      | some value =>
        rcases List.mem_cons.1 hc with rfl | hc
        · rw [hd]; rfl
        · rw [hd] at h
          exact ih hc _ h

theorem toList_address (n : Nat) : ∃ cs, (address n).toList = '0' :: 'x' :: cs ∧
    digits? 16 cs = some n := by
  refine ⟨_, ?_, digits?_padded (4 - (Nat.toDigits 16 n).length) n⟩
  simp [address, padLeft]

theorem address_inj {m n : Nat} (h : address m = address n) : m = n := by
  obtain ⟨cs, hcs, hm⟩ := toList_address m
  obtain ⟨ds, hds, hn⟩ := toList_address n
  rw [h, hds] at hcs
  cases hcs
  exact Option.some.inj (hm.symm.trans hn)

/-- An address has hexadecimal digits only, after the mark. -/
theorem not_mem_address {c : Char} (hmark : c ∉ ['0', 'x']) (hdigit : digit? 16 c = none)
    (n : Nat) : c ∉ (address n).toList := by
  obtain ⟨cs, hcs, hn⟩ := toList_address n
  rw [hcs]
  intro hmem
  have hmem' : c ∈ ['0', 'x'] ++ cs := hmem
  rcases List.mem_append.1 hmem' with h | h
  · exact hmark h
  · have := isSome_digit?_of_mem hn h
    rw [hdigit] at this
    cases this

end FieldEngine.Text
