import Mathlib.Algebra.Field.Rat
import FieldEngine.Proofs.Text.Words

/-!
# JSON texts

The grammar of RFC 8259, as a relation between a text, the value of what it starts with, and what
follows (`Json.Derives`). A whole text has a value if it is one value between spaces (`Json.Reads`).

    Reads s v → Reads s w → v = w                                             (Reads.unique)
    Reads s v → Legible s                                                     (Reads.legible)

A number is its exact value and a string is a list of characters: an escaped half of a surrogate
pair that stands alone is no character, so there is no value with one. The members of an object are
kept as they stand in the text, also those that have the same name.
-/

namespace FieldEngine

inductive Json
  | null
  | bool (b : Bool)
  | number (value : ℚ)
  | string (s : String)
  | array (items : List Json)
  | object (members : List (String × Json))

namespace Json

open FieldEngine.Text

/-! ## Spaces -/

/-- The characters that may stand between others. -/
def isSpace (c : Char) : Bool :=
  c == ' ' || c == '\t' || c == '\n' || c == '\r'

/-- Any number of spaces stand before the rest. -/
def Spaces (s t : List Char) : Prop :=
  ∃ blanks, (∀ c ∈ blanks, isSpace c = true) ∧ s = blanks ++ t

/-! ## Numbers -/

/-- One or more digits. -/
def Digits (cs : List Char) : Prop :=
  cs ≠ [] ∧ ∀ c ∈ cs, c.isDigit = true

/-- The text of a number: an optional minus, digits without a leading zero, and optionally a
fraction and an exponent. -/
structure IsNumber (minus whole fraction exponent : List Char) : Prop where
  minus_eq : minus = [] ∨ minus = ['-']
  whole_eq : whole = ['0'] ∨ Digits whole ∧ whole.head? ≠ some '0'
  fraction_eq : fraction = [] ∨ ∃ ds, fraction = '.' :: ds ∧ Digits ds
  exponent_eq : exponent = [] ∨ ∃ mark sign ds, exponent = mark :: (sign ++ ds) ∧
    (mark = 'e' ∨ mark = 'E') ∧ (sign = [] ∨ sign = ['+'] ∨ sign = ['-']) ∧ Digits ds

/-- The number that digits come to. -/
def natOf (ds : List Char) : Nat :=
  Nat.ofDigitChars 10 ds 0

/-- The number that digits with an optional sign come to. -/
def intOf : List Char → Int
  | '-' :: ds => -natOf ds
  | '+' :: ds => natOf ds
  | ds => natOf ds

/-- The value of the text of a number. -/
def valueOf (minus whole fraction exponent : List Char) : ℚ :=
  (if minus = [] then 1 else -1) * natOf (whole ++ fraction.drop 1) *
    10 ^ (intOf (exponent.drop 1) - (fraction.drop 1).length)

/-- A character of the text of a number. -/
def isNumeric (c : Char) : Bool :=
  c.isDigit || ['-', '+', '.', 'e', 'E'].contains c

/-! ## Strings -/

/-- A character that stands for itself in a string. -/
def isUnescaped (c : Char) : Bool :=
  0x20 ≤ c.toNat && c != '"' && c != '\\'

/-- The characters that stand for others after a backslash. -/
def escapes : List (Char × Char) :=
  [('"', '"'), ('\\', '\\'), ('/', '/'), ('b', '\x08'), ('f', '\x0c'), ('n', '\n'), ('r', '\r'),
   ('t', '\t')]

/-- The text after the first quote of a string, the characters of the string, and what follows its
last quote. A character beyond the first 65536 is escaped as a surrogate pair. -/
inductive Chars : List Char → List Char → List Char → Prop
  | close (t : List Char) : Chars ('"' :: t) [] t
  | plain {c : Char} {s m t : List Char} (hc : isUnescaped c = true) (h : Chars s m t) :
    Chars (c :: s) (c :: m) t
  | escaped {e c : Char} {s m t : List Char} (he : (e, c) ∈ escapes) (h : Chars s m t) :
    Chars ('\\' :: e :: s) (c :: m) t
  | code {d₁ d₂ d₃ d₄ : Char} {n : Nat} {s m t : List Char} (hn : Spells 16 n [d₁, d₂, d₃, d₄])
    (hvalid : n.isValidChar) (h : Chars s m t) :
    Chars ('\\' :: 'u' :: d₁ :: d₂ :: d₃ :: d₄ :: s) (Char.ofNat n :: m) t
  | pair {d₁ d₂ d₃ d₄ e₁ e₂ e₃ e₄ : Char} {high low : Nat} {s m t : List Char}
    (hhigh : Spells 16 (0xD800 + high) [d₁, d₂, d₃, d₄])
    (hlow : Spells 16 (0xDC00 + low) [e₁, e₂, e₃, e₄])
    (hh : high < 0x400) (hl : low < 0x400) (h : Chars s m t) :
    Chars ('\\' :: 'u' :: d₁ :: d₂ :: d₃ :: d₄ :: '\\' :: 'u' :: e₁ :: e₂ :: e₃ :: e₄ :: s)
      (Char.ofNat (0x10000 + high * 0x400 + low) :: m) t

/-! ## Values -/

/-- The parts of a text: a value, a member of an object, or what is left of an array or an object
from an item or a member on, with the closing bracket. -/
inductive Part
  | value
  | member
  | items
  | members

/-- A text starts with a part of some value, and is followed by the rest. A member is taken for an
object by itself, and so is what is left of an array or an object for an array or an object. -/
inductive Derives : Part → List Char → Json → List Char → Prop
  | nullWord (t : List Char) : Derives .value ('n' :: 'u' :: 'l' :: 'l' :: t) .null t
  | trueWord (t : List Char) : Derives .value ('t' :: 'r' :: 'u' :: 'e' :: t) (.bool true) t
  | falseWord (t : List Char) :
    Derives .value ('f' :: 'a' :: 'l' :: 's' :: 'e' :: t) (.bool false) t
  | number {s minus whole fraction exponent t : List Char}
    (hs : s = minus ++ (whole ++ (fraction ++ (exponent ++ t))))
    (h : IsNumber minus whole fraction exponent) :
    Derives .value s (.number (valueOf minus whole fraction exponent)) t
  | string {s m t : List Char} (h : Chars s m t) :
    Derives .value ('"' :: s) (.string (String.ofList m)) t
  | emptyArray {s t : List Char} (h : Spaces s (']' :: t)) : Derives .value ('[' :: s) (.array []) t
  | array {s u t : List Char} {items : List Json} (hs : Spaces s u)
    (h : Derives .items u (.array items) t) : Derives .value ('[' :: s) (.array items) t
  | emptyObject {s t : List Char} (h : Spaces s ('\x7d' :: t)) :
    Derives .value ('\x7b' :: s) (.object []) t
  | object {s u t : List Char} {members : List (String × Json)} (hs : Spaces s u)
    (h : Derives .members u (.object members) t) : Derives .value ('\x7b' :: s) (.object members) t
  | lastItem {s u t : List Char} {v : Json} (hv : Derives .value s v u)
    (hend : Spaces u (']' :: t)) : Derives .items s (.array [v]) t
  | nextItem {s u u' x t : List Char} {v : Json} {items : List Json} (hv : Derives .value s v u)
    (hcomma : Spaces u (',' :: u')) (hnext : Spaces u' x) (h : Derives .items x (.array items) t) :
    Derives .items s (.array (v :: items)) t
  | member {s m u u' x t : List Char} {v : Json} (hm : Chars s m u) (hcolon : Spaces u (':' :: u'))
    (hvalue : Spaces u' x) (hv : Derives .value x v t) :
    Derives .member ('"' :: s) (.object [(String.ofList m, v)]) t
  | lastMember {s u t : List Char} {m : String × Json} (hm : Derives .member s (.object [m]) u)
    (hend : Spaces u ('\x7d' :: t)) : Derives .members s (.object [m]) t
  | nextMember {s u u' x t : List Char} {m : String × Json} {members : List (String × Json)}
    (hm : Derives .member s (.object [m]) u) (hcomma : Spaces u (',' :: u')) (hnext : Spaces u' x)
    (h : Derives .members x (.object members) t) : Derives .members s (.object (m :: members)) t

/-- The text is one value, with spaces around it. -/
def Reads (text : String) (v : Json) : Prop :=
  ∃ s t, Spaces text.toList s ∧ Derives .value s v t ∧ Spaces t []

/-! ## One way to read -/

theorem spaces_refl (s : List Char) : Spaces s s :=
  ⟨[], by simp, rfl⟩

theorem Spaces.unique {s t u : List Char} (ht : Spaces s t) (hu : Spaces s u)
    (hstop : Stops isSpace t) (hstop' : Stops isSpace u) : t = u := by
  obtain ⟨a, ha, rfl⟩ := ht
  obtain ⟨b, hb, heq⟩ := hu
  exact (append_inj_of_stops ha hb hstop hstop' heq).2

theorem spelled_unique {n n' : Nat} {cs : List Char} (h : Spells 16 n cs) (h' : Spells 16 n' cs) :
    n = n' :=
  Option.some.inj ((digits?_of_spells (by decide) h).symm.trans (digits?_of_spells (by decide) h'))

theorem escapes_unique : ∀ a ∈ escapes, a.1 ≠ 'u' ∧ ∀ b ∈ escapes, a.1 = b.1 → a.2 = b.2 := by
  decide

theorem Chars.unique {s m t m' t' : List Char} (h : Chars s m t) (h' : Chars s m' t') :
    m = m' ∧ t = t' := by
  induction h generalizing m' t' with
  | close t =>
    cases h' with
    | close => exact ⟨rfl, rfl⟩
    | plain hc => exact absurd hc (by decide)
  | plain hc h ih =>
    cases h' with
    | close => exact absurd hc (by decide)
    | plain hc' h' =>
      obtain ⟨rfl, rfl⟩ := ih h'
      exact ⟨rfl, rfl⟩
    | escaped => exact absurd hc (by decide)
    | code => exact absurd hc (by decide)
    | pair => exact absurd hc (by decide)
  | escaped he h ih =>
    cases h' with
    | plain hc => exact absurd hc (by decide)
    | escaped he' h' =>
      obtain ⟨rfl, rfl⟩ := ih h'
      obtain rfl := (escapes_unique _ he).2 _ he' rfl
      exact ⟨rfl, rfl⟩
    | code => exact absurd rfl (escapes_unique _ he).1
    | pair => exact absurd rfl (escapes_unique _ he).1
  | code hn hvalid h ih =>
    cases h' with
    | plain hc => exact absurd hc (by decide)
    | escaped he => exact absurd rfl (escapes_unique _ he).1
    | code hn' hvalid' h' =>
      obtain ⟨rfl, rfl⟩ := ih h'
      rw [spelled_unique hn hn']
      exact ⟨rfl, rfl⟩
    | pair hhigh _ hh =>
      have hsame := spelled_unique hn hhigh
      have hrange : _ < 0xD800 ∨ 0xDFFF < _ ∧ _ < 0x110000 := hvalid
      omega
  | pair hhigh hlow hh hl h ih =>
    cases h' with
    | plain hc => exact absurd hc (by decide)
    | escaped he => exact absurd rfl (escapes_unique _ he).1
    | code hn hvalid =>
      have hsame := spelled_unique hn hhigh
      have hrange : _ < 0xD800 ∨ 0xDFFF < _ ∧ _ < 0x110000 := hvalid
      omega
    | pair hhigh' hlow' _ _ h' =>
      obtain ⟨rfl, rfl⟩ := ih h'
      have hhighs := spelled_unique hhigh hhigh'
      have hlows := spelled_unique hlow hlow'
      rw [Nat.add_left_cancel hhighs, Nat.add_left_cancel hlows]
      exact ⟨rfl, rfl⟩

/-! ### Numbers -/

theorem isNumeric_of_isDigit {c : Char} (h : c.isDigit = true) : isNumeric c = true := by
  simp [isNumeric, h]

section Numbers

variable {minus whole fraction exponent minus' whole' fraction' exponent' t t' : List Char}

namespace IsNumber

theorem digits_whole (h : IsNumber minus whole fraction exponent) : Digits whole := by
  rcases h.whole_eq with rfl | ⟨hdigits, -⟩
  · exact ⟨by simp, List.all_eq_true.1 rfl⟩
  · exact hdigits

/-- After the digits of an exponent. -/
theorem stops_exponent (h : IsNumber minus whole fraction exponent) (ht : Stops isNumeric t) :
    Stops Char.isDigit (exponent ++ t) := by
  rcases h.exponent_eq with rfl | ⟨mark, sign, ds, rfl, hmark, -⟩
  · exact ht.mono fun c => isNumeric_of_isDigit
  · rcases hmark with rfl | rfl <;> exact stops_cons (by decide) _

/-- After the digits before the point. -/
theorem stops_fraction (h : IsNumber minus whole fraction exponent) (ht : Stops isNumeric t) :
    Stops Char.isDigit (fraction ++ (exponent ++ t)) := by
  rcases h.fraction_eq with rfl | ⟨ds, rfl, -⟩
  · exact h.stops_exponent ht
  · exact stops_cons (by decide) _

end IsNumber

/-- A piece that may be missing is there on both sides or on none, if it starts as the rest does
not. -/
theorem optional_unique {p : Char → Bool} {a a' t t' : List Char} (ha : ∀ c ∈ a.head?, p c = true)
    (ha' : ∀ c ∈ a'.head?, p c = true) (ht : Stops p t) (ht' : Stops p t')
    (heq : a ++ t = a' ++ t') :
    a = [] ∧ a' = [] ∧ t = t' ∨
      ∃ c b b', a = c :: b ∧ a' = c :: b' ∧ b ++ t = b' ++ t' := by
  cases a with
  | nil =>
    cases a' with
    | nil => exact .inl ⟨rfl, rfl, heq⟩
    | cons c b' =>
      rw [List.nil_append, List.cons_append] at heq
      rw [heq, stops_cons_iff, ha' c rfl] at ht
      cases ht
  | cons c b =>
    cases a' with
    | nil =>
      rw [List.nil_append, List.cons_append] at heq
      rw [← heq, stops_cons_iff, ha c rfl] at ht'
      cases ht'
    | cons c' b' =>
      obtain ⟨rfl, hrest⟩ := List.cons.inj heq
      exact .inr ⟨c, b, b', rfl, rfl, hrest⟩

theorem Digits.unique {ds ds' t t' : List Char} (h : Digits ds) (h' : Digits ds')
    (ht : Stops Char.isDigit t) (ht' : Stops Char.isDigit t') (heq : ds ++ t = ds' ++ t') :
    ds = ds' ∧ t = t' :=
  append_inj_of_stops h.2 h'.2 ht ht' heq

theorem Digits.stops {ds : List Char} (h : Digits ds) {p : Char → Bool}
    (hp : ∀ c, c.isDigit = true → p c = false) (t : List Char) : Stops p (ds ++ t) := by
  cases ds with
  | nil => exact absurd rfl h.1
  | cons c ds => exact stops_cons (hp c (h.2 c (by simp))) _

/-- A sign and the digits after it. -/
theorem signed_unique {p : Char → Bool} (hp : ∀ c, c.isDigit = true → p c = false)
    {a a' ds ds' t t' : List Char} (ha : ∀ c ∈ a, p c = true) (ha' : ∀ c ∈ a', p c = true)
    (h : Digits ds) (h' : Digits ds') (ht : Stops Char.isDigit t) (ht' : Stops Char.isDigit t')
    (heq : a ++ (ds ++ t) = a' ++ (ds' ++ t')) : a = a' ∧ ds = ds' ∧ t = t' := by
  obtain ⟨hsign, hrest⟩ := append_inj_of_stops ha ha' (h.stops hp t) (h'.stops hp t') heq
  exact ⟨hsign, h.unique h' ht ht' hrest⟩

namespace IsNumber

theorem exponent_unique (h : IsNumber minus whole fraction exponent)
    (h' : IsNumber minus' whole' fraction' exponent') (ht : Stops isNumeric t)
    (ht' : Stops isNumeric t') (heq : exponent ++ t = exponent' ++ t') :
    exponent = exponent' ∧ t = t' := by
  have hhead : ∀ {minus whole fraction exponent : List Char},
      IsNumber minus whole fraction exponent → ∀ c ∈ exponent.head?, isNumeric c = true := by
    intro minus whole fraction exponent h c hc
    rcases h.exponent_eq with rfl | ⟨mark, sign, ds, rfl, rfl | rfl, -⟩ <;> cases hc <;> decide
  obtain ⟨rfl, rfl, rfl⟩ | ⟨c, b, b', rfl, rfl, hrest⟩ :=
    optional_unique (hhead h) (hhead h') ht ht' heq
  · exact ⟨rfl, rfl⟩
  · obtain hnil | ⟨mark, sign, ds, hb, -, hsign, hds⟩ := h.exponent_eq
    · cases hnil
    obtain hnil | ⟨mark', sign', ds', hb', -, hsign', hds'⟩ := h'.exponent_eq
    · cases hnil
    cases hb
    cases hb'
    have hall : ∀ {a : List Char}, a = [] ∨ a = ['+'] ∨ a = ['-'] →
        ∀ c ∈ a, (c == '+' || c == '-') = true := by
      rintro a (rfl | rfl | rfl) <;> exact List.all_eq_true.1 rfl
    have hdigit : ∀ c : Char, c.isDigit = true → (c == '+' || c == '-') = false := by
      intro c hc
      cases hno : c == '+' || c == '-' with
      | false => rfl
      | true =>
        rcases Bool.or_eq_true_iff.1 hno with hc' | hc' <;> rw [eq_of_beq hc'] at hc <;> cases hc
    have hstop : ∀ {t : List Char}, Stops isNumeric t → Stops Char.isDigit t :=
      fun h => h.mono fun c => isNumeric_of_isDigit
    rw [List.append_assoc, List.append_assoc] at hrest
    obtain ⟨rfl, rfl, rfl⟩ := signed_unique hdigit (hall hsign) (hall hsign') hds hds' (hstop ht)
      (hstop ht') hrest
    exact ⟨rfl, rfl⟩

/-- There is one way to read a number. -/
theorem unique (h : IsNumber minus whole fraction exponent)
    (h' : IsNumber minus' whole' fraction' exponent') (ht : Stops isNumeric t)
    (ht' : Stops isNumeric t') (heq : minus ++ (whole ++ (fraction ++ (exponent ++ t))) =
      minus' ++ (whole' ++ (fraction' ++ (exponent' ++ t')))) :
    minus = minus' ∧ whole = whole' ∧ fraction = fraction' ∧ exponent = exponent' ∧ t = t' := by
  have hminus : ∀ {a : List Char}, a = [] ∨ a = ['-'] → ∀ c ∈ a, (c == '-') = true := by
    rintro a (rfl | rfl) <;> exact List.all_eq_true.1 rfl
  have hdigit : ∀ c : Char, c.isDigit = true → (c == '-') = false := by
    intro c hc
    apply beq_false_of_ne
    rintro rfl
    cases hc
  obtain ⟨rfl, rfl, hrest⟩ := signed_unique hdigit (hminus h.minus_eq) (hminus h'.minus_eq)
    h.digits_whole h'.digits_whole (h.stops_fraction ht) (h'.stops_fraction ht') heq
  have hpoint : ∀ {minus whole fraction exponent : List Char},
      IsNumber minus whole fraction exponent → ∀ c ∈ fraction.head?, (c == '.') = true := by
    intro minus whole fraction exponent h c hc
    rcases h.fraction_eq with rfl | ⟨ds, rfl, -⟩ <;> cases hc
    decide
  have hstop : ∀ {minus whole fraction exponent t : List Char},
      IsNumber minus whole fraction exponent → Stops isNumeric t →
        Stops (· == '.') (exponent ++ t) := by
    intro minus whole fraction exponent t h ht
    rcases h.exponent_eq with rfl | ⟨mark, sign, ds, rfl, rfl | rfl, -⟩
    · exact ht.mono fun c hc => by rw [eq_of_beq hc]; decide
    · exact stops_cons (by decide) _
    · exact stops_cons (by decide) _
  obtain ⟨rfl, rfl, htail⟩ | ⟨c, b, b', rfl, rfl, htail⟩ :=
    optional_unique (hpoint h) (hpoint h') (hstop h ht) (hstop h' ht') hrest
  · exact ⟨rfl, rfl, rfl, h.exponent_unique h' ht ht' htail⟩
  · obtain hnil | ⟨ds, hb, hds⟩ := h.fraction_eq
    · cases hnil
    obtain hnil | ⟨ds', hb', hds'⟩ := h'.fraction_eq
    · cases hnil
    cases hb
    cases hb'
    obtain ⟨rfl, hend⟩ := hds.unique hds' (h.stops_exponent ht) (h'.stops_exponent ht') htail
    exact ⟨rfl, rfl, rfl, h.exponent_unique h' ht ht' hend⟩

end IsNumber

end Numbers

/-! ### Values -/

theorem IsNumber.head {minus whole fraction exponent t r : List Char} {c : Char}
    (h : IsNumber minus whole fraction exponent)
    (hs : c :: r = minus ++ (whole ++ (fraction ++ (exponent ++ t)))) :
    (c == '-' || c.isDigit) = true := by
  rcases h.minus_eq with rfl | rfl
  · cases hwhole : whole with
    | nil => exact absurd hwhole h.digits_whole.1
    | cons d ds =>
      rw [hwhole] at hs
      have hd := h.digits_whole.2 d (by simp [hwhole])
      rw [(List.cons.inj hs).1, hd, Bool.or_true]
  · rw [(List.cons.inj hs).1]
    rfl

/-- What a part can start with: no space, and no bracket that would close it. -/
theorem Derives.head {p : Part} {s t : List Char} {v : Json} (h : Derives p s v t) :
    ∃ c r, s = c :: r ∧ isSpace c = false ∧ c ≠ ']' ∧ c ≠ '\x7d' := by
  induction h with
  | nullWord | trueWord | falseWord | string | emptyArray | array | emptyObject | object
  | member => exact ⟨_, _, rfl, by decide⟩
  | @number s minus whole fraction exponent t hs h =>
    cases s with
    | nil =>
      have hlength := congrArg List.length hs
      have hpos := List.length_pos_iff.2 h.digits_whole.1
      simp at hlength
      omega
    | cons c r =>
      have hc := h.head hs
      refine ⟨c, r, rfl, ?_, ?_, ?_⟩
      · cases hspace : isSpace c with
        | false => rfl
        | true =>
          simp [isSpace] at hspace
          rcases hspace with ((rfl | rfl) | rfl) | rfl <;> cases hc
      · rintro rfl
        cases hc
      · rintro rfl
        cases hc
  | lastItem _ _ ih | lastMember _ _ ih => exact ih
  | nextItem _ _ _ _ ih | nextMember _ _ _ _ ih => exact ih

theorem Derives.stops {p : Part} {s t : List Char} {v : Json} (h : Derives p s v t) :
    Stops isSpace s := by
  obtain ⟨c, r, rfl, hc, -⟩ := h.head
  exact stops_cons hc r

/-- Spaces end a number, if what follows them does. -/
theorem Spaces.stops {s t : List Char} (h : Spaces s t) (ht : Stops isNumeric t) :
    Stops isNumeric s := by
  obtain ⟨blanks, hblanks, rfl⟩ := h
  cases blanks with
  | nil => exact ht
  | cons d blanks =>
    apply stops_cons
    have hd := hblanks d (by simp)
    simp [isSpace] at hd
    rcases hd with ((rfl | rfl) | rfl) | rfl <;> decide

/-- Of two structural characters after spaces, the same is found. -/
theorem Spaces.cons_unique {s t u : List Char} {c d : Char} (h : Spaces s (c :: t))
    (h' : Spaces s (d :: u)) (hc : isSpace c = false) (hd : isSpace d = false) : c = d ∧ t = u :=
  List.cons.inj (h.unique h' (stops_cons hc t) (stops_cons hd u))

/-- Where an item or a member starts, no bracket closes the array or object. -/
theorem Derives.not_closed {p : Part} {s u t t' : List Char} {v : Json} {c : Char}
    (h : Derives p u v t') (hs : Spaces s u) (hend : Spaces s (c :: t)) (hc : isSpace c = false) :
    c ≠ ']' ∧ c ≠ '\x7d' := by
  obtain ⟨d, r, rfl, hd, hclosed⟩ := h.head
  rwa [(hend.cons_unique hs hc hd).1]

/-- **There is one way to read a text**, if no number can go on after it. -/
theorem Derives.unique {p : Part} {s t u : List Char} {v w : Json} (h : Derives p s v t)
    (h' : Derives p s w u) (ht : Stops isNumeric t) (hu : Stops isNumeric u) : v = w ∧ t = u := by
  induction h generalizing w u with
  | nullWord =>
    cases h' with
    | nullWord => exact ⟨rfl, rfl⟩
    | number hs hn => exact absurd (hn.head hs) (by decide)
  | trueWord =>
    cases h' with
    | trueWord => exact ⟨rfl, rfl⟩
    | number hs hn => exact absurd (hn.head hs) (by decide)
  | falseWord =>
    cases h' with
    | falseWord => exact ⟨rfl, rfl⟩
    | number hs hn => exact absurd (hn.head hs) (by decide)
  | number hs hn =>
    cases h' with
    | nullWord | trueWord | falseWord | string | emptyArray | array | emptyObject | object =>
      exact absurd (hn.head hs) (by decide)
    | number hs' hn' =>
      obtain ⟨rfl, rfl, rfl, rfl, rfl⟩ := hn.unique hn' ht hu (hs.symm.trans hs')
      exact ⟨rfl, rfl⟩
  | string hm =>
    cases h' with
    | number hs hn => exact absurd (hn.head hs) (by decide)
    | string hm' =>
      obtain ⟨rfl, rfl⟩ := hm.unique hm'
      exact ⟨rfl, rfl⟩
  | emptyArray hend =>
    cases h' with
    | number hs hn => exact absurd (hn.head hs) (by decide)
    | emptyArray hend' => exact ⟨rfl, (hend.cons_unique hend' (by decide) (by decide)).2⟩
    | array hs h' => exact absurd rfl (h'.not_closed hs hend (by decide)).1
  | array hs h ih =>
    cases h' with
    | number hs hn => exact absurd (hn.head hs) (by decide)
    | emptyArray hend => exact absurd rfl (h.not_closed hs hend (by decide)).1
    | array hs' h' =>
      obtain rfl := hs.unique hs' h.stops h'.stops
      exact ih h' ht hu
  | emptyObject hend =>
    cases h' with
    | number hs hn => exact absurd (hn.head hs) (by decide)
    | emptyObject hend' => exact ⟨rfl, (hend.cons_unique hend' (by decide) (by decide)).2⟩
    | object hs h' => exact absurd rfl (h'.not_closed hs hend (by decide)).2
  | object hs h ih =>
    cases h' with
    | number hs hn => exact absurd (hn.head hs) (by decide)
    | emptyObject hend => exact absurd rfl (h.not_closed hs hend (by decide)).2
    | object hs' h' =>
      obtain rfl := hs.unique hs' h.stops h'.stops
      exact ih h' ht hu
  | lastItem hv hend ih =>
    cases h' with
    | lastItem hv' hend' =>
      obtain ⟨rfl, rfl⟩ := ih hv' (hend.stops rfl) (hend'.stops rfl)
      exact ⟨rfl, (hend.cons_unique hend' (by decide) (by decide)).2⟩
    | nextItem hv' hcomma' =>
      obtain ⟨rfl, rfl⟩ := ih hv' (hend.stops rfl) (hcomma'.stops rfl)
      exact absurd (hend.cons_unique hcomma' (by decide) (by decide)).1 (by decide)
  | nextItem hv hcomma hnext h ihv ih =>
    cases h' with
    | lastItem hv' hend' =>
      obtain ⟨rfl, rfl⟩ := ihv hv' (hcomma.stops rfl) (hend'.stops rfl)
      exact absurd (hcomma.cons_unique hend' (by decide) (by decide)).1 (by decide)
    | nextItem hv' hcomma' hnext' h' =>
      obtain ⟨rfl, rfl⟩ := ihv hv' (hcomma.stops rfl) (hcomma'.stops rfl)
      obtain ⟨-, rfl⟩ := hcomma.cons_unique hcomma' (by decide) (by decide)
      obtain rfl := hnext.unique hnext' h.stops h'.stops
      obtain ⟨hitems, rfl⟩ := ih h' ht hu
      cases hitems
      exact ⟨rfl, rfl⟩
  | member hm hcolon hvalue hv ih =>
    cases h' with
    | member hm' hcolon' hvalue' hv' =>
      obtain ⟨rfl, rfl⟩ := hm.unique hm'
      obtain ⟨-, rfl⟩ := hcolon.cons_unique hcolon' (by decide) (by decide)
      obtain rfl := hvalue.unique hvalue' hv.stops hv'.stops
      obtain ⟨rfl, rfl⟩ := ih hv' ht hu
      exact ⟨rfl, rfl⟩
  | lastMember hm hend ih =>
    cases h' with
    | lastMember hm' hend' =>
      obtain ⟨hsame, rfl⟩ := ih hm' (hend.stops rfl) (hend'.stops rfl)
      exact ⟨hsame, (hend.cons_unique hend' (by decide) (by decide)).2⟩
    | nextMember hm' hcomma' =>
      obtain ⟨-, rfl⟩ := ih hm' (hend.stops rfl) (hcomma'.stops rfl)
      exact absurd (hend.cons_unique hcomma' (by decide) (by decide)).1 (by decide)
  | nextMember hm hcomma hnext h ihm ih =>
    cases h' with
    | lastMember hm' hend' =>
      obtain ⟨-, rfl⟩ := ihm hm' (hcomma.stops rfl) (hend'.stops rfl)
      exact absurd (hcomma.cons_unique hend' (by decide) (by decide)).1 (by decide)
    | nextMember hm' hcomma' hnext' h' =>
      obtain ⟨hsame, rfl⟩ := ihm hm' (hcomma.stops rfl) (hcomma'.stops rfl)
      obtain ⟨-, rfl⟩ := hcomma.cons_unique hcomma' (by decide) (by decide)
      obtain rfl := hnext.unique hnext' h.stops h'.stops
      obtain ⟨hmembers, rfl⟩ := ih h' ht hu
      cases hsame
      cases hmembers
      exact ⟨rfl, rfl⟩

/-- A text reads as one value only. -/
theorem Reads.unique {text : String} {v w : Json} (h : Reads text v) (h' : Reads text w) :
    v = w := by
  obtain ⟨s, t, hs, hv, ht⟩ := h
  obtain ⟨s', t', hs', hw, ht'⟩ := h'
  obtain rfl := hs.unique hs' hv.stops hw.stops
  exact (hv.unique hw (ht.stops rfl) (ht'.stops rfl)).1

/-! ## Characters -/

/-- A character that may stand in a text: no control character but those that are spaces. -/
def isLegible (c : Char) : Bool :=
  0x20 ≤ c.toNat || isSpace c

/-- All characters of a text may stand in it. -/
def Legible (s : String) : Prop :=
  ∀ c ∈ s.toList, isLegible c = true

instance (s : String) : Decidable (Legible s) :=
  List.decidableBAll (isLegible · = true) s.toList

theorem isLegible_of_isUnescaped {c : Char} (h : isUnescaped c = true) : isLegible c = true := by
  simp only [isUnescaped, Bool.and_eq_true] at h
  simp [isLegible, h.1.1]

theorem isLegible_of_isDigit {c : Char} (h : c.isDigit = true) : isLegible c = true := by
  have hc : 48 ≤ c.toNat := (Char.isDigit_iff_toNat.1 h).1
  simp [isLegible, Nat.le_trans (by decide : 32 ≤ 48) hc]

theorem isLegible_of_isNumeric {c : Char} (h : isNumeric c = true) : isLegible c = true := by
  rcases Bool.or_eq_true_iff.1 h with hc | hc
  · exact isLegible_of_isDigit hc
  · have hall : ['-', '+', '.', 'e', 'E'].all isLegible = true := by decide
    exact List.all_eq_true.1 hall c (List.contains_iff_mem.1 hc)

theorem isLegible_of_digit {c : Char} {d : Nat} (h : Digit 16 c d) : isLegible c = true := by
  have hall : ∀ d < 16, isLegible (Nat.digitChar d) = true ∧
      isLegible (Nat.digitChar d).toUpper = true := by decide
  obtain ⟨hd, rfl | rfl⟩ := h
  · exact (hall d hd).1
  · exact (hall d hd).2

/-- The characters of a text that are not of the rest are legible. -/
def Clear (s t : List Char) : Prop :=
  ∀ c ∈ s, isLegible c = true ∨ c ∈ t

namespace Clear

variable {a s t u : List Char}

theorem append (ha : ∀ c ∈ a, isLegible c = true) (h : Clear s t) : Clear (a ++ s) t := by
  intro c hc
  rcases List.mem_append.1 hc with hc | hc
  · exact .inl (ha c hc)
  · exact h c hc

theorem literal (a : List Char) (ha : a.all isLegible = true) (h : Clear s t) : Clear (a ++ s) t :=
  append (List.all_eq_true.1 ha) h

theorem refl (t : List Char) : Clear t t :=
  fun _ => .inr

theorem trans (h : Clear s t) (h' : Clear t u) : Clear s u := by
  intro c hc
  rcases h c hc with hc | hc
  · exact .inl hc
  · exact h' c hc

/-- Up to a structural character, and from there on. -/
theorem trans_cons {c : Char} (h : Clear s (c :: t)) (hc : isLegible c = true) (h' : Clear t u) :
    Clear s u :=
  h.trans (append (a := [c]) (by simpa using hc) h')

end Clear

theorem Spaces.clear {s t : List Char} (h : Spaces s t) : Clear s t := by
  obtain ⟨blanks, hblanks, rfl⟩ := h
  exact Clear.append (fun c hc => by simp [isLegible, hblanks c hc]) (Clear.refl t)

theorem spelled_legible {n : Nat} {cs : List Char} (h : Spells 16 n cs) :
    ∀ c ∈ cs, isLegible c = true := by
  intro c hc
  obtain ⟨d, hd⟩ := h.digit_of_mem hc
  exact isLegible_of_digit hd

theorem Chars.clear {s m t : List Char} (h : Chars s m t) : Clear s t := by
  -- the mark of a code
  have hmark : ∀ c ∈ ['\\', 'u'], isLegible c = true := List.all_eq_true.1 rfl
  induction h with
  | close t => exact .literal ['"'] rfl (.refl t)
  | @plain c s m t hc h ih =>
    exact .append (a := [c]) (by simpa using isLegible_of_isUnescaped hc) ih
  | @escaped e c s m t he h ih =>
    have hall : ∀ a ∈ escapes, isLegible a.1 = true := by decide
    exact .append (a := ['\\', e]) (by simpa using ⟨by decide, hall _ he⟩) ih
  | code hn hvalid h ih => exact .append hmark (.append (spelled_legible hn) ih)
  | pair hhigh hlow hh hl h ih =>
    exact .append hmark (.append (spelled_legible hhigh) (.append hmark
      (.append (spelled_legible hlow) ih)))

theorem IsNumber.numeric {minus whole fraction exponent : List Char}
    (h : IsNumber minus whole fraction exponent) :
    ∀ c ∈ minus ++ (whole ++ (fraction ++ exponent)), isNumeric c = true := by
  have hdigits : ∀ {ds : List Char}, Digits ds → ∀ c ∈ ds, isNumeric c = true :=
    fun hds c hc => isNumeric_of_isDigit (hds.2 c hc)
  have hminus : ∀ c ∈ minus, isNumeric c = true := by
    rcases h.minus_eq with rfl | rfl <;> exact List.all_eq_true.1 rfl
  have hfraction : ∀ c ∈ fraction, isNumeric c = true := by
    rcases h.fraction_eq with rfl | ⟨ds, rfl, hds⟩
    · simp
    · exact List.forall_mem_cons.2 ⟨by decide, hdigits hds⟩
  have hexponent : ∀ c ∈ exponent, isNumeric c = true := by
    rcases h.exponent_eq with rfl | ⟨mark, sign, ds, rfl, hmark, hsign, hds⟩
    · simp
    · refine List.forall_mem_cons.2 ⟨?_, List.forall_mem_append.2 ⟨?_, hdigits hds⟩⟩
      · rcases hmark with rfl | rfl <;> decide
      · rcases hsign with rfl | rfl | rfl <;> exact List.all_eq_true.1 rfl
  exact List.forall_mem_append.2 ⟨hminus, List.forall_mem_append.2 ⟨hdigits h.digits_whole,
    List.forall_mem_append.2 ⟨hfraction, hexponent⟩⟩⟩

theorem Derives.clear {p : Part} {s t : List Char} {v : Json} (h : Derives p s v t) :
    Clear s t := by
  induction h with
  | nullWord t => exact .literal ['n', 'u', 'l', 'l'] rfl (.refl t)
  | trueWord t => exact .literal ['t', 'r', 'u', 'e'] rfl (.refl t)
  | falseWord t => exact .literal ['f', 'a', 'l', 's', 'e'] rfl (.refl t)
  | @number s minus whole fraction exponent t hs h =>
    have hnumeric := Clear.append (fun c hc => isLegible_of_isNumeric (h.numeric c hc)) (.refl t)
    rwa [List.append_assoc, List.append_assoc, List.append_assoc, ← hs] at hnumeric
  | string hm => exact .literal ['"'] rfl hm.clear
  | emptyArray hend =>
    exact .literal ['['] rfl (hend.clear.trans_cons (by decide) (.refl _))
  | array hs h ih => exact .literal ['['] rfl (hs.clear.trans ih)
  | emptyObject hend =>
    exact .literal ['\x7b'] rfl (hend.clear.trans_cons (by decide) (.refl _))
  | object hs h ih => exact .literal ['\x7b'] rfl (hs.clear.trans ih)
  | lastItem hv hend ih | lastMember hm hend ih =>
    exact ih.trans (hend.clear.trans_cons (by decide) (.refl _))
  | nextItem hv hcomma hnext h ihv ih | nextMember hm hcomma hnext h ihv ih =>
    exact ihv.trans (hcomma.clear.trans_cons (by decide) (hnext.clear.trans ih))
  | member hm hcolon hvalue hv ih =>
    exact .literal ['"'] rfl
      (hm.clear.trans (hcolon.clear.trans_cons (by decide) (hvalue.clear.trans ih)))

/-- A text that has a value is legible. -/
theorem Reads.legible {text : String} {v : Json} (h : Reads text v) : Legible text := by
  obtain ⟨s, t, hs, hv, ht⟩ := h
  intro c hc
  simpa using (hs.clear.trans (hv.clear.trans ht.clear)) c hc

end Json

end FieldEngine
