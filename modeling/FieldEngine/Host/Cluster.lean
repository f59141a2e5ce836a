import FieldEngine.Host.BreakClass

/-!
# User-perceived characters

A text is cut into clusters, each of which a reader takes for one character: a letter with its
marks, a syllable, a flag, a family of pictographs. Whether a character joins the one before it
depends on the classes of both, and in three cases on what stands further back: a flag takes two
halves, pictographs are joined by a joiner, consonants by a linker.

Main statement: nothing is lost or moved (`flatten_clusters`).
-/

namespace FieldEngine.Text

/-! ## What stands before -/

/-- How far a chain has come that a further link may join. -/
inductive Chain
  | none
  /-- A first member, perhaps with marks. -/
  | opened
  /-- A member with the mark that joins the next one. -/
  | linked
deriving DecidableEq

/-- What the rules need to know of the characters before a place. -/
structure Before where
  last : BreakClass
  /-- An odd number of flag halves stands right before the place. -/
  oddRegionals : Bool
  /-- Pictographs joined by a joiner. -/
  pictographs : Chain
  /-- Consonants joined by a linker. -/
  consonants : Chain
deriving DecidableEq

namespace Before

/-- Nothing but one character of a class. -/
def first (k : BreakClass) : Before where
  last := k
  oddRegionals := k == .regional
  pictographs := if k = .pictograph then .opened else .none
  consonants := if k = .consonant then .opened else .none

/-- A pictograph keeps its chain over marks up to one joiner. -/
def nextPictographs (chain : Chain) : BreakClass → Chain
  | .pictograph => .opened
  | .extend | .linker | .nonJoiner => if chain = .opened then .opened else .none
  | .joiner => if chain = .opened then .linked else .none
  | _ => .none

/-- A consonant keeps its chain over marks and any number of linkers. -/
def nextConsonants (chain : Chain) : BreakClass → Chain
  | .consonant => .opened
  | .extend | .joiner => chain
  | .linker => if chain = .none then .none else .linked
  | _ => .none

/-- One character of a class more. -/
def next (b : Before) (k : BreakClass) : Before where
  last := k
  oddRegionals := k == .regional && !b.oddRegionals
  pictographs := nextPictographs b.pictographs k
  consonants := nextConsonants b.consonants k

/-- A character of a class joins the one before it. -/
def joins (b : Before) (k : BreakClass) : Bool :=
  if b.last = .carriageReturn ∧ k = .lineFeed then true
  else if b.last.isControl || k.isControl then false
  else if k.isMark || b.last == .prepended then true
  else
    match k with
    | .leading | .openSyllable | .closedSyllable => b.last == .leading
    | .vowel => [.leading, .vowel, .openSyllable].contains b.last
    | .trailing => [.vowel, .openSyllable, .trailing, .closedSyllable].contains b.last
    | .consonant => b.consonants == .linked
    | .pictograph => b.pictographs == .linked
    | .regional => b.oddRegionals
    | _ => false

end Before

/-! ## Clusters -/

/-- Cut the rest of a text, given the cluster that is open, its latest character first, and the
clusters before it, the latest first. -/
def collect (b : Before) (current : List Char) (done : List (List Char)) :
    List Char → List (List Char)
  | [] => (current.reverse :: done).reverse
  | c :: cs =>
    let k := BreakClass.ofChar c
    if b.joins k then collect (b.next k) (c :: current) done cs
    else collect (b.next k) [c] (current.reverse :: done) cs

def clusters : List Char → List (List Char)
  | [] => []
  | c :: cs => collect (.first (.ofChar c)) [c] [] cs

/-! ## Lemmas -/

theorem flatten_collect (b : Before) (current : List Char) (done : List (List Char))
    (cs : List Char) :
    (collect b current done cs).flatten = done.reverse.flatten ++ current.reverse ++ cs := by
  induction cs generalizing b current done with
  | nil => simp [collect]
  | cons c cs ih =>
    simp only [collect]
    split
    · simp [ih]
    · simp [ih]

/-- The clusters hold the text. -/
theorem flatten_clusters (cs : List Char) : (clusters cs).flatten = cs := by
  cases cs with
  | nil => rfl
  | cons c cs => simp [clusters, flatten_collect]

end FieldEngine.Text
