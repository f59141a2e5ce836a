import FieldEngine.Console.Command

/-!
# Completion

The word under the cursor is completed from the words before it: a command word in first place, a
fixed choice after some commands, a file name after commands on files. Positions are counted in
bytes. The word starts one byte after the last blank before the cursor; where that is no character
boundary there is no completion at all.
-/

namespace FieldEngine.Completion

/-- A way to complete a word: what is shown, and what is put in its place. -/
structure Candidate where
  display : String
  replacement : String
deriving DecidableEq

/-! ## Positions -/

/-- The characters before and after a byte position, if it is a character boundary. -/
def cut? (pos : Nat) : List Char → Option (List Char × List Char)
  | [] => if pos = 0 then some ([], []) else none
  | c :: cs =>
    if pos = 0 then some ([], c :: cs)
    else if c.utf8Size ≤ pos then
      (cut? (pos - c.utf8Size) cs).map fun (before, after) => (c :: before, after)
    else none

def byteLength (cs : List Char) : Nat :=
  cs.foldr (fun c total => c.utf8Size + total) 0

/-- The characters up to and including the last that satisfies `p`. -/
def throughLast (p : Char → Bool) (cs : List Char) : List Char :=
  (cs.reverse.dropWhile fun c => !p c).reverse

/-- The byte position one after the start of the last blank, or zero. -/
def wordStart (before : List Char) : Nat :=
  match (throughLast Text.isBlank before).getLast? with
  | none => 0
  | some blank => byteLength (throughLast Text.isBlank before) - blank.utf8Size + 1

/-! ## Words -/

/-- The choices for the word after a command. -/
def arguments : List (String × List String) :=
  let banks := ["byte", "word", "long", "sbyte", "sword", "flag"]
  [("peek", banks), ("poke", banks), ("notify", ["dialogue", "anim", "timer"]),
   ("trace", ["on", "off", "json", "human", "dump", "focus"]), ("cancel", ["all"])]

def pathCommands : List String :=
  ["load", "save", "restore"]

/-- The words that start with some characters. -/
def matching (typed : List Char) (words : List String) : List Candidate :=
  (words.filter fun word => typed.isPrefixOf word.toList).map fun word => ⟨word, word⟩

/-! ## Lines -/

/-- The start of the word before a position of a line, and its completions. `paths` completes file
names at a position of a line. -/
def complete? (keywords : List String) (paths : String → Nat → Nat × List Candidate)
    (line : String) (pos : Nat) : Option (Nat × List Candidate) := do
  let (before, _) ← cut? pos line.toList
  let start := wordStart before
  let (previous, typed) ← cut? start before
  match (Text.wordsOf previous).map String.ofList with
  | [] => some (start, matching typed keywords)
  | [command] =>
    if pathCommands.contains command then some (paths line pos)
    else
      match arguments.find? fun entry => entry.1 == command with
      | some (_, words) => some (start, matching typed words)
      | none => some (start, [])
  | _ => some (start, [])

/-! ## Colours -/

/-- The prompt as the terminal shows it. -/
def promptText (prompt : String) (isDefault : Bool) : String :=
  if isDefault then s!"\x1b[1;36m{prompt}\x1b[0m" else prompt

def hintText (hint : String) : String :=
  s!"\x1b[2m{hint}\x1b[0m"

end FieldEngine.Completion
