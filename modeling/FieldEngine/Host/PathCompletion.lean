import FieldEngine.Console.Completion

/-!
# Completion of file names

File names may be quoted, or have special characters escaped by a backslash, as in a shell.
-/

namespace FieldEngine.Completion

/-- Whether and how a file name is quoted. -/
inductive Quote
  | none
  | double
  | single
deriving DecidableEq

/-- Where a scan for quotes stands. -/
inductive Scan
  | plain
  | escaped
  | double
  | doubleEscaped
  | single
deriving DecidableEq

/-- A character in a scan for quotes. -/
def Scan.next : Scan → Char → Scan
  | .plain, '"' => .double
  | .plain, '\\' => .escaped
  | .plain, '\'' => .single
  | .plain, _ => .plain
  | .escaped, _ => .plain
  | .double, '"' => .plain
  | .double, '\\' => .doubleEscaped
  | .double, _ => .double
  | .doubleEscaped, _ => .double
  | .single, '\'' => .plain
  | .single, _ => .single

/-- The quote that is open at the end, with the characters up to and including its mark. -/
def openQuote (scan : Scan) (seen opened : List Char) : List Char → Quote × List Char
  | [] =>
    match scan with
    | .double | .doubleEscaped => (.double, opened)
    | .single => (.single, opened)
    | .plain | .escaped => (.none, [])
  | c :: cs =>
    let seen := seen ++ [c]
    let after := scan.next c
    let opens := scan = .plain ∧ (after = .double ∨ after = .single)
    openQuote after seen (if opens then seen else opened) cs

/-- Characters that end a file name unless they are escaped. -/
def isBreak (c : Char) : Bool :=
  [' ', '\t', '\n', '"', '\\', '\'', '\x60', '@', '$', '>', '<', '=', ';', '|', '&', '\x7b', '(',
   '\x00'].contains c

/-- Characters that are escaped between double quotes. -/
def isSpecial (c : Char) : Bool :=
  ['"', '$', '\\', '\x60'].contains c

/-- The length of the last word of a reversed text: back to a break that is not escaped. -/
def wordLength : List Char → Nat
  | [] => 0
  | [c] => if isBreak c then 0 else 1
  | c :: '\\' :: cs => if isBreak c then 2 + wordLength cs else 1 + wordLength ('\\' :: cs)
  | c :: cs => if isBreak c then 0 else 1 + wordLength cs

/-- A text without its escapes. -/
def unescape : List Char → List Char
  | [] => []
  | ['\\'] => []
  | '\\' :: c :: cs => c :: unescape cs
  | c :: cs => c :: unescape cs

def escape (special : Char → Bool) (cs : List Char) : List Char :=
  cs.flatMap fun c => if special c then ['\\', c] else [c]

/-- A file name as it is put on the line. -/
def quoteName (quote : Quote) (cs : List Char) : List Char :=
  match quote with
  | .none => escape isBreak cs
  | .double => escape isSpecial cs
  | .single => cs

/-- The file names that complete a path. `list` gives the names in a directory, in order. -/
def fileCandidates (list : String → List (String × Bool)) (quote : Quote) (path : List Char) :
    List Candidate :=
  let directory := throughLast (· == '/') path
  let typed := path.drop directory.length
  (list (String.ofList directory)).filterMap fun (name, isDirectory) =>
    if typed.isPrefixOf name.toList then
      let whole := directory ++ name.toList ++ (if isDirectory then ['/'] else [])
      some ⟨name, String.ofList (quoteName quote whole)⟩
    else none

/-- The start of the file name at the end of a text, and its completions. -/
def completeName (list : String → List (String × Bool)) (before : List Char) :
    Nat × List Candidate :=
  match openQuote .plain [] [] before with
  | (.none, _) =>
    let start := before.length - wordLength before.reverse
    (byteLength (before.take start),
      fileCandidates list .none (unescape (before.drop start)))
  | (.single, opened) =>
    (byteLength opened, fileCandidates list .single (before.drop opened.length))
  | (.double, opened) =>
    (byteLength opened, fileCandidates list .double (unescape (before.drop opened.length)))

/-- The start of the file name before a position of a line, and its completions. -/
def completePath (list : String → List (String × Bool)) (line : String) (pos : Nat) :
    Nat × List Candidate :=
  match cut? pos line.toList with
  | none => (pos, [])
  | some (before, _) => completeName list before

end FieldEngine.Completion
