/-!
# Layout of numbers and columns

Byte offsets are printed as `0x` and at least four hexadecimal digits; counters and table
columns are filled up to a width. A text that is already longer is never cut.
-/

namespace FieldEngine.Text

/-- `s` filled with `c` on the left up to `width` characters. -/
def padLeft (width : Nat) (c : Char) (s : String) : String :=
  String.ofList (List.replicate (width - s.length) c) ++ s

/-- `s` filled with blanks on the right up to `width` characters. -/
def padRight (width : Nat) (s : String) : String :=
  s ++ String.ofList (List.replicate (width - s.length) ' ')

/-- A counter with at least `width` decimal digits. -/
def counter (width n : Nat) : String :=
  padLeft width '0' (toString n)

/-- A byte offset: `0x` and at least four lower-case hexadecimal digits. -/
def address (n : Nat) : String :=
  "0x" ++ padLeft 4 '0' (String.ofList (Nat.toDigits 16 n))

def joinWith (separator : String) (parts : List String) : String :=
  separator.intercalate parts

end FieldEngine.Text
