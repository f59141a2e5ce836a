import FieldEngine.Script.DecodeError
import FieldEngine.Script.Word

/-!
# Word reader

A byte stream read word by word. A stream whose length is no multiple of four has spare bytes at
its end; reading there is an error, and the reader stays where it is.
-/

namespace FieldEngine

/-- A position in a byte stream: the offset, the whole words after it, the spare bytes at the
end. -/
structure Reader where
  offset : Nat
  words : List UInt32
  spare : Nat
deriving DecidableEq

namespace Reader

def ofBytes (bytes : List UInt8) : Reader :=
  let (words, spare) := Word.ofBytes bytes
  ⟨0, words, spare⟩

def atEnd (r : Reader) : Bool :=
  r.words.isEmpty && r.spare == 0

/-- The error of a read that finds less than a whole word. -/
def truncated (r : Reader) : DecodeError :=
  .truncated r.offset (4 - r.spare)

/-- The next word, if there is one, and the reader after it. -/
def next? (r : Reader) : Except DecodeError (Option (UInt32 × Reader)) :=
  match r.words with
  | w :: words => .ok (some (w, { r with offset := r.offset + 4, words }))
  | [] => if r.spare = 0 then .ok none else .error r.truncated

/-- The next word, which must be there, and the reader after it. -/
def expect (r : Reader) : Except DecodeError (UInt32 × Reader) := do
  match ← r.next? with
  | some result => .ok result
  | none => .error r.truncated

end Reader

end FieldEngine
