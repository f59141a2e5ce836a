import FieldEngine.Console.Loop
import FieldEngine.Host.Cluster

/-!
# Typed lines

A line that does not come from a terminal may hold backspaces, each of which erases the character
before it as a reader sees it, with all its marks; at the start of the line there is nothing to
erase. The line remembers the size of each character in one byte, so that of a character of 256
bytes or more only the remainder is erased. If that ends inside a code point the line is lost.

Main statement: a line without backspaces is read as it stands (`read?_of_not_mem`).
-/

namespace FieldEngine

/-- A line while it is read. -/
structure TypedLine where
  /-- The text, its latest code point first. -/
  text : List Char := []
  /-- Sizes of characters in bytes, modulo 256, the latest first. -/
  sizes : List Nat := []
deriving DecidableEq

namespace TypedLine

/-- The character that erases the one before it. -/
def backspace : Char := '\x08'

/-- A text without so many bytes of its code points, the first ones first. -/
def dropBytes? (n : Nat) : List Char → Option (List Char)
  | [] => if n = 0 then some [] else none
  | c :: cs =>
    if n = 0 then some (c :: cs)
    else if c.utf8Size ≤ n then dropBytes? (n - c.utf8Size) cs
    else none

def erase (l : TypedLine) : Option TypedLine :=
  match l.sizes with
  | [] => some l
  | n :: sizes => (dropBytes? n l.text).map fun text => ⟨text, sizes⟩

def push (l : TypedLine) (cluster : List Char) : TypedLine :=
  ⟨cluster.reverse ++ l.text, (String.ofList cluster).utf8ByteSize % 256 :: l.sizes⟩

def feed (l : TypedLine) (cluster : List Char) : Option TypedLine :=
  if cluster = [backspace] then l.erase else some (l.push cluster)

/-- The text that a line comes to after its backspaces. -/
def read? (line : String) : Option String :=
  ((Text.clusters line.toList).foldlM feed {}).map fun l => String.ofList l.text.reverse

/-! ## Lemmas -/

theorem foldlM_feed {cs : List (List Char)} (h : [backspace] ∉ cs) (l : TypedLine) :
    ∃ sizes, cs.foldlM feed l = some ⟨cs.flatten.reverse ++ l.text, sizes⟩ := by
  induction cs generalizing l with
  | nil => exact ⟨l.sizes, rfl⟩
  | cons c cs ih =>
    have hc : c ≠ [backspace] := fun e => h (by simp [e])
    obtain ⟨sizes, hs⟩ := ih (fun e => h (List.mem_cons_of_mem _ e)) (l.push c)
    refine ⟨sizes, ?_⟩
    have hf : feed l c = some (l.push c) := if_neg hc
    rw [List.foldlM_cons, hf]
    exact hs.trans (by simp [push])

/-- A line without backspaces is read as it stands. -/
theorem read?_of_not_mem {line : String} (h : backspace ∉ line.toList) :
    read? line = some line := by
  have hc : [backspace] ∉ Text.clusters line.toList := by
    intro e
    apply h
    rw [← Text.flatten_clusters line.toList]
    exact List.mem_flatten.2 ⟨_, e, by simp⟩
  obtain ⟨sizes, hs⟩ := foldlM_feed hc {}
  unfold read?
  rw [hs]
  simp [Text.flatten_clusters]

end TypedLine

/-- What reading a typed line gives. -/
def Console.Input.ofTyped (line : String) : Console.Input :=
  match TypedLine.read? line with
  | some text => .line text
  | none => .lost

end FieldEngine
