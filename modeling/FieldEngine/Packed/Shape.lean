import FieldEngine.Packed.Value

/-!
# Shapes of packed values

How integers, texts, records and variants look as packed values. A record is written as a map
from field names; it is read from such a map in any order, where other keys are passed over and a
repeated field is refused, or from an array of all its fields. A variant is its name, or a map from
its name to its content. A name may also be given as raw bytes or as a position.

Raw bytes also stand for an array of small numbers, which are never names. Where a fixed number of
values is wanted, an array has exactly as many, but raw bytes may go on.
-/

namespace FieldEngine.Packed

/-! ## Writing -/

def ofText (s : String) : Packed :=
  .str s.toByteArray.data.toList

def ofInt : Int → Packed
  | .ofNat n => .uint n
  | .negSucc n => .int (.negSucc n)

def ofList {α : Type} (pack : α → Packed) (items : List α) : Packed :=
  .array (items.map pack)

/-- A record: field names and values. -/
def ofFields (fields : List (String × Packed)) : Packed :=
  .map (fields.map fun (name, value) => (ofText name, value))

/-- A variant with content. -/
def ofVariant (name : String) (content : Packed) : Packed :=
  .map [(ofText name, content)]

/-! ## Reading -/

/-- A natural number below a bound. -/
def nat? (bound : Nat) : Packed → Option Nat
  | .uint n => if n < bound then some n else none
  | .int i => if 0 ≤ i ∧ i < (bound : Int) then some i.toNat else none
  | _ => none

/-- An integer in two's complement of so many bits. -/
def int? (bits : Nat) (p : Packed) : Option Int :=
  let half : Int := Nat.pow 2 (bits - 1)
  let within (i : Int) : Option Int := if -half ≤ i ∧ i < half then some i else none
  match p with
  | .uint n => within n
  | .int i => within i
  | _ => none

def bool? : Packed → Option Bool
  | .bool b => some b
  | _ => none

/-- A text, from valid UTF-8. -/
def text? : Packed → Option String
  | .str bytes | .bin bytes => String.fromUTF8? ⟨bytes.toArray⟩
  | _ => none

/-- Raw bytes as values. They are numbers with a sign, since they cannot be names. -/
def ofRaw (bytes : List UInt8) : List Packed :=
  bytes.map fun b => .int b.toNat

def list? {α : Type} (unpack : Packed → Option α) : Packed → Option (List α)
  | .array items => items.mapM unpack
  | .bin bytes => (ofRaw bytes).mapM unpack
  | _ => none

/-- A fixed number of values. -/
def exactly? (n : Nat) : Packed → Option (List Packed)
  | .array items => if items.length = n then some items else none
  | .bin bytes => if n ≤ bytes.length then some (ofRaw (bytes.take n)) else none
  | _ => none

/-- A pair, which is never given as raw bytes. -/
def pair? {α β : Type} (first : Packed → Option α) (second : Packed → Option β) :
    Packed → Option (α × β)
  | .array [a, b] => do some (← first a, ← second b)
  | _ => none

/-- The position of a name among some names. The outer `none` is a value that is no name, the
inner one a name that is not among them. -/
def name? (names : List String) : Packed → Option (Option Nat)
  | .str bytes | .bin bytes =>
    some (names.findIdx? fun name => name.toByteArray.data.toList == bytes)
  | .uint n => some (if n < names.length then some n else none)
  | _ => none

/-- The entries of a map put in the places of their fields. `level` containers are open. -/
def placeFields (level : Nat) (names : List String) :
    List (Packed × Packed) → List (Option Packed) → Option (List (Option Packed))
  | [], places => some places
  | (key, value) :: entries, places =>
    match name? names key with
    | none => none
    | some none =>
      if level + value.depth < maxDepth then placeFields level names entries places else none
    | some (some i) =>
      match places[i]? with
      | some none => placeFields level names entries (places.set i (some value))
      | _ => none

/-- The fields of a record in the order of their names; a field may be missing from a map. The
record stands in `level` containers. -/
def fields? (level : Nat) (names : List String) : Packed → Option (List (Option Packed))
  | .map entries => placeFields (level + 1) names entries (names.map fun _ => none)
  | p => (exactly? names.length p).map fun values => values.map some

/-- The position of a variant among some names, and its content if it has any. -/
def variant? (names : List String) : Packed → Option (Nat × Option Packed)
  | .map [(key, content)] => (name? names key).join.map fun i => (i, some content)
  | .map _ => none
  | p => (name? names p).join.map fun i => (i, none)

/-- A variant without content is its bare name, or a map from its name to nothing. -/
def isUnit : Option Packed → Bool
  | none | some .nil => true
  | some _ => false

end FieldEngine.Packed
