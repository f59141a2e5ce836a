/-!
# Random key stream

The random numbers of a field are the words of a ChaCha key stream with eight rounds. The key is
expanded from a 64-bit seed by a permuted congruential generator; the block counter starts at
zero and the nonce is zero. Word `n` of the stream is word `n % 16` of block `n / 16`.

The stream is taken from the host. What is proved of a field holds of any stream: proofs do not
unfold `word`.
-/

namespace FieldEngine.KeyStream

/-- The sixteen words of a cipher state. -/
abbrev Block := Vector UInt32 16

/-- `x` rotated left by `k` bits, `0 < k < 32`. -/
def rotateLeft (x k : UInt32) : UInt32 :=
  (x <<< k) ||| (x >>> (32 - k))

/-- One step of the key expansion. -/
def nextSeed (s : UInt64) : UInt64 :=
  s * 6364136223846793005 + 11634580027462260723

/-- The key word for one step of the key expansion. -/
def keyWord (s : UInt64) : UInt32 :=
  let x := (((s >>> 18) ^^^ s) >>> 27).toUInt32
  let turn := (s >>> 59).toUInt32
  (x >>> turn) ||| (x <<< ((32 - turn) % 32))

/-- The first `n` key words after a seed. -/
def keyWords : (n : Nat) → UInt64 → List UInt32
  | 0, _ => []
  | n + 1, s => keyWord (nextSeed s) :: keyWords n (nextSeed s)

def quarter (a b c d : UInt32) : UInt32 × UInt32 × UInt32 × UInt32 :=
  let a := a + b
  let d := rotateLeft (d ^^^ a) 16
  let c := c + d
  let b := rotateLeft (b ^^^ c) 12
  let a := a + b
  let d := rotateLeft (d ^^^ a) 8
  let c := c + d
  let b := rotateLeft (b ^^^ c) 7
  (a, b, c, d)

/-- The quarter round on four positions of a block. -/
def quarterAt (x : Block) (i j k l : Fin 16) : Block :=
  let (a, b, c, d) := quarter (x.get i) (x.get j) (x.get k) (x.get l)
  (((x.set i a).set j b).set k c).set l d

/-- Two rounds: the four columns, then the four diagonals. -/
def doubleRound (x : Block) : Block :=
  let x := quarterAt x 0 4 8 12
  let x := quarterAt x 1 5 9 13
  let x := quarterAt x 2 6 10 14
  let x := quarterAt x 3 7 11 15
  let x := quarterAt x 0 5 10 15
  let x := quarterAt x 1 6 11 12
  let x := quarterAt x 2 7 8 13
  quarterAt x 3 4 9 14

/-- The state before the rounds: constants, key, block counter, nonce. -/
def input (seed : UInt64) (block : Nat) : Block :=
  let words : List UInt32 :=
    [0x61707865, 0x3320646E, 0x79622D32, 0x6B206574] ++ keyWords 8 seed
      ++ [UInt32.ofNat block, UInt32.ofNat (block / 0x100000000), 0, 0]
  Vector.ofFn fun i => words.getD i.val 0

def output (seed : UInt64) (block : Nat) : Block :=
  let start := input seed block
  let mixed := doubleRound (doubleRound (doubleRound (doubleRound start)))
  Vector.zipWith (· + ·) mixed start

/-- Word `n` of the key stream. -/
@[irreducible]
def word (seed : UInt64) (n : Nat) : UInt32 :=
  (output seed (n / 16)).get ⟨n % 16, Nat.mod_lt _ (by decide)⟩

end FieldEngine.KeyStream
