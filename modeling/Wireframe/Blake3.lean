import Wireframe.Text.Numeral

namespace Wireframe.Blake3

-- Four words that are worked on side by side.
structure Row where
  a : UInt32
  b : UInt32
  c : UInt32
  d : UInt32

namespace Row

def map2 (f : UInt32 → UInt32 → UInt32) (x y : Row) : Row :=
  ⟨f x.a y.a, f x.b y.b, f x.c y.c, f x.d y.d⟩

def add (x y : Row) : Row := map2 (· + ·) x y

def xor (x y : Row) : Row := map2 (· ^^^ ·) x y

def rotateWord (x n : UInt32) : UInt32 := (x >>> n) ||| (x <<< (32 - n))

-- Every word rotated to the right by the same number of bits.
def rotate (n : UInt32) (x : Row) : Row :=
  ⟨rotateWord x.a n, rotateWord x.b n, rotateWord x.c n, rotateWord x.d n⟩

-- The words moved one place to the left, the first to the end.
def shift (x : Row) : Row := ⟨x.b, x.c, x.d, x.a⟩

def toList (x : Row) : List UInt32 := [x.a, x.b, x.c, x.d]

end Row

-- Eight words: the result of hashing a part of the input, and a part of the input to the next step.
structure Chain where
  low : Row
  high : Row

def start : Chain :=
  ⟨⟨0x6A09E667, 0xBB67AE85, 0x3C6EF372, 0xA54FF53A⟩, ⟨0x510E527F, 0x9B05688C, 0x1F83D9AB, 0x5BE0CD19⟩⟩

structure State where
  r0 : Row
  r1 : Row
  r2 : Row
  r3 : Row

-- Mixes one row of message words into the four columns.
def halfMix (s : State) (m : Row) (first second : UInt32) : State :=
  let r0 := (s.r0.add s.r1).add m
  let r3 := (s.r3.xor r0).rotate first
  let r2 := s.r2.add r3
  ⟨r0, (s.r1.xor r2).rotate second, r2, r3⟩

def mix (s : State) (m n : Row) : State := halfMix (halfMix s m 16 12) n 8 7

-- Brings the diagonals into the columns, and back.
def diagonals (s : State) : State := ⟨s.r0, s.r1.shift, s.r2.shift.shift, s.r3.shift.shift.shift⟩

def undoDiagonals (s : State) : State :=
  ⟨s.r0, s.r1.shift.shift.shift, s.r2.shift.shift, s.r3.shift⟩

-- The 16 words of a block.
abbrev Block := Array UInt32

def pickRow (block : Block) (i j k l : Nat) : Row :=
  ⟨block.getD i 0, block.getD j 0, block.getD k 0, block.getD l 0⟩

def round (s : State) (m : Block) : State :=
  let s := mix s (pickRow m 0 2 4 6) (pickRow m 1 3 5 7)
  undoDiagonals (mix (diagonals s) (pickRow m 8 10 12 14) (pickRow m 9 11 13 15))

def permutation : Array Nat := #[2, 6, 3, 10, 7, 0, 4, 13, 1, 11, 12, 5, 9, 14, 15, 8]

def permute (m : Block) : Block := permutation.map fun i => m.getD i 0

def rounds : Nat → State → Block → State
  | 0, s, _ => s
  | n + 1, s, m => rounds n (round s m) (permute m)

-- What a block is in the tree: bits that are added up.
def chunkStart : UInt32 := 1
def chunkEnd : UInt32 := 2
def parentNode : UInt32 := 4
def rootNode : UInt32 := 8

def compress (chain : Chain) (block : Block) (counter length : Nat) (flags : UInt32) : Chain :=
  let s := rounds 7
    ⟨chain.low, chain.high, start.low,
      ⟨counter.toUInt32, (counter / UInt32.size).toUInt32, length.toUInt32, flags⟩⟩
    block
  ⟨s.r0.xor s.r2, s.r1.xor s.r3⟩

def blockLength : Nat := 64

def chunkLength : Nat := 1024

-- A word from its bytes, the least one first.
def word (bytes : List UInt8) : UInt32 := bytes.foldr (fun byte w => w <<< 8 ||| byte.toUInt32) 0

-- The list cut into pieces of `size` items, the last one possibly shorter. The empty list is one
-- empty piece.
def cut (size : Nat) (bytes : List UInt8) : List (List UInt8) :=
  go ((bytes.length - 1) / size) bytes
where
  go : Nat → List UInt8 → List (List UInt8)
    | 0, bytes => [bytes]
    | n + 1, bytes => bytes.take size :: go n (bytes.drop size)

def blockOf (bytes : List UInt8) : Block := ((cut 4 bytes).map word).toArray

-- Hashes the blocks of a chunk in turn. `flags` are those of the first, `last` those that the last
-- one has besides.
def hashBlocks (chain : Chain) (counter : Nat) (flags last : UInt32) :
    List (List UInt8) → Chain
  | [] => chain
  | [bytes] => compress chain (blockOf bytes) counter bytes.length (flags ||| last)
  | bytes :: rest =>
    hashBlocks (compress chain (blockOf bytes) counter bytes.length flags) counter 0 last rest

def hashChunk (counter : Nat) (root : UInt32) (bytes : List UInt8) : Chain :=
  hashBlocks start counter chunkStart (chunkEnd ||| root) (cut blockLength bytes)

def join (root : UInt32) (left right : Chain) : Chain :=
  let words := left.low.toList ++ left.high.toList ++ right.low.toList ++ right.high.toList
  compress start words.toArray 0 blockLength (parentNode ||| root)

-- The bytes of the chunk with the given number.
def chunkAt (bytes : ByteArray) (number : Nat) : List UInt8 :=
  (bytes.extract (chunkLength * number) (chunkLength * (number + 1))).toList

-- How many chunks there are. No bytes at all are one empty chunk.
def chunkCount (bytes : ByteArray) : Nat := max 1 ((bytes.size + chunkLength - 1) / chunkLength)

-- The tree over `count` chunks from `first` on. Its left part has the largest power of two of chunks
-- that leaves one for the right. `levels` bounds the depth.
def hashTree (bytes : ByteArray) (levels first count : Nat) (root : UInt32) : Chain :=
  match levels with
  | 0 => hashChunk first root (chunkAt bytes first)
  | levels + 1 =>
    if count ≤ 1 then hashChunk first root (chunkAt bytes first)
    else
      let left := 1 <<< (count - 1).log2
      join root (hashTree bytes levels first left 0)
        (hashTree bytes levels (first + left) (count - left) 0)

def hash (bytes : ByteArray) : Chain :=
  let count := chunkCount bytes
  hashTree bytes count 0 count rootNode

-- The bytes of a word, the least one first, with two digits each.
def wordDigits (w : UInt32) : List Char :=
  [0, 8, 16, 24].flatMap fun shift =>
    let byte := (w.toNat >>> shift) % 256
    [Text.hexDigit (byte / 16), Text.hexDigit (byte % 16)]

def Chain.digits (chain : Chain) : List Char :=
  (chain.low.toList ++ chain.high.toList).flatMap wordDigits

-- The hash of a text in UTF-8: 32 bytes, written with 64 hexadecimal digits.
def hashText (text : String) : String := String.ofList (hash text.toUTF8).digits

end Wireframe.Blake3
