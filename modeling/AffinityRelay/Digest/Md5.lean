/-!
# The MD5 digest

- `blocks`: a message, padded with a set bit, zeros and its length, as blocks of sixteen words;
- `compress`: one block worked into the four chaining words, in sixty-four rounds;
- `digest`: the sixteen bytes of the digest.

Words are read and written with their least significant byte first.
-/

namespace AffinityRelay.Md5

/-- The four chaining words. -/
structure Chain where
  a : UInt32
  b : UInt32
  c : UInt32
  d : UInt32
  deriving Repr, DecidableEq

/-- The chaining words before the first block. -/
def Chain.start : Chain := ⟨0x67452301, 0xefcdab89, 0x98badcfe, 0x10325476⟩

/-- The word added in each round: the integer part of 2^32 times the absolute sine of the round's number. -/
def sines : List UInt32 :=
  [0xd76aa478, 0xe8c7b756, 0x242070db, 0xc1bdceee,
    0xf57c0faf, 0x4787c62a, 0xa8304613, 0xfd469501,
    0x698098d8, 0x8b44f7af, 0xffff5bb1, 0x895cd7be,
    0x6b901122, 0xfd987193, 0xa679438e, 0x49b40821,
    0xf61e2562, 0xc040b340, 0x265e5a51, 0xe9b6c7aa,
    0xd62f105d, 0x02441453, 0xd8a1e681, 0xe7d3fbc8,
    0x21e1cde6, 0xc33707d6, 0xf4d50d87, 0x455a14ed,
    0xa9e3e905, 0xfcefa3f8, 0x676f02d9, 0x8d2a4c8a,
    0xfffa3942, 0x8771f681, 0x6d9d6122, 0xfde5380c,
    0xa4beea44, 0x4bdecfa9, 0xf6bb4b60, 0xbebfbc70,
    0x289b7ec6, 0xeaa127fa, 0xd4ef3085, 0x04881d05,
    0xd9d4d039, 0xe6db99e5, 0x1fa27cf8, 0xc4ac5665,
    0xf4292244, 0x432aff97, 0xab9423a7, 0xfc93a039,
    0x655b59c3, 0x8f0ccc92, 0xffeff47d, 0x85845dd1,
    0x6fa87e4f, 0xfe2ce6e0, 0xa3014314, 0x4e0811a1,
    0xf7537e82, 0xbd3af235, 0x2ad7d2bb, 0xeb86d391]

/-- How far each round turns its sum to the left. -/
def turns : List UInt32 :=
  [7, 12, 17, 22, 5, 9, 14, 20, 4, 11, 16, 23, 6, 10, 15, 21]

def rotateLeft (x n : UInt32) : UInt32 :=
  (x <<< n) ||| (x >>> (32 - n))

/-- The word of four bytes. -/
def word (bytes : List UInt8) : UInt32 :=
  bytes.foldr (fun b w => w <<< 8 ||| b.toUInt32) 0

/-- The four bytes of a word. -/
def wordBytes (w : UInt32) : List UInt8 :=
  [w.toUInt8, (w >>> 8).toUInt8, (w >>> 16).toUInt8, (w >>> 24).toUInt8]

/-- A list in pieces of `n`; a last shorter piece is left out. -/
def chunks {α : Type} (n : Nat) (xs : List α) : List (List α) :=
  (List.range (xs.length / n)).map fun i => (xs.drop (n * i)).take n

/-- The message, a set bit, zeros up to eight bytes short of a whole block, and its length in bits. -/
def padded (message : List UInt8) : List UInt8 :=
  let n := message.length
  let bits := 8 * n
  let byte (i : Nat) : UInt8 := (bits >>> (8 * i)).toUInt8
  message ++ [0x80] ++ List.replicate ((119 - n % 64) % 64) 0 ++ (List.range 8).map byte

/-- The padded message in blocks of sixteen words. -/
def blocks (message : List UInt8) : List (List UInt32) :=
  chunks 16 ((chunks 4 (padded message)).map word)

/-- What round `i` mixes from three chaining words, and which word of the block it takes. -/
def mix (i : Nat) (b c d : UInt32) : UInt32 × Nat :=
  match i / 16 with
  | 0 => ((b &&& c) ||| (~~~b &&& d), i)
  | 1 => ((d &&& b) ||| (~~~d &&& c), (5 * i + 1) % 16)
  | 2 => (b ^^^ c ^^^ d, (3 * i + 5) % 16)
  | _ => (c ^^^ (b ||| ~~~d), (7 * i) % 16)

/-- One round. -/
def round (block : List UInt32) (s : Chain) (i : Nat) : Chain :=
  let (f, g) := mix i s.b s.c s.d
  let sum := f + s.a + sines.getD i 0 + block.getD g 0
  ⟨s.d, s.b + rotateLeft sum (turns.getD (4 * (i / 16) + i % 4) 0), s.b, s.c⟩

/-- One block worked into the chaining words. -/
def compress (s : Chain) (block : List UInt32) : Chain :=
  let t := (List.range 64).foldl (round block) s
  ⟨s.a + t.a, s.b + t.b, s.c + t.c, s.d + t.d⟩

/-- The digest of a message, sixteen bytes. -/
def digest (message : List UInt8) : List UInt8 :=
  let s := (blocks message).foldl compress Chain.start
  [s.a, s.b, s.c, s.d].flatMap wordBytes

end AffinityRelay.Md5
