import DiagnosticsClient.Text.Basic
/-
The MD5 digest of a sequence of octets.

The octets are padded to blocks of 64: a one bit, zeros, and the length in
bits. Each block changes four words of state in 64 steps; every step mixes in
a word of the block and a constant of the sine table.
-/
namespace DiagnosticsClient

namespace MD5

/-- The four words of state. -/
structure Words where
  a : UInt32
  b : UInt32
  c : UInt32
  d : UInt32
deriving DecidableEq

def initial : Words := ⟨0x67452301, 0xefcdab89, 0x98badcfe, 0x10325476⟩

/-- The integer parts of `2 ^ 32 * |sin i|`, from one on. -/
def sines : Array UInt32 := #[
  0xd76aa478, 0xe8c7b756, 0x242070db, 0xc1bdceee, 0xf57c0faf, 0x4787c62a, 0xa8304613, 0xfd469501,
  0x698098d8, 0x8b44f7af, 0xffff5bb1, 0x895cd7be, 0x6b901122, 0xfd987193, 0xa679438e, 0x49b40821,
  0xf61e2562, 0xc040b340, 0x265e5a51, 0xe9b6c7aa, 0xd62f105d, 0x02441453, 0xd8a1e681, 0xe7d3fbc8,
  0x21e1cde6, 0xc33707d6, 0xf4d50d87, 0x455a14ed, 0xa9e3e905, 0xfcefa3f8, 0x676f02d9, 0x8d2a4c8a,
  0xfffa3942, 0x8771f681, 0x6d9d6122, 0xfde5380c, 0xa4beea44, 0x4bdecfa9, 0xf6bb4b60, 0xbebfbc70,
  0x289b7ec6, 0xeaa127fa, 0xd4ef3085, 0x04881d05, 0xd9d4d039, 0xe6db99e5, 0x1fa27cf8, 0xc4ac5665,
  0xf4292244, 0x432aff97, 0xab9423a7, 0xfc93a039, 0x655b59c3, 0x8f0ccc92, 0xffeff47d, 0x85845dd1,
  0x6fa87e4f, 0xfe2ce6e0, 0xa3014314, 0x4e0811a1, 0xf7537e82, 0xbd3af235, 0x2ad7d2bb, 0xeb86d391]

/-- How far the steps of a round turn their sums, in turn. -/
def turns (round : Nat) : Array UInt32 :=
  match round with
  | 0 => #[7, 12, 17, 22]
  | 1 => #[5, 9, 14, 20]
  | 2 => #[4, 11, 16, 23]
  | _ => #[6, 10, 15, 21]

def rotateLeft (x n : UInt32) : UInt32 := (x <<< n) ||| (x >>> (32 - n))

/-- What a round makes of three words. -/
def mix (round : Nat) (b c d : UInt32) : UInt32 :=
  match round with
  | 0 => (b &&& c) ||| (~~~b &&& d)
  | 1 => (d &&& b) ||| (~~~d &&& c)
  | 2 => b ^^^ c ^^^ d
  | _ => c ^^^ (b ||| ~~~d)

/-- Which word of the block a step takes. -/
def wordOf (step : Nat) : Nat :=
  match step / 16 with
  | 0 => step % 16
  | 1 => (5 * step + 1) % 16
  | 2 => (3 * step + 5) % 16
  | _ => 7 * step % 16

/-- A step. -/
def step (block : Array UInt32) (w : Words) (i : Nat) : Words :=
  let round := i / 16
  let sum := w.a + mix round w.b w.c w.d + sines.getD i 0 + block.getD (wordOf i) 0
  ⟨w.d, w.b + rotateLeft sum ((turns round).getD (i % 4) 0), w.b, w.c⟩

/-- What a block makes of the state. -/
def absorb (w : Words) (block : Array UInt32) : Words :=
  let v := (List.range 64).foldl (step block) w
  ⟨w.a + v.a, w.b + v.b, w.c + v.c, w.d + v.d⟩

/-- The octets of a number, the least first. -/
def littleEndian : (width : Nat) → Nat → Bytes
  | 0, _ => []
  | width + 1, n => UInt8.ofNat (n % 256) :: littleEndian width (n / 256)

/-- The octets with their padding. -/
def pad (octets : Bytes) : Bytes :=
  let zeros := (119 - octets.length % 64) % 64
  octets ++ 0x80 :: (List.replicate zeros 0 ++ littleEndian 8 (8 * octets.length))

/-- The words of octets, four by four. -/
def words : Bytes → List UInt32
  | a :: b :: c :: d :: rest =>
    (a.toUInt32 ||| (b.toUInt32 <<< 8) ||| (c.toUInt32 <<< 16) ||| (d.toUInt32 <<< 24)) :: words rest
  | _ => []

/-- The state after the words of some blocks; `fuel` bounds how many there are. -/
def absorbAll : (fuel : Nat) → Words → List UInt32 → Words
  | 0, w, _ => w
  | _, w, [] => w
  | fuel + 1, w, block => absorbAll fuel (absorb w (block.take 16).toArray) (block.drop 16)

/-- The digest in hexadecimal. -/
def digest (octets : Bytes) : Text :=
  let block := words (pad octets)
  let w := absorbAll block.length initial block
  [w.a, w.b, w.c, w.d].flatMap fun word => (littleEndian 4 word.toNat).flatMap fun o => Text.hex 2 o.toNat

end MD5

end DiagnosticsClient
