import LedgerSim.BigEndian

/-!
# SHA-256

The hash function on byte strings.  Words are natural numbers below `2 ^ 32`
and a message block is one number, so that the kernel evaluates it with its
own arithmetic.
-/

namespace Sha256

def truncate (x : ℕ) : ℕ :=
  x.mod 0x100000000

/-- Two copies of a word; the low half of a shift of it is a rotation of the
word. -/
def twice (x : ℕ) : ℕ :=
  x.mul 0x100000001

def bigSigma0 (x : ℕ) : ℕ :=
  truncate ((((twice x).shiftRight 2).xor ((twice x).shiftRight 13)).xor
    ((twice x).shiftRight 22))

def bigSigma1 (x : ℕ) : ℕ :=
  truncate ((((twice x).shiftRight 6).xor ((twice x).shiftRight 11)).xor
    ((twice x).shiftRight 25))

def smallSigma0 (x : ℕ) : ℕ :=
  truncate ((((twice x).shiftRight 7).xor ((twice x).shiftRight 18)).xor
    (x.shiftRight 3))

def smallSigma1 (x : ℕ) : ℕ :=
  truncate ((((twice x).shiftRight 17).xor ((twice x).shiftRight 19)).xor
    (x.shiftRight 10))

def choose (x y z : ℕ) : ℕ :=
  z.xor (x.land (y.xor z))

def majority (x y z : ℕ) : ℕ :=
  (x.land y).lor (z.land (x.lor y))

def roundConstants : List ℕ :=
  [0x428a2f98, 0x71374491, 0xb5c0fbcf, 0xe9b5dba5, 0x3956c25b, 0x59f111f1,
    0x923f82a4, 0xab1c5ed5, 0xd807aa98, 0x12835b01, 0x243185be, 0x550c7dc3,
    0x72be5d74, 0x80deb1fe, 0x9bdc06a7, 0xc19bf174, 0xe49b69c1, 0xefbe4786,
    0x0fc19dc6, 0x240ca1cc, 0x2de92c6f, 0x4a7484aa, 0x5cb0a9dc, 0x76f988da,
    0x983e5152, 0xa831c66d, 0xb00327c8, 0xbf597fc7, 0xc6e00bf3, 0xd5a79147,
    0x06ca6351, 0x14292967, 0x27b70a85, 0x2e1b2138, 0x4d2c6dfc, 0x53380d13,
    0x650a7354, 0x766a0abb, 0x81c2c92e, 0x92722c85, 0xa2bfe8a1, 0xa81a664b,
    0xc24b8b70, 0xc76c51a3, 0xd192e819, 0xd6990624, 0xf40e3585, 0x106aa070,
    0x19a4c116, 0x1e376c08, 0x2748774c, 0x34b0bcb5, 0x391c0cb3, 0x4ed8aa4a,
    0x5b9cca4f, 0x682e6ff3, 0x748f82ee, 0x78a5636f, 0x84c87814, 0x8cc70208,
    0x90befffa, 0xa4506ceb, 0xbef9a3f7, 0xc67178f2]

structure Registers where
  a : ℕ
  b : ℕ
  c : ℕ
  d : ℕ
  e : ℕ
  f : ℕ
  g : ℕ
  h : ℕ

def initialValue : Registers :=
  ⟨0x6a09e667, 0xbb67ae85, 0x3c6ef372, 0xa54ff53a, 0x510e527f, 0x9b05688c,
    0x1f83d9ab, 0x5be0cd19⟩

def round (s : Registers) (constant word : ℕ) : Registers :=
  let t1 := (s.h.add (bigSigma1 s.e)).add
    ((choose s.e s.f s.g).add (constant.add word))
  let t2 := (bigSigma0 s.a).add (majority s.a s.b s.c)
  ⟨truncate (t1.add t2), s.a, s.b, s.c, truncate (s.d.add t1), s.e, s.f, s.g⟩

/-- The word `i` places before the newest of the last sixteen words. -/
def wordBefore (window i : ℕ) : ℕ :=
  truncate (window.shiftRight (Nat.mul 32 i))

/-- The last sixteen words after one step of the message schedule. -/
def nextWindow (window : ℕ) : ℕ :=
  ((window.mod (Nat.pow 2 480)).mul 0x100000000).add
    (truncate (((smallSigma1 (wordBefore window 1)).add
      (wordBefore window 6)).add
        ((smallSigma0 (wordBefore window 14)).add (wordBefore window 15))))

def rounds : List ℕ → ℕ → Registers → Registers
  | [], _, s => s
  | constant :: constants, window, s =>
      rounds constants (nextWindow window)
        (round s constant (wordBefore window 15))

def compress (s : Registers) (block : Bytes) : Registers :=
  let r := rounds roundConstants (BigEndian.toNat block) s
  ⟨truncate (s.a + r.a), truncate (s.b + r.b), truncate (s.c + r.c),
    truncate (s.d + r.d), truncate (s.e + r.e), truncate (s.f + r.f),
    truncate (s.g + r.g), truncate (s.h + r.h)⟩

def compressAll : ℕ → Bytes → Registers → Registers
  | 0, _, s => s
  | blocks + 1, message, s =>
      compressAll blocks (message.drop 64) (compress s (message.take 64))

/-- A one bit, zeros up to the last eight bytes of a block, and the length in
bits. -/
def pad (message : Bytes) : Bytes :=
  message ++ 128 :: List.replicate ((119 - message.length % 64) % 64) 0 ++
    BigEndian.ofNat 8 (8 * message.length)

def Registers.bytes (s : Registers) : Bytes :=
  [s.a, s.b, s.c, s.d, s.e, s.f, s.g, s.h].flatMap (BigEndian.ofNat 4)

def digest (message : Bytes) : Bytes :=
  let padded := pad message
  (compressAll (padded.length / 64) padded initialValue).bytes

@[simp] theorem length_digest (message : Bytes) :
    (digest message).length = 32 := by
  simp [digest, Registers.bytes]

example : digest [97, 98, 99] =
    [186, 120, 22, 191, 143, 1, 207, 234, 65, 65, 64, 222, 93, 174, 34, 35,
      176, 3, 97, 163, 150, 23, 122, 156, 180, 16, 255, 97, 242, 0, 21, 173] :=
  by decide +kernel

end Sha256
