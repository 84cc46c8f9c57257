namespace Chip8.ChaCha

abbrev Block := Vector UInt32 16

def rotateLeft (a n : UInt32) : UInt32 := a <<< n ||| a >>> (32 - n)

def quarterRound (s : Block) (a b c d : Fin 16) : Block :=
  let s := s.set a (s[a] + s[b])
  let s := s.set d (rotateLeft (s[d] ^^^ s[a]) 16)
  let s := s.set c (s[c] + s[d])
  let s := s.set b (rotateLeft (s[b] ^^^ s[c]) 12)
  let s := s.set a (s[a] + s[b])
  let s := s.set d (rotateLeft (s[d] ^^^ s[a]) 8)
  let s := s.set c (s[c] + s[d])
  s.set b (rotateLeft (s[b] ^^^ s[c]) 7)

def doubleRound (s : Block) : Block :=
  let s := quarterRound s 0 4 8 12
  let s := quarterRound s 1 5 9 13
  let s := quarterRound s 2 6 10 14
  let s := quarterRound s 3 7 11 15
  let s := quarterRound s 0 5 10 15
  let s := quarterRound s 1 6 11 12
  let s := quarterRound s 2 7 8 13
  quarterRound s 3 4 9 14

def constants : Vector UInt32 4 := #v[0x61707865, 0x3320646e, 0x79622d32, 0x6b206574]

def start (key : Vector UInt32 8) (counter : UInt64) : Block :=
  constants ++ key ++ #v[counter.toUInt32, (counter >>> 32).toUInt32, 0, 0]

def block (key : Vector UInt32 8) (counter : UInt64) : Block :=
  let s := start key counter
  Vector.zipWith (· + ·) (Nat.repeat doubleRound 6 s) s

def word (key : Vector UInt32 8) (n : Nat) : UInt32 :=
  (block key (.ofNat (n / 16))).get (Fin.ofNat 16 n)

end Chip8.ChaCha

namespace Chip8

/-- A fixed stream of words and how many of them were taken. -/
structure RandomSource where
  stream : Nat → UInt32
  taken : Nat

namespace RandomSource

def next (r : RandomSource) : UInt8 × RandomSource :=
  ((r.stream r.taken).toUInt8, { r with taken := r.taken + 1 })

/-- The words of the list in turn, over and over; the empty list stands for zeros. -/
def cycle (words : Array UInt32) : RandomSource :=
  ⟨fun n ↦ words.getD (n % words.size) 0, 0⟩

def spread (s : UInt64) : UInt64 := s * 6364136223846793005 + 11634580027462260723

def keyWord (s : UInt64) : UInt32 :=
  let x := (((s >>> 18) ^^^ s) >>> 27).toUInt32
  let n := (s >>> 59).toUInt32
  x >>> n ||| x <<< ((32 - n) % 32)

def key (seed : UInt64) : Vector UInt32 8 :=
  Vector.ofFn fun i ↦ keyWord (Nat.repeat spread (i.val + 1) seed)

def words (seed : UInt64) : Nat → UInt32 :=
  let key := key seed
  ChaCha.word key

end RandomSource

end Chip8
