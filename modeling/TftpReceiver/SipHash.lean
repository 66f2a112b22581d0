import TftpReceiver.Bytes

/-! SipHash: a hash of bytes under a key of two words, with a chosen number of rounds
after each word of the input and at the end. -/

namespace TftpReceiver.SipHash

structure State where
  a : UInt64
  b : UInt64
  c : UInt64
  d : UInt64
  deriving DecidableEq, Repr

def rotate (x : UInt64) (n : UInt64) : UInt64 := (x <<< n) ||| (x >>> (64 - n))

def round (s : State) : State :=
  let a := s.a + s.b
  let b := rotate s.b 13 ^^^ a
  let a := rotate a 32
  let c := s.c + s.d
  let d := rotate s.d 16 ^^^ c
  let a := a + d
  let d := rotate d 21 ^^^ a
  let c := c + b
  let b := rotate b 17 ^^^ c
  { a, b, c := rotate c 32, d }

def rounds : (count : Nat) → State → State
  | 0, s => s
  | count + 1, s => rounds count (round s)

/-- The word whose lowest byte comes first. -/
def word (bytes : Bytes) : UInt64 := bytes.foldr (fun b w => (w <<< 8) ||| b.toUInt64) 0

/-- The input as words of eight bytes; the last one is filled up with the size of the
whole input in its top byte. -/
def words (size : Nat) : Bytes → List UInt64
  | b0 :: b1 :: b2 :: b3 :: b4 :: b5 :: b6 :: b7 :: rest =>
    word [b0, b1, b2, b3, b4, b5, b6, b7] :: words size rest
  | rest => [word rest ||| (UInt64.ofNat size <<< 56)]

def absorb (count : Nat) (s : State) (w : UInt64) : State :=
  let s := rounds count { s with d := s.d ^^^ w }
  { s with a := s.a ^^^ w }

def start (key0 key1 : UInt64) : State :=
  { a := key0 ^^^ 0x736f6d6570736575
    b := key1 ^^^ 0x646f72616e646f6d
    c := key0 ^^^ 0x6c7967656e657261
    d := key1 ^^^ 0x7465646279746573 }

def hash (perWord atEnd : Nat) (key0 key1 : UInt64) (bytes : Bytes) : UInt64 :=
  let s := (words bytes.length bytes).foldl (absorb perWord) (start key0 key1)
  let s := rounds atEnd { s with c := s.c ^^^ 0xff }
  s.a ^^^ s.b ^^^ s.c ^^^ s.d

end TftpReceiver.SipHash
