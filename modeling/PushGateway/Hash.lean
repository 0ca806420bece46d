import PushGateway.Bytes

/-!
The 32-bit hash that spreads session keys over buckets: MurmurHash3, x86 variant. Blocks of four
bytes are mixed in one by one, then the last one to three bytes, then the length, and the state is
scattered. Every stage is a bijection of the state.
-/

namespace PushGateway.Hash

def rotateLeft (x : UInt32) (n : UInt32) : UInt32 := x <<< n ||| x >>> (32 - n)

def scatter (h : UInt32) : UInt32 :=
  let h := (h ^^^ h >>> 16) * 0x85EBCA6B
  let h := (h ^^^ h >>> 13) * 0xC2B2AE35
  h ^^^ h >>> 16

def mixWord (k : UInt32) : UInt32 := rotateLeft (k * 0xCC9E2D51) 15 * 0x1B873593

def mixBlock (h k : UInt32) : UInt32 := rotateLeft (h ^^^ mixWord k) 13 * 5 + 0xE6546B64

def absorb (h : UInt32) : Bytes → UInt32
  | a :: b :: c :: d :: r => absorb (mixBlock h (Bytes.word32 d c b a)) r
  | [c, b, a] => h ^^^ mixWord (Bytes.word32 0 a b c)
  | [b, a] => h ^^^ mixWord (Bytes.word32 0 0 a b)
  | [a] => h ^^^ mixWord (Bytes.word32 0 0 0 a)
  | [] => h

def murmur3 (key : Bytes) (seed : UInt32) : UInt32 :=
  scatter (absorb seed key ^^^ key.length.toUInt32)

end PushGateway.Hash
