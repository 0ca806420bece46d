/-!
Byte strings, and the big-endian two's complement words that frame headers are made of.
A word read from its own bytes is that word.
-/

namespace PushGateway

abbrev Bytes := List UInt8

namespace Bytes

def word16 (a b : UInt8) : UInt16 := a.toUInt16 <<< 8 ||| b.toUInt16

def word32 (a b c d : UInt8) : UInt32 :=
  a.toUInt32 <<< 24 ||| b.toUInt32 <<< 16 ||| c.toUInt32 <<< 8 ||| d.toUInt32

def int16 (a b : UInt8) : Int16 := (word16 a b).toInt16

def int32 (a b c d : UInt8) : Int32 := (word32 a b c d).toInt32

def ofInt16 (n : Int16) : Bytes :=
  [(n.toUInt16 >>> 8).toUInt8, n.toUInt16.toUInt8]

def ofInt32 (n : Int32) : Bytes :=
  [(n.toUInt32 >>> 24).toUInt8, (n.toUInt32 >>> 16).toUInt8,
    (n.toUInt32 >>> 8).toUInt8, n.toUInt32.toUInt8]

theorem ofInt16_length (n : Int16) : (ofInt16 n).length = 2 := rfl

theorem ofInt32_length (n : Int32) : (ofInt32 n).length = 4 := rfl

end Bytes

end PushGateway
