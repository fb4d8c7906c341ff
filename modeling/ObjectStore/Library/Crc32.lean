import Mathlib

/-!
# Library - CRC-32

The checksum that `crc32fast` computes, one bit at a time.  The models take the checksum as
a parameter; this is the function that stands for it on concrete inputs.
-/

namespace ObjectStore
namespace Library

/-- One byte of the reflected CRC with the polynomial of IEEE 802.3. -/
def crc32Byte (crc : UInt32) (byte : UInt8) : UInt32 :=
  (List.range 8).foldl
    (fun crc _ => if crc &&& 1 = 1 then (crc >>> 1) ^^^ 0xEDB88320 else crc >>> 1)
    (crc ^^^ byte.toUInt32)

/-- The checksum of the bytes. -/
def crc32 (data : List UInt8) : UInt32 :=
  data.foldl crc32Byte 0xFFFFFFFF ^^^ 0xFFFFFFFF

/-- The check value of the digits 1 to 9. -/
example : crc32 [49, 50, 51, 52, 53, 54, 55, 56, 57] = 0xCBF43926 := by decide +kernel

end Library
end ObjectStore
