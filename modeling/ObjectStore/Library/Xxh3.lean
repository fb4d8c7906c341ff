import ObjectStore.Library.LittleEndian

/-!
# Library - XXH3 of short inputs

The 64-bit XXH3 hash with its default secret and seed 0, for inputs of at most 16
bytes.  The development is about arbitrary hash functions; this one serves concrete
runs.

Main definitions:

- `xxh3`: the hash of a string of at most 16 bytes.
-/

namespace ObjectStore
namespace Library

/-- The words of the secret that short inputs use, at offsets 0, 8, 16 and so on. -/
def xxh3Secret : List UInt64 :=
  [0xbe4ba423396cfeb8, 0x1cad21f72c81017c, 0xdb979083e96dd4de, 0x1f67b3b7a4a44072,
    0x78e5c0cc4ee679cb, 0x2172ffcc7dd05a82, 0x8e2443f7744608b8]

/-- The `i`-th word of the part of the secret that is used. -/
def secretWord (i : Nat) : UInt64 := xxh3Secret.getD i 0

/-- The little-endian word of `width` bytes from `start` on. -/
def readWord (input : List UInt8) (start width : Nat) : UInt64 :=
  UInt64.ofNat (leNat ((input.drop start).take width))

/-- The bytes in reverse order. -/
def swapBytes (x : UInt64) : UInt64 :=
  UInt64.ofNat (leNat (leBytes 8 x.toNat).reverse)

/-- The bits rotated to the left. -/
def rotateLeft (x n : UInt64) : UInt64 :=
  (x <<< n) ||| (x >>> (64 - n))

/-- Both halves of the 128-bit product, folded. -/
def mulFold (x y : UInt64) : UInt64 :=
  let product := x.toNat * y.toNat
  UInt64.ofNat product ^^^ UInt64.ofNat (product / 2 ^ 64)

/-- The last step for at most three bytes. -/
def avalanche64 (h : UInt64) : UInt64 :=
  let h := (h ^^^ (h >>> 33)) * 0xC2B2AE3D27D4EB4F
  let h := (h ^^^ (h >>> 29)) * 0x165667B19E3779F9
  h ^^^ (h >>> 32)

/-- The last step for more than eight bytes. -/
def avalanche3 (h : UInt64) : UInt64 :=
  let h := (h ^^^ (h >>> 37)) * 0x165667919E3779F9
  h ^^^ (h >>> 32)

/-- Inputs of one to three bytes. -/
def xxh3Upto3 (input : List UInt8) : UInt64 :=
  let length := input.length
  let byte (i : Nat) : UInt64 := (input.getD i 0).toUInt64
  let combined := (byte 0 <<< 16) ||| (byte (length / 2) <<< 24) ||| byte (length - 1) |||
    (UInt64.ofNat length <<< 8)
  let flip : UInt64 := (secretWord 0 &&& (0xFFFFFFFF : UInt64)) ^^^ (secretWord 0 >>> 32)
  avalanche64 (combined ^^^ flip)

/-- Inputs of four to eight bytes. -/
def xxh3Upto8 (input : List UInt8) : UInt64 :=
  let length := input.length
  let combined := readWord input (length - 4) 4 + (readWord input 0 4 <<< 32)
  let h := combined ^^^ (secretWord 1 ^^^ secretWord 2)
  let h := (h ^^^ rotateLeft h 49 ^^^ rotateLeft h 24) * 0x9FB21C651E98DF25
  let h := (h ^^^ ((h >>> 35) + UInt64.ofNat length)) * 0x9FB21C651E98DF25
  h ^^^ (h >>> 28)

/-- Inputs of nine to sixteen bytes. -/
def xxh3Upto16 (input : List UInt8) : UInt64 :=
  let length := input.length
  let low := readWord input 0 8 ^^^ (secretWord 3 ^^^ secretWord 4)
  let high := readWord input (length - 8) 8 ^^^ (secretWord 5 ^^^ secretWord 6)
  avalanche3 (UInt64.ofNat length + swapBytes low + high + mulFold low high)

/-- The XXH3 hash of a string of 1 to 16 bytes; 0 on other strings. -/
def xxh3 (key : String) : UInt64 :=
  let input := key.toUTF8.data.toList
  if input.length = 0 then 0
  else if input.length ≤ 3 then xxh3Upto3 input
  else if input.length ≤ 8 then xxh3Upto8 input
  else if input.length ≤ 16 then xxh3Upto16 input
  else 0

example : xxh3 "a" = 0xe6c632b61e964e1f := by decide +kernel

example : xxh3 "0123456789abcdef" = 0x64439946d8fa212d := by decide +kernel

end Library
end ObjectStore
