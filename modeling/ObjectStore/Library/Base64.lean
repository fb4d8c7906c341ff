import Mathlib

/-!
# Library - Base64

The standard alphabet with padding.  Three bytes make four digits; a group of one or two
bytes at the end is padded.

Main results:

- Theorem `decode_encode`: decoding inverts encoding.
-/

namespace ObjectStore
namespace Library
namespace Base64

/-! ## Digits -/

/-- The digit for a number below 64. -/
def digit (n : Nat) : Char :=
  if n < 26 then Char.ofNat (65 + n)
  else if n < 52 then Char.ofNat (71 + n)
  else if n < 62 then Char.ofNat (n - 4)
  else if n = 62 then '+'
  else '/'

/-- The number that a digit stands for. -/
def value (c : Char) : Option Nat :=
  if 65 ≤ c.toNat ∧ c.toNat ≤ 90 then some (c.toNat - 65)
  else if 97 ≤ c.toNat ∧ c.toNat ≤ 122 then some (c.toNat - 71)
  else if 48 ≤ c.toNat ∧ c.toNat ≤ 57 then some (c.toNat + 4)
  else if c = '+' then some 62
  else if c = '/' then some 63
  else none

theorem value_digit {n : Nat} (hn : n < 64) : value (digit n) = some n := by
  have hall : ∀ n : Fin 64, value (digit n) = some n.val := by decide
  exact hall ⟨n, hn⟩

theorem digit_ne_pad {n : Nat} (hn : n < 64) : digit n ≠ '=' := by
  intro heq
  have hvalue := value_digit hn
  rw [heq] at hvalue
  cases hvalue

/-! ## Encoding and decoding -/

/-- Three bytes give four digits; the last group is padded. -/
def encodeChars : List UInt8 → List Char
  | a :: b :: c :: rest =>
      digit (a.toNat / 4) :: digit (a.toNat % 4 * 16 + b.toNat / 16) ::
        digit (b.toNat % 16 * 4 + c.toNat / 64) :: digit (c.toNat % 64) :: encodeChars rest
  | [a, b] =>
      [digit (a.toNat / 4), digit (a.toNat % 4 * 16 + b.toNat / 16), digit (b.toNat % 16 * 4), '=']
  | [a] => [digit (a.toNat / 4), digit (a.toNat % 4 * 16), '=', '=']
  | [] => []

/-- Padding ends the text, and the bits it cuts off are zero. -/
def decodeChars : List Char → Option (List UInt8)
  | [] => some []
  | first :: second :: third :: fourth :: rest =>
      match value first, value second with
      | some w, some x =>
          if third = '=' then
            if fourth = '=' ∧ rest = [] ∧ x % 16 = 0 then some [.ofNat (w * 4 + x / 16)] else none
          else
            match value third with
            | none => none
            | some y =>
                if fourth = '=' then
                  if rest = [] ∧ y % 4 = 0 then
                    some [.ofNat (w * 4 + x / 16), .ofNat (x % 16 * 16 + y / 4)]
                  else none
                else
                  match value fourth, decodeChars rest with
                  | some z, some bytes =>
                      some (.ofNat (w * 4 + x / 16) :: .ofNat (x % 16 * 16 + y / 4) ::
                        .ofNat (y % 4 * 64 + z) :: bytes)
                  | _, _ => none
      | _, _ => none
  | _ => none

/-- The encoding of the bytes, with padding. -/
def encode (bytes : List UInt8) : String :=
  String.ofList (encodeChars bytes)

/-- The bytes that a padded text stands for. -/
def decode (text : String) : Option (List UInt8) :=
  decodeChars text.toList

/-! ## The round trip -/

theorem ofNat_eq {n : Nat} {byte : UInt8} (h : n = byte.toNat) : UInt8.ofNat n = byte := by
  rw [h, UInt8.ofNat_toNat]

theorem decodeChars_encodeChars (bytes : List UInt8) :
    decodeChars (encodeChars bytes) = some bytes := by
  induction bytes using encodeChars.induct with
  | case1 a b c rest ih =>
      have ha := a.toNat_lt
      have hb := b.toNat_lt
      have hc := c.toNat_lt
      have hthird : b.toNat % 16 * 4 + c.toNat / 64 < 64 := by omega
      have hfourth : c.toNat % 64 < 64 := by omega
      unfold encodeChars decodeChars
      rw [value_digit (by omega), value_digit (by omega), value_digit hthird, value_digit hfourth,
        ih]
      simp only [if_neg (digit_ne_pad hthird), if_neg (digit_ne_pad hfourth)]
      congr
      · exact ofNat_eq (by omega)
      · exact ofNat_eq (by omega)
      · exact ofNat_eq (by omega)
  | case2 a b =>
      have ha := a.toNat_lt
      have hb := b.toNat_lt
      have hthird : b.toNat % 16 * 4 < 64 := by omega
      have hzero : b.toNat % 16 * 4 % 4 = 0 := by omega
      unfold encodeChars decodeChars
      rw [value_digit (by omega), value_digit (by omega), value_digit hthird]
      simp only [if_neg (digit_ne_pad hthird), hzero, if_true, and_self]
      congr
      · exact ofNat_eq (by omega)
      · exact ofNat_eq (by omega)
  | case3 a =>
      have ha := a.toNat_lt
      have hzero : a.toNat % 4 * 16 % 16 = 0 := by omega
      unfold encodeChars decodeChars
      rw [value_digit (by omega), value_digit (by omega)]
      simp only [hzero, if_true, and_self]
      congr
      exact ofNat_eq (by omega)
  | case4 => rfl

theorem decode_encode (bytes : List UInt8) : decode (encode bytes) = some bytes := by
  unfold decode encode
  rw [String.toList_ofList]
  exact decodeChars_encodeChars bytes

/-- The test vectors `f`, `fo` and `foobar`. -/
example : [encode [102], encode [102, 111], encode [102, 111, 111, 98, 97, 114]] =
    ["Zg==", "Zm8=", "Zm9vYmFy"] := by
  decide +kernel

end Base64
end Library
end ObjectStore
