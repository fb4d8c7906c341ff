import Mathlib

/-!
# Library - Codecs for compact JSON

A codec is an encoder together with a decoder that inverts it in front of any text
that does not go on with a digit.  The combinators build the codec of a record out
of the codecs of its fields, so every codec below carries its own round trip.

Main definitions:

- `Codec`: an encoder, its decoder and the round-trip law.
- `Codec.nat`, `Codec.string`, `Codec.list`, `Codec.pair`, `Codec.wrap`,
  `Codec.transport`: the combinators.
- `Codec.decode?_toString`: the round trip on whole documents.
-/

namespace ObjectStore
namespace Library

/-! ## Codecs -/

/-- The text does not go on with a digit. -/
def Boundary (rest : List Char) : Prop :=
  ∀ c ∈ rest.head?, c.isDigit = false

/-- The first character of a JSON value; it closes no list and no object. -/
def Starts (text : List Char) : Prop :=
  ∃ c rest, text = c :: rest ∧ c ≠ ']' ∧ c ≠ '\x7d'

/-- A writer and a reader that takes what was written off the front of its input. -/
structure Codec (α : Type) where
  encode : α → List Char
  decode : List Char → Option (α × List Char)
  starts : ∀ a, Starts (encode a)
  decode_encode : ∀ a rest, Boundary rest → decode (encode a ++ rest) = some (a, rest)

namespace Codec

variable {α β : Type}

/-- A whole document. -/
def toString (codec : Codec α) (a : α) : String :=
  String.ofList (codec.encode a)

/-- Decode a whole document; text after the value is an error. -/
def decode? (codec : Codec α) (document : String) : Option α :=
  match codec.decode document.toList with
  | some (a, []) => some a
  | _ => none

theorem decode?_toString (codec : Codec α) (a : α) :
    codec.decode? (codec.toString a) = some a := by
  have hdecode := codec.decode_encode a [] (by simp [Boundary])
  rw [List.append_nil] at hdecode
  simp [decode?, toString, hdecode]

/-! ## Numbers -/

theorem starts_toDigits (n : Nat) : Starts (Nat.toDigits 10 n) := by
  cases htext : Nat.toDigits 10 n with
  | nil => exact absurd htext Nat.toDigits_ne_nil
  | cons c rest =>
      have hdigit : c.isDigit := Nat.isDigit_of_mem_toDigits (b := 10) (by decide) (by decide)
        (by rw [htext]; exact List.mem_cons_self)
      refine ⟨c, rest, rfl, ?_, ?_⟩
      · rintro rfl
        simp at hdigit
      · rintro rfl
        simp at hdigit

theorem takeWhile_isDigit (n : Nat) {rest : List Char} (hrest : Boundary rest) :
    (Nat.toDigits 10 n ++ rest).takeWhile Char.isDigit = Nat.toDigits 10 n ∧
      (Nat.toDigits 10 n ++ rest).dropWhile Char.isDigit = rest := by
  have hdigits : ∀ c ∈ Nat.toDigits 10 n, c.isDigit = true := fun c hc =>
    Nat.isDigit_of_mem_toDigits (by decide) (by decide) hc
  rw [List.takeWhile_append_of_pos hdigits, List.dropWhile_append_of_pos hdigits]
  cases rest with
  | nil => simp
  | cons c rest =>
      have hc : c.isDigit = false := hrest c (by simp)
      simp [hc]

/-- Decimal numbers. -/
def nat : Codec Nat where
  encode n := Nat.toDigits 10 n
  decode input :=
    some (Nat.ofDigitChars 10 (input.takeWhile Char.isDigit) 0, input.dropWhile Char.isDigit)
  starts := starts_toDigits
  decode_encode := by
    intro n rest hrest
    obtain ⟨htake, hdrop⟩ := takeWhile_isDigit n hrest
    rw [htake, hdrop, Nat.ofDigitChars_ten_toDigits]

/-- Encode a type through another one that it embeds into. -/
def transport (codec : Codec α) (f : β → α) (g : α → β) (hgf : ∀ b, g (f b) = b) :
    Codec β where
  encode b := codec.encode (f b)
  decode input := (codec.decode input).map fun (a, rest) => (g a, rest)
  starts b := codec.starts (f b)
  decode_encode := by
    intro b rest hrest
    simp [codec.decode_encode (f b) rest hrest, hgf]

/-! ## Records -/

/-- Remove a literal from the front of a text. -/
def strip (literal input : List Char) : Option (List Char) :=
  if literal.isPrefixOf input then some (input.drop literal.length) else none

@[simp]
theorem strip_append (literal rest : List Char) : strip literal (literal ++ rest) = some rest := by
  simp [strip]

/-- Two values with a separator between them. -/
def pair (first : Codec α) (separator : String) (second : Codec β)
    (hseparator : ∀ rest, Boundary (separator.toList ++ rest)) : Codec (α × β) where
  encode ab := first.encode ab.1 ++ (separator.toList ++ second.encode ab.2)
  decode input := do
    let (a, input) ← first.decode input
    let input ← strip separator.toList input
    let (b, input) ← second.decode input
    pure ((a, b), input)
  starts ab := by
    obtain ⟨c, rest, htext, hc⟩ := first.starts ab.1
    exact ⟨c, rest ++ (separator.toList ++ second.encode ab.2), by simp [htext], hc⟩
  decode_encode := by
    rintro ⟨a, b⟩ rest hrest
    have hfirst := first.decode_encode a (separator.toList ++ (second.encode b ++ rest))
      (hseparator _)
    simp only [List.append_assoc, hfirst, second.decode_encode b rest hrest, strip_append,
      Option.bind_eq_bind, Option.bind_some, Option.pure_def]

/-- A value between two literals. -/
def wrap (codec : Codec α) (opening closing : String)
    (hopening : Starts opening.toList) (hclosing : ∀ rest, Boundary (closing.toList ++ rest)) :
    Codec α where
  encode a := opening.toList ++ (codec.encode a ++ closing.toList)
  decode input := do
    let input ← strip opening.toList input
    let (a, input) ← codec.decode input
    let input ← strip closing.toList input
    pure (a, input)
  starts a := by
    obtain ⟨c, rest, htext, hc⟩ := hopening
    exact ⟨c, rest ++ (codec.encode a ++ closing.toList), by simp [htext], hc⟩
  decode_encode := by
    intro a rest hrest
    simp only [List.append_assoc, strip_append, codec.decode_encode a _ (hclosing rest),
      Option.bind_eq_bind, Option.bind_some, Option.pure_def]

/-! ## Lists -/

/-- The items of a list, up to and including the closing character. -/
def encodeItems (codec : Codec α) (closing : Char) : List α → List Char
  | [] => [closing]
  | [a] => codec.encode a ++ [closing]
  | a :: b :: rest => codec.encode a ++ (',' :: encodeItems codec closing (b :: rest))

/-- Decode items up to the closing character; the first argument bounds their
number. -/
def decodeItems (codec : Codec α) (closing : Char) : Nat → List Char → Option (List α × List Char)
  | 0, _ => none
  | fuel + 1, input =>
      if input.head? = some closing then some ([], input.tail)
      else
        match codec.decode input with
        | none => none
        | some (a, rest) =>
            match rest with
            | ',' :: rest =>
                (decodeItems codec closing fuel rest).map fun (items, rest) => (a :: items, rest)
            | _ => (decodeItems codec closing fuel rest).map fun (items, rest) => (a :: items, rest)

theorem decodeItems_encodeItems (codec : Codec α) {closing : Char}
    (hdigit : closing.isDigit = false)
    (hcomma : closing ≠ ',') (hstarts : closing = ']' ∨ closing = '\x7d') (items : List α)
    (rest : List Char) (fuel : Nat) (hfuel : items.length < fuel) :
    decodeItems codec closing fuel (encodeItems codec closing items ++ rest) =
      some (items, rest) := by
  induction items generalizing fuel with
  | nil =>
      cases fuel with
      | zero => simp at hfuel
      | succ fuel => simp [decodeItems, encodeItems]
  | cons a items ih =>
      cases fuel with
      | zero => simp at hfuel
      | succ fuel =>
          have hrest := ih fuel (by simpa using hfuel)
          obtain ⟨c, text, htext, hbracket, hbrace⟩ := codec.starts a
          have hne : c ≠ closing := by
            rcases hstarts with rfl | rfl
            · exact hbracket
            · exact hbrace
          cases items with
          | nil =>
              have hdecode := codec.decode_encode a (closing :: rest) (by simp [Boundary, hdigit])
              have hhead : (codec.encode a ++ closing :: rest).head? = some c := by simp [htext]
              simp only [encodeItems, List.append_assoc, List.singleton_append, decodeItems, hhead,
                Option.some.injEq, hne, if_false, hdecode]
              rw [show encodeItems codec closing [] ++ rest = closing :: rest from rfl] at hrest
              split
              · rename_i heq
                exact absurd (List.cons.inj heq).1 hcomma
              · rw [hrest]
                rfl
          | cons b items =>
              have hdecode := codec.decode_encode a
                (',' :: (encodeItems codec closing (b :: items) ++ rest)) (by simp [Boundary])
              have hhead : (codec.encode a ++
                  ',' :: (encodeItems codec closing (b :: items) ++ rest)).head? = some c := by
                simp [htext]
              simp only [encodeItems, List.append_assoc, List.cons_append, decodeItems, hhead,
                Option.some.injEq, hne, if_false, hdecode, hrest, Option.map_some]

theorem length_le_encodeItems (codec : Codec α) (closing : Char) (items : List α) :
    items.length < (encodeItems codec closing items).length := by
  induction items with
  | nil => simp [encodeItems]
  | cons a items ih =>
      cases items with
      | nil =>
          obtain ⟨c, text, htext, _⟩ := codec.starts a
          simp [encodeItems, htext]
      | cons b items =>
          simp only [encodeItems, List.length_append, List.length_cons] at ih ⊢
          omega

/-- `[a,b,c]`, or the same between braces. -/
def list (codec : Codec α) (opening closing : Char)
    (hopening : opening ≠ ']' ∧ opening ≠ '\x7d') (hclosing : closing = ']' ∨ closing = '\x7d') :
    Codec (List α) where
  encode items := opening :: encodeItems codec closing items
  decode input :=
    if input.head? = some opening then decodeItems codec closing input.length input.tail else none
  starts items := ⟨opening, _, rfl, hopening⟩
  decode_encode := by
    intro items rest _
    have hdigit : closing.isDigit = false := by
      rcases hclosing with rfl | rfl <;> decide
    have hcomma : closing ≠ ',' := by
      rcases hclosing with rfl | rfl <;> decide
    have hlength := length_le_encodeItems codec closing items
    rw [List.cons_append, List.head?_cons, if_pos rfl, List.tail_cons]
    refine decodeItems_encodeItems codec hdigit hcomma hclosing items rest _ ?_
    simp only [List.length_cons, List.length_append]
    omega

/-! ## Strings -/

/-- The escape sequence of a character inside a string. -/
def escape (c : Char) : List Char :=
  if c = '"' then ['\\', '"']
  else if c = '\\' then ['\\', '\\']
  else if c = '\x08' then ['\\', 'b']
  else if c = '\t' then ['\\', 't']
  else if c = '\n' then ['\\', 'n']
  else if c = '\x0c' then ['\\', 'f']
  else if c = '\r' then ['\\', 'r']
  else if c.toNat < 32 then
    ['\\', 'u', '0', '0', Nat.digitChar (c.toNat / 16), Nat.digitChar (c.toNat % 16)]
  else [c]

/-- The value of a hexadecimal digit. -/
def unhex (c : Char) : Nat :=
  if c.isDigit then c.toNat - '0'.toNat else c.toNat - 'a'.toNat + 10

/-- The next character of a string. -/
def unescape : List Char → Option (Char × List Char)
  | '\\' :: '"' :: rest => some ('"', rest)
  | '\\' :: '\\' :: rest => some ('\\', rest)
  | '\\' :: 'b' :: rest => some ('\x08', rest)
  | '\\' :: 't' :: rest => some ('\t', rest)
  | '\\' :: 'n' :: rest => some ('\n', rest)
  | '\\' :: 'f' :: rest => some ('\x0c', rest)
  | '\\' :: 'r' :: rest => some ('\r', rest)
  | '\\' :: 'u' :: '0' :: '0' :: high :: low :: rest =>
      some (Char.ofNat (16 * unhex high + unhex low), rest)
  | c :: rest => some (c, rest)
  | [] => none

theorem unhex_digitChar : ∀ n, n < 16 → unhex (Nat.digitChar n) = n := by decide

theorem unescape_escape (c : Char) (rest : List Char) :
    unescape (escape c ++ rest) = some (c, rest) := by
  unfold escape
  split_ifs with h₁ h₂ h₃ h₄ h₅ h₆ h₇ h₈
  all_goals try (subst c; rfl)
  · have hhigh := unhex_digitChar (c.toNat / 16) (by omega)
    have hlow := unhex_digitChar (c.toNat % 16) (by omega)
    have hcode : 16 * (c.toNat / 16) + c.toNat % 16 = c.toNat := by omega
    simp [unescape, hhigh, hlow, hcode]
  · simp [unescape, h₂]

theorem escape_head (c : Char) (rest : List Char) : (escape c ++ rest).head? ≠ some '"' := by
  unfold escape
  split_ifs with h₁ h₂ h₃ h₄ h₅ h₆ h₇ h₈ <;> simp [h₁]

/-- The characters of a string, up to and including the closing quote. -/
def decodeChars : Nat → List Char → Option (List Char × List Char)
  | 0, _ => none
  | fuel + 1, input =>
      if input.head? = some '"' then some ([], input.tail)
      else
        match unescape input with
        | none => none
        | some (c, rest) => (decodeChars fuel rest).map fun (cs, rest) => (c :: cs, rest)

theorem decodeChars_escape (cs rest : List Char) (fuel : Nat) (hfuel : cs.length < fuel) :
    decodeChars fuel (cs.flatMap escape ++ '"' :: rest) = some (cs, rest) := by
  induction cs generalizing fuel with
  | nil =>
      cases fuel with
      | zero => simp at hfuel
      | succ fuel => simp [decodeChars]
  | cons c cs ih =>
      cases fuel with
      | zero => simp at hfuel
      | succ fuel =>
          have hrest := ih fuel (by simpa using hfuel)
          simp only [List.flatMap_cons, List.append_assoc, decodeChars, escape_head, if_false,
            unescape_escape, hrest, Option.map_some]

theorem length_le_flatMap_escape (cs : List Char) : cs.length ≤ (cs.flatMap escape).length := by
  induction cs with
  | nil => simp
  | cons c cs ih =>
      have hpos : 0 < (escape c).length := by
        unfold escape
        split_ifs <;> simp
      simp only [List.flatMap_cons, List.length_append, List.length_cons]
      omega

/-- Quoted strings. -/
def string : Codec String where
  encode s := '"' :: (s.toList.flatMap escape ++ ['"'])
  decode input :=
    if input.head? = some '"' then
      (decodeChars input.length input.tail).map fun (cs, rest) => (String.ofList cs, rest)
    else none
  starts s := ⟨'"', _, rfl, by decide, by decide⟩
  decode_encode := by
    intro s rest _
    have hlength := length_le_flatMap_escape s.toList
    have hdecode := decodeChars_escape s.toList rest
      (('"' :: (s.toList.flatMap escape ++ '"' :: rest)).length) (by
        simp only [List.length_cons, List.length_append]
        omega)
    simp only [List.cons_append, List.append_assoc, List.head?_cons, if_true, List.tail_cons]
    rw [List.nil_append, hdecode]
    simp

end Codec

end Library
end ObjectStore
