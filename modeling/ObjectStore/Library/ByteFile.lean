import Mathlib

/-!
# Library - Files as byte arrays

A file is a length and the bytes below it.  Positional writes and reads are `splice`
and `slice`; everything else follows from where their ranges lie.

Main results:

- Theorem `ByteFile.slice_splice_self`: a read of the written range.
- Theorem `ByteFile.slice_splice_of_disjoint`: a read that misses the written range.
- Theorem `ByteFile.splice_append`: two adjacent writes are one.
-/

namespace ObjectStore
namespace Library

/-- A file: nothing but zeros lies beyond its length. -/
structure ByteFile where
  len : Nat
  byteAt : Nat → UInt8
  byteAt_eq_zero : ∀ position, len ≤ position → byteAt position = 0

namespace ByteFile

/-- The empty file. -/
def empty : ByteFile := ⟨0, fun _ => 0, fun _ _ => rfl⟩

/-- The file cut or padded with zeros to `len` bytes. -/
def setLen (file : ByteFile) (len : Nat) : ByteFile where
  len := len
  byteAt position := if position < len then file.byteAt position else 0
  byteAt_eq_zero position h := by simp [Nat.not_lt.mpr h]

/-- The bytes in `[offset, offset + count)`. -/
def slice (file : ByteFile) (offset count : Nat) : List UInt8 :=
  (List.range count).map fun i => file.byteAt (offset + i)

/-- The file with `bytes` written at `offset`; a gap behind the end is filled with
zeros. -/
def splice (file : ByteFile) (offset : Nat) (bytes : List UInt8) : ByteFile where
  len := if bytes = [] then file.len else max file.len (offset + bytes.length)
  byteAt position :=
    if offset ≤ position then (bytes[position - offset]?).getD (file.byteAt position)
    else file.byteAt position
  byteAt_eq_zero position h := by
    have hlen : file.len ≤ position := by
      split at h <;> omega
    have hnone : offset ≤ position → bytes[position - offset]? = none := by
      intro hle
      rw [List.getElem?_eq_none_iff]
      split at h
      · simp [*]
      · omega
    split
    · rw [hnone (by assumption)]
      exact file.byteAt_eq_zero position hlen
    · exact file.byteAt_eq_zero position hlen

@[ext]
theorem ext {file file' : ByteFile} (hlen : file.len = file'.len)
    (hbytes : ∀ position, file.byteAt position = file'.byteAt position) : file = file' := by
  cases file
  cases file'
  simp only at hlen
  subst hlen
  have hfun := funext hbytes
  simp only at hfun
  subst hfun
  rfl

/-! ## Reading -/

@[simp]
theorem length_slice (file : ByteFile) (offset count : Nat) :
    (file.slice offset count).length = count := by
  simp [slice]

@[simp]
theorem slice_zero (file : ByteFile) (offset : Nat) : file.slice offset 0 = [] := by
  simp [slice]

theorem getElem_slice {file : ByteFile} {offset count i : Nat}
    (hi : i < (file.slice offset count).length) :
    (file.slice offset count)[i] = file.byteAt (offset + i) := by
  simp [slice]

theorem slice_add (file : ByteFile) (offset m n : Nat) :
    file.slice offset (m + n) = file.slice offset m ++ file.slice (offset + m) n := by
  simp [slice, List.range_add, Function.comp_def, Nat.add_assoc]

/-- Two files with the same bytes in a range read the same there. -/
theorem slice_congr {file file' : ByteFile} {offset count : Nat}
    (h : ∀ position, offset ≤ position → position < offset + count →
      file.byteAt position = file'.byteAt position) :
    file.slice offset count = file'.slice offset count := by
  refine List.map_congr_left fun i hi => h _ (by omega) ?_
  have hlt := List.mem_range.mp hi
  omega

/-! ## Writing -/

theorem byteAt_splice_of_mem {file : ByteFile} {offset position : Nat} {bytes : List UInt8}
    (hle : offset ≤ position) (hlt : position - offset < bytes.length) :
    (file.splice offset bytes).byteAt position = bytes[position - offset] := by
  simp [splice, hle, hlt]

theorem byteAt_splice_of_disjoint {file : ByteFile} {offset position : Nat} {bytes : List UInt8}
    (h : position < offset ∨ offset + bytes.length ≤ position) :
    (file.splice offset bytes).byteAt position = file.byteAt position := by
  by_cases hle : offset ≤ position
  · have hnone : bytes[position - offset]? = none := by
      rw [List.getElem?_eq_none_iff]
      omega
    simp [splice, hnone]
  · simp [splice, hle]

@[simp]
theorem splice_nil (file : ByteFile) (offset : Nat) : file.splice offset [] = file := by
  ext position <;> simp [splice]

/-- Two adjacent writes are one. -/
theorem splice_append (file : ByteFile) (offset : Nat) (bytes bytes' : List UInt8) :
    (file.splice offset bytes).splice (offset + bytes.length) bytes' =
      file.splice offset (bytes ++ bytes') := by
  ext position
  · simp only [splice, List.append_eq_nil_iff, List.length_append]
    by_cases hbytes : bytes = [] <;> by_cases hbytes' : bytes' = [] <;> simp [hbytes, hbytes']
    omega
  · by_cases hbefore : position < offset
    · rw [byteAt_splice_of_disjoint (.inl (by omega)), byteAt_splice_of_disjoint (.inl hbefore),
        byteAt_splice_of_disjoint (.inl hbefore)]
    · by_cases hfirst : position < offset + bytes.length
      · rw [byteAt_splice_of_disjoint (.inl hfirst),
          byteAt_splice_of_mem (by omega) (by omega),
          byteAt_splice_of_mem (by omega) (by rw [List.length_append]; omega),
          List.getElem_append_left]
      · by_cases hsecond : position < offset + bytes.length + bytes'.length
        · rw [byteAt_splice_of_mem (by omega) (by omega),
            byteAt_splice_of_mem (by omega) (by rw [List.length_append]; omega),
            List.getElem_append_right (by omega)]
          simp only [Nat.sub_sub]
        · rw [byteAt_splice_of_disjoint (.inr (by omega)),
            byteAt_splice_of_disjoint (.inr (by omega)),
            byteAt_splice_of_disjoint (.inr (by rw [List.length_append]; omega))]

theorem len_splice {file : ByteFile} {offset : Nat} {bytes : List UInt8}
    (h : offset + bytes.length ≤ file.len) : (file.splice offset bytes).len = file.len := by
  simp only [splice]
  split <;> omega

/-- A read of the written range. -/
theorem slice_splice_self (file : ByteFile) (offset : Nat) (bytes : List UInt8) :
    (file.splice offset bytes).slice offset bytes.length = bytes := by
  refine List.ext_getElem (by simp) fun i hi hi' => ?_
  rw [getElem_slice, byteAt_splice_of_mem (by omega) (by omega)]
  congr 1
  omega

/-- A read that misses the written range. -/
theorem slice_splice_of_disjoint {file : ByteFile} {offset offset' count : Nat}
    {bytes : List UInt8}
    (h : offset' + count ≤ offset ∨ offset + bytes.length ≤ offset') :
    (file.splice offset bytes).slice offset' count = file.slice offset' count := by
  refine slice_congr fun position hle hlt => byteAt_splice_of_disjoint ?_
  omega

/-! ## Resizing -/

@[simp]
theorem len_setLen (file : ByteFile) (len : Nat) : (file.setLen len).len = len := rfl

/-- A file with the right length is not resized. -/
@[simp]
theorem setLen_self (file : ByteFile) : file.setLen file.len = file := by
  refine ByteFile.ext rfl fun position => ?_
  simp only [setLen]
  split
  · rfl
  · exact (file.byteAt_eq_zero position (by omega)).symm

/-- Growing a file keeps every byte. -/
theorem slice_setLen {file : ByteFile} {len : Nat} (h : file.len ≤ len) (offset count : Nat) :
    (file.setLen len).slice offset count = file.slice offset count := by
  refine slice_congr fun position _ _ => ?_
  simp only [setLen]
  split
  · rfl
  · exact (file.byteAt_eq_zero position (by omega)).symm

/-- Behind its end a file reads as zeros. -/
theorem slice_of_len_le {file : ByteFile} {offset : Nat} (h : file.len ≤ offset) (count : Nat) :
    file.slice offset count = List.replicate count 0 := by
  refine List.ext_getElem (by simp) fun i hi hi' => ?_
  rw [getElem_slice, List.getElem_replicate, file.byteAt_eq_zero _ (by omega)]

end ByteFile
end Library
end ObjectStore
