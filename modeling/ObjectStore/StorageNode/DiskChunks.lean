import ObjectStore.StorageNode.Faults

/-!
# Storage node - Chunks that the file holds

A slot holds a chunk when `recover_index` would accept it: the magic is there, the length
fits and the checksum is that of the payload.  Nothing is said about who wrote the bytes.

Main definitions:

- `bodyAt`, `chunkAt`: the id and the payload in a slot, without and with the magic.
- `Agree`: two files with the same bytes in a slot.

Main results:

- Theorem `chunkAt_splice_of_ne`: a write inside one slot leaves the chunks of the others.
- Theorem `magic_headerAt_iff`: the magic, byte by byte.
-/

namespace ObjectStore
namespace StorageNode

open Library (ByteFile leNat)

/-- The chunk that the bytes behind the magic describe. -/
def bodyAt (crc32 : Bytes → UInt32) (file : ByteFile) (slot : Nat) : Option (UInt64 × Bytes) :=
  let header := headerAt file slot
  if header.dataLen.toNat ≤ SLOT_DATA_SIZE then
    let data := payloadAt file slot header.dataLen.toNat
    if header.checksum = crc32 data then some (header.id, data) else none
  else none

/-- The chunk that `recover_index` finds in a slot. -/
def chunkAt (crc32 : Bytes → UInt32) (file : ByteFile) (slot : Nat) : Option (UInt64 × Bytes) :=
  if (headerAt file slot).magic = MAGIC then bodyAt crc32 file slot else none

variable {crc32 : Bytes → UInt32} {file file' : ByteFile} {slot : Nat}

theorem bodyAt_eq_some_iff {id : UInt64} {data : Bytes} :
    bodyAt crc32 file slot = some (id, data) ↔
      (headerAt file slot).dataLen.toNat ≤ SLOT_DATA_SIZE ∧
        (headerAt file slot).checksum = crc32 data ∧ (headerAt file slot).id = id ∧
          payloadAt file slot (headerAt file slot).dataLen.toNat = data := by
  unfold bodyAt
  by_cases hlen : (headerAt file slot).dataLen.toNat ≤ SLOT_DATA_SIZE
  · simp only [hlen, if_true, true_and]
    by_cases hchecksum : (headerAt file slot).checksum =
        crc32 (payloadAt file slot (headerAt file slot).dataLen.toNat)
    · rw [if_pos hchecksum, Option.some.injEq, Prod.mk.injEq]
      constructor
      · intro h
        exact ⟨h.2 ▸ hchecksum, h⟩
      · intro h
        exact h.2
    · rw [if_neg hchecksum]
      constructor
      · intro h
        cases h
      · intro h
        exact absurd (h.2.2 ▸ h.1) hchecksum
  · simp [hlen]

theorem chunkAt_eq_some_iff {chunk : UInt64 × Bytes} :
    chunkAt crc32 file slot = some chunk ↔
      (headerAt file slot).magic = MAGIC ∧ bodyAt crc32 file slot = some chunk := by
  unfold chunkAt
  split
  · rename_i hmagic
    simp [hmagic]
  · rename_i hmagic
    simp [hmagic]

/-- A slot that holds a chunk with its own header is accepted. -/
theorem SlotHolds.chunkAt {id : UInt64} {data : Bytes} (h : SlotHolds crc32 file slot id data) :
    chunkAt crc32 file slot = some (id, data) := by
  rw [chunkAt_eq_some_iff, bodyAt_eq_some_iff, h.dataLen]
  exact ⟨h.magic, h.length, h.checksum, h.id, h.payload⟩

theorem chunkAt_splice (file : ByteFile) (slot : Nat) (id : UInt64) {data : Bytes}
    (hdata : data.length ≤ SLOT_DATA_SIZE) :
    chunkAt crc32 (file.splice (slot * SLOT_SIZE) (chunkBytes crc32 id data)) slot =
      some (id, data) :=
  (slotHolds_splice file slot id hdata).chunkAt

/-! ## What a slot depends on -/

/-- The two files have the same bytes in a slot from offset `start` on. -/
def Agree (start : Nat) (file file' : ByteFile) (slot : Nat) : Prop :=
  ∀ position, slot * SLOT_SIZE + start ≤ position → position < (slot + 1) * SLOT_SIZE →
    file'.byteAt position = file.byteAt position

theorem Agree.slice {start offset count : Nat} (h : Agree start file file' slot)
    (hstart : start ≤ offset) (hcount : offset + count ≤ SLOT_SIZE) :
    file'.slice (slot * SLOT_SIZE + offset) count =
      file.slice (slot * SLOT_SIZE + offset) count := by
  refine ByteFile.slice_congr fun position hle hlt => h position (by omega) ?_
  rw [Nat.add_mul]
  omega

/-- The fields behind the magic start at the fifth byte. -/
theorem fields_fromBytes {buf buf' : Bytes} (h : buf.drop 4 = buf'.drop 4) :
    (ChunkHeader.fromBytes buf).id = (ChunkHeader.fromBytes buf').id ∧
      (ChunkHeader.fromBytes buf).checksum = (ChunkHeader.fromBytes buf').checksum ∧
        (ChunkHeader.fromBytes buf).dataLen = (ChunkHeader.fromBytes buf').dataLen := by
  have hsplit : ∀ (bytes : Bytes) (n : Nat), bytes.drop (4 + n) = (bytes.drop 4).drop n :=
    fun bytes n => (List.drop_drop).symm
  have hchecksum := hsplit buf 8
  have hchecksum' := hsplit buf' 8
  have hdataLen := hsplit buf 12
  have hdataLen' := hsplit buf' 12
  simp only [Nat.reduceAdd] at hchecksum hchecksum' hdataLen hdataLen'
  simp only [ChunkHeader.fromBytes, h, hchecksum, hchecksum', hdataLen, hdataLen', and_self]

theorem Agree.fields {start : Nat} (h : Agree start file file' slot) (hstart : start ≤ 4) :
    (headerAt file' slot).id = (headerAt file slot).id ∧
      (headerAt file' slot).checksum = (headerAt file slot).checksum ∧
        (headerAt file' slot).dataLen = (headerAt file slot).dataLen := by
  have hsplit : ∀ file : ByteFile, (file.slice (slot * SLOT_SIZE) CHUNK_HEADER_SIZE).drop 4 =
      file.slice (slot * SLOT_SIZE + 4) 20 := by
    intro file
    rw [show CHUNK_HEADER_SIZE = 4 + 20 from rfl, ByteFile.slice_add,
      List.drop_left' (ByteFile.length_slice file _ _)]
  refine fields_fromBytes ?_
  rw [hsplit, hsplit]
  exact h.slice hstart (by decide)

/-- The body of a slot does not depend on its magic. -/
theorem Agree.bodyAt {start : Nat} (h : Agree start file file' slot) (hstart : start ≤ 4) :
    bodyAt crc32 file' slot = bodyAt crc32 file slot := by
  rcases h.fields hstart with ⟨hid, hchecksum, hdataLen⟩
  unfold StorageNode.bodyAt
  simp only [hid, hchecksum, hdataLen]
  by_cases hlen : (headerAt file slot).dataLen.toNat ≤ SLOT_DATA_SIZE
  · have hpayload : payloadAt file' slot (headerAt file slot).dataLen.toNat =
        payloadAt file slot (headerAt file slot).dataLen.toNat := by
      refine h.slice (by rw [CHUNK_HEADER_SIZE]; omega) ?_
      simp only [SLOT_DATA_SIZE, SLOT_SIZE, CHUNK_HEADER_SIZE] at *
      omega
    rw [hpayload]
  · rw [if_neg hlen, if_neg hlen]

theorem Agree.chunkAt (h : Agree 0 file file' slot) :
    chunkAt crc32 file' slot = chunkAt crc32 file slot := by
  have hheader : headerAt file' slot = headerAt file slot := by
    have hslice := h.slice (Nat.le_refl 0) (by decide : 0 + CHUNK_HEADER_SIZE ≤ SLOT_SIZE)
    rw [headerAt, headerAt]
    simpa using congrArg ChunkHeader.fromBytes hslice
  unfold StorageNode.chunkAt
  rw [hheader, h.bodyAt (by omega)]

theorem Agree.mono {start start' : Nat} (h : Agree start file file' slot)
    (hstart : start ≤ start') : Agree start' file file' slot :=
  fun position hle hlt => h position (by omega) hlt

/-- A write to another slot. -/
theorem agree_splice_of_ne {other : Nat} (file : ByteFile) {bytes : Bytes} (hne : other ≠ slot)
    (hbytes : bytes.length ≤ SLOT_SIZE) :
    Agree 0 file (file.splice (slot * SLOT_SIZE) bytes) other := by
  intro position hle hlt
  refine ByteFile.byteAt_splice_of_disjoint ?_
  simp only [SLOT_SIZE] at *
  omega

/-- A write of the first bytes of a slot. -/
theorem agree_splice (file : ByteFile) (slot : Nat) (bytes : Bytes) :
    Agree bytes.length file (file.splice (slot * SLOT_SIZE) bytes) slot :=
  fun _ hle _ => ByteFile.byteAt_splice_of_disjoint (.inr hle)

theorem chunkAt_splice_of_ne {other : Nat} (file : ByteFile) {bytes : Bytes} (hne : other ≠ slot)
    (hbytes : bytes.length ≤ SLOT_SIZE) :
    chunkAt crc32 (file.splice (slot * SLOT_SIZE) bytes) other = chunkAt crc32 file other :=
  (agree_splice_of_ne file hne hbytes).chunkAt

/-! ## The magic -/

theorem magic_headerAt_iff :
    (headerAt file slot).magic = MAGIC ↔
      file.byteAt (slot * SLOT_SIZE) = 0x01 ∧ file.byteAt (slot * SLOT_SIZE + 1) = 0x4B ∧
        file.byteAt (slot * SLOT_SIZE + 2) = 0x48 ∧ file.byteAt (slot * SLOT_SIZE + 3) = 0x43 := by
  have hfirst : (file.slice (slot * SLOT_SIZE) CHUNK_HEADER_SIZE).take 4 =
      [file.byteAt (slot * SLOT_SIZE), file.byteAt (slot * SLOT_SIZE + 1),
        file.byteAt (slot * SLOT_SIZE + 2), file.byteAt (slot * SLOT_SIZE + 3)] := by
    rw [show CHUNK_HEADER_SIZE = 4 + 20 from rfl, ByteFile.slice_add,
      List.take_left' (ByteFile.length_slice file _ _)]
    simp [ByteFile.slice, List.range_succ]
  have hlt : ∀ byte : UInt8, byte.toNat < 256 := fun byte => byte.toNat_lt
  have h0 := hlt (file.byteAt (slot * SLOT_SIZE))
  have h1 := hlt (file.byteAt (slot * SLOT_SIZE + 1))
  have h2 := hlt (file.byteAt (slot * SLOT_SIZE + 2))
  have h3 := hlt (file.byteAt (slot * SLOT_SIZE + 3))
  rw [headerAt, ChunkHeader.fromBytes]
  simp only [hfirst, leNat, ← UInt8.toNat_inj, ← UInt32.toNat_inj, UInt32.toNat_ofNat', MAGIC,
    UInt32.reduceToNat, UInt8.reduceToNat]
  omega

end StorageNode
end ObjectStore
