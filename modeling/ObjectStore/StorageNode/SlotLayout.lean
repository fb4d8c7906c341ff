import ObjectStore.StorageNode.ChunkStore

/-!
# Storage node - What a slot holds

A slot is a header of 24 bytes and the payload behind it.  Writes to one slot stay
inside its 8 MiB, so they leave every other slot as it was.

Main results:

- Theorem `ChunkHeader.fromBytes_toBytes`: headers survive the disk.
- Theorem `Frame.splice`: a write inside a slot touches only that slot.
- Theorem `writeChunkAt_reliable`: afterwards the slot holds the chunk.
- Theorem `SlotHolds.readChunkOptimized`: a slot that holds a chunk returns it.
-/

namespace ObjectStore
namespace StorageNode

open Library (ByteFile leBytes leNat length_leBytes leNat_leBytes_of_lt)

/-! ## Headers -/

namespace ChunkHeader

@[simp]
theorem length_toBytes (self : ChunkHeader) : self.toBytes.length = CHUNK_HEADER_SIZE := by
  simp [toBytes, CHUNK_HEADER_SIZE]

theorem fromBytes_toBytes (self : ChunkHeader) : fromBytes self.toBytes = self := by
  have hmagic : self.toBytes.take 4 = leBytes 4 self.magic.toNat := by
    simp [toBytes]
  have hid : (self.toBytes.drop 4).take 8 = leBytes 8 self.id.toNat := by
    simp [toBytes]
  have hchecksum : (self.toBytes.drop 12).take 4 = leBytes 4 self.checksum.toNat := by
    simp [toBytes, List.drop_append, List.drop_eq_nil_of_le]
  have hdataLen : (self.toBytes.drop 16).take 4 = leBytes 4 self.dataLen.toNat := by
    simp [toBytes, List.drop_append, List.drop_eq_nil_of_le]
  rw [fromBytes, hmagic, hid, hchecksum, hdataLen,
    leNat_leBytes_of_lt self.magic.toNat_lt, leNat_leBytes_of_lt self.id.toNat_lt,
    leNat_leBytes_of_lt self.checksum.toNat_lt, leNat_leBytes_of_lt self.dataLen.toNat_lt]
  simp

/-- The header that `delete_chunk` writes is not a chunk's. -/
theorem magic_fromBytes_zeros :
    (fromBytes (List.replicate CHUNK_HEADER_SIZE 0)).magic ≠ MAGIC := by
  decide

end ChunkHeader

/-- The header at the start of a slot. -/
def headerAt (file : ByteFile) (slot : Nat) : ChunkHeader :=
  ChunkHeader.fromBytes (file.slice (slot * SLOT_SIZE) CHUNK_HEADER_SIZE)

/-- The first `len` bytes behind the header of a slot. -/
def payloadAt (file : ByteFile) (slot len : Nat) : Bytes :=
  file.slice (slot * SLOT_SIZE + CHUNK_HEADER_SIZE) len

/-! ## Frames -/

/-- The two files agree outside one slot. -/
structure Frame (slot : Nat) (file file' : ByteFile) : Prop where
  len : file'.len = file.len
  header : ∀ other ≠ slot, headerAt file' other = headerAt file other
  payload : ∀ other ≠ slot, ∀ len ≤ SLOT_DATA_SIZE,
    payloadAt file' other len = payloadAt file other len

/-- A write inside a slot touches only that slot. -/
theorem Frame.splice {file : ByteFile} {slot slots : Nat} {bytes : Bytes}
    (hslot : slot < slots) (hlen : file.len = SLOT_SIZE * slots)
    (hbytes : bytes.length ≤ SLOT_SIZE) :
    Frame slot file (file.splice (slot * SLOT_SIZE) bytes) := by
  have hother : ∀ other ≠ slot, ∀ offset count, offset + count ≤ SLOT_SIZE →
      (file.splice (slot * SLOT_SIZE) bytes).slice (other * SLOT_SIZE + offset) count =
        file.slice (other * SLOT_SIZE + offset) count := by
    intro other hne offset count hcount
    refine ByteFile.slice_splice_of_disjoint ?_
    simp only [SLOT_SIZE] at *
    omega
  constructor
  · refine ByteFile.len_splice ?_
    simp only [SLOT_SIZE] at *
    omega
  · intro other hne
    have hheader := hother other hne 0 CHUNK_HEADER_SIZE (by decide)
    rw [headerAt, headerAt]
    rw [Nat.add_zero] at hheader
    rw [hheader]
  · intro other hne len hle
    refine hother other hne CHUNK_HEADER_SIZE len ?_
    simp only [SLOT_DATA_SIZE, SLOT_SIZE, CHUNK_HEADER_SIZE] at *
    omega

/-! ## Chunks on disk -/

/-- The slot holds the chunk `id` with these bytes. -/
structure SlotHolds (crc32 : Bytes → UInt32) (file : ByteFile) (slot : Nat) (id : UInt64)
    (data : Bytes) : Prop where
  length : data.length ≤ SLOT_DATA_SIZE
  header : headerAt file slot = ChunkHeader.new id (crc32 data) (UInt32.ofNat data.length)
  payload : payloadAt file slot data.length = data

variable {crc32 : Bytes → UInt32}

theorem SlotHolds.magic {file : ByteFile} {slot : Nat} {id : UInt64} {data : Bytes}
    (h : SlotHolds crc32 file slot id data) : (headerAt file slot).magic = MAGIC := by
  rw [h.header]
  rfl

theorem SlotHolds.id {file : ByteFile} {slot : Nat} {id : UInt64} {data : Bytes}
    (h : SlotHolds crc32 file slot id data) : (headerAt file slot).id = id := by
  rw [h.header]
  rfl

theorem SlotHolds.checksum {file : ByteFile} {slot : Nat} {id : UInt64} {data : Bytes}
    (h : SlotHolds crc32 file slot id data) : (headerAt file slot).checksum = crc32 data := by
  rw [h.header]
  rfl

theorem SlotHolds.dataLen {file : ByteFile} {slot : Nat} {id : UInt64} {data : Bytes}
    (h : SlotHolds crc32 file slot id data) : (headerAt file slot).dataLen.toNat = data.length := by
  have hlength := h.length
  rw [h.header]
  refine UInt32.toNat_ofNat_of_lt' ?_
  simp only [SLOT_DATA_SIZE, SLOT_SIZE, CHUNK_HEADER_SIZE, UInt32.size] at *
  omega

theorem SlotHolds.frame {file file' : ByteFile} {slot other : Nat} {id : UInt64} {data : Bytes}
    (h : SlotHolds crc32 file other id data) (hframe : Frame slot file file') (hne : other ≠ slot) :
    SlotHolds crc32 file' other id data where
  length := h.length
  header := (hframe.header other hne).trans h.header
  payload := (hframe.payload other hne _ h.length).trans h.payload

/-! ## Slot I/O without errors -/

theorem add_le_len {file : ByteFile} {slot slots : Nat} (hslot : slot < slots)
    (hlen : file.len = SLOT_SIZE * slots) {count : Nat} (hcount : count ≤ SLOT_SIZE) :
    slot * SLOT_SIZE + count ≤ file.len := by
  simp only [SLOT_SIZE] at *
  omega

theorem readChunkHeader_reliable {disk : Disk} (h : disk.Reliable) {slot slots : Nat}
    (hslot : slot < slots) (hlen : disk.file.len = SLOT_SIZE * slots) :
    Disk.Yields (readChunkHeader disk slot) (headerAt disk.file slot) disk.file := by
  rcases Disk.readExactAt_reliable h (add_le_len hslot hlen
      (by decide : CHUNK_HEADER_SIZE ≤ SLOT_SIZE)) with
    ⟨disk', hread, hfile, hdisk'⟩
  rw [readChunkHeader, hread]
  exact ⟨disk', rfl, hfile, hdisk'⟩

/-- A slot with the magic and a length that fits returns the bytes it announces. -/
theorem readChunkOptimized_reliable {disk : Disk} (h : disk.Reliable) {slot slots : Nat}
    (hslot : slot < slots) (hlen : disk.file.len = SLOT_SIZE * slots)
    (hmagic : (headerAt disk.file slot).magic = MAGIC)
    (hdataLen : (headerAt disk.file slot).dataLen.toNat ≤ SLOT_DATA_SIZE) :
    Disk.Yields (readChunkOptimized disk slot)
      (headerAt disk.file slot,
        payloadAt disk.file slot (headerAt disk.file slot).dataLen.toNat) disk.file := by
  rcases readChunkHeader_reliable h hslot hlen with ⟨disk', hread, hfile, hdisk'⟩
  have hrange : slot * SLOT_SIZE + CHUNK_HEADER_SIZE +
      (headerAt disk.file slot).dataLen.toNat ≤ disk'.file.len := by
    rw [hfile, Nat.add_assoc]
    refine add_le_len hslot hlen ?_
    simp only [SLOT_DATA_SIZE, SLOT_SIZE, CHUNK_HEADER_SIZE] at *
    omega
  rcases Disk.readExactAt_reliable hdisk' hrange with ⟨disk'', hread', hfile', hdisk''⟩
  rw [hfile] at hread'
  rw [readChunkOptimized, hread]
  simp only [hmagic, ne_eq, not_true_eq_false, if_false, hread']
  exact ⟨disk'', rfl, hfile'.trans hfile, hdisk''⟩

/-- A slot that holds a chunk returns it. -/
theorem SlotHolds.readChunkOptimized {disk : Disk} {slot slots : Nat} {id : UInt64}
    {data : Bytes} (hholds : SlotHolds crc32 disk.file slot id data) (h : disk.Reliable)
    (hslot : slot < slots) (hlen : disk.file.len = SLOT_SIZE * slots) :
    Disk.Yields (StorageNode.readChunkOptimized disk slot) (headerAt disk.file slot, data)
      disk.file := by
  have hread := readChunkOptimized_reliable h hslot hlen hholds.magic
    (hholds.dataLen ▸ hholds.length)
  rwa [hholds.dataLen, hholds.payload] at hread

/-- The header and the payload written whole. -/
theorem slotHolds_splice (file : ByteFile) (slot : Nat) (id : UInt64) {data : Bytes}
    (hdata : data.length ≤ SLOT_DATA_SIZE) :
    SlotHolds crc32 (file.splice (slot * SLOT_SIZE)
      ((ChunkHeader.new id (crc32 data) (UInt32.ofNat data.length)).toBytes ++ data))
      slot id data := by
  let header := ChunkHeader.new id (crc32 data) (UInt32.ofNat data.length)
  have hslice : (file.splice (slot * SLOT_SIZE) (header.toBytes ++ data)).slice
      (slot * SLOT_SIZE) (CHUNK_HEADER_SIZE + data.length) = header.toBytes ++ data := by
    have hself := file.slice_splice_self (slot * SLOT_SIZE) (header.toBytes ++ data)
    rwa [List.length_append, ChunkHeader.length_toBytes] at hself
  rw [ByteFile.slice_add] at hslice
  have hparts := List.append_inj hslice (by simp)
  exact ⟨hdata, by rw [headerAt, hparts.1, ChunkHeader.fromBytes_toBytes], hparts.2⟩

/-- A chunk written to a slot is there, and no other slot changes. -/
theorem writeChunkAt_reliable {disk : Disk} (h : disk.Reliable) {slot slots : Nat}
    (hslot : slot < slots) (hlen : disk.file.len = SLOT_SIZE * slots) (id : UInt64)
    {data : Bytes} (hdata : data.length ≤ SLOT_DATA_SIZE) (fsync : Bool) :
    ∃ disk', writeChunkAt disk slot
        (ChunkHeader.new id (crc32 data) (UInt32.ofNat data.length)) data fsync =
          (.returned (.ok ()), disk') ∧
      disk'.Reliable ∧ SlotHolds crc32 disk'.file slot id data ∧
        Frame slot disk.file disk'.file := by
  let header := ChunkHeader.new id (crc32 data) (UInt32.ofNat data.length)
  let file := disk.file.splice (slot * SLOT_SIZE) (header.toBytes ++ data)
  have hjoin : (disk.file.splice (slot * SLOT_SIZE) header.toBytes).splice
      (slot * SLOT_SIZE + CHUNK_HEADER_SIZE) data = file := by
    have hsplice := disk.file.splice_append (slot * SLOT_SIZE) header.toBytes data
    rwa [ChunkHeader.length_toBytes] at hsplice
  have hholds : SlotHolds crc32 file slot id data := slotHolds_splice disk.file slot id hdata
  have hframe : Frame slot disk.file file := by
    refine Frame.splice hslot hlen ?_
    rw [List.length_append, ChunkHeader.length_toBytes]
    simp only [SLOT_DATA_SIZE, SLOT_SIZE, CHUNK_HEADER_SIZE] at *
    omega
  rcases Disk.writeAllAt_reliable h header.toBytes (slot * SLOT_SIZE) with
    ⟨disk₁, hwrite₁, hfile₁, hdisk₁⟩
  rcases Disk.writeAllAt_reliable hdisk₁ data (slot * SLOT_SIZE + CHUNK_HEADER_SIZE) with
    ⟨disk₂, hwrite₂, hfile₂, hdisk₂⟩
  rw [hfile₁, hjoin] at hfile₂
  rcases Disk.call_reliable hdisk₂ with ⟨disk₃, hcall, hfile₃, hdisk₃⟩
  rw [writeChunkAt, if_neg (by omega)]
  simp only [header] at hwrite₁
  simp only [hwrite₁, hwrite₂, hcall]
  cases fsync with
  | false => exact ⟨disk₂, rfl, hdisk₂, hfile₂ ▸ hholds, hfile₂ ▸ hframe⟩
  | true =>
      rw [hfile₂] at hfile₃
      exact ⟨disk₃, rfl, hdisk₃, hfile₃ ▸ hholds, hfile₃ ▸ hframe⟩

end StorageNode
end ObjectStore
