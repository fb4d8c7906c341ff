import ObjectStore.Library.Crc32
import ObjectStore.StorageNode.Faults
import ObjectStore.StorageNode.Transfers

/-!
# Storage node - The header codec

`to_bytes` and `from_bytes` in both directions.  The four fields fill the first 20 bytes of
the 24, so exactly the buffers that end in four zeros are headers.  The zeros that
`delete_chunk` writes are such a buffer, and no chunk's header.

Main results:

- Theorem `ChunkHeader.toBytes_fromBytes`: buffers with zero padding survive decoding.
- Theorem `ChunkHeader.bijOn_toBytes`: the codec is a bijection on its image.
- Theorem `recoverSlot_of_zeroed`: recovery frees a slot whose header is zeroed.
- Theorem `header_codec`: the codec, with what a deletion leaves behind.
-/

namespace ObjectStore
namespace StorageNode

open Library (ByteFile leBytes leNat leNat_lt leBytes_leNat)

/-! ## The codec -/

/-- The buffers that `to_bytes` returns: 24 bytes, the last four of them padding. -/
def HeaderBytes : Set Bytes :=
  { buf | buf.length = CHUNK_HEADER_SIZE ∧ buf.drop 20 = List.replicate 4 0 }

theorem leBytes_toUInt32 {bytes : Bytes} (h : bytes.length = 4) :
    leBytes 4 (UInt32.ofNat (leNat bytes)).toNat = bytes := by
  have hlt := leNat_lt bytes
  rw [h] at hlt
  rw [UInt32.toNat_ofNat_of_lt' hlt, ← h, leBytes_leNat]

theorem leBytes_toUInt64 {bytes : Bytes} (h : bytes.length = 8) :
    leBytes 8 (UInt64.ofNat (leNat bytes)).toNat = bytes := by
  have hlt := leNat_lt bytes
  rw [h] at hlt
  rw [UInt64.toNat_ofNat_of_lt' hlt, ← h, leBytes_leNat]

namespace ChunkHeader

theorem toBytes_mem (self : ChunkHeader) : self.toBytes ∈ HeaderBytes := by
  refine ⟨self.length_toBytes, ?_⟩
  simp [toBytes, List.drop_append, List.drop_eq_nil_of_le]

/-- The fields lie side by side and fill the first 20 bytes. -/
theorem toBytes_fromBytes {buf : Bytes} (h : buf ∈ HeaderBytes) :
    (fromBytes buf).toBytes = buf := by
  rcases h with ⟨hlength, hpadding⟩
  rw [CHUNK_HEADER_SIZE] at hlength
  have hmagic : (buf.take 4).length = 4 := by
    rw [List.length_take]
    omega
  have hid : ((buf.drop 4).take 8).length = 8 := by
    rw [List.length_take, List.length_drop]
    omega
  have hchecksum : ((buf.drop 12).take 4).length = 4 := by
    rw [List.length_take, List.length_drop]
    omega
  have hdataLen : ((buf.drop 16).take 4).length = 4 := by
    rw [List.length_take, List.length_drop]
    omega
  calc (fromBytes buf).toBytes
      = buf.take 4 ++ (buf.drop 4).take 8 ++ (buf.drop 12).take 4 ++ (buf.drop 16).take 4 ++
          buf.drop 20 := by
        rw [toBytes, fromBytes, leBytes_toUInt32 hmagic, leBytes_toUInt64 hid,
          leBytes_toUInt32 hchecksum, leBytes_toUInt32 hdataLen, hpadding]
    _ = buf.take 20 ++ buf.drop 20 := by rw [← List.take_add, ← List.take_add, ← List.take_add]
    _ = buf := List.take_append_drop 20 buf

theorem toBytes_injective : Function.Injective toBytes := by
  intro header header' h
  rw [← fromBytes_toBytes header, h, fromBytes_toBytes]

/-- Headers and buffers with zero padding are the same thing. -/
theorem bijOn_toBytes : Set.BijOn toBytes Set.univ HeaderBytes := by
  refine ⟨fun header _ => header.toBytes_mem, toBytes_injective.injOn, fun buf hbuf => ?_⟩
  exact ⟨fromBytes buf, Set.mem_univ _, toBytes_fromBytes hbuf⟩

end ChunkHeader

/-! ## Deleted chunks -/

/-- The header of the slot is all zeros. -/
def Zeroed (file : ByteFile) (slot : Nat) : Prop :=
  file.slice (slot * SLOT_SIZE) CHUNK_HEADER_SIZE = List.replicate CHUNK_HEADER_SIZE 0

namespace ChunkStore

variable {crc32 : Bytes → UInt32} {store : ChunkStore}

/-- A deletion whose write succeeds leaves the zeros behind, whatever becomes of the rest. -/
theorem deleteChunk_zeroed {id : UInt64} {slot : Nat} (hpoisoned : store.index.poisoned = false)
    (hslot : store.index.value[id]? = some slot)
    (hwrite : (store.file.writeAllAt (List.replicate CHUNK_HEADER_SIZE 0)
      (slot * SLOT_SIZE)).1 = .ok ()) :
    Zeroed (store.deleteChunk id).2.file.file slot := by
  have hexact := (store.file.writeAllAt_exact (List.replicate CHUNK_HEADER_SIZE 0)
    (slot * SLOT_SIZE)).ok hwrite
  rw [replaced_iff] at hexact
  have hzeroed : Zeroed (store.file.writeAllAt (List.replicate CHUNK_HEADER_SIZE 0)
      (slot * SLOT_SIZE)).2.file slot := by
    have hread := ByteFile.slice_splice_self store.file.file (slot * SLOT_SIZE)
      (List.replicate CHUNK_HEADER_SIZE 0)
    rwa [List.length_replicate, ← hexact] at hread
  rw [deleteChunk, hpoisoned, if_neg Bool.false_ne_true, hslot]
  simp only
  rcases hwritten : store.file.writeAllAt (List.replicate CHUNK_HEADER_SIZE 0)
    (slot * SLOT_SIZE) with ⟨error | _, disk⟩ <;> rw [hwritten] at hwrite hzeroed
  · cases hwrite
  · have hsync : (if store.fsyncOnDelete then disk.call else (.ok (), disk)).2.file =
        disk.file := by
      split
      · exact disk.call_file
      · rfl
    simp only
    rcases hresult : (if store.fsyncOnDelete then disk.call else (.ok (), disk)) with
      ⟨error | _, disk'⟩ <;> rw [hresult] at hsync <;> simp only at hsync ⊢
    · rwa [hsync]
    · by_cases hlt : slot < store.totalSlots
      · rw [clearSlot, if_pos hlt]
        simpa only [hsync] using hzeroed
      · rw [clearSlot, if_neg hlt]
        simpa only [panicWithIndex, hsync] using hzeroed

/-- One round of the scan frees the slot, unless its header cannot be read. -/
def Freed (crc32 : Bytes → UInt32) (fastRecover : Bool) (self : ChunkStore) (slot : Nat) : Prop :=
  (∃ error disk, readChunkHeader self.file slot = (.error error, disk) ∧
      self.recoverSlot crc32 fastRecover slot = (.error error, { self with file := disk })) ∨
    ∃ disk, self.recoverSlot crc32 fastRecover slot =
      (.ok (), { self with file := disk, freeSlots := self.freeSlots ++ [slot] })

/-- A zeroed header has not the magic of a chunk. -/
theorem recoverSlot_of_zeroed {slot : Nat} (h : Zeroed store.file.file slot) (fastRecover : Bool) :
    store.Freed crc32 fastRecover slot := by
  rw [Freed, recoverSlot]
  rcases hread : readChunkHeader store.file slot with ⟨error | header, disk⟩
  · exact .inl ⟨error, disk, rfl, rfl⟩
  · have hheader := readChunkHeader_ok hread
    rw [headerAt, h] at hheader
    have hmagic : header.magic ≠ MAGIC := by
      rw [hheader]
      exact ChunkHeader.magic_fromBytes_zeros
    dsimp only
    rw [if_neg hmagic]
    exact .inr ⟨disk, rfl⟩

end ChunkStore

/-- Headers and buffers with zero padding correspond one to one, and a later recovery frees
the slot of a deleted chunk. -/
theorem header_codec :
    (∀ header : ChunkHeader, ChunkHeader.fromBytes header.toBytes = header) ∧
      (∀ buf : Bytes, buf.length = CHUNK_HEADER_SIZE → buf.drop 20 = List.replicate 4 0 →
        (ChunkHeader.fromBytes buf).toBytes = buf) ∧
      Set.BijOn ChunkHeader.toBytes Set.univ HeaderBytes ∧
      (∀ header header' : ChunkHeader, header.toBytes = header'.toBytes → header = header') ∧
      ∀ (crc32 : Bytes → UInt32) (fastRecover : Bool) (store scanning : ChunkStore) (id : UInt64)
        (slot : Nat), store.index.poisoned = false → store.index.value[id]? = some slot →
        (store.file.writeAllAt (List.replicate CHUNK_HEADER_SIZE 0) (slot * SLOT_SIZE)).1 = .ok () →
        scanning.file.file = (store.deleteChunk id).2.file.file →
        scanning.Freed crc32 fastRecover slot := by
  refine ⟨ChunkHeader.fromBytes_toBytes,
    fun buf hlength hpadding => ChunkHeader.toBytes_fromBytes ⟨hlength, hpadding⟩,
    ChunkHeader.bijOn_toBytes, fun _ _ heq => ChunkHeader.toBytes_injective heq, ?_⟩
  intro crc32 fastRecover store scanning id slot hpoisoned hslot hwrite hfile
  refine ChunkStore.recoverSlot_of_zeroed ?_ fastRecover
  rw [hfile]
  exact ChunkStore.deleteChunk_zeroed hpoisoned hslot hwrite

/-- A store whose only slot holds the chunk 7. -/
def onlySeven : ChunkStore where
  file := ⟨ByteFile.empty.setLen SLOT_SIZE, Stream'.const (.moved 5)⟩
  index := RwLock.new ((∅ : HashMap UInt64 Nat).insert 7 0)
  freeSlots := []
  totalSlots := 1
  fsyncEveryNWrites := some 1
  fsyncOnDelete := true
  writeCounter := 0

/-- Five bytes at a time, the header is zeroed, and the slot is free after a restart. -/
theorem header_codec_onlySeven :
    (onlySeven.deleteChunk 7).2.Freed Library.crc32 false 0 := by
  have hreliable : onlySeven.file.Reliable := fun _ => ⟨4, rfl⟩
  rcases Disk.writeAllAt_reliable hreliable (List.replicate CHUNK_HEADER_SIZE 0)
    (0 * SLOT_SIZE) with ⟨disk, hwrite, _, _⟩
  refine header_codec.2.2.2.2 Library.crc32 false onlySeven _ 7 0 rfl ?_ ?_ rfl
  · exact Std.ExtTreeMap.getElem?_insert_self
  · rw [hwrite]

end StorageNode
end ObjectStore
