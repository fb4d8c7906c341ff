import ObjectStore.StorageNode.Reopening

/-!
# Storage node - Everything recovered is readable

`recover_index(false)` on an opened file with arbitrary bytes.  The scan only enters a chunk
that `get_chunk` will accept, and it reads no range that is not in the file: a payload is read
when the announced length fits into the slot, so also in the last one.

Main definitions:

- `Disk.readExactAtReads`: the ranges that `read_exact_at` asks for, and what is built on it.
- `ReadsInside`: all of them are in the file.

Main results:

- Theorem `ChunkStore.recoverSlot_inside`: a round of the scan reads inside the file.
- Theorem `Reopened.readable`: what the scan has entered is readable.
- Theorem `recovered_chunks_readable`: every recovered chunk is returned.
-/

namespace ObjectStore
namespace StorageNode

open Library (ByteFile)

variable {crc32 : Bytes → UInt32} {file : ByteFile}

/-! ## What is read -/

/-- The offset and the length of every `read_at` that `read_exact_at` makes. -/
def Disk.readExactAtReads (self : Disk) (count offset : Nat) : List (Nat × Nat) :=
  if count = 0 then []
  else
    (offset, count) ::
      match self.readAt count offset with
      | (.error _, _) | (.ok [], _) => []
      | (.ok (_ :: read), self) =>
          self.readExactAtReads (count - (read.length + 1)) (offset + (read.length + 1))
termination_by count

/-- The reads of `read_chunk_header`. -/
def readChunkHeaderReads (file : Disk) (slotIndex : Nat) : List (Nat × Nat) :=
  file.readExactAtReads CHUNK_HEADER_SIZE (slotIndex * SLOT_SIZE)

/-- The reads of `read_chunk_optimized`. -/
def readChunkOptimizedReads (file : Disk) (slotIndex : Nat) : List (Nat × Nat) :=
  readChunkHeaderReads file slotIndex ++
    match readChunkHeader file slotIndex with
    | (.error _, _) => []
    | (.ok header, file) =>
        if header.magic ≠ MAGIC then []
        else
          file.readExactAtReads header.dataLen.toNat (slotIndex * SLOT_SIZE + CHUNK_HEADER_SIZE)

namespace ChunkStore

/-- The reads of one round of the loop of `recover_index`. -/
def recoverSlotReads (self : ChunkStore) (fastRecover : Bool) (i : Nat) : List (Nat × Nat) :=
  readChunkHeaderReads self.file i ++
    match readChunkHeader self.file i with
    | (.error _, _) => []
    | (.ok header, disk) =>
        if header.magic = MAGIC then
          if SLOT_DATA_SIZE < header.dataLen.toNat then []
          else if fastRecover then []
          else readChunkOptimizedReads disk i
        else []

/-- The reads of the loop of `recover_index`. -/
def recoverSlotsReads (crc32 : Bytes → UInt32) (fastRecover : Bool) (self : ChunkStore) :
    List Nat → List (Nat × Nat)
  | [] => []
  | i :: slots =>
      self.recoverSlotReads fastRecover i ++
        match self.recoverSlot crc32 fastRecover i with
        | (.error _, _) => []
        | (.ok (), self) => self.recoverSlotsReads crc32 fastRecover slots

/-- The reads of `recover_index`. -/
def recoverIndexReads (crc32 : Bytes → UInt32) (self : ChunkStore) (fastRecover : Bool) :
    List (Nat × Nat) :=
  match self.file.call with
  | (.error _, _) => []
  | (.ok (), disk) =>
      if self.index.poisoned then []
      else
        { self with
          file := disk
          index := { self.index with value := ∅ }
          freeSlots := [] }.recoverSlotsReads crc32 fastRecover
            (List.range (disk.file.len / SLOT_SIZE))

end ChunkStore

/-- No range reaches behind the end of the file. -/
def ReadsInside (file : ByteFile) (reads : List (Nat × Nat)) : Prop :=
  ∀ offset count, (offset, count) ∈ reads → offset + count ≤ file.len

theorem ReadsInside.nil : ReadsInside file [] := by
  intro offset count hmem
  cases hmem

theorem ReadsInside.append {reads reads' : List (Nat × Nat)} (h : ReadsInside file reads)
    (h' : ReadsInside file reads') : ReadsInside file (reads ++ reads') := by
  intro offset count hmem
  rcases List.mem_append.mp hmem with hmem | hmem
  · exact h offset count hmem
  · exact h' offset count hmem

/-- A read moves no more bytes than it was asked for. -/
theorem Disk.length_readAt_le {disk disk' : Disk} {count offset : Nat} {bytes : Bytes}
    (hread : disk.readAt count offset = (.ok bytes, disk')) : bytes.length ≤ count := by
  unfold readAt at hread
  split at hread
  · cases hread
    rw [ByteFile.length_slice]
    omega
  · cases hread

/-- A range inside the file is read inside the file, however it is cut up. -/
theorem Disk.readExactAt_inside {disk : Disk} {count offset : Nat}
    (hlen : offset + count ≤ disk.file.len) :
    ReadsInside disk.file (disk.readExactAtReads count offset) := by
  induction count using Nat.strong_induction_on generalizing disk offset with
  | h count ih =>
      rw [readExactAtReads]
      split
      · exact .nil
      · rename_i hne
        have hrest : ReadsInside disk.file
            (match disk.readAt count offset with
              | (.error _, _) | (.ok [], _) => []
              | (.ok (_ :: read), self) =>
                  self.readExactAtReads (count - (read.length + 1))
                    (offset + (read.length + 1))) := by
          have hfile := disk.readAt_file count offset
          rcases hread : disk.readAt count offset with ⟨error | _ | ⟨byte, read⟩, disk'⟩
          · exact .nil
          · exact .nil
          · rw [hread] at hfile
            have hle := length_readAt_le hread
            rw [List.length_cons] at hle
            simp only at hfile ⊢
            rw [← hfile]
            refine ih (count - (read.length + 1)) (by omega) ?_
            rw [hfile]
            omega
        intro first many hmem
        rcases List.mem_cons.mp hmem with heq | hmem
        · cases heq
          exact hlen
        · exact hrest first many hmem

/-! ## The scan reads inside the file -/

section

variable {disk : Disk} {slots i : Nat}

theorem readChunkHeader_inside (hi : i < slots) (hlen : disk.file.len = SLOT_SIZE * slots) :
    ReadsInside disk.file (readChunkHeaderReads disk i) :=
  Disk.readExactAt_inside (add_le_len hi hlen (by decide : CHUNK_HEADER_SIZE ≤ SLOT_SIZE))

/-- The payload of a slot ends inside the slot if the announced length fits. -/
theorem readChunkOptimized_inside (hi : i < slots) (hlen : disk.file.len = SLOT_SIZE * slots)
    (hdataLen : (headerAt disk.file i).dataLen.toNat ≤ SLOT_DATA_SIZE) :
    ReadsInside disk.file (readChunkOptimizedReads disk i) := by
  refine (readChunkHeader_inside hi hlen).append ?_
  have hfile := readChunkHeader_file disk i
  rcases hread : readChunkHeader disk i with ⟨error | header, disk'⟩
  · exact .nil
  · have hheader := readChunkHeader_ok hread
    rw [hread] at hfile
    simp only at hfile ⊢
    split
    · exact .nil
    · have hrange : i * SLOT_SIZE + (CHUNK_HEADER_SIZE + header.dataLen.toNat) ≤
          disk.file.len := by
        refine add_le_len hi hlen ?_
        rw [hheader]
        simp only [SLOT_DATA_SIZE, SLOT_SIZE, CHUNK_HEADER_SIZE] at *
        omega
      have hinside := @Disk.readExactAt_inside disk' header.dataLen.toNat
        (i * SLOT_SIZE + CHUNK_HEADER_SIZE) (by rw [hfile, Nat.add_assoc]; exact hrange)
      rw [hfile] at hinside
      exact hinside

end

namespace ChunkStore

variable {store : ChunkStore} {slots i : Nat}

/-- A round of the scan reads inside the file, whatever the header says. -/
theorem recoverSlot_inside (hi : i < slots) (hlen : store.file.file.len = SLOT_SIZE * slots)
    (fastRecover : Bool) :
    ReadsInside store.file.file (store.recoverSlotReads fastRecover i) := by
  refine (readChunkHeader_inside hi hlen).append ?_
  have hfile := readChunkHeader_file store.file i
  rcases hread : readChunkHeader store.file i with ⟨error | header, disk⟩
  · exact .nil
  · have hheader := readChunkHeader_ok hread
    rw [hread] at hfile
    simp only at hfile ⊢
    split
    · split
      · exact .nil
      · rename_i hsmall
        split
        · exact .nil
        · have hfits : (headerAt disk.file i).dataLen.toNat ≤ SLOT_DATA_SIZE := by
            rw [hfile, ← hheader]
            exact Nat.le_of_not_lt hsmall
          have hinside := readChunkOptimized_inside hi (hfile ▸ hlen) hfits
          rw [hfile] at hinside
          exact hinside
    · exact .nil

theorem recoverSlot_file (fastRecover : Bool) (i : Nat) :
    (store.recoverSlot crc32 fastRecover i).2.file.file = store.file.file := by
  unfold recoverSlot
  have hheader := readChunkHeader_file store.file i
  rcases hread : readChunkHeader store.file i with ⟨error | header, disk⟩ <;>
    rw [hread] at hheader
  · exact hheader
  · simp only
    split
    · split
      · exact hheader
      · split
        · exact hheader
        · have hchunk := (readChunkOptimized_file disk i).trans hheader
          rcases hread' : readChunkOptimized disk i with ⟨error | ⟨_, data⟩, disk'⟩ <;>
            rw [hread'] at hchunk
          · exact hchunk
          · simp only
            split <;> exact hchunk
    · exact hheader

/-- So does the whole scan, up to the round that fails. -/
theorem recoverSlots_inside (fastRecover : Bool) {rounds : List Nat}
    (hrounds : ∀ i ∈ rounds, i < slots) (hlen : store.file.file.len = SLOT_SIZE * slots) :
    ReadsInside store.file.file (store.recoverSlotsReads crc32 fastRecover rounds) := by
  induction rounds generalizing store with
  | nil => exact .nil
  | cons i rounds ih =>
      refine (recoverSlot_inside (hrounds i (by simp)) hlen fastRecover).append ?_
      have hfile := @recoverSlot_file crc32 store fastRecover i
      rcases hround : store.recoverSlot crc32 fastRecover i with ⟨error | _, next⟩
      · exact .nil
      · rw [hround] at hfile
        simp only at hfile ⊢
        rw [← hfile]
        exact ih (fun later hmem => hrounds later (List.mem_cons_of_mem _ hmem)) (hfile ▸ hlen)

/-- `recover_index` never reads outside a file of whole slots. -/
theorem recoverIndex_inside (hlen : store.file.file.len = SLOT_SIZE * slots)
    (fastRecover : Bool) :
    ReadsInside store.file.file (store.recoverIndexReads crc32 fastRecover) := by
  unfold recoverIndexReads
  have hfile := store.file.call_file
  rcases hcall : store.file.call with ⟨error | _, disk⟩
  · exact .nil
  · rw [hcall] at hfile
    simp only at hfile ⊢
    split
    · exact .nil
    · have hcount : disk.file.len / SLOT_SIZE = slots := by
        rw [hfile, hlen]
        exact Nat.mul_div_cancel_left _ (by decide)
      rw [hcount, ← hfile]
      exact recoverSlots_inside fastRecover (fun i hmem => List.mem_range.mp hmem) (hfile ▸ hlen)

end ChunkStore

/-! ## What was recovered -/

/-- An entry of the index names a slot of the file with a header for that id, and the store
returns the bytes behind the header. -/
structure Readable (crc32 : Bytes → UInt32) (recovered : ChunkStore) (id : UInt64)
    (slotIndex : Nat) : Prop where
  lt : slotIndex < recovered.totalSlots
  magic : (headerAt recovered.file.file slotIndex).magic = MAGIC
  owner : (headerAt recovered.file.file slotIndex).id = id
  inside : CHUNK_HEADER_SIZE + (headerAt recovered.file.file slotIndex).dataLen.toNat ≤ SLOT_SIZE
  read : ∃ data, (recovered.getChunk crc32 id).1 = .returned (.ok (data, crc32 data)) ∧
    data = payloadAt recovered.file.file slotIndex
      (headerAt recovered.file.file slotIndex).dataLen.toNat

/-- What the scan has entered is readable. -/
theorem Reopened.readable {slots : Nat} {store : ChunkStore} (h : Reopened crc32 file slots store)
    (htotal : store.totalSlots = slots) {id : UInt64} {slotIndex : Nat}
    (hentry : store.index.value[id]? = some slotIndex) : Readable crc32 store id slotIndex := by
  have hlast := (h.index_iff id slotIndex).mp hentry
  rcases hlast.holds with ⟨data, hdata⟩
  have hread := h.getChunk hlast hdata
  rw [chunkAt_eq_some_iff, bodyAt_eq_some_iff] at hdata
  rcases hdata with ⟨hmagic, hdataLen, _, hid, hpayload⟩
  constructor
  · exact htotal ▸ hlast.lt
  · exact h.sameFile ▸ hmagic
  · exact h.sameFile ▸ hid
  · rw [h.sameFile]
    simp only [SLOT_DATA_SIZE, SLOT_SIZE, CHUNK_HEADER_SIZE] at *
    omega
  · exact ⟨data, hread, h.sameFile ▸ hpayload.symm⟩

/-- On a file with any bytes, resized by `open`, `recover_index(false)` succeeds, reads nothing
behind the end of the file, leaves the file alone, and every entry of the index is readable. -/
theorem recovered_chunks_readable (crc32 : Bytes → UInt32) (disk disk' : Disk)
    (hdisk : disk.Reliable) (allocatedSlots : Option Nat) (options : ChunkStoreOptions)
    (store : ChunkStore)
    (hopen : ChunkStore.openFile disk allocatedSlots options = (.returned (.ok store), disk')) :
    ∃ recovered, store.recoverIndex crc32 false = (.returned (.ok ()), recovered) ∧
      ReadsInside store.file.file (store.recoverIndexReads crc32 false) ∧
      recovered.file.file = store.file.file ∧
      ∀ (id : UInt64) (slotIndex : Nat), recovered.index.value[id]? = some slotIndex →
        Readable crc32 recovered id slotIndex := by
  rcases openFile_reliable hdisk (le_maxFileLen_of_openFile hopen) options with
    ⟨opened, last, hopened, hreliable, hfile, hindex, _, htotal⟩
  cases hopened.symm.trans hopen
  have hlen : store.file.file.len = SLOT_SIZE * slotCount allocatedSlots := by
    rw [hfile]
    rfl
  rcases @recoverIndex_rescans crc32 _ _ _ hreliable rfl (by rw [hindex]; rfl) hlen with
    ⟨hok, hscanned⟩
  have hslots : (store.recoverIndex crc32 false).2.totalSlots = slotCount allocatedSlots := by
    rw [← htotal]
    rcases @ChunkStore.recoverIndex_cases crc32 store (ChunkStore.wellFormed_of_openFile hopen)
      false with ⟨htable, _⟩ | ⟨htable, _⟩ | ⟨hsorted, _⟩
    · exact congrArg SlotTable.totalSlots htable
    · exact congrArg SlotTable.totalSlots htable
    · exact hsorted.totalSlots
  refine ⟨(store.recoverIndex crc32 false).2, ?_, ?_, hscanned.sameFile, ?_⟩
  · rw [← hok]
  · exact ChunkStore.recoverIndex_inside hlen false
  · exact fun id slotIndex hentry => Reopened.readable ⟨hscanned, hlen⟩ hslots hentry

/-- A file with a chunk in its second slot, and nothing behind the payload. -/
def lastSlotChunk : Disk :=
  ⟨ByteFile.empty.splice SLOT_SIZE (chunkBytes Library.crc32 7 [1]), Stream'.const (.moved 1)⟩

/-- The slot of an id after the recovery of a file that could be opened. -/
def recoveredSlot (opened : Outcome ChunkStore) (id : UInt64) : Option Nat :=
  match opened with
  | .returned (.ok store) => (store.recoverIndex Library.crc32 false).2.index.value[id]?
  | .returned (.error _) | .panicked => none

/-- The chunk is found in the last slot of the resized file and returned. -/
theorem recovered_chunks_readable_lastSlot :
    ∃ store disk' recovered,
      ChunkStore.openFile lastSlotChunk (some 2) ChunkStoreOptions.default =
        (.returned (.ok store), disk') ∧
      store.recoverIndex Library.crc32 false = (.returned (.ok ()), recovered) ∧
      recovered.index.value[(7 : UInt64)]? = some 1 ∧ Readable Library.crc32 recovered 7 1 := by
  have hdisk : lastSlotChunk.Reliable := fun _ => ⟨0, rfl⟩
  have hslots : SLOT_SIZE * slotCount (some 2) ≤ maxFileLen := by decide
  rcases openFile_reliable hdisk hslots ChunkStoreOptions.default with ⟨store, disk', hopen, _⟩
  rcases recovered_chunks_readable Library.crc32 lastSlotChunk disk' hdisk (some 2)
    ChunkStoreOptions.default store hopen with ⟨recovered, hrecover, _, _, hreadable⟩
  have hentry : recoveredSlot
      (ChunkStore.openFile lastSlotChunk (some 2) ChunkStoreOptions.default).1 7 = some 1 := by
    decide +kernel
  rw [hopen] at hentry
  simp only [recoveredSlot, hrecover] at hentry
  exact ⟨store, disk', recovered, hopen, hrecover, hentry, hreadable 7 1 hentry⟩

end StorageNode
end ObjectStore
