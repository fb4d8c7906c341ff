import ObjectStore.Library.LittleEndian
import ObjectStore.StorageNode.Disk

/-!
# Storage node - The chunk store

`chunk_store.rs`: a file cut into slots of 8 MiB, an in-memory index from chunk ids to
slots and a stack of free slots.  The checksum is a parameter: nothing below depends on
which 32-bit function `crc32fast` computes.

Main definitions:

- `ChunkHeader` with `toBytes` and `fromBytes`: the header at the start of a slot.
- `ChunkStore` with one definition per method: `openFile`, `findSlot`, `clearSlot`,
  `putChunk`, `getChunk`, `deleteChunk`, `recoverIndex`, `shouldFsyncWrite`.

Slots and offsets are natural numbers: `openFile` only succeeds when the offset behind
the last slot is at most `i64::MAX`, so no offset of the source overflows.  The one product
that can, the byte size in `open`, wraps around as in the release builds of the repository.
-/

namespace ObjectStore
namespace StorageNode

open Library (ByteFile leBytes leNat)

/-! ## Slots and headers -/

/-- 8 MiB chunk sizes. -/
def SLOT_SIZE : Nat := 8 * 1024 * 1024

/-- The first bytes of a header. -/
def MAGIC : UInt32 := 0x43484B01

/-- `size_of::<ChunkHeader>()`: the alignment of `id` pads the 20 bytes of the fields. -/
def CHUNK_HEADER_SIZE : Nat := 24

/-- The room for data in a slot. -/
def SLOT_DATA_SIZE : Nat := SLOT_SIZE - CHUNK_HEADER_SIZE

/-- Number of chunks to allocate by default. -/
def ALLOCATED_ARENA_SIZE : Nat := 2048

/-- Every write is synced, unless the environment says otherwise. -/
def DEFAULT_FSYNC_EVERY_N_WRITES : Nat := 1

/-- The header of a slot. -/
structure ChunkHeader where
  magic : UInt32
  id : UInt64
  checksum : UInt32
  dataLen : UInt32
deriving DecidableEq, Repr

namespace ChunkHeader

/-- The header of a chunk that is written now. -/
def new (id : UInt64) (checksum dataLen : UInt32) : ChunkHeader where
  magic := MAGIC
  id := id
  checksum := checksum
  dataLen := dataLen

/-- The fields in the first 20 bytes, zeros in the last 4. -/
def toBytes (self : ChunkHeader) : Bytes :=
  leBytes 4 self.magic.toNat ++ leBytes 8 self.id.toNat ++ leBytes 4 self.checksum.toNat ++
    leBytes 4 self.dataLen.toNat ++ List.replicate 4 0

/-- `from_bytes`: the fields at their places; nothing is checked. -/
def fromBytes (buf : Bytes) : ChunkHeader where
  magic := UInt32.ofNat (leNat (buf.take 4))
  id := UInt64.ofNat (leNat ((buf.drop 4).take 8))
  checksum := UInt32.ofNat (leNat ((buf.drop 12).take 4))
  dataLen := UInt32.ofNat (leNat ((buf.drop 16).take 4))

end ChunkHeader

/-! ## Results -/

/-- A call returns, or an assertion, a poisoned lock or an allocation that fails ends it. -/
inductive Outcome (α : Type) where
  | returned (result : IoResult α)
  | panicked

/-- A lock whose writers may have panicked while they held it. -/
structure RwLock (α : Type) where
  value : α
  poisoned : Bool

/-- A lock that is not poisoned. -/
def RwLock.new {α : Type} (value : α) : RwLock α := ⟨value, false⟩

/-- The format `{:#X}` of a `u32`. -/
def upperHex (n : UInt32) : String :=
  "0x" ++ String.ofList ((Nat.toDigits 16 n.toNat).map Char.toUpper)

/-! ## Slot I/O -/

/-- `write_chunk_at`. -/
def writeChunkAt (file : Disk) (slotIndex : Nat) (header : ChunkHeader) (bytes : Bytes)
    (fsync : Bool) : Outcome Unit × Disk :=
  if SLOT_DATA_SIZE < bytes.length then (.panicked, file)
  else
    let offset := slotIndex * SLOT_SIZE
    match file.writeAllAt header.toBytes offset with
    | (.error error, file) => (.returned (.error error), file)
    | (.ok (), file) =>
        -- without bytes the source skips the second call, which would do nothing
        match file.writeAllAt bytes (offset + CHUNK_HEADER_SIZE) with
        | (.error error, file) => (.returned (.error error), file)
        | (.ok (), file) =>
            if fsync then
              let (result, file) := file.call
              (.returned result, file)
            else (.returned (.ok ()), file)

/-- `read_chunk_header`. -/
def readChunkHeader (file : Disk) (slotIndex : Nat) : IoResult ChunkHeader × Disk :=
  match file.readExactAt CHUNK_HEADER_SIZE (slotIndex * SLOT_SIZE) with
  | (.error error, file) => (.error error, file)
  | (.ok headerBytes, file) => (.ok (ChunkHeader.fromBytes headerBytes), file)

/-- `read_chunk_optimized`: only as many bytes as the header announces. -/
def readChunkOptimized (file : Disk) (slotIndex : Nat) :
    IoResult (ChunkHeader × Bytes) × Disk :=
  match readChunkHeader file slotIndex with
  | (.error error, file) => (.error error, file)
  | (.ok header, file) =>
      if header.magic ≠ MAGIC then (.ok (header, []), file)
      else
        match file.readExactAt header.dataLen.toNat
            (slotIndex * SLOT_SIZE + CHUNK_HEADER_SIZE) with
        | (.error error, file) => (.error error, file)
        | (.ok data, file) => (.ok (header, data), file)

/-! ## The store -/

/-- The options that the environment sets. -/
structure ChunkStoreOptions where
  fsyncEveryNWrites : Option Nat
  fsyncOnDelete : Bool
  fastRecover : Bool

/-- `ChunkStoreOptions::default`. -/
def ChunkStoreOptions.default : ChunkStoreOptions where
  fsyncEveryNWrites := some DEFAULT_FSYNC_EVERY_N_WRITES
  fsyncOnDelete := true
  fastRecover := false

/-- A file of slots, with the index of the chunks and the free slots in memory. -/
structure ChunkStore where
  file : Disk
  index : RwLock (HashMap UInt64 Nat)
  /-- The available slots; the last one is handed out first. -/
  freeSlots : List Nat
  totalSlots : Nat
  fsyncEveryNWrites : Option Nat
  fsyncOnDelete : Bool
  writeCounter : Nat

namespace ChunkStore

/-- `file_bytes` of `open`: a product of two `usize`, which wraps around in a release build. -/
def fileBytes (slots : Nat) : Nat := SLOT_SIZE * slots % 2 ^ 64

example : fileBytes (2 ^ 41) = 0 := by decide

/-- `ChunkStore::open`.  Where `fileBytes` wraps around, the file already has the wrapped
length when the list of free slots, which then takes at least 16 TiB, aborts the process. -/
def openFile (disk : Disk) (allocatedSlots : Option Nat) (options : ChunkStoreOptions) :
    Outcome ChunkStore × Disk :=
  match disk.call with
  | (.error error, disk) => (.returned (.error error), disk)
  | (.ok (), disk) =>
      let allocatedArenaSize := allocatedSlots.getD ALLOCATED_ARENA_SIZE
      match disk.setLen (fileBytes allocatedArenaSize) with
      | (.error error, disk) => (.returned (.error error), disk)
      | (.ok (), disk) =>
          -- no memory for 2^41 free slots or more
          if 2 ^ 64 ≤ SLOT_SIZE * allocatedArenaSize then (.panicked, disk)
          else
            (.returned (.ok {
              file := disk
              index := RwLock.new ∅
              freeSlots := List.range allocatedArenaSize
              totalSlots := allocatedArenaSize
              fsyncEveryNWrites := options.fsyncEveryNWrites
              fsyncOnDelete := options.fsyncOnDelete
              writeCounter := 0 }), disk)

/-- `find_slot`: pops the stack. -/
def findSlot (self : ChunkStore) : Option Nat × ChunkStore :=
  match self.freeSlots.getLast? with
  | some slotIndex => (some slotIndex, { self with freeSlots := self.freeSlots.dropLast })
  | none => (none, self)

/-- `clear_slot`: pushes the slot. -/
def clearSlot (self : ChunkStore) (slotIndex : Nat) : Outcome Unit × ChunkStore :=
  if slotIndex < self.totalSlots then
    (.returned (.ok ()), { self with freeSlots := self.freeSlots ++ [slotIndex] })
  else (.panicked, self)

/-- `should_fsync_write`.  The counter has 64 bits and starts again at 0; a build with
overflow checks would panic there. -/
def shouldFsyncWrite (self : ChunkStore) : Bool × ChunkStore :=
  match self.fsyncEveryNWrites with
  | some n =>
      if 0 < n then
        let count := (self.writeCounter + 1) % 2 ^ 64
        (count % n == 0, { self with writeCounter := count })
      else (false, self)
  | none => (false, self)

/-- A panic while the write lock of the index is held. -/
def panicWithIndex {α : Type} (self : ChunkStore) : Outcome α × ChunkStore :=
  (.panicked, { self with index := { self.index with poisoned := true } })

/-- `put_chunk`. -/
def putChunk (crc32 : Bytes → UInt32) (self : ChunkStore) (id : UInt64) (data : Bytes) :
    Outcome Unit × ChunkStore :=
  if self.index.poisoned then (.panicked, self)
  else if id ∈ self.index.value then
    (.returned (.error ⟨.alreadyExists, "id is already used"⟩), self)
  else
    match self.findSlot with
    | (none, self) => (.returned (.error ⟨.storageFull, "all chunks allocated"⟩), self)
    | (some slotIdx, self) =>
        let header := ChunkHeader.new id (crc32 data) (UInt32.ofNat data.length)
        let (fsync, self) := self.shouldFsyncWrite
        match writeChunkAt self.file slotIdx header data fsync with
        | (.panicked, disk) => { self with file := disk }.panicWithIndex
        | (.returned (.error error), disk) =>
            match { self with file := disk }.clearSlot slotIdx with
            | (.panicked, self) => self.panicWithIndex
            | (.returned _, self) => (.returned (.error error), self)
        | (.returned (.ok ()), disk) =>
            (.returned (.ok ()),
              { self with
                file := disk
                index := { self.index with value := self.index.value.insert id slotIdx } })

/-- `get_chunk`: the data and its checksum. -/
def getChunk (crc32 : Bytes → UInt32) (self : ChunkStore) (id : UInt64) :
    Outcome (Bytes × UInt32) × ChunkStore :=
  if self.index.poisoned then (.panicked, self)
  else
    match self.index.value[id]? with
    | none => (.returned (.error ⟨.notFound, "Chunk not found"⟩), self)
    | some slotIdx =>
        match readChunkOptimized self.file slotIdx with
        | (.error error, disk) => (.returned (.error error), { self with file := disk })
        | (.ok (header, data), disk) =>
            let self := { self with file := disk }
            if header.magic ≠ MAGIC then
              (.returned
                (.error ⟨.invalidData, s!"invalid magic in chunk header for slot {slotIdx}: " ++
                s!"expected {upperHex MAGIC}, got {upperHex header.magic}"⟩), self)
            else if header.checksum ≠ crc32 data then
              (.returned (.error ⟨.invalidData, s!"checksum mismatch for chunk {id}: " ++
                s!"stored {upperHex header.checksum}, computed {upperHex (crc32 data)}"⟩), self)
            else (.returned (.ok (data, header.checksum)), self)

/-- `delete_chunk`. -/
def deleteChunk (self : ChunkStore) (id : UInt64) : Outcome Unit × ChunkStore :=
  if self.index.poisoned then (.panicked, self)
  else
    match self.index.value[id]? with
    | none => (.returned (.ok ()), self)
    | some slotIdx =>
        let self := { self with index := { self.index with value := self.index.value.erase id } }
        match self.file.writeAllAt (List.replicate CHUNK_HEADER_SIZE 0) (slotIdx * SLOT_SIZE) with
        | (.error error, disk) => (.returned (.error error), { self with file := disk })
        | (.ok (), disk) =>
            match if self.fsyncOnDelete then disk.call else (.ok (), disk) with
            | (.error error, disk) => (.returned (.error error), { self with file := disk })
            | (.ok (), disk) =>
                match { self with file := disk }.clearSlot slotIdx with
                | (.panicked, self) => self.panicWithIndex
                | (.returned result, self) => (.returned result, self)

/-- One round of the loop of `recover_index`. -/
def recoverSlot (crc32 : Bytes → UInt32) (fastRecover : Bool) (self : ChunkStore) (i : Nat) :
    IoResult Unit × ChunkStore :=
  match readChunkHeader self.file i with
  | (.error error, disk) => (.error error, { self with file := disk })
  | (.ok header, disk) =>
      let self := { self with file := disk }
      let free := { self with freeSlots := self.freeSlots ++ [i] }
      let used :=
        { self with index := { self.index with value := self.index.value.insert header.id i } }
      if header.magic = MAGIC then
        if SLOT_DATA_SIZE < header.dataLen.toNat then (.ok (), free)
        else if fastRecover then (.ok (), used)
        else
          match readChunkOptimized self.file i with
          | (.error error, disk) => (.error error, { self with file := disk })
          | (.ok (_, data), disk) =>
              if header.checksum ≠ crc32 data then (.ok (), { free with file := disk })
              else (.ok (), { used with file := disk })
      else (.ok (), free)

/-- The loop of `recover_index`. -/
def recoverSlots (crc32 : Bytes → UInt32) (fastRecover : Bool) (self : ChunkStore) :
    List Nat → IoResult Unit × ChunkStore
  | [] => (.ok (), self)
  | i :: slots =>
      match self.recoverSlot crc32 fastRecover i with
      | (.error error, self) => (.error error, self)
      | (.ok (), self) => self.recoverSlots crc32 fastRecover slots

/-- `recover_index`. -/
def recoverIndex (crc32 : Bytes → UInt32) (self : ChunkStore) (fastRecover : Bool) :
    Outcome Unit × ChunkStore :=
  match self.file.call with
  | (.error error, disk) => (.returned (.error error), { self with file := disk })
  | (.ok (), disk) =>
      if self.index.poisoned then (.panicked, { self with file := disk })
      else
        let slotCount := disk.file.len / SLOT_SIZE
        let cleared :=
          { self with file := disk, index := { self.index with value := ∅ }, freeSlots := [] }
        let (result, recovered) :=
          cleared.recoverSlots crc32 fastRecover (List.range slotCount)
        (.returned result, recovered)

/-- `StorageNodeImpl::construct`: the index is recovered when the file existed. -/
def construct (crc32 : Bytes → UInt32) (disk : Disk) (recover : Bool)
    (allocatedSlots : Option Nat) (options : ChunkStoreOptions) : Outcome ChunkStore :=
  match openFile disk allocatedSlots options with
  | (.returned (.ok store), _) =>
      if recover then
        match store.recoverIndex crc32 options.fastRecover with
        | (.returned (.ok ()), store) => .returned (.ok store)
        | (.returned (.error error), _) => .returned (.error error)
        | (.panicked, _) => .panicked
      else .returned (.ok store)
  | (.returned (.error error), _) => .returned (.error error)
  | (.panicked, _) => .panicked

end ChunkStore
end StorageNode
end ObjectStore
