import ObjectStore.StorageNode.Durability

/-!
# Storage node - Write requests of any size

The server admits messages that are larger than a slot, and `write_chunk_at` asserts that the
payload fits after a slot was taken and the index was locked.  A write that does not get there
leaves a store that answers as if nothing had happened, or with the chunk in it.

Main definitions:

- `SlotTable.LengthsFit`: the used slots announce lengths that fit.
- `SameChunks`: two files with the same bytes in the chunks that the index names.
- `Harmless`: a write request that returns, loses no slot and changes no later reply.

Main results:

- Theorem `ChunkStore.history_lengthsFit`: the used slots of a reachable store fit.
- Theorem `SameChunks.serve`: replies do not depend on bytes outside of the chunks.
- Theorem `write_harmless_iff`: when a write request is harmless.
-/

namespace ObjectStore
namespace StorageNode

open Library (ByteFile)

/-- The size of the messages that the server decodes. -/
def MAX_GRPC_MESSAGE_SIZE : Nat := 16 * 1024 * 1024

variable {crc32 : Bytes → UInt32}

/-! ## Lengths of used slots -/

namespace SlotTable

variable {table table' : SlotTable} {operation : Operation} {reply : Reply}

/-- The headers of the used slots announce lengths that fit. -/
def LengthsFit (table : SlotTable) : Prop :=
  ∀ (id : UInt64) (slot : Nat), table.index[id]? = some slot →
    (headerAt table.file slot).dataLen.toNat ≤ SLOT_DATA_SIZE

/-- A write to a slot that no id of the index uses. -/
theorem LengthsFit.splice (h : table.LengthsFit) {index : HashMap UInt64 Nat} {slot : Nat}
    {bytes : Bytes} (hbytes : bytes.length ≤ SLOT_SIZE)
    (hindex : ∀ (id : UInt64) (other : Nat), index[id]? = some other →
      table.index[id]? = some other ∧ other ≠ slot) (id : UInt64) (other : Nat)
    (hid : index[id]? = some other) :
    (headerAt (table.file.splice (slot * SLOT_SIZE) bytes) other).dataLen.toNat ≤
      SLOT_DATA_SIZE := by
  rcases hindex id other hid with ⟨hold, hne⟩
  rw [((agree_splice_of_ne table.file hne hbytes).fields (by omega)).2.2]
  exact h id other hold

theorem Step.lengthsFit (hstep : Step crc32 table operation reply table')
    (hwell : table.WellFormed) (hrequest : operation.id?.isSome) (h : table.LengthsFit) :
    table'.LengthsFit := by
  cases hstep with
  | idle hput hpanic => exact h
  | @stored id data rest slot hfree hid hdata =>
      intro other owner howner
      by_cases heq : other = id
      · rw [heq, Std.ExtTreeMap.getElem?_insert_self] at howner
        cases howner
        have hholds : SlotHolds crc32 (table.file.splice (slot * SLOT_SIZE)
            (chunkBytes crc32 id data)) slot id data := slotHolds_splice table.file slot id hdata
        exact hholds.dataLen ▸ hdata
      · rw [HashMap.getElem?_insert_of_ne _ _ heq] at howner
        have hframe := agree_splice_of_ne table.file (hwell.ne_top hfree howner)
          (@length_chunkBytes_le crc32 id data hdata)
        rw [(hframe.fields (by omega)).2.2]
        exact h other owner howner
  | @torn id data rest slot count kind hfree hid hdata hcount =>
      exact h.splice (length_take_chunkBytes_le id hdata count)
        fun other owner howner => ⟨howner, hwell.ne_top hfree howner⟩
  | oversized hfree hdata => exact h
  | @deleted id slot hid =>
      refine h.splice (length_zeros_le (Nat.le_refl _)) fun other owner howner => ?_
      exact ⟨HashMap.getElem?_of_erase howner,
        fun heq => (hwell.erase hid).2.1.ne other (heq ▸ howner)⟩
  | @leaked id slot count kind hid hcount =>
      refine h.splice (length_zeros_le hcount) fun other owner howner => ?_
      exact ⟨HashMap.getElem?_of_erase howner,
        fun heq => (hwell.erase hid).2.1.ne other (heq ▸ howner)⟩
  | rescanned | reopened => cases hrequest

end SlotTable

namespace ChunkStore

variable {store : ChunkStore}

theorem recoverSlot_lengthsFit (crc32 : Bytes → UInt32) (h : store.table.LengthsFit)
    (fastRecover : Bool) (i : Nat) :
    (store.recoverSlot crc32 fastRecover i).2.table.LengthsFit := by
  have hsame : ∀ (disk : Disk) (free : List Nat), disk.file = store.file.file →
      ({ store with file := disk, freeSlots := free } : ChunkStore).table.LengthsFit := by
    intro disk free hdisk id slot hid
    change (headerAt disk.file slot).dataLen.toNat ≤ SLOT_DATA_SIZE
    rw [hdisk]
    exact h id slot hid
  have hused : ∀ (disk : Disk) (id : UInt64), disk.file = store.file.file →
      (headerAt store.file.file i).dataLen.toNat ≤ SLOT_DATA_SIZE →
      ({ store with
        file := disk, index := { store.index with value := store.index.value.insert id i } } :
          ChunkStore).table.LengthsFit := by
    intro disk id hdisk hfits other slot hother
    change (headerAt disk.file slot).dataLen.toNat ≤ SLOT_DATA_SIZE
    change (store.index.value.insert id i)[other]? = some slot at hother
    rw [hdisk]
    by_cases heq : other = id
    · rw [heq, Std.ExtTreeMap.getElem?_insert_self] at hother
      cases hother
      exact hfits
    · rw [HashMap.getElem?_insert_of_ne _ _ heq] at hother
      exact h other slot hother
  unfold recoverSlot
  have hheader := readChunkHeader_file store.file i
  rcases hread : readChunkHeader store.file i with ⟨error | header, disk⟩ <;>
    rw [hread] at hheader
  · exact hsame disk store.freeSlots hheader
  · have hfound := readChunkHeader_ok hread
    simp only
    split
    · split
      · exact hsame disk _ hheader
      · rename_i hfits
        rw [hfound, Nat.not_lt] at hfits
        split
        · exact hused disk header.id hheader hfits
        · have hchunk := (readChunkOptimized_file disk i).trans hheader
          rcases hread' : readChunkOptimized disk i with ⟨error | ⟨_, data⟩, disk'⟩ <;>
            rw [hread'] at hchunk
          · exact hsame disk' store.freeSlots hchunk
          · simp only
            split
            · exact hsame disk' _ hchunk
            · exact hused disk' header.id hchunk hfits
    · exact hsame disk _ hheader

theorem recoverSlots_lengthsFit (crc32 : Bytes → UInt32) (h : store.table.LengthsFit)
    (fastRecover : Bool) (slots : List Nat) :
    (store.recoverSlots crc32 fastRecover slots).2.table.LengthsFit := by
  induction slots generalizing store with
  | nil => exact h
  | cons i slots ih =>
      have hround := recoverSlot_lengthsFit crc32 h fastRecover i
      unfold recoverSlots
      rcases hslot : store.recoverSlot crc32 fastRecover i with ⟨error | _, scanned⟩ <;>
        rw [hslot] at hround
      · exact hround
      · exact ih hround

theorem recoverIndex_lengthsFit (crc32 : Bytes → UInt32) (h : store.table.LengthsFit)
    (fastRecover : Bool) :
    (store.recoverIndex crc32 fastRecover).2.table.LengthsFit := by
  unfold recoverIndex
  have hcall := store.file.call_file
  rcases hresult : store.file.call with ⟨result, disk⟩
  have hfile : disk.file = store.file.file := by simpa [hresult] using hcall
  have hsame : ({ store with file := disk } : ChunkStore).table = store.table := by
    simp [table, hfile]
  cases result with
  | error error => exact hsame.symm ▸ h
  | ok value =>
      dsimp only
      split
      · exact hsame.symm ▸ h
      · refine recoverSlots_lengthsFit crc32 ?_ fastRecover _
        intro id slot hid
        cases Std.ExtTreeMap.getElem?_empty.symm.trans hid

theorem construct_lengthsFit {disk : Disk} {recover : Bool} {allocatedSlots : Option Nat}
    {options : ChunkStoreOptions}
    (hopen : construct crc32 disk recover allocatedSlots options = .returned (.ok store)) :
    store.table.LengthsFit := by
  unfold construct at hopen
  rcases hfile : openFile disk allocatedSlots options with ⟨(error | opened) | _, disk'⟩ <;>
    rw [hfile] at hopen
  · cases hopen
  · have hblank : opened.table.LengthsFit := by
      rw [table_of_openFile hfile]
      intro id slot hid
      cases Std.ExtTreeMap.getElem?_empty.symm.trans hid
    dsimp only at hopen
    split at hopen
    · have hrecovered := recoverIndex_lengthsFit crc32 hblank options.fastRecover
      rcases hrecover : opened.recoverIndex crc32 options.fastRecover with
        ⟨(error | _) | _, recovered⟩ <;> rw [hrecover] at hopen hrecovered
      · cases hopen
      · cases hopen
        exact hrecovered
      · cases hopen
    · cases hopen
      exact hblank
  · cases hopen

theorem perform_lengthsFit (hwell : store.table.WellFormed) (h : store.table.LengthsFit)
    {operation : Operation} {reply : Reply} {next : ChunkStore}
    (hperform : store.perform crc32 operation = some (reply, next)) :
    next.table.LengthsFit := by
  cases operation with
  | recoverIndex fastRecover =>
      cases hperform
      exact recoverIndex_lengthsFit crc32 h fastRecover
  | request request =>
      cases request with
      | restart allocatedSlots options =>
          simp only [perform, serve] at hperform
          rcases hopen : construct crc32 store.file true allocatedSlots options with
            (error | restarted) | _ <;> rw [hopen] at hperform
          · cases hperform
          · cases hperform
            exact construct_lengthsFit hopen
          · cases hperform
      | putChunk | getChunk | deleteChunk =>
          exact (perform_step hwell hperform).lengthsFit hwell rfl h

theorem history_lengthsFit (hwell : store.table.WellFormed) (h : store.table.LengthsFit)
    {operations : List Operation} {entries : List (Operation × Reply)} {last : ChunkStore}
    (hrun : store.history crc32 operations = some (entries, last)) : last.table.LengthsFit := by
  induction operations generalizing store entries with
  | nil =>
      cases hrun
      exact h
  | cons operation operations ih =>
      rcases history_cons hrun with ⟨reply, next, rest, hperform, hrest, _⟩
      exact ih ((perform_step hwell hperform).wellFormed hwell)
        (perform_lengthsFit hwell h hperform) hrest

end ChunkStore

/-! ## Files that hold the same chunks -/

/-- The two files have the same bytes in the chunks that the index names. -/
structure SameChunks (index : HashMap UInt64 Nat) (file file' : ByteFile) : Prop where
  len : file'.len = file.len
  fits : ∀ (id : UInt64) (slot : Nat), index[id]? = some slot →
    (headerAt file slot).dataLen.toNat ≤ SLOT_DATA_SIZE
  bytes : ∀ (id : UInt64) (slot : Nat), index[id]? = some slot → ∀ position,
    slot * SLOT_SIZE ≤ position →
    position < slot * SLOT_SIZE + CHUNK_HEADER_SIZE + (headerAt file slot).dataLen.toNat →
      file'.byteAt position = file.byteAt position

namespace SameChunks

variable {index index' : HashMap UInt64 Nat} {file file' : ByteFile} {slot : Nat} {bytes : Bytes}

theorem len_splice (h : SameChunks index file file') (offset : Nat) (bytes : Bytes) :
    (file'.splice offset bytes).len = (file.splice offset bytes).len := by
  simp only [ByteFile.splice, h.len]

/-- What the file of the second write has in the range of a chunk in another slot. -/
theorem byteAt_splice_of_fits (hfits : (headerAt file slot).dataLen.toNat ≤ SLOT_DATA_SIZE)
    {other position : Nat} (hne : slot ≠ other) (hbytes : bytes.length ≤ SLOT_SIZE)
    (hle : slot * SLOT_SIZE ≤ position)
    (hlt : position < slot * SLOT_SIZE + CHUNK_HEADER_SIZE + (headerAt file slot).dataLen.toNat)
    (found : ByteFile) :
    (found.splice (other * SLOT_SIZE) bytes).byteAt position = found.byteAt position := by
  refine agree_splice_of_ne found hne hbytes position (by omega) ?_
  simp only [SLOT_DATA_SIZE, SLOT_SIZE, CHUNK_HEADER_SIZE] at *
  omega

theorem dataLen_splice {other : Nat} (hne : slot ≠ other) (hbytes : bytes.length ≤ SLOT_SIZE)
    (file : ByteFile) :
    (headerAt (file.splice (other * SLOT_SIZE) bytes) slot).dataLen =
      (headerAt file slot).dataLen :=
  ((agree_splice_of_ne file hne hbytes).fields (by omega)).2.2

/-- The same write to both files, in a slot that no chunk uses any more. -/
theorem splice (h : SameChunks index file file') (hbytes : bytes.length ≤ SLOT_SIZE)
    (hindex : ∀ (id : UInt64) (other : Nat), index'[id]? = some other →
      index[id]? = some other ∧ other ≠ slot) :
    SameChunks index' (file.splice (slot * SLOT_SIZE) bytes)
      (file'.splice (slot * SLOT_SIZE) bytes) where
  len := h.len_splice _ _
  fits id other hid := by
    rcases hindex id other hid with ⟨hold, hne⟩
    rw [dataLen_splice hne hbytes]
    exact h.fits id other hold
  bytes id other hid position hle hlt := by
    rcases hindex id other hid with ⟨hold, hne⟩
    rw [dataLen_splice hne hbytes] at hlt
    rw [byteAt_splice_of_fits (h.fits id other hold) hne hbytes hle hlt,
      byteAt_splice_of_fits (h.fits id other hold) hne hbytes hle hlt]
    exact h.bytes id other hold position hle hlt

/-- A new chunk in both files. -/
theorem insert (h : SameChunks index file file') {id : UInt64} {data : Bytes}
    (hdata : data.length ≤ SLOT_DATA_SIZE)
    (hfree : ∀ (other : UInt64), index[other]? ≠ some slot) :
    SameChunks (index.insert id slot) (file.splice (slot * SLOT_SIZE) (chunkBytes crc32 id data))
      (file'.splice (slot * SLOT_SIZE) (chunkBytes crc32 id data)) := by
  have hholds : SlotHolds crc32 (file.splice (slot * SLOT_SIZE) (chunkBytes crc32 id data)) slot id
      data := slotHolds_splice file slot id hdata
  have hothers : ∀ (other : UInt64) (owner : Nat), other ≠ id →
      (index.insert id slot)[other]? = some owner → index[other]? = some owner ∧ owner ≠ slot := by
    intro other owner hne howner
    rw [HashMap.getElem?_insert_of_ne _ _ hne] at howner
    exact ⟨howner, fun heq => hfree other (heq ▸ howner)⟩
  have hself : ∀ owner, (index.insert id slot)[id]? = some owner → owner = slot := by
    intro owner howner
    rw [Std.ExtTreeMap.getElem?_insert_self] at howner
    exact (Option.some.inj howner).symm
  have hbytes := @SlotTable.length_chunkBytes_le crc32 id data hdata
  constructor
  · exact h.len_splice _ _
  · intro other owner howner
    by_cases heq : other = id
    · cases hself owner (heq ▸ howner)
      exact hholds.dataLen ▸ hdata
    · rcases hothers other owner heq howner with ⟨hold, hne⟩
      rw [dataLen_splice hne hbytes]
      exact h.fits other owner hold
  · intro other owner howner position hle hlt
    by_cases heq : other = id
    · cases hself owner (heq ▸ howner)
      rw [hholds.dataLen] at hlt
      have hinside : position - slot * SLOT_SIZE < (chunkBytes crc32 id data).length := by
        rw [length_chunkBytes]
        omega
      rw [ByteFile.byteAt_splice_of_mem hle hinside, ByteFile.byteAt_splice_of_mem hle hinside]
    · rcases hothers other owner heq howner with ⟨hold, hne⟩
      rw [dataLen_splice hne hbytes] at hlt
      rw [byteAt_splice_of_fits (h.fits other owner hold) hne hbytes hle hlt,
        byteAt_splice_of_fits (h.fits other owner hold) hne hbytes hle hlt]
      exact h.bytes other owner hold position hle hlt

/-- A write to one of the files, in a slot that no chunk uses. -/
theorem splice_left (h : SameChunks index file file') {slots : Nat} (hslot : slot < slots)
    (hlen : file.len = SLOT_SIZE * slots) (hbytes : bytes.length ≤ SLOT_SIZE)
    (hfree : ∀ (id : UInt64), index[id]? ≠ some slot) :
    SameChunks index (file.splice (slot * SLOT_SIZE) bytes) file' := by
  have hne : ∀ (id : UInt64) (other : Nat), index[id]? = some other → other ≠ slot :=
    fun id other hid heq => hfree id (heq ▸ hid)
  constructor
  · exact h.len.trans (Frame.splice hslot hlen hbytes).len.symm
  · intro id other hid
    rw [dataLen_splice (hne id other hid) hbytes]
    exact h.fits id other hid
  · intro id other hid position hle hlt
    rw [dataLen_splice (hne id other hid) hbytes] at hlt
    rw [byteAt_splice_of_fits (h.fits id other hid) (hne id other hid) hbytes hle hlt]
    exact h.bytes id other hid position hle hlt

/-- A chunk is read alike from both files. -/
theorem readChunkOptimized (h : SameChunks index file file') {id : UInt64}
    (hid : index[id]? = some slot) (calls : Stream' SystemCall) :
    ∃ result rest,
      StorageNode.readChunkOptimized ⟨file, calls⟩ slot = (result, ⟨file, rest⟩) ∧
      StorageNode.readChunkOptimized ⟨file', calls⟩ slot = (result, ⟨file', rest⟩) := by
  rcases Disk.readExactAt_uniform h.len calls (fun position hle hlt =>
      h.bytes id slot hid position hle (by omega) : ∀ position, slot * SLOT_SIZE ≤ position →
        position < slot * SLOT_SIZE + CHUNK_HEADER_SIZE → _) with ⟨result, rest, hread, hread'⟩
  simp only [StorageNode.readChunkOptimized, readChunkHeader, hread, hread']
  cases result with
  | error error => exact ⟨.error error, rest, rfl, rfl⟩
  | ok headerBytes =>
      have hheader : ChunkHeader.fromBytes headerBytes = headerAt file slot := by
        rw [Disk.readExactAt_ok hread]
        rfl
      dsimp only
      by_cases hmagic : (ChunkHeader.fromBytes headerBytes).magic ≠ MAGIC
      · rw [if_pos hmagic, if_pos hmagic]
        exact ⟨_, rest, rfl, rfl⟩
      · rw [if_neg hmagic, if_neg hmagic, hheader]
        rcases Disk.readExactAt_uniform h.len rest (fun position hle hlt =>
            h.bytes id slot hid position (by omega) hlt : ∀ position,
              slot * SLOT_SIZE + CHUNK_HEADER_SIZE ≤ position →
              position < slot * SLOT_SIZE + CHUNK_HEADER_SIZE +
                (headerAt file slot).dataLen.toNat → _) with ⟨data, last, hdata, hdata'⟩
        rw [hdata, hdata']
        cases data with
        | error error => exact ⟨.error error, last, rfl, rfl⟩
        | ok data => exact ⟨.ok _, last, rfl, rfl⟩

end SameChunks

/-! ## The same store on another file -/

namespace ChunkStore

/-- The store on another file. -/
def withFile (self : ChunkStore) (file : ByteFile) : ChunkStore :=
  { self with file := { self.file with file := file } }

/-- The store at a later point of the stream of system calls. -/
def later (self : ChunkStore) (calls : Stream' SystemCall) (writeCounter : Nat) : ChunkStore :=
  { self with file := { self.file with calls := calls }, writeCounter := writeCounter }

/-- The top of the stack of free slots goes to `id`. -/
def occupy (self : ChunkStore) (id : UInt64) (slot : Nat) : ChunkStore :=
  { self with
    index := { self.index with value := self.index.value.insert id slot }
    freeSlots := self.freeSlots.dropLast }

/-- The slot goes to `id` when the write has succeeded. -/
def settle (self : ChunkStore) (id : UInt64) (slot : Nat) : IoResult Unit → ChunkStore
  | .ok () => self.occupy id slot
  | .error _ => self

variable {store : ChunkStore}

theorem findSlot_withFile (file : ByteFile) :
    (store.withFile file).findSlot = (store.findSlot.1, store.findSlot.2.withFile file) := by
  unfold findSlot
  cases hlast : store.freeSlots.getLast? <;> simp [withFile, hlast]

/-- `should_fsync_write` only counts. -/
theorem shouldFsyncWrite_withFile (self : ChunkStore) :
    ∃ fsync counter, ∀ file, (self.withFile file).shouldFsyncWrite =
      (fsync, { self.withFile file with writeCounter := counter }) := by
  unfold shouldFsyncWrite withFile
  dsimp only
  split
  · split
    · exact ⟨_, _, fun _ => rfl⟩
    · exact ⟨_, self.writeCounter, fun _ => rfl⟩
  · exact ⟨_, self.writeCounter, fun _ => rfl⟩

theorem findSlot_of_getLast? {slot : Nat} (hlast : store.freeSlots.getLast? = some slot)
    (file : ByteFile) : (store.withFile file).findSlot =
      (some slot, ({ store with freeSlots := store.freeSlots.dropLast } : ChunkStore).withFile
        file) := by
  rw [findSlot_withFile, findSlot, hlast]

/-- What `put_chunk` comes to once a slot is taken, on any file. -/
theorem putChunk_uniform (crc32 : Bytes → UInt32) (hsound : store.index.poisoned = false)
    {id : UInt64} (hid : id ∉ store.index.value) {slot : Nat}
    (hlast : store.freeSlots.getLast? = some slot) (hslot : slot < store.totalSlots) {data : Bytes}
    (hdata : data.length ≤ SLOT_DATA_SIZE) :
    ∃ result count calls counter,
      (result = .ok () → count = (chunkBytes crc32 id data).length) ∧
      ∀ file, (store.withFile file).putChunk crc32 id data = (.returned result,
        ((store.later calls counter).settle id slot result).withFile
          (file.splice (slot * SLOT_SIZE) ((chunkBytes crc32 id data).take count))) := by
  rcases shouldFsyncWrite_withFile { store with freeSlots := store.freeSlots.dropLast } with
    ⟨fsync, counter, hfsync⟩
  rcases writeChunkAt_uniform store.file.calls slot
    (ChunkHeader.new id (crc32 data) (UInt32.ofNat data.length)) hdata fsync with
    ⟨result, calls, hcount, hall, hwrite⟩
  refine ⟨result, _, calls, counter, hall, fun file => ?_⟩
  have hstack : store.freeSlots = store.freeSlots.dropLast ++ [slot] :=
    (List.dropLast_append_getLast? slot hlast).symm
  have hsound' : (store.withFile file).index.poisoned = false := hsound
  have hid' : id ∉ (store.withFile file).index.value := hid
  unfold putChunk
  rw [hsound', if_neg (by decide), if_neg hid', findSlot_of_getLast? hlast]
  dsimp only
  rw [hfsync]
  dsimp only [withFile]
  rw [hwrite file]
  cases result with
  | ok value => rfl
  | error error =>
      dsimp only
      simp only [clearSlot, if_pos hslot, ← hstack]
      rfl

theorem putChunk_idle (crc32 : Bytes → UInt32) {id : UInt64}
    (h : store.index.poisoned = true ∨ id ∈ store.index.value ∨ store.freeSlots = [])
    (data : Bytes) :
    ∃ outcome, (store.index.poisoned = false → ∃ error, outcome = .returned (.error error)) ∧
      ∀ file, (store.withFile file).putChunk crc32 id data = (outcome, store.withFile file) := by
  by_cases hpoisoned : store.index.poisoned = true
  · refine ⟨.panicked, by simp [hpoisoned], fun file => ?_⟩
    unfold putChunk
    rw [if_pos (show (store.withFile file).index.poisoned = true from hpoisoned)]
  · by_cases hid : id ∈ store.index.value
    · refine ⟨.returned (.error ⟨.alreadyExists, "id is already used"⟩), fun _ => ⟨_, rfl⟩,
        fun file => ?_⟩
      unfold putChunk
      rw [if_neg (show ¬ (store.withFile file).index.poisoned = true from hpoisoned),
        if_pos (show id ∈ (store.withFile file).index.value from hid)]
    · refine ⟨.returned (.error ⟨.storageFull, "all chunks allocated"⟩), fun _ => ⟨_, rfl⟩,
        fun file => ?_⟩
      have hfree : store.freeSlots = [] := (h.resolve_left hpoisoned).resolve_left hid
      have hfind : (store.withFile file).findSlot.1 = none := by
        rw [findSlot_withFile, findSlot, hfree]
        rfl
      unfold putChunk
      rw [if_neg (show ¬ (store.withFile file).index.poisoned = true from hpoisoned),
        if_neg (show ¬ id ∈ (store.withFile file).index.value from hid), findSlot_eq_none hfind]

/-- A payload that does not fit panics with the slot taken and the lock held. -/
theorem putChunk_oversized (crc32 : Bytes → UInt32) (hsound : store.index.poisoned = false)
    {id : UInt64} (hid : id ∉ store.index.value) (hfree : store.freeSlots ≠ []) {data : Bytes}
    (hdata : SLOT_DATA_SIZE < data.length) :
    ∃ poisoned : ChunkStore, poisoned.index = ⟨store.index.value, true⟩ ∧
      ∀ file, (store.withFile file).putChunk crc32 id data =
        (.panicked, poisoned.withFile file) := by
  rcases shouldFsyncWrite_withFile { store with freeSlots := store.freeSlots.dropLast } with
    ⟨fsync, counter, hfsync⟩
  rcases Option.isSome_iff_exists.mp (List.getLast?_isSome.mpr hfree) with ⟨slot, hlast⟩
  refine ⟨{ store with
    index := { store.index with poisoned := true }
    freeSlots := store.freeSlots.dropLast
    writeCounter := counter }, rfl, fun file => ?_⟩
  have hsound' : (store.withFile file).index.poisoned = false := hsound
  have hid' : id ∉ (store.withFile file).index.value := hid
  unfold putChunk
  rw [hsound', if_neg (by decide), if_neg hid', findSlot_of_getLast? hlast]
  dsimp only
  rw [hfsync]
  dsimp only
  rw [writeChunkAt, if_pos hdata]
  rfl

end ChunkStore

/-! ## Replies -/

namespace SameChunks

variable {store : ChunkStore} {file' : ByteFile}

theorem putChunk (crc32 : Bytes → UInt32) (hwell : store.table.WellFormed)
    (h : SameChunks store.index.value store.file.file file') (id : UInt64) (data : Bytes) :
    ∃ outcome next file'', store.putChunk crc32 id data = (outcome, next) ∧
      (store.withFile file').putChunk crc32 id data = (outcome, next.withFile file'') ∧
      SameChunks next.index.value next.file.file file'' := by
  by_cases hidle : store.index.poisoned = true ∨ id ∈ store.index.value ∨ store.freeSlots = []
  · rcases ChunkStore.putChunk_idle crc32 hidle data with ⟨outcome, _, hput⟩
    exact ⟨outcome, store, file', hput store.file.file, hput file', h⟩
  · rw [not_or, not_or, Bool.not_eq_true] at hidle
    rcases hidle with ⟨hsound, hid, hfree⟩
    by_cases hdata : data.length ≤ SLOT_DATA_SIZE
    · rcases Option.isSome_iff_exists.mp (List.getLast?_isSome.mpr hfree) with ⟨slot, hlast⟩
      have hpop := hwell.pop (List.dropLast_append_getLast? slot hlast).symm
      rcases ChunkStore.putChunk_uniform crc32 hsound hid hlast hpop.2.2 hdata with
        ⟨result, count, calls, counter, hall, hput⟩
      refine ⟨_, _, _, hput store.file.file, hput file', ?_⟩
      cases result with
      | ok value =>
          rw [hall rfl, List.take_length]
          exact h.insert hdata hpop.2.1.ne
      | error error =>
          exact h.splice (SlotTable.length_take_chunkBytes_le id hdata count)
            fun other owner howner => ⟨howner, fun heq => hpop.2.1.ne other (heq ▸ howner)⟩
    · rcases ChunkStore.putChunk_oversized crc32 hsound hid hfree (Nat.lt_of_not_le hdata) with
        ⟨poisoned, hindex, hput⟩
      refine ⟨.panicked, _, _, hput store.file.file, hput file', ?_⟩
      have hvalue : poisoned.index.value = store.index.value := by rw [hindex]
      exact hvalue.symm ▸ h

theorem getChunk (crc32 : Bytes → UInt32)
    (h : SameChunks store.index.value store.file.file file') (id : UInt64) :
    ∃ outcome next, store.getChunk crc32 id = (outcome, next) ∧
      (store.withFile file').getChunk crc32 id = (outcome, next.withFile file') ∧
      SameChunks next.index.value next.file.file file' := by
  unfold ChunkStore.getChunk
  by_cases hpoisoned : store.index.poisoned = true
  · rw [if_pos hpoisoned, if_pos (show (store.withFile file').index.poisoned = true from hpoisoned)]
    exact ⟨_, store, rfl, rfl, h⟩
  · rw [if_neg hpoisoned,
      if_neg (show ¬ (store.withFile file').index.poisoned = true from hpoisoned)]
    cases hid : store.index.value[id]? with
    | none =>
        have hid' : (store.withFile file').index.value[id]? = none := hid
        simp only [hid']
        exact ⟨_, store, rfl, rfl, h⟩
    | some slot =>
        have hid' : (store.withFile file').index.value[id]? = some slot := hid
        rcases h.readChunkOptimized hid store.file.calls with ⟨result, rest, hread, hread'⟩
        change StorageNode.readChunkOptimized store.file slot = _ at hread
        change StorageNode.readChunkOptimized (store.withFile file').file slot = _ at hread'
        simp only [hid', hread, hread']
        rcases result with error | ⟨header, data⟩
        · exact ⟨_, _, rfl, rfl, h⟩
        · simp only
          split
          · exact ⟨_, _, rfl, rfl, h⟩
          · split
            · exact ⟨_, _, rfl, rfl, h⟩
            · exact ⟨_, _, rfl, rfl, h⟩

theorem deleteChunk (hwell : store.table.WellFormed)
    (h : SameChunks store.index.value store.file.file file') (id : UInt64) :
    ∃ outcome next file'', store.deleteChunk id = (outcome, next) ∧
      (store.withFile file').deleteChunk id = (outcome, next.withFile file'') ∧
      SameChunks next.index.value next.file.file file'' := by
  unfold ChunkStore.deleteChunk
  by_cases hpoisoned : store.index.poisoned = true
  · rw [if_pos hpoisoned, if_pos (show (store.withFile file').index.poisoned = true from hpoisoned)]
    exact ⟨_, store, file', rfl, rfl, h⟩
  · rw [if_neg hpoisoned,
      if_neg (show ¬ (store.withFile file').index.poisoned = true from hpoisoned)]
    cases hid : store.index.value[id]? with
    | none =>
        have hid' : (store.withFile file').index.value[id]? = none := hid
        simp only [hid']
        exact ⟨_, store, file', rfl, rfl, h⟩
    | some slot =>
        have hid' : (store.withFile file').index.value[id]? = some slot := hid
        have hslot : slot < store.totalSlots := hwell.apart.valid_owned id slot hid
        rcases Disk.writeAllAt_uniform store.file.calls (List.replicate CHUNK_HEADER_SIZE 0)
          (slot * SLOT_SIZE) with ⟨result, hcount, hall, hwrite⟩
        rcases hmoved : Disk.bytesWritten store.file.calls
          (List.replicate CHUNK_HEADER_SIZE (0 : UInt8)).length with ⟨count, calls⟩
        rw [hmoved] at hwrite
        simp only at hwrite
        have hsame : SameChunks (store.index.value.erase id)
            (store.file.file.splice (slot * SLOT_SIZE)
              ((List.replicate CHUNK_HEADER_SIZE 0).take count))
            (file'.splice (slot * SLOT_SIZE)
              ((List.replicate CHUNK_HEADER_SIZE 0).take count)) := by
          refine h.splice ?_ fun other owner howner => ?_
          · rw [List.take_replicate]
            exact SlotTable.length_zeros_le (Nat.min_le_right _ _)
          · exact ⟨HashMap.getElem?_of_erase howner,
              fun heq => (hwell.erase hid).2.1.ne other (heq ▸ howner)⟩
        have hwrite₁ := hwrite store.file.file
        have hwrite₂ := hwrite file'
        change store.file.writeAllAt _ _ = _ at hwrite₁
        change (store.withFile file').file.writeAllAt _ _ = _ at hwrite₂
        simp only [hid', hwrite₁, hwrite₂]
        cases result with
        | error error => exact ⟨_, _, _, rfl, rfl, hsame⟩
        | ok value =>
            have hslot' : slot < (store.withFile file').totalSlots := hslot
            cases hfsync : store.fsyncOnDelete with
            | false =>
                have hfsync' : (store.withFile file').fsyncOnDelete = false := hfsync
                simp only [hfsync', Bool.false_eq_true, if_false, ChunkStore.clearSlot,
                  if_pos hslot, if_pos hslot']
                exact ⟨_, _, _, rfl, rfl, hsame⟩
            | true =>
                have hfsync' : (store.withFile file').fsyncOnDelete = true := hfsync
                cases hhead : calls.head with
                | failed error =>
                    simp only [hfsync', if_true, Disk.call, hhead]
                    exact ⟨_, _, _, rfl, rfl, hsame⟩
                | moved moved =>
                    simp only [hfsync', if_true, Disk.call, hhead, ChunkStore.clearSlot,
                      if_pos hslot, if_pos hslot']
                    exact ⟨_, _, _, rfl, rfl, hsame⟩

/-- Every request is answered alike on both files, which hold the same chunks afterwards. -/
theorem serve (crc32 : Bytes → UInt32) (hwell : store.table.WellFormed)
    (h : SameChunks store.index.value store.file.file file') {request : Request}
    (hrequest : request.id?.isSome) :
    ∃ reply next file'', store.serve crc32 request = some (reply, next) ∧
      (store.withFile file').serve crc32 request = some (reply, next.withFile file'') ∧
      SameChunks next.index.value next.file.file file'' := by
  cases request with
  | restart allocatedSlots options => cases hrequest
  | putChunk id data =>
      rcases h.putChunk crc32 hwell id data with ⟨outcome, next, file'', hput, hput', hnext⟩
      exact ⟨_, next, file'', by rw [ChunkStore.serve, hput], by rw [ChunkStore.serve, hput'],
        hnext⟩
  | getChunk id =>
      rcases h.getChunk crc32 id with ⟨outcome, next, hget, hget', hnext⟩
      exact ⟨_, next, file', by rw [ChunkStore.serve, hget], by rw [ChunkStore.serve, hget'], hnext⟩
  | deleteChunk id =>
      rcases h.deleteChunk hwell id with ⟨outcome, next, file'', hdelete, hdelete', hnext⟩
      exact ⟨_, next, file'', by rw [ChunkStore.serve, hdelete], by rw [ChunkStore.serve, hdelete'],
        hnext⟩

theorem run (hwell : store.table.WellFormed)
    (h : SameChunks store.index.value store.file.file file') {requests : List Request}
    (hrequests : ∀ request ∈ requests, request.id?.isSome) :
    (store.run crc32 requests).map Prod.fst =
      ((store.withFile file').run crc32 requests).map Prod.fst := by
  induction requests generalizing store file' with
  | nil => rfl
  | cons request requests ih =>
      rcases h.serve crc32 hwell (hrequests request List.mem_cons_self) with
        ⟨reply, next, file'', hserve, hserve', hnext⟩
      have hperform : store.perform crc32 (.request request) = some (reply, next) := hserve
      have hwell' := (ChunkStore.perform_step hwell hperform).wellFormed hwell
      have hrest := ih hwell' hnext fun other hother =>
        hrequests other (List.mem_cons_of_mem _ hother)
      simp only [ChunkStore.run, hserve, hserve', Option.map_map] at hrest ⊢
      have hmap := congrArg (Option.map (List.cons reply)) hrest
      rw [Option.map_map, Option.map_map] at hmap
      exact hmap

end SameChunks

/-! ## Harmless writes -/

/-- The store that a write request should leave: the store as it was, with the chunk in it when
the request succeeded. -/
def ChunkStore.expected (crc32 : Bytes → UInt32) (self : ChunkStore) (id : UInt64) (data : Bytes)
    (answer : Outcome Unit × ChunkStore) : ChunkStore :=
  let later := self.later answer.2.file.calls answer.2.writeCounter
  match answer.1, self.freeSlots.getLast? with
  | .returned (.ok ()), some slot =>
      (later.occupy id slot).withFile
        (self.file.file.splice (slot * SLOT_SIZE) (chunkBytes crc32 id data))
  | _, _ => later

/-- The slot is free or belongs to a chunk. -/
def ChunkStore.Has (self : ChunkStore) (slot : Nat) : Prop :=
  slot ∈ self.freeSlots ∨ ∃ id : UInt64, self.index.value[id]? = some slot

/-- The write request returns, loses no slot, and later requests are answered as they should. -/
structure Harmless (crc32 : Bytes → UInt32) (store : ChunkStore) (id : UInt64) (data : Bytes) :
    Prop where
  returns : ∃ result, (store.putChunk crc32 id data).1 = .returned result
  slots : ∀ slot, (store.putChunk crc32 id data).2.Has slot ↔ store.Has slot
  replies : ∀ requests : List Request, (∀ request ∈ requests, request.id?.isSome) →
    ((store.putChunk crc32 id data).2.run crc32 requests).map Prod.fst =
      ((store.expected crc32 id data (store.putChunk crc32 id data)).run crc32 requests).map
        Prod.fst

namespace ChunkStore

variable {store : ChunkStore} {id : UInt64} {data : Bytes}

/-- A write that stores the chunk moves one slot from the stack into the index. -/
theorem has_occupy {slot : Nat} (hlast : store.freeSlots.getLast? = some slot)
    (hid : id ∉ store.index.value) (other : Nat) :
    (store.occupy id slot).Has other ↔ store.Has other := by
  have hstack : store.freeSlots = store.freeSlots.dropLast ++ [slot] :=
    (List.dropLast_append_getLast? slot hlast).symm
  unfold Has
  constructor
  · rintro (hfree | ⟨owner, howner⟩)
    · exact .inl (List.mem_of_mem_dropLast hfree)
    · change (store.index.value.insert id slot)[owner]? = some other at howner
      by_cases heq : owner = id
      · rw [heq, Std.ExtTreeMap.getElem?_insert_self] at howner
        cases howner
        exact .inl (List.mem_of_getLast? hlast)
      · rw [HashMap.getElem?_insert_of_ne _ _ heq] at howner
        exact .inr ⟨owner, howner⟩
  · rintro (hfree | ⟨owner, howner⟩)
    · rw [hstack, List.mem_append, List.mem_singleton] at hfree
      rcases hfree with hfree | rfl
      · exact .inl hfree
      · exact .inr ⟨id, Std.ExtTreeMap.getElem?_insert_self⟩
    · have hne : owner ≠ id := by
        rintro rfl
        exact hid (HashMap.mem_iff_exists_getElem?.mpr ⟨other, howner⟩)
      exact .inr ⟨owner, (HashMap.getElem?_insert_of_ne _ _ hne).trans howner⟩

/-- A write request that meets a sound lock and a payload that fits, a used id or a full store. -/
theorem putChunk_harmless (crc32 : Bytes → UInt32) (hwell : store.table.WellFormed)
    (hfits : store.table.LengthsFit) (hsound : store.index.poisoned = false)
    (hwrite : data.length ≤ SLOT_DATA_SIZE ∨ id ∈ store.index.value ∨ store.freeSlots = []) :
    Harmless crc32 store id data := by
  by_cases hidle : id ∈ store.index.value ∨ store.freeSlots = []
  · rcases putChunk_idle crc32 (.inr hidle) data with ⟨outcome, hreturns, hput⟩
    rcases hreturns hsound with ⟨error, rfl⟩
    have hself : store.putChunk crc32 id data = (.returned (.error error), store) :=
      hput store.file.file
    constructor
    · exact ⟨.error error, by rw [hself]⟩
    · intro slot
      rw [hself]
    · intro requests _
      rw [hself]
      rfl
  · have hdata := hwrite.resolve_right hidle
    rw [not_or] at hidle
    rcases Option.isSome_iff_exists.mp (List.getLast?_isSome.mpr hidle.2) with ⟨slot, hlast⟩
    have hpop := hwell.pop (List.dropLast_append_getLast? slot hlast).symm
    rcases putChunk_uniform crc32 hsound hidle.1 hlast hpop.2.2 hdata with
      ⟨result, count, calls, counter, hall, hput⟩
    have hself : store.putChunk crc32 id data = _ := hput store.file.file
    have hstep := @putChunk_step crc32 store hwell id data
    cases result with
    | ok value =>
        constructor
        · exact ⟨.ok (), by rw [hself]⟩
        · intro other
          rw [hself]
          exact @has_occupy store id slot hlast hidle.1 other
        · intro requests _
          rw [hself, hall rfl, List.take_length]
          simp only [expected, hlast]
          rfl
    | error error =>
        have hsame : SameChunks store.index.value store.file.file store.file.file :=
          ⟨rfl, hfits, fun _ _ _ _ _ _ => rfl⟩
        have hwell' := hstep.wellFormed hwell
        rw [hself] at hwell'
        constructor
        · exact ⟨.error error, by rw [hself]⟩
        · intro other
          rw [hself]
          exact Iff.rfl
        · intro requests hrequests
          rw [hself]
          have hleft := hsame.splice_left hpop.2.2 hwell.len
            (@SlotTable.length_take_chunkBytes_le crc32 id data hdata count) hpop.2.1.ne
          exact SameChunks.run hwell' hleft hrequests

/-- A poisoned lock answers every request with a panic. -/
theorem serve_poisoned (crc32 : Bytes → UInt32) (h : store.index.poisoned = true)
    {request : Request} (hrequest : request.id?.isSome) :
    store.serve crc32 request = some (.panicked, store) := by
  cases request with
  | restart allocatedSlots options => cases hrequest
  | putChunk id data =>
      simp only [serve, putChunk, h, if_true]
      rfl
  | getChunk id =>
      simp only [serve, getChunk, h, if_true]
      rfl
  | deleteChunk id =>
      simp only [serve, deleteChunk, h, if_true]
      rfl

theorem harmless_iff (crc32 : Bytes → UInt32) (hwell : store.table.WellFormed)
    (hfits : store.table.LengthsFit) :
    Harmless crc32 store id data ↔ store.index.poisoned = false ∧
      (data.length ≤ SLOT_DATA_SIZE ∨ id ∈ store.index.value ∨ store.freeSlots = []) := by
  constructor
  · intro h
    rcases h.returns with ⟨result, hresult⟩
    have hsound : store.index.poisoned = false := by
      by_contra hpoisoned
      rw [putChunk, if_pos (Bool.eq_true_of_not_eq_false hpoisoned)] at hresult
      cases hresult
    refine ⟨hsound, ?_⟩
    by_contra hwrite
    rw [not_or, not_or] at hwrite
    rcases putChunk_oversized crc32 hsound hwrite.2.1 hwrite.2.2 (Nat.lt_of_not_le hwrite.1) with
      ⟨poisoned, _, hput⟩
    have hself : store.putChunk crc32 id data = _ := hput store.file.file
    rw [hself] at hresult
    cases hresult
  · rintro ⟨hsound, hwrite⟩
    exact putChunk_harmless crc32 hwell hfits hsound hwrite

/-- The put does not panic: its payload fits, its id is used or the store is full. -/
def writeFits (table : SlotTable) (operation : Operation) (_ : Reply) (_ : SlotTable) : Bool :=
  match operation with
  | .request (.putChunk id data) =>
      data.length ≤ SLOT_DATA_SIZE || id ∈ table.index || table.freeSlots.isEmpty
  | _ => true

theorem perform_sound (hwell : store.table.WellFormed) (hsound : store.index.poisoned = false)
    {operation : Operation} {reply : Reply} {next : ChunkStore}
    (hfit : writeFits store.table operation reply next.table = true)
    (hperform : store.perform crc32 operation = some (reply, next)) :
    next.index.poisoned = false := by
  have hstep := perform_step hwell hperform
  cases operation with
  | recoverIndex fastRecover => exact (hstep.ne_panicked trivial hsound).2
  | request request =>
      cases request with
      | getChunk | deleteChunk | restart => exact (hstep.ne_panicked trivial hsound).2
      | putChunk id data =>
          by_cases hidle : id ∈ store.index.value ∨ store.freeSlots = []
          · rcases putChunk_idle crc32 (.inr hidle) data with ⟨outcome, _, hput⟩
            have hself : store.putChunk crc32 id data = _ := hput store.file.file
            simp only [perform, serve, hself, Option.some.injEq, Prod.mk.injEq] at hperform
            rw [← hperform.2]
            exact hsound
          · rw [not_or] at hidle
            have hdata : data.length ≤ SLOT_DATA_SIZE := by
              simp only [writeFits, Bool.or_eq_true, decide_eq_true_eq, List.isEmpty_iff] at hfit
              exact (hfit.resolve_right hidle.2).resolve_right hidle.1
            exact (hstep.ne_panicked hdata hsound).2

/-- A run whose puts fit never poisons the lock. -/
theorem history_sound (hwell : store.table.WellFormed) (hsound : store.index.poisoned = false)
    {operations : List Operation} (hfit : store.stepsMeet crc32 writeFits operations = true)
    {entries : List (Operation × Reply)} {last : ChunkStore}
    (hrun : store.history crc32 operations = some (entries, last)) :
    last.index.poisoned = false := by
  induction operations generalizing store entries with
  | nil =>
      cases hrun
      exact hsound
  | cons operation operations ih =>
      rcases history_cons hrun with ⟨reply, next, rest, hperform, hrest, _⟩
      rcases stepsMeet_cons hfit hperform with ⟨hfirst, hlater⟩
      exact ih ((perform_step hwell hperform).wellFormed hwell)
        (perform_sound hwell hsound hfirst hperform) hlater hrest

end ChunkStore

/-- In every state that a run reaches, a write request is harmless exactly if the lock of the
index is sound and the payload fits into a slot, the id is used or no slot is free.  The lock is
sound in every run whose writes meet this condition. -/
theorem write_harmless_iff (crc32 : Bytes → UInt32) (disk : Disk) (recover : Bool)
    (allocatedSlots : Option Nat) (options : ChunkStoreOptions) (store : ChunkStore)
    (hopen : ChunkStore.construct crc32 disk recover allocatedSlots options =
      .returned (.ok store))
    (operations : List Operation) (entries : List (Operation × Reply)) (reached : ChunkStore)
    (hrun : store.history crc32 operations = some (entries, reached)) (id : UInt64)
    (data : Bytes) :
    (Harmless crc32 reached id data ↔ reached.index.poisoned = false ∧
      (data.length ≤ SLOT_DATA_SIZE ∨ id ∈ reached.index.value ∨ reached.freeSlots = [])) ∧
    (store.stepsMeet crc32 ChunkStore.writeFits operations = true →
      reached.index.poisoned = false) := by
  have hwell := ChunkStore.wellFormed_of_construct hopen
  have hsound : store.index.poisoned = false :=
    congrArg SlotTable.poisoned (ChunkStore.table_of_construct hopen).2
  constructor
  · exact ChunkStore.harmless_iff crc32 (ChunkStore.history_wellFormed hwell hrun)
      (ChunkStore.history_lengthsFit hwell (ChunkStore.construct_lengthsFit hopen) hrun)
  · exact fun hfit => ChunkStore.history_sound hwell hsound hfit hrun

/-- A byte written to a new store whose disk fails now and then. -/
theorem write_harmless_iff_oneByte : Harmless Library.crc32 (twoSlots 1) 7 [1] :=
  (write_harmless_iff Library.crc32 _ _ _ _ (twoSlots 1) (construct_twoSlots 1) [] [] (twoSlots 1)
    rfl 7 [1]).1.mpr ⟨rfl, .inl (by decide)⟩

/-- One byte more than a slot has room for, which the server admits: the put panics, the slot
is lost, and from then on every request panics. -/
theorem oversized_write_breaks_store :
    ∃ data : Bytes, data.length = SLOT_DATA_SIZE + 1 ∧ data.length ≤ MAX_GRPC_MESSAGE_SIZE ∧
      ¬ Harmless Library.crc32 (twoSlots 9) 7 data ∧
      ∃ broken, (twoSlots 9).putChunk Library.crc32 7 data = (.panicked, broken) ∧
        ∀ request : Request, request.id?.isSome →
          broken.serve Library.crc32 request = some (.panicked, broken) := by
  have hlength : (List.replicate (SLOT_DATA_SIZE + 1) (0 : UInt8)).length = SLOT_DATA_SIZE + 1 :=
    List.length_replicate
  have hlarge : SLOT_DATA_SIZE < (List.replicate (SLOT_DATA_SIZE + 1) (0 : UInt8)).length := by
    omega
  have hid : (7 : UInt64) ∉ (twoSlots 9).index.value := Std.ExtTreeMap.not_mem_empty
  have hfree : (twoSlots 9).freeSlots ≠ [] := by decide
  rcases @ChunkStore.putChunk_oversized (twoSlots 9) Library.crc32 rfl _ hid hfree _ hlarge with
    ⟨poisoned, hindex, hput⟩
  have hself : (twoSlots 9).putChunk Library.crc32 7 _ = _ := hput (twoSlots 9).file.file
  refine ⟨_, hlength, by rw [hlength]; decide, fun hharmless => ?_, _, hself,
    fun request hrequest => ?_⟩
  · rcases hharmless.returns with ⟨result, hresult⟩
    rw [hself] at hresult
    cases hresult
  · have hpoisoned : (poisoned.withFile (twoSlots 9).file.file).index.poisoned = true := by
      change poisoned.index.poisoned = true
      rw [hindex]
    exact ChunkStore.serve_poisoned Library.crc32 hpoisoned hrequest

end StorageNode
end ObjectStore
