import ObjectStore.StorageNode.SlotTable

/-!
# Storage node - A chunk store whose I/O fails

Nothing is assumed about the system calls here: each may move any number of bytes or fail.
The methods of `ChunkStore` still do no more than `SlotTable.Step` allows, so in every run
the slots stay apart.

Main results:

- Theorem `ChunkStore.perform_step`: every operation is a step of the slot table.
- Theorem `ChunkStore.history_wellFormed`: the slots stay apart along every run.
- Theorem `slots_stay_apart`: no slot of a store on an arbitrary file serves two masters.
-/

namespace ObjectStore
namespace StorageNode

open Library (ByteFile Exclusive Unclaimed)

variable {crc32 : Bytes → UInt32}

/-! ## Slot I/O -/

/-- How many bytes of a header and of a payload of `length` bytes `write_chunk_at` writes. -/
def chunkBytesWritten (calls : Stream' SystemCall) (length : Nat) : Nat :=
  let (header, rest) := Disk.bytesWritten calls CHUNK_HEADER_SIZE
  if header = CHUNK_HEADER_SIZE then header + (Disk.bytesWritten rest length).1 else header

/-- The header and a part of the payload behind it are a part of both. -/
theorem splice_header_part (file : ByteFile) (slot more : Nat) (header : ChunkHeader)
    (bytes : Bytes) :
    (file.splice (slot * SLOT_SIZE) header.toBytes).splice
        (slot * SLOT_SIZE + CHUNK_HEADER_SIZE) (bytes.take more) =
      file.splice (slot * SLOT_SIZE)
        ((header.toBytes ++ bytes).take (CHUNK_HEADER_SIZE + more)) := by
  have hheader : header.toBytes.length = CHUNK_HEADER_SIZE := header.length_toBytes
  have hsplice := file.splice_append (slot * SLOT_SIZE) header.toBytes (bytes.take more)
  rw [hheader] at hsplice
  rw [hsplice, ← hheader, List.take_length_add_append]

/-- `write_chunk_at` does the same to every file: it writes `chunkBytesWritten` bytes of the
header and the payload, all of them when it succeeds. -/
theorem writeChunkAt_uniform (calls : Stream' SystemCall) (slot : Nat) (header : ChunkHeader)
    {bytes : Bytes} (hbytes : bytes.length ≤ SLOT_DATA_SIZE) (fsync : Bool) :
    ∃ result rest, chunkBytesWritten calls bytes.length ≤ (header.toBytes ++ bytes).length ∧
      (result = .ok () →
        chunkBytesWritten calls bytes.length = (header.toBytes ++ bytes).length) ∧
      ∀ file, writeChunkAt ⟨file, calls⟩ slot header bytes fsync = (.returned result,
        ⟨file.splice (slot * SLOT_SIZE)
          ((header.toBytes ++ bytes).take (chunkBytesWritten calls bytes.length)), rest⟩) := by
  simp only [writeChunkAt, if_neg (Nat.not_lt.mpr hbytes)]
  rcases Disk.writeAllAt_uniform calls header.toBytes (slot * SLOT_SIZE) with
    ⟨result, hle, hall, hwrite⟩
  have hheader : header.toBytes.length = CHUNK_HEADER_SIZE := header.length_toBytes
  rcases hmoved : Disk.bytesWritten calls header.toBytes.length with ⟨count, rest⟩
  rw [hmoved] at hle hall hwrite
  simp only at hle hall hwrite
  have hcalls : Disk.bytesWritten calls CHUNK_HEADER_SIZE = (count, rest) := by
    rw [← hheader, hmoved]
  cases result with
  | error error =>
      have hcut : count ≠ CHUNK_HEADER_SIZE := by
        intro heq
        cases hall.mpr (heq.trans hheader.symm)
      have hbytes : chunkBytesWritten calls bytes.length = count := by
        simp only [chunkBytesWritten, hcalls, if_neg hcut]
      rw [hbytes]
      refine ⟨.error error, rest, ?_, by simp, fun file => ?_⟩
      · rw [List.length_append]
        omega
      · rw [hwrite, List.take_append_of_le_length hle]
  | ok value =>
      have hfull : count = CHUNK_HEADER_SIZE := (hall.mp rfl).trans hheader
      rcases Disk.writeAllAt_uniform rest bytes (slot * SLOT_SIZE + CHUNK_HEADER_SIZE) with
        ⟨result', hmore, hall', hwrite'⟩
      rcases hmoved' : Disk.bytesWritten rest bytes.length with ⟨more, rest'⟩
      rw [hmoved'] at hmore hall' hwrite'
      simp only at hmore hall' hwrite'
      have hbytes : chunkBytesWritten calls bytes.length = CHUNK_HEADER_SIZE + more := by
        simp only [chunkBytesWritten, hcalls, hmoved', if_pos hfull]
        rw [hfull]
      rw [hbytes]
      have hpart : ∀ file : ByteFile, ((file.splice (slot * SLOT_SIZE)
          (header.toBytes.take count)).splice (slot * SLOT_SIZE + CHUNK_HEADER_SIZE)
            (bytes.take more)) = file.splice (slot * SLOT_SIZE)
              ((header.toBytes ++ bytes).take (CHUNK_HEADER_SIZE + more)) := by
        intro file
        rw [List.take_of_length_le (Nat.le_of_eq (hall.mp rfl).symm), splice_header_part]
      have hcount : CHUNK_HEADER_SIZE + more ≤ (header.toBytes ++ bytes).length := by
        rw [List.length_append, hheader]
        omega
      cases result' with
      | error error =>
          refine ⟨.error error, rest', hcount, by simp, fun file => ?_⟩
          simp only [hwrite, hwrite', hpart]
      | ok value =>
          have hwhole : CHUNK_HEADER_SIZE + more = (header.toBytes ++ bytes).length := by
            rw [List.length_append, hheader, hall'.mp rfl]
          cases fsync with
          | false =>
              refine ⟨.ok (), rest', hcount, fun _ => hwhole, fun file => ?_⟩
              simp only [hwrite, hwrite', hpart]
              rfl
          | true =>
              cases hhead : rest'.head with
              | moved moved =>
                  refine ⟨.ok (), rest'.tail, hcount, fun _ => hwhole, fun file => ?_⟩
                  simp only [hwrite, hwrite', hpart, Disk.call, hhead]
                  rfl
              | failed error =>
                  refine ⟨.error error, rest'.tail, hcount, by simp, fun file => ?_⟩
                  simp only [hwrite, hwrite', hpart, Disk.call, hhead]
                  rfl

theorem writeChunkAt_written (disk : Disk) (slot : Nat) (header : ChunkHeader) {bytes : Bytes}
    (hbytes : bytes.length ≤ SLOT_DATA_SIZE) (fsync : Bool) :
    ∃ result disk', writeChunkAt disk slot header bytes fsync = (.returned result, disk') ∧
      disk.Wrote (header.toBytes ++ bytes) (slot * SLOT_SIZE) (result, disk') := by
  rcases writeChunkAt_uniform disk.calls slot header hbytes fsync with
    ⟨result, rest, hle, hall, hwrite⟩
  exact ⟨result, _, hwrite disk.file, _, hle, rfl, hall⟩

@[simp]
theorem readChunkHeader_file (disk : Disk) (slot : Nat) :
    (readChunkHeader disk slot).2.file = disk.file := by
  have hread := disk.readExactAt_file CHUNK_HEADER_SIZE (slot * SLOT_SIZE)
  rw [readChunkHeader]
  rcases hresult : disk.readExactAt CHUNK_HEADER_SIZE (slot * SLOT_SIZE) with ⟨error | _, disk'⟩ <;>
    rw [hresult] at hread <;> exact hread

/-- A header that is read is the one in the file. -/
theorem readChunkHeader_ok {disk disk' : Disk} {slot : Nat} {header : ChunkHeader}
    (h : readChunkHeader disk slot = (.ok header, disk')) : header = headerAt disk.file slot := by
  unfold readChunkHeader at h
  rcases hread : disk.readExactAt CHUNK_HEADER_SIZE (slot * SLOT_SIZE) with
    ⟨error | bytes, last⟩ <;> rw [hread] at h
  · cases h
  · cases h
    rw [Disk.readExactAt_ok hread]
    rfl

@[simp]
theorem readChunkOptimized_file (disk : Disk) (slot : Nat) :
    (readChunkOptimized disk slot).2.file = disk.file := by
  have hheader := readChunkHeader_file disk slot
  rw [readChunkOptimized]
  rcases hresult : readChunkHeader disk slot with ⟨error | header, disk₁⟩ <;>
    rw [hresult] at hheader
  · exact hheader
  · simp only
    split
    · exact hheader
    · have hread := disk₁.readExactAt_file header.dataLen.toNat
        (slot * SLOT_SIZE + CHUNK_HEADER_SIZE)
      rcases hdata : disk₁.readExactAt header.dataLen.toNat
        (slot * SLOT_SIZE + CHUNK_HEADER_SIZE) with ⟨error | _, disk₂⟩ <;>
        rw [hdata] at hread <;> exact hread.trans hheader

namespace ChunkStore

variable {store : ChunkStore}

/-! ## Puts, reads and deletes -/

theorem findSlot_eq_none (h : store.findSlot.1 = none) : store.findSlot = (none, store) := by
  unfold findSlot at h ⊢
  cases hlast : store.freeSlots.getLast? with
  | none => rfl
  | some slot => simp [hlast] at h

/-- `find_slot` takes the top of the stack. -/
theorem findSlot_eq_some {slot : Nat} (h : store.findSlot.1 = some slot) :
    store.freeSlots = store.freeSlots.dropLast ++ [slot] ∧
      store.findSlot = (some slot, { store with freeSlots := store.freeSlots.dropLast }) := by
  unfold findSlot at h ⊢
  cases hlast : store.freeSlots.getLast? with
  | none => simp [hlast] at h
  | some last =>
      have heq : last = slot := by simpa [hlast] using h
      rw [heq] at hlast
      exact ⟨(List.dropLast_append_getLast? slot hlast).symm, by rw [heq]⟩

@[simp]
theorem shouldFsyncWrite_table (self : ChunkStore) :
    self.shouldFsyncWrite.2.table = self.table := by
  unfold shouldFsyncWrite
  split
  · split <;> rfl
  · rfl

@[simp]
theorem shouldFsyncWrite_file (self : ChunkStore) : self.shouldFsyncWrite.2.file = self.file := by
  unfold shouldFsyncWrite
  split
  · split <;> rfl
  · rfl

/-- `put_chunk` is a step of the slot table. -/
theorem putChunk_step (h : store.table.WellFormed) (id : UInt64) (data : Bytes) :
    SlotTable.Step crc32 store.table (.request (.putChunk id data))
      ((store.putChunk crc32 id data).1.reply fun _ => .ok)
      (store.putChunk crc32 id data).2.table := by
  unfold putChunk
  by_cases hpoisoned : store.index.poisoned = true
  · rw [if_pos hpoisoned]
    exact .idle (fun _ _ _ => by simp [Outcome.reply]) fun _ => hpoisoned
  · rw [if_neg hpoisoned]
    by_cases hid : id ∈ store.index.value
    · rw [if_pos hid]
      exact .idle (fun _ _ _ => by simp [Outcome.reply]) (by simp [Outcome.reply])
    · rw [if_neg hid]
      cases hfind : store.findSlot.1 with
      | none =>
          rw [findSlot_eq_none hfind]
          exact .idle (fun _ _ _ => by simp [Outcome.reply]) (by simp [Outcome.reply])
      | some slot =>
          rcases findSlot_eq_some hfind with ⟨hfree, hpop⟩
          have hslot := (h.pop hfree).2.2
          simp only [hpop]
          have htable := shouldFsyncWrite_table
            { store with freeSlots := store.freeSlots.dropLast }
          rcases hfsync : shouldFsyncWrite { store with freeSlots := store.freeSlots.dropLast } with
            ⟨fsync, counted⟩
          rw [hfsync] at htable
          simp only [table, SlotTable.mk.injEq] at htable
          rcases htable with ⟨hfile, hindex, hrest, htotal, hsound⟩
          by_cases hdata : data.length ≤ SLOT_DATA_SIZE
          · rcases writeChunkAt_written counted.file slot
                (ChunkHeader.new id (crc32 data) (UInt32.ofNat data.length)) hdata fsync with
              ⟨result, disk, hwrite, count, hcount, hwritten, hall⟩
            have hwritten' : disk.file = store.file.file.splice (slot * SLOT_SIZE)
                ((chunkBytes crc32 id data).take count) := by
              rw [← hfile]
              exact hwritten
            simp only [hwrite]
            cases result with
            | ok value =>
                have hwhole := hall rfl
                rw [chunkBytes, List.take_of_length_le (Nat.le_of_eq hwhole.symm)] at hwritten'
                have hstored :=
                  @SlotTable.Step.stored crc32 store.table id data _ slot hfree hid hdata
                simp only [Outcome.reply, table, hwritten', hindex, hrest, htotal, hsound]
                exact hstored
            | error error =>
                have htorn := @SlotTable.Step.torn crc32 store.table id data _ slot count error.kind
                  hfree hid hdata hcount
                have hclear : slot < counted.totalSlots := htotal ▸ hslot
                simp only [clearSlot, if_pos hclear]
                simp only [Outcome.reply, table, hwritten', hindex, hrest, htotal, hsound, ← hfree]
                exact htorn
          · have hlarge := Nat.lt_of_not_le hdata
            simp only [writeChunkAt, if_pos hlarge, panicWithIndex, Outcome.reply, table, hfile,
              hindex, hrest, htotal]
            exact .oversized hfree hlarge

theorem getChunk_step (id : UInt64) :
    SlotTable.Step crc32 store.table (.request (.getChunk id))
      ((store.getChunk crc32 id).1.reply fun (data, checksum) => .chunk data checksum)
      (store.getChunk crc32 id).2.table := by
  have hput : ∀ reply : Reply, ∀ other data,
      Operation.request (.getChunk id) = .request (.putChunk other data) → reply ≠ .ok := by
    intro reply other data heq
    cases heq
  unfold getChunk
  by_cases hpoisoned : store.index.poisoned = true
  · rw [if_pos hpoisoned]
    exact .idle (hput _) fun _ => hpoisoned
  · rw [if_neg hpoisoned]
    cases hslot : store.index.value[id]? with
    | none => exact .idle (hput _) (by simp [Outcome.reply])
    | some slot =>
        have hfile := readChunkOptimized_file store.file slot
        simp only
        rcases hread : readChunkOptimized store.file slot with ⟨result, disk⟩
        have hfile' : disk.file = store.file.file := by simpa [hread] using hfile
        have htable : ({ store with file := disk } : ChunkStore).table = store.table := by
          simp [table, hfile']
        rcases result with error | ⟨header, data⟩
        · simp only
          rw [htable]
          exact .idle (hput _) (by simp [Outcome.reply])
        · simp only
          split
          · rw [htable]
            exact .idle (hput _) (by simp [Outcome.reply])
          · split <;> rw [htable] <;> exact .idle (hput _) (by simp [Outcome.reply])

/-- `delete_chunk` is a step of the slot table. -/
theorem deleteChunk_step (h : store.table.WellFormed) (id : UInt64) :
    SlotTable.Step crc32 store.table (.request (.deleteChunk id))
      ((store.deleteChunk id).1.reply fun _ => .ok) (store.deleteChunk id).2.table := by
  unfold deleteChunk
  by_cases hpoisoned : store.index.poisoned = true
  · rw [if_pos hpoisoned]
    exact .idle (fun _ _ heq => by cases heq) fun _ => hpoisoned
  · rw [if_neg hpoisoned]
    cases hslot : store.index.value[id]? with
    | none => exact .idle (fun _ _ heq => by cases heq) (by simp [Outcome.reply])
    | some slot =>
        have hlt : slot < store.totalSlots := (h.erase hslot).2.2
        rcases store.file.writeAllAt_written (List.replicate CHUNK_HEADER_SIZE 0)
          (slot * SLOT_SIZE) with ⟨count, hcount, hwritten, hall⟩
        rw [List.length_replicate] at hcount hall
        rw [List.take_replicate, Nat.min_eq_left hcount] at hwritten
        simp only
        rcases hwrite : store.file.writeAllAt (List.replicate CHUNK_HEADER_SIZE 0)
          (slot * SLOT_SIZE) with ⟨error | _, disk⟩ <;> rw [hwrite] at hwritten hall <;>
          simp only at hwritten hall ⊢
        · simp only [Outcome.reply, table, hwritten]
          exact .leaked hslot hcount
        · rw [hall trivial] at hwritten
          have hsync : (if store.fsyncOnDelete then disk.call else (.ok (), disk)).2.file =
              disk.file := by
            split
            · exact disk.call_file
            · rfl
          rcases hresult : (if store.fsyncOnDelete then disk.call else (.ok (), disk)) with
            ⟨error | _, disk'⟩ <;> rw [hresult] at hsync <;> simp only at hsync ⊢
          · simp only [Outcome.reply, table, hsync, hwritten]
            exact .leaked hslot (Nat.le_refl _)
          · simp only [clearSlot, if_pos hlt, Outcome.reply, table, hsync, hwritten]
            exact .deleted hslot

/-! ## Recovery -/

/-- The state of a recovery in front of slot `i`, whatever the headers say. -/
structure Sorted (start : ChunkStore) (i : Nat) (store : ChunkStore) : Prop where
  apart : SlotsApart store.index.value store.freeSlots i
  file : store.file.file = start.file.file
  totalSlots : store.totalSlots = start.totalSlots
  poisoned : store.index.poisoned = start.index.poisoned

variable {start : ChunkStore} {i : Nat}

theorem Sorted.step (h : Sorted start i store) {disk : Disk} (hdisk : disk.file = start.file.file)
    {index : HashMap UInt64 Nat} {freeSlots : List Nat} {next : Nat}
    (hapart : SlotsApart index freeSlots next) :
    Sorted start next
      { store with
        file := disk, index := { store.index with value := index }, freeSlots := freeSlots } :=
  ⟨hapart, hdisk, h.totalSlots, h.poisoned⟩

/-- One round: the slot is free, belongs to an id, or could not be read. -/
theorem Sorted.recoverSlot (h : Sorted start i store) (fastRecover : Bool) :
    Sorted start (i + 1) (store.recoverSlot crc32 fastRecover i).2 := by
  have hwider : SlotsApart store.index.value store.freeSlots (i + 1) :=
    h.apart.mono fun slot hlt => Nat.lt_succ_of_lt hlt
  have hfresh : Unclaimed store.freeSlots (fun id : UInt64 => store.index.value[id]?) i :=
    h.apart.unclaimed_of_not_valid (Nat.lt_irrefl i)
  have hfree : SlotsApart store.index.value (store.freeSlots ++ [i]) (i + 1) :=
    hwider.push hfresh (Nat.lt_succ_self i)
  have hused : ∀ id : UInt64, SlotsApart (store.index.value.insert id i) store.freeSlots (i + 1) :=
    fun id => hwider.assign hfresh (Nat.lt_succ_self i) Std.ExtTreeMap.getElem?_insert_self
      fun other hne => HashMap.getElem?_insert_of_ne _ _ hne
  unfold ChunkStore.recoverSlot
  have hheader := (readChunkHeader_file store.file i).trans h.file
  rcases hread : readChunkHeader store.file i with ⟨error | header, disk⟩ <;>
    rw [hread] at hheader
  · exact h.step hheader hwider
  · simp only
    split
    · split
      · exact h.step hheader hfree
      · split
        · exact h.step hheader (hused header.id)
        · have hchunk := (readChunkOptimized_file disk i).trans hheader
          rcases hread' : readChunkOptimized disk i with ⟨error | ⟨_, data⟩, disk'⟩ <;>
            rw [hread'] at hchunk
          · exact h.step hchunk hwider
          · simp only
            split
            · exact h.step hchunk hfree
            · exact h.step hchunk (hused header.id)
    · exact h.step hheader hfree

/-- The loop keeps sorting until a read fails. -/
theorem Sorted.recoverSlots (fastRecover : Bool) (count : Nat) {i : Nat} {store : ChunkStore}
    (h : Sorted start i store) :
    Sorted start (i + count)
      (store.recoverSlots crc32 fastRecover (List.range' i count)).2 := by
  induction count generalizing i store with
  | zero => exact h
  | succ count ih =>
      have hround : Sorted start (i + 1) (store.recoverSlot crc32 fastRecover i).2 :=
        h.recoverSlot fastRecover
      rw [List.range'_succ, ChunkStore.recoverSlots]
      rcases hslot : store.recoverSlot crc32 fastRecover i with ⟨error | _, scanned⟩ <;>
        rw [hslot] at hround
      · exact ⟨hround.apart.mono fun slot hlt => by omega, hround.file, hround.totalSlots,
          hround.poisoned⟩
      · have hrest := ih hround
        rwa [Nat.add_assoc, Nat.add_comm 1 count] at hrest

theorem Sorted.table_eq (h : Sorted start i store) :
    store.table = { start.table with
      index := store.index.value, freeSlots := store.freeSlots } := by
  simp [table, h.file, h.totalSlots, h.poisoned]

/-- `recover_index` sorts the slots of the file, or changes nothing. -/
theorem recoverIndex_cases (h : store.table.WellFormed) (fastRecover : Bool) :
    ((store.recoverIndex crc32 fastRecover).2.table = store.table ∧
        ∃ error, (store.recoverIndex crc32 fastRecover).1 = .returned (.error error)) ∨
      ((store.recoverIndex crc32 fastRecover).2.table = store.table ∧
        (store.recoverIndex crc32 fastRecover).1 = .panicked ∧ store.index.poisoned = true) ∨
      Sorted store store.totalSlots (store.recoverIndex crc32 fastRecover).2 ∧
        ∃ result, (store.recoverIndex crc32 fastRecover).1 = .returned result := by
  unfold recoverIndex
  have hcall := store.file.call_file
  rcases hresult : store.file.call with ⟨result, disk⟩
  have hfile : disk.file = store.file.file := by simpa [hresult] using hcall
  cases result with
  | error error =>
      left
      exact ⟨by simp [table, hfile], error, rfl⟩
  | ok value =>
      simp only
      by_cases hpoisoned : store.index.poisoned = true
      · rw [if_pos hpoisoned]
        right
        left
        exact ⟨by simp [table, hfile], rfl, hpoisoned⟩
      · rw [if_neg hpoisoned]
        right
        right
        have hcount : disk.file.len / SLOT_SIZE = store.totalSlots := by
          have hlen : store.file.file.len = SLOT_SIZE * store.totalSlots := h.len
          rw [hfile, hlen]
          exact Nat.mul_div_cancel_left _ (by decide)
        have hcleared : Sorted store 0
            { store with
              file := disk, index := { store.index with value := ∅ }, freeSlots := [] } :=
          ⟨.init List.nodup_nil (by simp) (by simp), hfile, rfl, rfl⟩
        have hscan := @Sorted.recoverSlots crc32 store fastRecover store.totalSlots 0 _ hcleared
        rw [Nat.zero_add, ← List.range_eq_range'] at hscan
        rw [hcount]
        exact ⟨hscan, _, rfl⟩

theorem recoverIndex_step (h : store.table.WellFormed) (fastRecover : Bool) :
    SlotTable.Step crc32 store.table (.recoverIndex fastRecover)
      ((store.recoverIndex crc32 fastRecover).1.reply fun _ => .ok)
      (store.recoverIndex crc32 fastRecover).2.table := by
  rcases @recoverIndex_cases crc32 store h fastRecover with
    ⟨htable, error, houtcome⟩ | ⟨htable, houtcome, hpoisoned⟩ | ⟨hsorted, result, houtcome⟩
  · rw [htable, houtcome]
    exact .idle (fun _ _ heq => by cases heq) (by simp [Outcome.reply])
  · rw [htable, houtcome]
    exact .idle (fun _ _ heq => by cases heq) fun _ => hpoisoned
  · rw [hsorted.table_eq, houtcome]
    refine .rescanned hsorted.apart ?_
    cases result <;> simp [Outcome.reply]

/-! ## Opening -/

/-- `open` sizes the file and starts with every slot free. -/
theorem table_of_openFile {disk disk' : Disk} {allocatedSlots : Option Nat}
    {options : ChunkStoreOptions}
    (hopen : openFile disk allocatedSlots options = (.returned (.ok store), disk')) :
    store.table = {
      file := disk.file.setLen (SLOT_SIZE * slotCount allocatedSlots)
      index := ∅
      freeSlots := List.range (slotCount allocatedSlots)
      totalSlots := slotCount allocatedSlots
      poisoned := false } := by
  unfold openFile at hopen
  have hcall := disk.call_file
  rcases hresult : disk.call with ⟨error | _, disk₁⟩ <;> rw [hresult] at hcall hopen
  · cases hopen
  · simp only at hcall hopen
    have hsize := disk₁.setLen_cases (fileBytes (allocatedSlots.getD ALLOCATED_ARENA_SIZE))
    rcases hresult' : disk₁.setLen (fileBytes (allocatedSlots.getD ALLOCATED_ARENA_SIZE)) with
      ⟨error | _, disk₂⟩ <;> rw [hresult'] at hsize hopen
    · cases hopen
    · simp only at hopen
      split at hopen
      · cases hopen
      · rename_i hexact
        rcases hsize with ⟨_, _, hfile⟩ | ⟨⟨error, herror⟩, _⟩
        · simp only [Prod.mk.injEq, Outcome.returned.injEq, Except.ok.injEq] at hopen
          rw [fileBytes, Nat.mod_eq_of_lt (Nat.lt_of_not_le hexact)] at hfile
          rw [← hopen.1]
          simp only at hfile
          simp [table, hfile, hcall, RwLock.new, slotCount]
        · cases herror

theorem wellFormed_of_openFile {disk disk' : Disk} {allocatedSlots : Option Nat}
    {options : ChunkStoreOptions}
    (hopen : openFile disk allocatedSlots options = (.returned (.ok store), disk')) :
    store.table.WellFormed := by
  rw [table_of_openFile hopen]
  exact ⟨.init List.nodup_range (by simp) (by simp), rfl⟩

/-- The process comes up with a store on the resized file. -/
theorem table_of_construct {disk : Disk} {recover : Bool} {allocatedSlots : Option Nat}
    {options : ChunkStoreOptions}
    (hopen : construct crc32 disk recover allocatedSlots options = .returned (.ok store)) :
    SlotsApart store.index.value store.freeSlots (slotCount allocatedSlots) ∧
      store.table = {
        file := disk.file.setLen (SLOT_SIZE * slotCount allocatedSlots)
        index := store.index.value
        freeSlots := store.freeSlots
        totalSlots := slotCount allocatedSlots
        poisoned := false } := by
  unfold construct at hopen
  rcases hfile : openFile disk allocatedSlots options with ⟨(error | opened) | _, disk'⟩ <;>
    rw [hfile] at hopen
  · cases hopen
  · have htable := table_of_openFile hfile
    have hwell := wellFormed_of_openFile hfile
    cases recover with
    | false =>
        simp only [Bool.false_eq_true, if_false, Outcome.returned.injEq, Except.ok.injEq] at hopen
        rw [hopen] at htable hwell
        have htotal : store.totalSlots = slotCount allocatedSlots :=
          congrArg SlotTable.totalSlots htable
        have hindex : store.index.value = ∅ := congrArg SlotTable.index htable
        have hfree : store.freeSlots = List.range (slotCount allocatedSlots) :=
          congrArg SlotTable.freeSlots htable
        exact ⟨htotal ▸ hwell.apart, by rw [htable, hindex, hfree]⟩
    | true =>
        simp only [if_true] at hopen
        rcases hrecover : opened.recoverIndex crc32 options.fastRecover with
          ⟨(error | _) | _, recovered⟩ <;> rw [hrecover] at hopen
        · cases hopen
        · simp only [Outcome.returned.injEq, Except.ok.injEq] at hopen
          have htotal : opened.totalSlots = slotCount allocatedSlots :=
            congrArg SlotTable.totalSlots htable
          have hcases := @recoverIndex_cases crc32 opened hwell options.fastRecover
          rw [hrecover, hopen] at hcases
          rcases hcases with ⟨_, error, houtcome⟩ | ⟨_, houtcome, _⟩ | ⟨hsorted, _⟩
          · cases houtcome
          · cases houtcome
          · rw [hsorted.table_eq, htable]
            exact ⟨htotal ▸ hsorted.apart, rfl⟩
        · cases hopen
  · cases hopen

theorem wellFormed_of_construct {disk : Disk} {recover : Bool} {allocatedSlots : Option Nat}
    {options : ChunkStoreOptions}
    (hopen : construct crc32 disk recover allocatedSlots options = .returned (.ok store)) :
    store.table.WellFormed := by
  rcases table_of_construct hopen with ⟨hapart, htable⟩
  rw [htable]
  exact ⟨hapart, rfl⟩

/-! ## Runs -/

/-- Every operation is a step of the slot table. -/
theorem perform_step (h : store.table.WellFormed) {operation : Operation} {reply : Reply}
    {next : ChunkStore} (hperform : store.perform crc32 operation = some (reply, next)) :
    SlotTable.Step crc32 store.table operation reply next.table := by
  cases operation with
  | recoverIndex fastRecover =>
      cases hperform
      exact recoverIndex_step h fastRecover
  | request request =>
      cases request with
      | putChunk id data =>
          cases hperform
          exact putChunk_step h id data
      | getChunk id =>
          cases hperform
          exact getChunk_step id
      | deleteChunk id =>
          cases hperform
          exact deleteChunk_step h id
      | restart allocatedSlots options =>
          simp only [perform, serve] at hperform
          rcases hopen : construct crc32 store.file true allocatedSlots options with
            (error | restarted) | _ <;> rw [hopen] at hperform
          · cases hperform
          · cases hperform
            rcases table_of_construct hopen with ⟨hapart, htable⟩
            rw [htable]
            exact .reopened hapart
          · cases hperform

/-- A run is its first operation and the rest. -/
theorem history_cons {operation : Operation} {operations : List Operation}
    {entries : List (Operation × Reply)} {last : ChunkStore}
    (hrun : store.history crc32 (operation :: operations) = some (entries, last)) :
    ∃ reply next rest, store.perform crc32 operation = some (reply, next) ∧
      next.history crc32 operations = some (rest, last) ∧
      entries = (operation, reply) :: rest := by
  rw [history] at hrun
  cases hperform : store.perform crc32 operation with
  | none => simp [hperform] at hrun
  | some result =>
      rcases result with ⟨reply, next⟩
      simp only [hperform, Option.map_eq_some_iff, Prod.mk.injEq, Prod.exists] at hrun
      rcases hrun with ⟨rest, last', hrest, hentries, hlast⟩
      rw [hlast] at hrest
      exact ⟨reply, next, rest, rfl, hrest, hentries.symm⟩

/-- Every step of the run meets the condition. -/
def stepsMeet (crc32 : Bytes → UInt32)
    (condition : SlotTable → Operation → Reply → SlotTable → Bool) (self : ChunkStore) :
    List Operation → Bool
  | [] => true
  | operation :: operations =>
      match self.perform crc32 operation with
      | none => true
      | some (reply, next) =>
          condition self.table operation reply next.table &&
            next.stepsMeet crc32 condition operations

theorem stepsMeet_cons {condition : SlotTable → Operation → Reply → SlotTable → Bool}
    {operation : Operation} {operations : List Operation} {reply : Reply} {next : ChunkStore}
    (h : store.stepsMeet crc32 condition (operation :: operations) = true)
    (hperform : store.perform crc32 operation = some (reply, next)) :
    condition store.table operation reply next.table = true ∧
      next.stepsMeet crc32 condition operations = true := by
  rw [stepsMeet, hperform] at h
  simpa using h

theorem history_wellFormed (h : store.table.WellFormed) {operations : List Operation}
    {entries : List (Operation × Reply)} {last : ChunkStore}
    (hrun : store.history crc32 operations = some (entries, last)) : last.table.WellFormed := by
  induction operations generalizing store entries with
  | nil =>
      cases hrun
      exact h
  | cons operation operations ih =>
      rcases history_cons hrun with ⟨reply, next, rest, hperform, hrest, _⟩
      exact ih ((perform_step h hperform).wellFormed h) hrest

/-- No operation of a run with payloads that fit panics. -/
theorem history_ne_panicked (h : store.table.WellFormed) (hsound : store.index.poisoned = false)
    {operations : List Operation} (hfits : ∀ operation ∈ operations, operation.Fits)
    {entries : List (Operation × Reply)} {last : ChunkStore}
    (hrun : store.history crc32 operations = some (entries, last)) :
    ∀ entry ∈ entries, entry.2 ≠ .panicked := by
  induction operations generalizing store entries with
  | nil =>
      cases hrun
      simp
  | cons operation operations ih =>
      rcases history_cons hrun with ⟨reply, next, rest, hperform, hrest, hentries⟩
      have hstep := perform_step h hperform
      have hfirst := hstep.ne_panicked (hfits operation (by simp)) hsound
      have hlater := ih (hstep.wellFormed h) hfirst.2
        (fun other hmem => hfits other (List.mem_cons_of_mem _ hmem)) hrest
      subst hentries
      intro entry hmem
      rcases List.mem_cons.mp hmem with heq | hmem
      · rw [heq]
        exact hfirst.1
      · exact hlater entry hmem

end ChunkStore

/-- Whatever the file held and whichever system calls fail, in every state that a run reaches
each slot is free once, used by one id, or neither; `find_slot` hands out a slot that no id
uses, and no operation panics. -/
theorem slots_stay_apart (crc32 : Bytes → UInt32) (disk disk' : Disk)
    (allocatedSlots : Option Nat) (options : ChunkStoreOptions) (store : ChunkStore)
    (hopen : ChunkStore.openFile disk allocatedSlots options = (.returned (.ok store), disk'))
    (operations : List Operation) (hfits : ∀ operation ∈ operations, operation.Fits)
    (entries : List (Operation × Reply)) (reached : ChunkStore)
    (hrun : store.history crc32 operations = some (entries, reached)) :
    SlotsApart reached.index.value reached.freeSlots reached.totalSlots ∧
      (∀ slot, reached.findSlot.1 = some slot →
        ∀ id : UInt64, reached.index.value[id]? ≠ some slot) ∧
      ∀ entry ∈ entries, entry.2 ≠ .panicked := by
  have hwell := ChunkStore.wellFormed_of_openFile hopen
  have hsound : store.index.poisoned = false :=
    congrArg SlotTable.poisoned (ChunkStore.table_of_openFile hopen)
  have hreached := ChunkStore.history_wellFormed hwell hrun
  constructor
  · exact hreached.apart
  · constructor
    · intro slot hfind
      exact (hreached.pop (ChunkStore.findSlot_eq_some hfind).1).2.1.ne
    · exact ChunkStore.history_ne_panicked hwell hsound hfits hrun

/-! ## A run with a failing delete -/

/-- System calls that move whole buffers, but for one that fails. -/
def failingCall (failing : Nat) : Stream' SystemCall := fun n =>
  if n = failing then .failed ⟨.other, "input/output error"⟩ else .moved SLOT_SIZE

/-- A store with two slots on a new file; one system call since it was opened fails. -/
def twoSlots (failing : Nat) : ChunkStore where
  file := ⟨ByteFile.empty.setLen (SLOT_SIZE * 2), (failingCall (failing + 2)).drop 2⟩
  index := RwLock.new ∅
  freeSlots := [0, 1]
  totalSlots := 2
  fsyncEveryNWrites := some 1
  fsyncOnDelete := true
  writeCounter := 0

theorem openFile_twoSlots (failing : Nat) :
    ChunkStore.openFile ⟨ByteFile.empty, failingCall (failing + 2)⟩ (some 2)
      ChunkStoreOptions.default = (.returned (.ok (twoSlots failing)), (twoSlots failing).file) :=
  rfl

/-- A put, a delete and another put; the fourth system call is the write of the delete. -/
def putDeletePut : List Operation :=
  [.request (.putChunk 7 [1]), .request (.deleteChunk 7), .request (.putChunk 7 [2])]

/-- The failed delete leaks its slot, and the recovery finds both chunks: slot 0 is in neither
the stack nor the index, and the store is full. -/
theorem slots_stay_apart_leaked :
    ∃ entries reached,
      (twoSlots 3).history Library.crc32
          (putDeletePut ++ [.recoverIndex false, .request (.putChunk 8 [3])]) =
        some (entries, reached) ∧
      entries.map Prod.snd = [.ok, .failed .other, .ok, .ok, .failed .storageFull] ∧
      SlotsApart reached.index.value reached.freeSlots reached.totalSlots := by
  have hreplies : ((twoSlots 3).history Library.crc32
      (putDeletePut ++ [.recoverIndex false, .request (.putChunk 8 [3])])).map
        (fun run => run.1.map Prod.snd) =
      some [.ok, .failed .other, .ok, .ok, .failed .storageFull] := by
    decide +kernel
  rcases Option.map_eq_some_iff.mp hreplies with ⟨⟨entries, reached⟩, hrun, hentries⟩
  have hfits : ∀ operation ∈ putDeletePut ++ [.recoverIndex false, .request (.putChunk 8 [3])],
      operation.Fits := by
    simp [putDeletePut, Operation.Fits, SLOT_DATA_SIZE, SLOT_SIZE, CHUNK_HEADER_SIZE]
  have hapart := slots_stay_apart Library.crc32 _ _ _ _ (twoSlots 3) (openFile_twoSlots 3) _ hfits
    entries reached hrun
  exact ⟨entries, reached, hrun, hentries, hapart.1⟩

end StorageNode
end ObjectStore
