import ObjectStore.StorageNode.Durability

/-!
# Storage node - Torn writes

A put that stops early, with an I/O error or with the process, leaves the first bytes of its
header and payload over whatever the slot held.  The header has no checksum of its own, so
the mixture may pass the tests of `recover_index` although no put ever wrote it.

Main definitions:

- `remnantAt`: the chunk a slot describes, whatever became of the start of its magic.
- `ChunkStore.bytesPut`: how many bytes of its header and payload a put writes.
- `ChunkStore.putIsSafe`: the mixture is rejected, or a chunk that was there before, or the put
  writes all its bytes.
- `ChunkStore.wroteWhole`: some put of a run writes all its bytes.

Main results:

- Theorem `ChunkStore.putChunk_file`: a put writes the first `bytesPut` bytes, all of them when
  it succeeds.
- Theorems `SlotTable.Step.remnant`, `ChunkStore.putChunk_remnant`: where the chunks of a file
  come from.
- Theorem `recovered_chunks_written`: with safe puts a restart finds no torn chunk.
- Theorem `torn_put_recovered`: an unsafe cut and a restart.
-/

namespace ObjectStore
namespace StorageNode

open Library (ByteFile)

variable {crc32 : Bytes → UInt32} {file file' : ByteFile} {slot : Nat}

/-! ## Remnants -/

/-- The chunk that a slot describes if the first three bytes of its magic are right.  A
delete that stops early zeroes no more than these without zeroing the whole magic. -/
def remnantAt (crc32 : Bytes → UInt32) (file : ByteFile) (slot : Nat) : Option (UInt64 × Bytes) :=
  if file.byteAt (slot * SLOT_SIZE + 3) = 0x43 then bodyAt crc32 file slot else none

theorem remnantAt_of_chunkAt {chunk : UInt64 × Bytes}
    (h : chunkAt crc32 file slot = some chunk) : remnantAt crc32 file slot = some chunk := by
  rw [chunkAt_eq_some_iff, magic_headerAt_iff] at h
  rw [remnantAt, if_pos h.1.2.2.2]
  exact h.2

theorem Agree.remnantAt (h : Agree 3 file file' slot) :
    remnantAt crc32 file' slot = remnantAt crc32 file slot := by
  have hbyte := h (slot * SLOT_SIZE + 3) (Nat.le_refl _) (by simp only [SLOT_SIZE]; omega)
  unfold StorageNode.remnantAt
  rw [hbyte, h.bodyAt (by omega)]

theorem remnantAt_splice_of_ne {other : Nat} (file : ByteFile) {bytes : Bytes}
    (hne : other ≠ slot) (hbytes : bytes.length ≤ SLOT_SIZE) :
    remnantAt crc32 (file.splice (slot * SLOT_SIZE) bytes) other = remnantAt crc32 file other :=
  ((agree_splice_of_ne file hne hbytes).mono (Nat.zero_le 3)).remnantAt

/-- Zeros at the start of a slot leave its remnant or none. -/
theorem remnantAt_zeroed (file : ByteFile) (slot count : Nat) {chunk : UInt64 × Bytes}
    (h : remnantAt crc32 (file.splice (slot * SLOT_SIZE) (List.replicate count 0)) slot =
      some chunk) : remnantAt crc32 file slot = some chunk := by
  by_cases hcount : count ≤ 3
  · have hagree := agree_splice file slot (List.replicate count 0)
    rw [List.length_replicate] at hagree
    rwa [(hagree.mono hcount).remnantAt] at h
  · have hzero : (file.splice (slot * SLOT_SIZE) (List.replicate count 0)).byteAt
        (slot * SLOT_SIZE + 3) = 0 := by
      rw [ByteFile.byteAt_splice_of_mem (by omega) (by simp; omega)]
      simp
    rw [remnantAt, hzero, if_neg (by decide)] at h
    cases h

theorem remnantAt_setLen {slots : Nat} {chunk : UInt64 × Bytes}
    (h : remnantAt crc32 (file.setLen (SLOT_SIZE * slots)) slot = some chunk) :
    remnantAt crc32 file slot = some chunk := by
  by_cases hslot : slot < slots
  · have hagree : Agree 3 file (file.setLen (SLOT_SIZE * slots)) slot := by
      intro position _ hlt
      have hinside : position < SLOT_SIZE * slots := by
        simp only [SLOT_SIZE] at *
        omega
      simp [ByteFile.setLen, hinside]
    rwa [hagree.remnantAt] at h
  · have hzero : (file.setLen (SLOT_SIZE * slots)).byteAt (slot * SLOT_SIZE + 3) = 0 := by
      refine ByteFile.byteAt_eq_zero _ _ ?_
      simp only [ByteFile.len_setLen, SLOT_SIZE]
      omega
    rw [remnantAt, hzero, if_neg (by decide)] at h
    cases h

/-! ## Where chunks come from -/

/-- A chunk in the file was there before an operation that is no put. -/
theorem SlotTable.Step.remnant {table table' : SlotTable} {operation : Operation} {reply : Reply}
    (hstep : SlotTable.Step crc32 table operation reply table')
    (hput : ∀ id data, operation ≠ .request (.putChunk id data)) {other : Nat}
    {chunk : UInt64 × Bytes} (h : remnantAt crc32 table'.file other = some chunk) :
    remnantAt crc32 table.file other = some chunk := by
  cases hstep with
  | idle _ hpanic => exact h
  | stored hfree hid hfits => exact absurd rfl (hput _ _)
  | torn hfree hid hfits hcount => exact absurd rfl (hput _ _)
  | oversized hfree hfits => exact absurd rfl (hput _ _)
  | @deleted old slot hid =>
      by_cases heq : other = slot
      · subst heq
        exact remnantAt_zeroed _ _ _ h
      · rwa [remnantAt_splice_of_ne _ heq (length_zeros_le (Nat.le_refl _))] at h
  | @leaked old slot count kind hid hcount =>
      by_cases heq : other = slot
      · subst heq
        exact remnantAt_zeroed _ _ _ h
      · rwa [remnantAt_splice_of_ne _ heq (length_zeros_le hcount)] at h
  | rescanned hapart hreply => exact h
  | reopened hapart => exact remnantAt_setLen h

namespace ChunkStore

variable {store : ChunkStore} {id : UInt64} {data : Bytes}

/-- How many bytes of its header and payload `put_chunk` writes to the file.  A put that is
refused writes none. -/
def bytesPut (self : ChunkStore) (id : UInt64) (data : Bytes) : Nat :=
  if self.index.poisoned then 0
  else if id ∈ self.index.value then 0
  else if self.findSlot.1.isNone then 0
  else if SLOT_DATA_SIZE < data.length then 0
  else chunkBytesWritten self.file.calls data.length

/-- Where a put stops: recovery rejects the slot, or finds the chunk that was there before, or
all bytes of the put are written. -/
def putIsSafe (crc32 : Bytes → UInt32) (self : ChunkStore) (id : UInt64) (data : Bytes) : Bool :=
  match self.findSlot.1 with
  | none => true
  | some slot =>
      let count := self.bytesPut id data
      let found := remnantAt crc32 (self.file.file.splice (slot * SLOT_SIZE)
        ((chunkBytes crc32 id data).take count)) slot
      found.isNone || decide (found = remnantAt crc32 self.file.file slot) ||
        decide (count = (chunkBytes crc32 id data).length)

/-- Only a put that does not return `Ok` can be unsafe. -/
def isSafe (crc32 : Bytes → UInt32) (self : ChunkStore) (operation : Operation) (reply : Reply) :
    Bool :=
  match operation with
  | .request (.putChunk id data) => decide (reply = .ok) || self.putIsSafe crc32 id data
  | _ => true

/-- Every operation of the run is safe. -/
def stepsAreSafe (crc32 : Bytes → UInt32) (self : ChunkStore) : List Operation → Bool
  | [] => true
  | operation :: operations =>
      match self.perform crc32 operation with
      | none => true
      | some (reply, next) =>
          self.isSafe crc32 operation reply && next.stepsAreSafe crc32 operations

/-- Some put of the run writes its whole header and payload. -/
def wroteWhole (crc32 : Bytes → UInt32) (self : ChunkStore) (id : UInt64) (data : Bytes) :
    List Operation → Prop
  | [] => False
  | operation :: operations =>
      ∃ reply next, self.perform crc32 operation = some (reply, next) ∧
        ((operation = .request (.putChunk id data) ∧
            self.bytesPut id data = (chunkBytes crc32 id data).length) ∨
          next.wroteWhole crc32 id data operations)

/-- The bytes of a put stay in its slot. -/
theorem length_take_bytesPut_le (crc32 : Bytes → UInt32) (store : ChunkStore) (id : UInt64)
    (data : Bytes) :
    ((chunkBytes crc32 id data).take (store.bytesPut id data)).length ≤ SLOT_SIZE := by
  by_cases hdata : data.length ≤ SLOT_DATA_SIZE
  · exact SlotTable.length_take_chunkBytes_le id hdata _
  · have hnone : store.bytesPut id data = 0 := by
      simp only [bytesPut, if_pos (Nat.lt_of_not_le hdata), ite_self]
    rw [hnone]
    exact Nat.zero_le _

/-- A put that writes all its bytes has a payload that fits. -/
theorem data_le_of_bytesPut (h : store.bytesPut id data = (chunkBytes crc32 id data).length) :
    data.length ≤ SLOT_DATA_SIZE := by
  by_contra hdata
  rw [length_chunkBytes] at h
  simp only [bytesPut, if_pos (Nat.lt_of_not_le hdata), ite_self, CHUNK_HEADER_SIZE] at h
  omega

/-- A put that is handed a slot writes the first `bytesPut` bytes into it, all of them when it
succeeds. -/
theorem putChunk_writes (crc32 : Bytes → UInt32) (hpoisoned : ¬ store.index.poisoned = true)
    (hid : id ∉ store.index.value) {slot : Nat} (hfind : store.findSlot.1 = some slot)
    (hdata : data.length ≤ SLOT_DATA_SIZE) :
    (store.putChunk crc32 id data).2.file.file = store.file.file.splice (slot * SLOT_SIZE)
        ((chunkBytes crc32 id data).take (store.bytesPut id data)) ∧
      ((store.putChunk crc32 id data).1 = .returned (.ok ()) →
        store.bytesPut id data = (chunkBytes crc32 id data).length) := by
  have hcount : store.bytesPut id data = chunkBytesWritten store.file.calls data.length := by
    rw [bytesPut, if_neg hpoisoned, if_neg hid, hfind]
    simp only [Option.isNone_some, Bool.false_eq_true, if_false, if_neg (Nat.not_lt.mpr hdata)]
  rw [putChunk, if_neg hpoisoned, if_neg hid]
  simp only [(findSlot_eq_some hfind).2]
  have hcounted := shouldFsyncWrite_file { store with freeSlots := store.freeSlots.dropLast }
  rcases hfsync : shouldFsyncWrite { store with freeSlots := store.freeSlots.dropLast } with
    ⟨fsync, counted⟩
  rw [hfsync] at hcounted
  change counted.file = store.file at hcounted
  simp only [hcounted]
  rcases writeChunkAt_uniform store.file.calls slot
    (ChunkHeader.new id (crc32 data) (UInt32.ofNat data.length)) hdata fsync with
    ⟨result, rest, _, hall, hwrite⟩
  have hself := hwrite store.file.file
  change writeChunkAt store.file _ _ _ _ = _ at hself
  rw [hself, hcount]
  cases result with
  | ok value => exact ⟨rfl, fun _ => hall rfl⟩
  | error error =>
      by_cases hslot : slot < counted.totalSlots
      · simp only [clearSlot, if_pos hslot]
        exact ⟨rfl, fun h => by cases h⟩
      · simp only [clearSlot, if_neg hslot]
        exact ⟨rfl, fun h => by cases h⟩

/-- A put writes the first `bytesPut` bytes into the slot that it was handed, all of them when
it succeeds. -/
theorem putChunk_file (crc32 : Bytes → UInt32) (store : ChunkStore) (id : UInt64) (data : Bytes) :
    (store.putChunk crc32 id data).2.file.file =
        (match store.findSlot.1 with
          | none => store.file.file
          | some slot => store.file.file.splice (slot * SLOT_SIZE)
              ((chunkBytes crc32 id data).take (store.bytesPut id data))) ∧
      ((store.putChunk crc32 id data).1 = .returned (.ok ()) →
        store.bytesPut id data = (chunkBytes crc32 id data).length) := by
  have hidle : store.bytesPut id data = 0 → store.file.file =
      (match store.findSlot.1 with
        | none => store.file.file
        | some slot => store.file.file.splice (slot * SLOT_SIZE)
            ((chunkBytes crc32 id data).take (store.bytesPut id data))) := by
    intro hnone
    rw [hnone, List.take_zero]
    cases store.findSlot.1 with
    | none => rfl
    | some slot => exact (ByteFile.splice_nil _ _).symm
  by_cases hpoisoned : store.index.poisoned = true
  · rw [putChunk, if_pos hpoisoned]
    exact ⟨hidle (by rw [bytesPut, if_pos hpoisoned]), fun h => by cases h⟩
  by_cases hid : id ∈ store.index.value
  · rw [putChunk, if_neg hpoisoned, if_pos hid]
    exact ⟨hidle (by rw [bytesPut, if_neg hpoisoned, if_pos hid]), fun h => by cases h⟩
  cases hfind : store.findSlot.1 with
  | none =>
      rw [putChunk, if_neg hpoisoned, if_neg hid, findSlot_eq_none hfind]
      exact ⟨rfl, fun h => by cases h⟩
  | some slot =>
      by_cases hdata : data.length ≤ SLOT_DATA_SIZE
      · exact putChunk_writes crc32 hpoisoned hid hfind hdata
      · have hlarge := Nat.lt_of_not_le hdata
        have hnone : store.bytesPut id data = 0 := by
          simp only [bytesPut, if_pos hlarge, ite_self]
        have hcounted := shouldFsyncWrite_file
          { store with freeSlots := store.freeSlots.dropLast }
        rw [hfind] at hidle
        rw [putChunk, if_neg hpoisoned, if_neg hid]
        simp only [(findSlot_eq_some hfind).2, writeChunkAt, if_pos hlarge, panicWithIndex,
          hcounted]
        exact ⟨hidle hnone, fun h => by cases h⟩

/-- A put that succeeds has written all its bytes. -/
theorem putIsSafe_of_isSafe
    (h : store.isSafe crc32 (.request (.putChunk id data))
      ((store.putChunk crc32 id data).1.reply fun _ => .ok) = true) :
    store.putIsSafe crc32 id data = true := by
  rw [isSafe, Bool.or_eq_true, decide_eq_true_eq] at h
  rcases h with hok | hsafe
  · have hreturned : (store.putChunk crc32 id data).1 = .returned (.ok ()) := by
      rcases houtcome : (store.putChunk crc32 id data).1 with (error | value) | _
      · simp [houtcome, Outcome.reply] at hok
      · rfl
      · simp [houtcome, Outcome.reply] at hok
    have hwhole := (putChunk_file crc32 store id data).2 hreturned
    rw [putIsSafe]
    cases store.findSlot.1 with
    | none => rfl
    | some slot => simp [hwhole]
  · exact hsafe

/-- A chunk in the file was there before a safe put, or the put has just written all of it. -/
theorem putChunk_remnant (hsafe : store.putIsSafe crc32 id data = true) {slot : Nat}
    {chunk : UInt64 × Bytes}
    (h : remnantAt crc32 (store.putChunk crc32 id data).2.file.file slot = some chunk) :
    remnantAt crc32 store.file.file slot = some chunk ∨
      chunk = (id, data) ∧ store.bytesPut id data = (chunkBytes crc32 id data).length := by
  rw [(putChunk_file crc32 store id data).1] at h
  cases hfind : store.findSlot.1 with
  | none =>
      rw [hfind] at h
      exact .inl h
  | some used =>
      rw [hfind] at h
      simp only at h
      by_cases heq : slot = used
      · subst heq
        rw [putIsSafe, hfind] at hsafe
        simp only [Bool.or_eq_true, Option.isNone_iff_eq_none, decide_eq_true_eq] at hsafe
        rcases hsafe with (hnone | hsame) | hwhole
        · rw [hnone] at h
          cases h
        · left
          rwa [hsame] at h
        · right
          rw [hwhole, List.take_length] at h
          have hchunk := @chunkAt_splice crc32 store.file.file slot id data
            (data_le_of_bytesPut hwhole)
          exact ⟨Option.some.inj (h.symm.trans (remnantAt_of_chunkAt hchunk)), hwhole⟩
      · left
        rwa [remnantAt_splice_of_ne _ heq (length_take_bytesPut_le crc32 store id data)] at h

end ChunkStore

/-- After a run of safe puts, a chunk in the file was there at the start or written whole. -/
theorem history_written {store : ChunkStore} (hwell : store.table.WellFormed)
    {operations : List Operation} {entries : List (Operation × Reply)} {last : ChunkStore}
    (hrun : store.history crc32 operations = some (entries, last))
    (hsafe : store.stepsAreSafe crc32 operations = true) {id : UInt64} {data : Bytes}
    (h : remnantAt crc32 last.file.file slot = some (id, data)) :
    remnantAt crc32 store.file.file slot = some (id, data) ∨
      store.wroteWhole crc32 id data operations := by
  induction operations generalizing store entries with
  | nil =>
      cases hrun
      exact .inl h
  | cons operation operations ih =>
      rcases ChunkStore.history_cons hrun with ⟨reply, next, rest, hperform, hrest, _⟩
      rw [ChunkStore.stepsAreSafe, hperform, Bool.and_eq_true] at hsafe
      rcases hsafe with ⟨hfirst, hlater⟩
      have hstep := ChunkStore.perform_step hwell hperform
      rcases ih (hstep.wellFormed hwell) hrest hlater with hthere | hwritten
      · by_cases hput : ∃ new payload, operation = .request (.putChunk new payload)
        · rcases hput with ⟨new, payload, rfl⟩
          cases hperform
          have hsafe := ChunkStore.putIsSafe_of_isSafe hfirst
          rcases ChunkStore.putChunk_remnant hsafe hthere with hbefore | ⟨hchunk, hwhole⟩
          · exact .inl hbefore
          · cases hchunk
            exact .inr ⟨_, _, rfl, .inl ⟨rfl, hwhole⟩⟩
        · have hother : ∀ new payload, operation ≠ .request (.putChunk new payload) :=
            fun new payload heq => hput ⟨new, payload, heq⟩
          exact .inl (hstep.remnant hother hthere)
      · exact .inr ⟨reply, next, hperform, .inr hwritten⟩

/-- In every run on a new file whose puts only stop at safe cuts, restarts of the process
included, reopening the file finds an id only if a put of the id wrote all its bytes, and then
reads the payload of such a put. -/
theorem recovered_chunks_written (crc32 : Bytes → UInt32) (disk : Disk)
    (hnew : disk.file = ByteFile.empty) (allocatedSlots : Option Nat)
    (options : ChunkStoreOptions) (store : ChunkStore)
    (hopen : ChunkStore.construct crc32 disk false allocatedSlots options = .returned (.ok store))
    (operations : List Operation) (entries : List (Operation × Reply)) (last : ChunkStore)
    (hrun : store.history crc32 operations = some (entries, last))
    (hsafe : store.stepsAreSafe crc32 operations = true) (reopened : Disk)
    (hreliable : reopened.Reliable) (hfile : reopened.file = last.file.file)
    (allocatedSlots' : Option Nat) (hslots : SLOT_SIZE * slotCount allocatedSlots' ≤ maxFileLen)
    (options' : ChunkStoreOptions) (hslow : options'.fastRecover = false) :
    ∃ restarted, ChunkStore.construct crc32 reopened true allocatedSlots' options' =
        .returned (.ok restarted) ∧
      ∀ id ∈ restarted.index.value, ∃ data, store.wroteWhole crc32 id data operations ∧
        (restarted.getChunk crc32 id).1 = .returned (.ok (data, crc32 data)) := by
  have hwell := ChunkStore.wellFormed_of_construct hopen
  have hblank : ∀ position, store.file.file.byteAt position = 0 := by
    intro position
    have hstart : store.file.file = disk.file.setLen (SLOT_SIZE * slotCount allocatedSlots) :=
      congrArg SlotTable.file (ChunkStore.table_of_construct hopen).2
    rw [hstart, hnew]
    simp [ByteFile.setLen, ByteFile.empty]
  rcases reopen_index hreliable hslots hslow with ⟨restarted, hrestarted, hreads⟩
  rw [hfile] at hreads
  refine ⟨restarted, hrestarted, fun id hid => ?_⟩
  rcases HashMap.mem_iff_exists_getElem?.mp hid with ⟨slot, hslot⟩
  have hlast := (hreads.index_iff id slot).mp hslot
  rcases hlast.holds with ⟨data, hdata⟩
  refine ⟨data, ?_, hreads.getChunk hlast hdata⟩
  have hremnant := remnantAt_setLen (remnantAt_of_chunkAt hdata)
  rcases history_written hwell hrun hsafe hremnant with hthere | hwritten
  · rw [remnantAt, hblank, if_neg (by decide)] at hthere
    cases hthere
  · exact hwritten

/-- A put that stops behind its header: the checksum rejects the blank payload.  The next put
overwrites the slot. -/
theorem recovered_chunks_written_retry :
    ∃ entries last restarted,
      (twoSlots 1).history Library.crc32
          [.request (.putChunk 7 [1]), .request (.putChunk 8 [2])] = some (entries, last) ∧
      entries.map Prod.snd = [.failed .other, .ok] ∧
      ChunkStore.construct Library.crc32 (sound last.file.file) true (some 2)
        ChunkStoreOptions.default = .returned (.ok restarted) ∧
      ∀ id ∈ restarted.index.value, ∃ data,
        (twoSlots 1).wroteWhole Library.crc32 id data
          [.request (.putChunk 7 [1]), .request (.putChunk 8 [2])] ∧
        (restarted.getChunk Library.crc32 id).1 = .returned (.ok (data, Library.crc32 data)) := by
  have hrun : ((twoSlots 1).history Library.crc32
      [.request (.putChunk 7 [1]), .request (.putChunk 8 [2])]).map
        (fun run => run.1.map Prod.snd) = some [.failed .other, .ok] := by
    decide +kernel
  rcases Option.map_eq_some_iff.mp hrun with ⟨⟨entries, last⟩, hhistory, hreplies⟩
  have hsafe : (twoSlots 1).stepsAreSafe Library.crc32
      [.request (.putChunk 7 [1]), .request (.putChunk 8 [2])] = true := by
    decide +kernel
  rcases recovered_chunks_written Library.crc32 _ rfl _ _ (twoSlots 1) (construct_twoSlots 1) _
    entries last hhistory hsafe (sound last.file.file) (sound_reliable _) rfl (some 2) (by decide)
    ChunkStoreOptions.default rfl with ⟨restarted, hrestarted, hwritten⟩
  exact ⟨entries, last, restarted, hhistory, hreplies, hrestarted, hwritten⟩

-- the slot of a deleted chunk with the same payload: the header is written, the payload is not
example : (twoSlots 6).stepsAreSafe Library.crc32 [.request (.putChunk 8 [1]),
    .request (.deleteChunk 8), .request (.putChunk 7 [1])] = false := by
  decide +kernel

/-- A new file on which the first write moves twelve bytes and the second fails. -/
def tornDisk : Disk where
  file := ByteFile.empty
  calls := fun n =>
    if n = 2 then .moved 12
    else if n = 3 then .failed ⟨.other, "input/output error"⟩
    else .moved SLOT_SIZE

/-- The store that opens on `tornDisk`. -/
def tornStore : ChunkStore :=
  { twoSlots 0 with file := ⟨ByteFile.empty.setLen (SLOT_SIZE * 2), tornDisk.calls.drop 2⟩ }

/-- The put of chunk 7 stops behind its id, and a restart finds an empty chunk 7. -/
theorem torn_put_recovered :
    ∃ entries last restarted,
      ChunkStore.construct Library.crc32 tornDisk false (some 2) ChunkStoreOptions.default =
        .returned (.ok tornStore) ∧
      tornStore.history Library.crc32 [.request (.putChunk 7 [1])] = some (entries, last) ∧
      entries.map Prod.snd = [.failed .other] ∧
      ChunkStore.construct Library.crc32 (sound last.file.file) true (some 2)
        ChunkStoreOptions.default = .returned (.ok restarted) ∧
      restarted.index.value[(7 : UInt64)]? = some 1 ∧
      (restarted.getChunk Library.crc32 7).1 = .returned (.ok ([], Library.crc32 [])) ∧
      (∀ data, ¬ tornStore.wroteWhole Library.crc32 7 data [.request (.putChunk 7 [1])]) ∧
      Library.crc32 [] = 0 := by
  have hrun : (tornStore.history Library.crc32 [.request (.putChunk 7 [1])]).map
      (fun run => (run.1.map Prod.snd, run.2.file.file.len,
        chunkAt Library.crc32 run.2.file.file 1)) =
      some ([.failed .other], SLOT_SIZE * 2, some (7, [])) := by
    decide +kernel
  rcases Option.map_eq_some_iff.mp hrun with ⟨⟨entries, last⟩, hhistory, hfacts⟩
  simp only [Prod.mk.injEq] at hfacts
  rcases hfacts with ⟨hreplies, hlen, hchunk⟩
  rcases reopen_lastSlot hlen hchunk with ⟨restarted, hrestarted, hindex, hget⟩
  refine ⟨entries, last, restarted, rfl, hhistory, hreplies, hrestarted, hindex, hget, ?_,
    by decide +kernel⟩
  intro data hwritten
  rcases ChunkStore.history_cons hhistory with ⟨reply, next, rest, hperform, hrest, _⟩
  cases hrest
  rcases hwritten with ⟨reply', next', hperform', hput | hfalse⟩
  · rw [hperform] at hperform'
    cases hperform'
    rcases hput with ⟨hput, hwhole⟩
    cases hput
    exact absurd hwhole (by decide +kernel)
  · exact hfalse

end StorageNode
end ObjectStore
