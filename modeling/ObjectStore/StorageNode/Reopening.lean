import ObjectStore.StorageNode.DiskChunks

/-!
# Storage node - Reopening a file with arbitrary slots

`recover_index(false)` over a file that earlier failures may have left in any state.  The
scan enters every chunk it accepts, so where several slots hold a chunk of one id the last
of them wins.

Main definitions:

- `LastCopy`: the last slot with a chunk of an id.

Main results:

- Theorem `Rescanned.recoverSlot`: one round of the scan.
- Theorem `recoverIndex_rescans`: the whole scan.
- Theorem `reopen_index`: the index of the reopened store.
- Theorem `getChunk_of_chunkAt`: what the store then reads.
-/

namespace ObjectStore
namespace StorageNode

open Library (ByteFile)

variable {crc32 : Bytes → UInt32} {file : ByteFile}

/-! ## The last copy of a chunk -/

/-- Among the first `slots` slots, `slot` is the last that holds a chunk of the id. -/
structure LastCopy (crc32 : Bytes → UInt32) (file : ByteFile) (slots : Nat) (id : UInt64)
    (slot : Nat) : Prop where
  lt : slot < slots
  holds : ∃ data, chunkAt crc32 file slot = some (id, data)
  last : ∀ later, slot < later → later < slots → ∀ data, chunkAt crc32 file later ≠ some (id, data)

theorem LastCopy.unique {slots : Nat} {id : UInt64} {slot slot' : Nat}
    (h : LastCopy crc32 file slots id slot) (h' : LastCopy crc32 file slots id slot') :
    slot = slot' := by
  rcases h.holds with ⟨data, hdata⟩
  rcases h'.holds with ⟨data', hdata'⟩
  rcases Nat.lt_trichotomy slot slot' with hlt | heq | hgt
  · exact absurd hdata' (h.last slot' hlt h'.lt data')
  · exact heq
  · exact absurd hdata (h'.last slot hgt h.lt data)

/-- One more slot: it holds a chunk of the id, or the last copy stays. -/
theorem lastCopy_succ_iff {i : Nat} {id : UInt64} {slot : Nat} :
    LastCopy crc32 file (i + 1) id slot ↔
      (slot = i ∧ ∃ data, chunkAt crc32 file i = some (id, data)) ∨
        LastCopy crc32 file i id slot ∧ ∀ data, chunkAt crc32 file i ≠ some (id, data) := by
  constructor
  · intro h
    by_cases heq : slot = i
    · left
      exact ⟨heq, heq ▸ h.holds⟩
    · right
      have hlt := h.lt
      exact ⟨⟨by omega, h.holds, fun later hle hlater => h.last later hle (by omega)⟩,
        h.last i (by omega) (by omega)⟩
  · intro h
    rcases h with ⟨heq, hdata⟩ | ⟨h, hnone⟩
    · subst heq
      exact ⟨by omega, hdata, fun later hle hlater => by omega⟩
    · have hlt := h.lt
      refine ⟨by omega, h.holds, fun later hle hlater => ?_⟩
      by_cases heq : later = i
      · rw [heq]
        exact hnone
      · exact h.last later hle (by omega)

/-- A chunk with a copy has a last copy. -/
theorem exists_lastCopy {slots slot : Nat} {id : UInt64} {data : Bytes} (hslot : slot < slots)
    (hdata : chunkAt crc32 file slot = some (id, data)) :
    ∃ last, LastCopy crc32 file slots id last := by
  induction slots with
  | zero => omega
  | succ slots ih =>
      by_cases hhere : ∃ found, chunkAt crc32 file slots = some (id, found)
      · exact ⟨slots, lastCopy_succ_iff.mpr (.inl ⟨rfl, hhere⟩)⟩
      · have hne : slot ≠ slots := by
          intro heq
          exact hhere ⟨data, heq ▸ hdata⟩
        rcases ih (by omega) with ⟨last, hlast⟩
        exact ⟨last, lastCopy_succ_iff.mpr (.inr ⟨hlast, not_exists.mp hhere⟩)⟩

/-! ## The scan -/

/-- The state of the scan in front of slot `i`. -/
structure Rescanned (crc32 : Bytes → UInt32) (file : ByteFile) (i : Nat) (store : ChunkStore) :
    Prop where
  reliable : store.file.Reliable
  sameFile : store.file.file = file
  unpoisoned : store.index.poisoned = false
  index_iff : ∀ (id : UInt64) (slot : Nat),
    store.index.value[id]? = some slot ↔ LastCopy crc32 file i id slot

/-- The scan skips a slot without a chunk. -/
theorem Rescanned.skip {i : Nat} {store : ChunkStore} (h : Rescanned crc32 file i store)
    (hnone : chunkAt crc32 file i = none) {disk : Disk} (hdisk : disk.Reliable)
    (hfile : disk.file = file) :
    Rescanned crc32 file (i + 1)
      { store with file := disk, freeSlots := store.freeSlots ++ [i] } := by
  refine ⟨hdisk, hfile, h.unpoisoned, fun id slot => ?_⟩
  rw [lastCopy_succ_iff]
  simp [hnone, h.index_iff]

/-- The scan enters the chunk of a slot. -/
theorem Rescanned.enter {i : Nat} {store : ChunkStore} (h : Rescanned crc32 file i store)
    {id : UInt64} {data : Bytes} (hdata : chunkAt crc32 file i = some (id, data)) {disk : Disk}
    (hdisk : disk.Reliable) (hfile : disk.file = file) :
    Rescanned crc32 file (i + 1)
      { store with
        file := disk
        index := { store.index with value := store.index.value.insert id i } } := by
  refine ⟨hdisk, hfile, h.unpoisoned, fun other slot => ?_⟩
  rw [lastCopy_succ_iff]
  by_cases heq : other = id
  · subst heq
    simp [hdata, eq_comm]
  · simp only [HashMap.getElem?_insert_of_ne _ _ heq, h.index_iff, hdata, Option.some.injEq,
      Prod.mk.injEq, ne_eq]
    simp [Ne.symm heq]

/-- One round of the scan. -/
theorem Rescanned.recoverSlot {slots i : Nat} {store : ChunkStore}
    (h : Rescanned crc32 file i store) (hi : i < slots) (hlen : file.len = SLOT_SIZE * slots) :
    (store.recoverSlot crc32 false i).1 = .ok () ∧
      Rescanned crc32 file (i + 1) (store.recoverSlot crc32 false i).2 := by
  have hlen' : store.file.file.len = SLOT_SIZE * slots := h.sameFile ▸ hlen
  rcases readChunkHeader_reliable h.reliable hi hlen' with ⟨disk, hread, hfile, hdisk⟩
  rw [h.sameFile] at hread hfile
  rw [ChunkStore.recoverSlot, hread]
  by_cases hmagic : (headerAt file i).magic = MAGIC
  · by_cases hdataLen : (headerAt file i).dataLen.toNat ≤ SLOT_DATA_SIZE
    · have hlen'' : disk.file.len = SLOT_SIZE * slots := hfile ▸ hlen
      rcases readChunkOptimized_reliable hdisk hi hlen'' (hfile ▸ hmagic) (hfile ▸ hdataLen) with
        ⟨disk', hread', hfile', hdisk'⟩
      rw [hfile] at hread' hfile'
      simp only [hmagic, if_true, if_neg (Nat.not_lt.mpr hdataLen), Bool.false_eq_true, if_false,
        hread']
      by_cases hchecksum : (headerAt file i).checksum =
          crc32 (payloadAt file i (headerAt file i).dataLen.toNat)
      · rw [if_neg (not_not.mpr hchecksum)]
        have hdata : chunkAt crc32 file i = some ((headerAt file i).id,
            payloadAt file i (headerAt file i).dataLen.toNat) := by
          rw [chunkAt_eq_some_iff, bodyAt_eq_some_iff]
          exact ⟨hmagic, hdataLen, hchecksum, rfl, rfl⟩
        exact ⟨rfl, h.enter hdata hdisk' hfile'⟩
      · rw [if_pos hchecksum]
        have hnone : chunkAt crc32 file i = none := by
          simp [chunkAt, bodyAt, hmagic, hchecksum]
        exact ⟨rfl, h.skip hnone hdisk' hfile'⟩
    · simp only [hmagic, if_true, if_pos (Nat.lt_of_not_le hdataLen)]
      have hnone : chunkAt crc32 file i = none := by
        simp [chunkAt, bodyAt, hdataLen]
      exact ⟨trivial, h.skip hnone hdisk hfile⟩
  · simp only [if_neg hmagic]
    have hnone : chunkAt crc32 file i = none := by
      simp [chunkAt, hmagic]
    exact ⟨trivial, h.skip hnone hdisk hfile⟩

/-- The rest of the scan. -/
theorem Rescanned.recoverSlots {slots : Nat} (hlen : file.len = SLOT_SIZE * slots) (count i : Nat)
    (hcount : i + count = slots) {store : ChunkStore} (h : Rescanned crc32 file i store) :
    (store.recoverSlots crc32 false (List.range' i count)).1 = .ok () ∧
      Rescanned crc32 file slots
        (store.recoverSlots crc32 false (List.range' i count)).2 := by
  induction count generalizing i store with
  | zero =>
      have hi : i = slots := by omega
      subst hi
      exact ⟨rfl, h⟩
  | succ count ih =>
      have hround := h.recoverSlot (by omega) hlen
      rw [List.range'_succ, ChunkStore.recoverSlots]
      cases hslot : store.recoverSlot crc32 false i with
      | mk result scanned =>
          rw [hslot] at hround
          rcases hround with ⟨hok, hscanned⟩
          simp only at hok hscanned
          subst hok
          exact ih (i + 1) (by omega) hscanned

/-- `recover_index(false)` scans every slot of the file. -/
theorem recoverIndex_rescans {slots : Nat} {store : ChunkStore} (h : store.file.Reliable)
    (hfile : store.file.file = file) (hunpoisoned : store.index.poisoned = false)
    (hlen : file.len = SLOT_SIZE * slots) :
    (store.recoverIndex crc32 false).1 = .returned (.ok ()) ∧
      Rescanned crc32 file slots (store.recoverIndex crc32 false).2 := by
  rcases Disk.call_reliable h with ⟨disk, hcall, hfile', hdisk⟩
  rw [hfile] at hfile'
  have hcount : disk.file.len / SLOT_SIZE = slots := by
    rw [hfile', hlen]
    exact Nat.mul_div_cancel_left _ (by decide)
  have hstart : Rescanned crc32 file 0
      { store with
        file := disk, index := { store.index with value := ∅ }, freeSlots := [] } := by
    refine ⟨hdisk, hfile', hunpoisoned, fun id slot => ?_⟩
    simp only [Std.ExtTreeMap.getElem?_empty, reduceCtorEq, false_iff]
    exact fun hlast => Nat.not_lt_zero _ hlast.lt
  rcases hstart.recoverSlots hlen slots 0 (by omega) with ⟨hok, hscanned⟩
  rw [← List.range_eq_range'] at hok hscanned
  rw [ChunkStore.recoverIndex, hcall]
  simp only [if_neg (Bool.eq_false_iff.mp hunpoisoned), hcount]
  exact ⟨congrArg Outcome.returned hok, hscanned⟩

/-! ## The reopened store -/

/-- A reopened store, as far as its reads go. -/
structure Reopened (crc32 : Bytes → UInt32) (file : ByteFile) (slots : Nat) (store : ChunkStore) :
    Prop extends Rescanned crc32 file slots store where
  len : file.len = SLOT_SIZE * slots

/-- Reopening a file gives the last copy of every chunk that the resized file holds. -/
theorem reopen_index {disk : Disk} (h : disk.Reliable) {allocatedSlots : Option Nat}
    (hslots : SLOT_SIZE * slotCount allocatedSlots ≤ maxFileLen) {options : ChunkStoreOptions}
    (hslow : options.fastRecover = false) :
    ∃ restarted, ChunkStore.construct crc32 disk true allocatedSlots options =
        .returned (.ok restarted) ∧
      Reopened crc32 (disk.file.setLen (SLOT_SIZE * slotCount allocatedSlots))
        (slotCount allocatedSlots) restarted := by
  rcases openFile_reliable h hslots options with
    ⟨opened, disk', hopen, hreliable, hfile, hindex, hfree, htotal⟩
  rcases @recoverIndex_rescans crc32 _ _ _ hreliable hfile (by rw [hindex]; rfl) rfl with
    ⟨hok, hscanned⟩
  rcases hrecover : opened.recoverIndex crc32 false with ⟨outcome, restarted⟩
  rw [hrecover] at hok hscanned
  simp only at hok hscanned
  subst hok
  rw [ChunkStore.construct, hopen]
  simp only [if_true, hslow, hrecover]
  exact ⟨restarted, rfl, hscanned, rfl⟩

/-- The reopened store reads the last copy of a chunk. -/
theorem Reopened.getChunk {slots : Nat} {store : ChunkStore} (h : Reopened crc32 file slots store)
    {id : UInt64} {slot : Nat} {data : Bytes} (hlast : LastCopy crc32 file slots id slot)
    (hdata : chunkAt crc32 file slot = some (id, data)) :
    (store.getChunk crc32 id).1 = .returned (.ok (data, crc32 data)) := by
  have hlen : store.file.file.len = SLOT_SIZE * slots := h.sameFile ▸ h.len
  rw [chunkAt_eq_some_iff, bodyAt_eq_some_iff] at hdata
  rcases hdata with ⟨hmagic, hdataLen, hchecksum, _, hpayload⟩
  rcases readChunkOptimized_reliable h.reliable hlast.lt hlen (h.sameFile ▸ hmagic)
    (h.sameFile ▸ hdataLen) with ⟨disk, hread, _, _⟩
  rw [h.sameFile, hpayload] at hread
  have hlock : ¬ store.index.poisoned = true := by simp [h.unpoisoned]
  rw [ChunkStore.getChunk, if_neg hlock, (h.index_iff id slot).mpr hlast]
  simp only [hread, hmagic, ne_eq, not_true_eq_false, if_false, hchecksum]

end StorageNode
end ObjectStore
