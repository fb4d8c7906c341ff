import ObjectStore.StorageNode.SlotLayout

/-!
# Storage node - The bounded map behind a chunk store

What a chunk store is for: a map from chunk ids to bytes with room for a fixed number of
entries.  `Represents` ties the map to the index, the stack of free slots and the file.
Operations that meet no I/O errors keep it and answer as the map does.

Main definitions:

- `BoundedMap`: the abstract model, with `put`, `get` and `delete`.
- `Represents`: the invariant of a chunk store.

Main results:

- Theorem `Represents.length_freeSlots`: free and used slots add up.
- Theorems `Represents.putChunk`, `getChunk`, `deleteChunk`: one per operation.
-/

namespace ObjectStore
namespace StorageNode

open Library (ByteFile)

/-! ## The abstract model -/

/-- What a caller learns from a request. -/
inductive Reply where
  | ok
  | chunk (data : Bytes) (checksum : UInt32)
  | failed (kind : ErrorKind)
  | panicked
deriving DecidableEq

/-- What an outcome tells the caller. -/
def Outcome.reply {α : Type} (value : α → Reply) : Outcome α → Reply
  | .returned (.ok result) => value result
  | .returned (.error error) => .failed error.kind
  | .panicked => .panicked

/-- At most `capacity` live chunks. -/
structure BoundedMap where
  capacity : Nat
  live : HashMap UInt64 Bytes
  bounded : live.size ≤ capacity

namespace BoundedMap

/-- Room for `capacity` chunks. -/
def empty (capacity : Nat) : BoundedMap where
  capacity := capacity
  live := ∅
  bounded := by simp

theorem size_insert_le {self : BoundedMap} (h : self.live.size ≠ self.capacity) (id : UInt64)
    (data : Bytes) : (self.live.insert id data).size ≤ self.capacity := by
  have hle := Std.ExtTreeMap.size_insert_le (t := self.live) (k := id) (v := data)
  have hbounded := self.bounded
  omega

/-- A chunk is stored under an id that is free, if there is room. -/
def put (self : BoundedMap) (id : UInt64) (data : Bytes) : Reply × BoundedMap :=
  if id ∈ self.live then (.failed .alreadyExists, self)
  else if h : self.live.size = self.capacity then (.failed .storageFull, self)
  else
    (.ok, { self with live := self.live.insert id data, bounded := size_insert_le h id data })

/-- A chunk with its checksum. -/
def get (crc32 : Bytes → UInt32) (self : BoundedMap) (id : UInt64) : Reply :=
  match self.live[id]? with
  | some data => .chunk data (crc32 data)
  | none => .failed .notFound

/-- The id is free again. -/
def delete (self : BoundedMap) (id : UInt64) : BoundedMap where
  capacity := self.capacity
  live := self.live.erase id
  bounded := Nat.le_trans Std.ExtTreeMap.size_erase_le self.bounded

/-- The same chunks with room for at least `capacity`. -/
def grow (self : BoundedMap) (capacity : Nat) : BoundedMap where
  capacity := max self.capacity capacity
  live := self.live
  bounded := Nat.le_trans self.bounded (Nat.le_max_left _ _)

end BoundedMap

/-! ## The invariant -/

/-- The slots of a chunk store: every slot is either free or belongs to one id. -/
structure SlotsValid (index : HashMap UInt64 Nat) (freeSlots : List Nat) (slots : Nat) :
    Prop where
  nodup : freeSlots.Nodup
  mem_iff : ∀ slot, slot ∈ freeSlots ↔ slot < slots ∧ ∀ id : UInt64, index[id]? ≠ some slot
  lt : ∀ (id : UInt64) (slot : Nat), index[id]? = some slot → slot < slots
  injective : ∀ (id id' : UInt64) (slot : Nat),
    index[id]? = some slot → index[id']? = some slot → id = id'

/-- The chunk store holds exactly the live chunks of the map. -/
structure Represents (crc32 : Bytes → UInt32) (store : ChunkStore) (map : BoundedMap) :
    Prop where
  reliable : store.file.Reliable
  unpoisoned : store.index.poisoned = false
  totalSlots : store.totalSlots = map.capacity
  len : store.file.file.len = SLOT_SIZE * map.capacity
  slots : SlotsValid store.index.value store.freeSlots map.capacity
  live_iff : ∀ id, id ∈ store.index.value ↔ id ∈ map.live
  holds : ∀ (id : UInt64) (slot : Nat) (data : Bytes), store.index.value[id]? = some slot →
    map.live[id]? = some data → SlotHolds crc32 store.file.file slot id data
  blank : ∀ slot ∈ store.freeSlots, (headerAt store.file.file slot).magic ≠ MAGIC

/-- Free and used slots add up. -/
theorem SlotsValid.length_add_size {index : HashMap UInt64 Nat} {freeSlots : List Nat}
    {slots : Nat} (h : SlotsValid index freeSlots slots) :
    freeSlots.length + index.size = slots := by
  have hdisjoint : ∀ slot ∈ freeSlots, slot ∉ index.valueList := by
    intro slot hfree hused
    rcases HashMap.mem_valueList.mp hused with ⟨id, hid⟩
    exact ((h.mem_iff slot).mp hfree).2 id hid
  have hnodup : (freeSlots ++ index.valueList).Nodup :=
    List.nodup_append'.mpr ⟨h.nodup, HashMap.nodup_valueList h.injective, hdisjoint⟩
  have hperm : (freeSlots ++ index.valueList).Perm (List.range slots) := by
    refine (List.perm_ext_iff_of_nodup hnodup List.nodup_range).mpr fun slot => ?_
    rw [List.mem_append, List.mem_range, HashMap.mem_valueList, h.mem_iff]
    constructor
    · rintro (⟨hlt, _⟩ | ⟨id, hid⟩)
      · exact hlt
      · exact h.lt id slot hid
    · intro hlt
      by_cases hused : ∃ id : UInt64, index[id]? = some slot
      · exact .inr hused
      · exact .inl ⟨hlt, not_exists.mp hused⟩
  have hlength := hperm.length_eq
  rwa [List.length_append, HashMap.length_valueList, List.length_range] at hlength

variable {crc32 : Bytes → UInt32} {store : ChunkStore} {map : BoundedMap}

theorem Represents.size_eq (h : Represents crc32 store map) :
    store.index.value.size = map.live.size :=
  HashMap.size_eq_of_mem_iff h.live_iff

theorem Represents.length_freeSlots (h : Represents crc32 store map) :
    store.freeSlots.length + map.live.size = map.capacity := by
  rw [← h.size_eq]
  exact h.slots.length_add_size

theorem Represents.exists_data (h : Represents crc32 store map) {id : UInt64} {slot : Nat}
    (hslot : store.index.value[id]? = some slot) : ∃ data, map.live[id]? = some data := by
  have hmem : id ∈ store.index.value := HashMap.mem_iff_exists_getElem?.mpr ⟨slot, hslot⟩
  exact HashMap.mem_iff_exists_getElem?.mp ((h.live_iff id).mp hmem)

theorem Represents.getElem?_eq_none (h : Represents crc32 store map) {id : UInt64}
    (hindex : store.index.value[id]? = none) : map.live[id]? = none := by
  have habsent : id ∉ store.index.value := by simpa using hindex
  have hlive : id ∉ map.live := fun hmem => habsent ((h.live_iff id).mpr hmem)
  simpa using hlive

/-! ## get_chunk -/

/-- `get_chunk` answers from the map. -/
theorem Represents.getChunk (h : Represents crc32 store map) (id : UInt64) :
    (store.getChunk crc32 id).1.reply (fun (data, checksum) => .chunk data checksum) =
        map.get crc32 id ∧
      Represents crc32 (store.getChunk crc32 id).2 map := by
  rw [ChunkStore.getChunk, h.unpoisoned]
  cases hindex : store.index.value[id]? with
  | none =>
      simp only [Bool.false_eq_true, if_false, BoundedMap.get, h.getElem?_eq_none hindex]
      exact ⟨rfl, h⟩
  | some slot =>
      rcases h.exists_data hindex with ⟨data, hdata⟩
      have hholds := h.holds id slot data hindex hdata
      rcases hholds.readChunkOptimized h.reliable (h.slots.lt id slot hindex) h.len with
        ⟨disk, hread, hfile, hdisk⟩
      simp only [Bool.false_eq_true, if_false, hread, hholds.magic, hholds.checksum, ne_eq,
        not_true_eq_false, BoundedMap.get, hdata]
      refine ⟨rfl, ?_⟩
      exact { h with
        reliable := hdisk
        len := by simpa [hfile] using h.len
        holds := by simpa [hfile] using h.holds
        blank := by simpa [hfile] using h.blank }

/-! ## put_chunk -/

/-- Handing out the top of the stack to a new id. -/
theorem SlotsValid.insert {index : HashMap UInt64 Nat} {freeSlots : List Nat} {slot slots : Nat}
    {id : UInt64} (h : SlotsValid index (freeSlots ++ [slot]) slots) (hid : id ∉ index) :
    SlotsValid (index.insert id slot) freeSlots slots := by
  have hfree : slot < slots ∧ ∀ id : UInt64, index[id]? ≠ some slot :=
    (h.mem_iff slot).mp (by simp)
  have hnodup := List.nodup_append'.mp h.nodup
  have hlookup : ∀ (other : UInt64) (used : Nat), (index.insert id slot)[other]? = some used ↔
      other = id ∧ used = slot ∨ other ≠ id ∧ index[other]? = some used := by
    intro other used
    by_cases hother : other = id
    · subst hother
      simp [eq_comm]
    · rw [HashMap.getElem?_insert_of_ne _ _ hother]
      simp [hother]
  constructor
  · exact hnodup.1
  · intro other
    have hmem := h.mem_iff other
    rw [List.mem_append, List.mem_singleton] at hmem
    simp only [ne_eq, hlookup, not_or, not_and]
    constructor
    · intro hother
      have hne : other ≠ slot := fun heq => hnodup.2.2 hother (by simp [heq])
      have hbefore := hmem.mp (.inl hother)
      exact ⟨hbefore.1, fun id' => ⟨fun _ => hne, fun _ => hbefore.2 id'⟩⟩
    · rintro ⟨hlt, hunused⟩
      have hne : other ≠ slot := (hunused id).1 rfl
      have hbefore : other < slots ∧ ∀ id : UInt64, index[id]? ≠ some other := by
        refine ⟨hlt, fun id' hid' => ?_⟩
        have hmem' : id' ∈ index := HashMap.mem_iff_exists_getElem?.mpr ⟨other, hid'⟩
        have hneid : id' ≠ id := fun heq => hid (heq ▸ hmem')
        exact (hunused id').2 hneid hid'
      rcases hmem.mpr hbefore with hother | hother
      · exact hother
      · exact absurd hother hne
  · intro other used hused
    rcases (hlookup other used).mp hused with ⟨_, rfl⟩ | ⟨_, hbefore⟩
    · exact hfree.1
    · exact h.lt other used hbefore
  · intro other other' used hused hused'
    rcases (hlookup other used).mp hused with ⟨rfl, rfl⟩ | ⟨hne, hbefore⟩
    · rcases (hlookup other' used).mp hused' with ⟨rfl, _⟩ | ⟨_, hbefore'⟩
      · rfl
      · exact absurd hbefore' (hfree.2 other')
    · rcases (hlookup other' used).mp hused' with ⟨rfl, rfl⟩ | ⟨_, hbefore'⟩
      · exact absurd hbefore (hfree.2 other)
      · exact h.injective other other' used hbefore hbefore'

theorem shouldFsyncWrite_eq (store : ChunkStore) :
    ∃ fsync count, store.shouldFsyncWrite = (fsync, { store with writeCounter := count }) := by
  unfold ChunkStore.shouldFsyncWrite
  split
  · split
    · exact ⟨_, _, rfl⟩
    · exact ⟨_, store.writeCounter, rfl⟩
  · exact ⟨_, store.writeCounter, rfl⟩

/-- `put_chunk` answers as the map does. -/
theorem Represents.putChunk (h : Represents crc32 store map) (id : UInt64) {data : Bytes}
    (hdata : data.length ≤ SLOT_DATA_SIZE) :
    (store.putChunk crc32 id data).1.reply (fun _ => .ok) = (map.put id data).1 ∧
      Represents crc32 (store.putChunk crc32 id data).2 (map.put id data).2 := by
  rw [ChunkStore.putChunk, h.unpoisoned]
  simp only [Bool.false_eq_true, if_false]
  by_cases hid : id ∈ store.index.value
  · have hlive := (h.live_iff id).mp hid
    rw [if_pos hid, BoundedMap.put, if_pos hlive]
    exact ⟨rfl, h⟩
  · have hlive : id ∉ map.live := fun hmem => hid ((h.live_iff id).mpr hmem)
    have hlength := h.length_freeSlots
    rw [if_neg hid, BoundedMap.put, if_neg hlive, ChunkStore.findSlot]
    cases hlast : store.freeSlots.getLast? with
    | none =>
        have hnil : store.freeSlots = [] := List.getLast?_eq_none_iff.mp hlast
        have hfull : map.live.size = map.capacity := by simpa [hnil] using hlength
        rw [dif_pos hfull]
        exact ⟨rfl, h⟩
    | some slot =>
        have hstack : store.freeSlots = store.freeSlots.dropLast ++ [slot] :=
          (List.dropLast_append_getLast? slot hlast).symm
        have hroom : map.live.size ≠ map.capacity := by
          rw [hstack, List.length_append, List.length_singleton] at hlength
          omega
        have hslots := h.slots
        rw [hstack] at hslots
        have hfree := (h.slots.mem_iff slot).mp (hstack ▸ by simp)
        rcases shouldFsyncWrite_eq { store with freeSlots := store.freeSlots.dropLast } with
          ⟨fsync, count, hfsync⟩
        rcases @writeChunkAt_reliable crc32 _ h.reliable _ _ hfree.1 h.len id data hdata fsync with
          ⟨disk, hwrite, hdisk, hholds, hframe⟩
        rw [dif_neg hroom]
        simp only [hfsync, hwrite]
        refine ⟨rfl, ?_⟩
        constructor
        · exact hdisk
        · exact h.unpoisoned
        · exact h.totalSlots
        · exact hframe.len.trans h.len
        · exact hslots.insert hid
        · intro other
          simp only [Std.ExtTreeMap.mem_insert, h.live_iff]
        · intro other used found hused hfound
          by_cases hother : other = id
          · subst hother
            rw [← HashMap.getElem?_insert_same _ hused, ← HashMap.getElem?_insert_same _ hfound]
            exact hholds
          · rw [HashMap.getElem?_insert_of_ne _ _ hother] at hused hfound
            have hne : used ≠ slot := fun heq => hfree.2 other (heq ▸ hused)
            exact (h.holds other used found hused hfound).frame hframe hne
        · intro other hother
          have hmem : other ∈ store.freeSlots := List.mem_of_mem_dropLast hother
          have hne : other ≠ slot := by
            intro heq
            have hdisjoint := (List.nodup_append'.mp hslots.nodup).2.2
            exact hdisjoint hother (by simp [heq])
          simpa only [hframe.header other hne] using h.blank other hmem

/-! ## delete_chunk -/

/-- Taking the slot back from an id. -/
theorem SlotsValid.erase {index : HashMap UInt64 Nat} {freeSlots : List Nat} {slot slots : Nat}
    {id : UInt64} (h : SlotsValid index freeSlots slots) (hid : index[id]? = some slot) :
    SlotsValid (index.erase id) (freeSlots ++ [slot]) slots := by
  have hused : slot ∉ freeSlots := fun hmem => ((h.mem_iff slot).mp hmem).2 id hid
  have hlookup : ∀ (other : UInt64) (used : Nat), (index.erase id)[other]? = some used ↔
      other ≠ id ∧ index[other]? = some used := by
    intro other used
    by_cases hother : other = id
    · subst hother
      simp
    · rw [HashMap.getElem?_erase_of_ne index hother]
      simp [hother]
  constructor
  · exact List.nodup_append'.mpr ⟨h.nodup, List.nodup_singleton _, by simpa using hused⟩
  · intro other
    rw [List.mem_append, List.mem_singleton, h.mem_iff]
    simp only [ne_eq, hlookup, not_and]
    constructor
    · rintro (⟨hlt, hunused⟩ | rfl)
      · exact ⟨hlt, fun id' _ => hunused id'⟩
      · refine ⟨h.lt id other hid, fun id' hne hid' => ?_⟩
        exact hne (h.injective id' id other hid' hid)
    · rintro ⟨hlt, hunused⟩
      by_cases hother : other = slot
      · exact .inr hother
      · refine .inl ⟨hlt, fun id' hid' => ?_⟩
        by_cases heq : id' = id
        · rw [heq, hid] at hid'
          exact hother (Option.some.inj hid').symm
        · exact hunused id' heq hid'
  · intro other used hlive
    exact h.lt other used ((hlookup other used).mp hlive).2
  · intro other other' used hlive hlive'
    exact h.injective other other' used ((hlookup other used).mp hlive).2
      ((hlookup other' used).mp hlive').2

/-- A zeroed header marks its slot as free and touches no other slot. -/
theorem headerAt_zeroed (file : ByteFile) (slot : Nat) :
    (headerAt (file.splice (slot * SLOT_SIZE) (List.replicate CHUNK_HEADER_SIZE 0)) slot).magic ≠
      MAGIC := by
  have hslice := file.slice_splice_self (slot * SLOT_SIZE) (List.replicate CHUNK_HEADER_SIZE 0)
  rw [List.length_replicate] at hslice
  rw [headerAt, hslice]
  exact ChunkHeader.magic_fromBytes_zeros

/-- `delete_chunk` answers as the map does. -/
theorem Represents.deleteChunk (h : Represents crc32 store map) (id : UInt64) :
    (store.deleteChunk id).1.reply (fun _ => .ok) = .ok ∧
      Represents crc32 (store.deleteChunk id).2 (map.delete id) := by
  rw [ChunkStore.deleteChunk, h.unpoisoned]
  simp only [Bool.false_eq_true, if_false]
  cases hindex : store.index.value[id]? with
  | none =>
      have hlive : id ∉ map.live := by simpa using h.getElem?_eq_none hindex
      have hsame : map.delete id = map := by
        cases map
        simp only [BoundedMap.delete, HashMap.erase_of_not_mem hlive]
      rw [hsame]
      exact ⟨rfl, h⟩
  | some slot =>
      have hlt := h.slots.lt id slot hindex
      rcases Disk.writeAllAt_reliable h.reliable (List.replicate CHUNK_HEADER_SIZE 0)
        (slot * SLOT_SIZE) with ⟨disk, hwrite, hfile, hdisk⟩
      have hframe : Frame slot store.file.file disk.file := by
        rw [hfile]
        exact Frame.splice hlt h.len (by simp [CHUNK_HEADER_SIZE, SLOT_SIZE])
      have hblank : (headerAt disk.file slot).magic ≠ MAGIC := by
        rw [hfile]
        exact headerAt_zeroed _ _
      have hsync : Disk.Yields (if store.fsyncOnDelete then disk.call else (.ok (), disk)) ()
          disk.file := by
        split
        · exact Disk.call_reliable hdisk
        · exact ⟨disk, rfl, rfl, hdisk⟩
      rcases hsync with ⟨disk', hcall, hfile', hdisk'⟩
      rw [← hfile'] at hframe hblank
      simp only [hwrite, hcall, ChunkStore.clearSlot, h.totalSlots, if_pos hlt]
      refine ⟨rfl, ?_⟩
      constructor
      · exact hdisk'
      · exact h.unpoisoned
      · rfl
      · exact hframe.len.trans h.len
      · exact h.slots.erase hindex
      · intro other
        simp only [BoundedMap.delete, Std.ExtTreeMap.mem_erase, h.live_iff]
      · intro other used found hused hfound
        have hused' := HashMap.getElem?_of_erase hused
        have hne : used ≠ slot := by
          intro heq
          have hother := h.slots.injective other id slot (heq ▸ hused') hindex
          subst hother
          simp at hused
        exact (h.holds other used found hused' (HashMap.getElem?_of_erase hfound)).frame hframe hne
      · intro other hother
        rcases List.mem_append.mp hother with hmem | hmem
        · have hne : other ≠ slot := by
            intro heq
            exact ((h.slots.mem_iff other).mp hmem).2 id (heq ▸ hindex)
          simpa only [hframe.header other hne] using h.blank other hmem
        · rw [List.mem_singleton.mp hmem]
          exact hblank

end StorageNode
end ObjectStore
