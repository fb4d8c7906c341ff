import ObjectStore.Library.Crc32
import ObjectStore.StorageNode.BoundedMap

/-!
# Storage node - Recovery and whole runs

A restart opens the file again, possibly with more slots, and scans every header.  The
scan rebuilds the index that was lost: the headers on disk are exactly those of the live
chunks, in either recovery mode.

Main results:

- Theorem `Scanned.recoverSlot`: one round of the scan.
- Theorem `Represents.restart`: a restart keeps the map.
- Theorem `chunkStore_refines_boundedMap`: along every run without I/O errors the chunk
  store answers as the bounded map does.
-/

namespace ObjectStore
namespace StorageNode

open Library (ByteFile)

variable {crc32 : Bytes → UInt32}

/-! ## What the file says -/

/-- The headers in the file are exactly those of `index`. -/
structure Layout (crc32 : Bytes → UInt32) (file : ByteFile) (slots : Nat)
    (index : HashMap UInt64 Nat) (live : HashMap UInt64 Bytes) : Prop where
  len : file.len = SLOT_SIZE * slots
  lt : ∀ (id : UInt64) (slot : Nat), index[id]? = some slot → slot < slots
  injective : ∀ (id id' : UInt64) (slot : Nat),
    index[id]? = some slot → index[id']? = some slot → id = id'
  live_iff : ∀ id, id ∈ index ↔ id ∈ live
  holds : ∀ (id : UInt64) (slot : Nat) (data : Bytes),
    index[id]? = some slot → live[id]? = some data → SlotHolds crc32 file slot id data
  blank : ∀ slot < slots, (∀ id : UInt64, index[id]? ≠ some slot) →
    (headerAt file slot).magic ≠ MAGIC

theorem Represents.layout {store : ChunkStore} {map : BoundedMap}
    (h : Represents crc32 store map) :
    Layout crc32 store.file.file map.capacity store.index.value map.live where
  len := h.len
  lt := h.slots.lt
  injective := h.slots.injective
  live_iff := h.live_iff
  holds := h.holds
  blank slot hlt hunused := h.blank slot ((h.slots.mem_iff slot).mpr ⟨hlt, hunused⟩)

/-- A header behind the end of the file is zero. -/
theorem magic_headerAt_of_len_le {file : ByteFile} {slot : Nat}
    (h : file.len ≤ slot * SLOT_SIZE) : (headerAt file slot).magic ≠ MAGIC := by
  rw [headerAt, ByteFile.slice_of_len_le h]
  exact ChunkHeader.magic_fromBytes_zeros

/-- Growing the file adds blank slots. -/
theorem Layout.setLen {file : ByteFile} {slots slots' : Nat} {index : HashMap UInt64 Nat}
    {live : HashMap UInt64 Bytes} (h : Layout crc32 file slots index live)
    (hslots : slots ≤ slots') :
    Layout crc32 (file.setLen (SLOT_SIZE * slots')) slots' index live := by
  have hgrow : file.len ≤ SLOT_SIZE * slots' := by
    rw [h.len]
    exact Nat.mul_le_mul_left _ hslots
  have hheader : ∀ slot, headerAt (file.setLen (SLOT_SIZE * slots')) slot = headerAt file slot := by
    intro slot
    rw [headerAt, headerAt, ByteFile.slice_setLen hgrow]
  have hpayload : ∀ slot len, payloadAt (file.setLen (SLOT_SIZE * slots')) slot len =
      payloadAt file slot len := by
    intro slot len
    rw [payloadAt, payloadAt, ByteFile.slice_setLen hgrow]
  constructor
  · rfl
  · exact fun id slot hid => Nat.lt_of_lt_of_le (h.lt id slot hid) hslots
  · exact h.injective
  · exact h.live_iff
  · intro id slot data hid hdata
    have hholds := h.holds id slot data hid hdata
    exact ⟨hholds.length, (hheader slot).trans hholds.header,
      (hpayload slot _).trans hholds.payload⟩
  · intro slot hlt hunused
    rw [hheader]
    by_cases hold : slot < slots
    · exact h.blank slot hold hunused
    · refine magic_headerAt_of_len_le ?_
      rw [h.len, Nat.mul_comm]
      exact Nat.mul_le_mul_right _ (Nat.le_of_not_lt hold)

/-! ## The scan -/

/-- The state of the scan in front of slot `i`. -/
structure Scanned (file : ByteFile) (index : HashMap UInt64 Nat) (totalSlots i : Nat)
    (store : ChunkStore) : Prop where
  reliable : store.file.Reliable
  file : store.file.file = file
  unpoisoned : store.index.poisoned = false
  totalSlots : store.totalSlots = totalSlots
  nodup : store.freeSlots.Nodup
  mem_iff : ∀ slot, slot ∈ store.freeSlots ↔ slot < i ∧ ∀ id : UInt64, index[id]? ≠ some slot
  index_iff : ∀ (id : UInt64) (slot : Nat),
    store.index.value[id]? = some slot ↔ index[id]? = some slot ∧ slot < i

/-- The scan pushes a slot that no id uses. -/
theorem Scanned.free {file : ByteFile} {index : HashMap UInt64 Nat} {totalSlots i : Nat}
    {store : ChunkStore} (h : Scanned file index totalSlots i store)
    (hunused : ∀ id : UInt64, index[id]? ≠ some i) {disk : Disk} (hdisk : disk.Reliable)
    (hfile : disk.file = file) :
    Scanned file index totalSlots (i + 1)
      { store with file := disk, freeSlots := store.freeSlots ++ [i] } := by
  have hfresh : i ∉ store.freeSlots := by
    rw [h.mem_iff]
    omega
  refine ⟨hdisk, hfile, h.unpoisoned, h.totalSlots, ?_, ?_, ?_⟩
  · exact List.nodup_append'.mpr ⟨h.nodup, List.nodup_singleton _, by simpa using hfresh⟩
  · intro slot
    rw [List.mem_append, List.mem_singleton, h.mem_iff]
    constructor
    · rintro (⟨hlt, hslot⟩ | rfl)
      · exact ⟨by omega, hslot⟩
      · exact ⟨by omega, hunused⟩
    · rintro ⟨hlt, hslot⟩
      by_cases heq : slot = i
      · exact .inr heq
      · exact .inl ⟨by omega, hslot⟩
  · intro id slot
    rw [h.index_iff]
    constructor
    · rintro ⟨hid, hlt⟩
      exact ⟨hid, by omega⟩
    · rintro ⟨hid, hlt⟩
      have hne : slot ≠ i := fun heq => hunused id (heq ▸ hid)
      exact ⟨hid, by omega⟩

/-- The scan enters the slot of an id. -/
theorem Scanned.used {file : ByteFile} {index : HashMap UInt64 Nat} {totalSlots i : Nat}
    {store : ChunkStore} (h : Scanned file index totalSlots i store) {id : UInt64}
    (hid : index[id]? = some i)
    (hinjective : ∀ id' : UInt64, index[id']? = some i → id' = id)
    {disk : Disk} (hdisk : disk.Reliable) (hfile : disk.file = file) :
    Scanned file index totalSlots (i + 1)
      { store with
        file := disk
        index := { store.index with value := store.index.value.insert id i } } := by
  refine ⟨hdisk, hfile, h.unpoisoned, h.totalSlots, h.nodup, ?_, ?_⟩
  · intro slot
    rw [h.mem_iff]
    constructor
    · rintro ⟨hlt, hslot⟩
      exact ⟨by omega, hslot⟩
    · rintro ⟨hlt, hslot⟩
      have hne : slot ≠ i := fun heq => hslot id (heq ▸ hid)
      exact ⟨by omega, hslot⟩
  · intro id' slot
    by_cases heq : id' = id
    · subst heq
      simp only [Std.ExtTreeMap.getElem?_insert_self, Option.some.injEq, hid]
      omega
    · simp only [HashMap.getElem?_insert_of_ne _ _ heq, h.index_iff]
      constructor
      · rintro ⟨hid', hlt⟩
        exact ⟨hid', by omega⟩
      · rintro ⟨hid', hlt⟩
        have hne : slot ≠ i := fun hslot => heq (hinjective id' (hslot ▸ hid'))
        exact ⟨hid', by omega⟩

/-- One round of the scan. -/
theorem Scanned.recoverSlot {file : ByteFile} {slots totalSlots i : Nat}
    {index : HashMap UInt64 Nat} {live : HashMap UInt64 Bytes} {store : ChunkStore}
    (h : Scanned file index totalSlots i store) (hlayout : Layout crc32 file slots index live)
    (hi : i < slots) (fastRecover : Bool) :
    (store.recoverSlot crc32 fastRecover i).1 = .ok () ∧
      Scanned file index totalSlots (i + 1) (store.recoverSlot crc32 fastRecover i).2 := by
  have hlen : store.file.file.len = SLOT_SIZE * slots := by
    rw [h.file]
    exact hlayout.len
  rcases readChunkHeader_reliable h.reliable hi hlen with ⟨disk, hread, hfile, hdisk⟩
  rw [h.file] at hread hfile
  rw [ChunkStore.recoverSlot, hread]
  by_cases hused : ∃ id : UInt64, index[id]? = some i
  · rcases hused with ⟨id, hid⟩
    have hmem : id ∈ live := (hlayout.live_iff id).mp (HashMap.mem_iff_exists_getElem?.mpr ⟨i, hid⟩)
    rcases HashMap.mem_iff_exists_getElem?.mp hmem with ⟨data, hdata⟩
    have hholds := hlayout.holds id i data hid hdata
    have hinjective : ∀ id' : UInt64, index[id']? = some i → id' = id :=
      fun id' hid' => hlayout.injective id' id i hid' hid
    have hlength : ¬ SLOT_DATA_SIZE < (headerAt file i).dataLen.toNat := by
      rw [hholds.dataLen]
      exact Nat.not_lt.mpr hholds.length
    simp only [hholds.magic, hholds.id, if_true, if_neg hlength]
    cases fastRecover with
    | true => exact ⟨rfl, h.used hid hinjective hdisk hfile⟩
    | false =>
        have hholds' : SlotHolds crc32 disk.file i id data := hfile.symm ▸ hholds
        rcases hholds'.readChunkOptimized hdisk hi (hfile ▸ hlayout.len) with
          ⟨disk', hread', hfile', hdisk'⟩
        simp only [Bool.false_eq_true, if_false, hread', hholds.checksum, ne_eq,
          not_true_eq_false]
        exact ⟨trivial, h.used hid hinjective hdisk' (hfile'.trans hfile)⟩
  · have hunused : ∀ id : UInt64, index[id]? ≠ some i := not_exists.mp hused
    simp only [if_neg (hlayout.blank i hi hunused)]
    exact ⟨trivial, h.free hunused hdisk hfile⟩

/-- The rest of the scan. -/
theorem Scanned.recoverSlots {file : ByteFile} {slots totalSlots : Nat}
    {index : HashMap UInt64 Nat} {live : HashMap UInt64 Bytes}
    (hlayout : Layout crc32 file slots index live) (fastRecover : Bool) (count i : Nat)
    (hcount : i + count = slots) {store : ChunkStore}
    (h : Scanned file index totalSlots i store) :
    (store.recoverSlots crc32 fastRecover (List.range' i count)).1 = .ok () ∧
      Scanned file index totalSlots slots
        (store.recoverSlots crc32 fastRecover (List.range' i count)).2 := by
  induction count generalizing i store with
  | zero =>
      have hi : i = slots := by omega
      subst hi
      exact ⟨rfl, h⟩
  | succ count ih =>
      have hround := h.recoverSlot hlayout (by omega) fastRecover
      rw [List.range'_succ, ChunkStore.recoverSlots]
      cases hslot : store.recoverSlot crc32 fastRecover i with
      | mk result scanned =>
          rw [hslot] at hround
          rcases hround with ⟨hok, hscanned⟩
          simp only at hok hscanned
          subst hok
          exact ih (i + 1) (by omega) hscanned

/-- After the scan the index and the stack are those that the headers describe. -/
theorem Scanned.represents {store : ChunkStore} {map : BoundedMap} {file : ByteFile}
    {index : HashMap UInt64 Nat} (h : Scanned file index map.capacity map.capacity store)
    (hlayout : Layout crc32 file map.capacity index map.live) : Represents crc32 store map := by
  have hindex : store.index.value = index := by
    refine Std.ExtTreeMap.ext_getElem? fun id => ?_
    refine Option.ext fun slot => ?_
    rw [h.index_iff]
    exact ⟨fun hid => hid.1, fun hid => ⟨hid, hlayout.lt id slot hid⟩⟩
  constructor
  · exact h.reliable
  · exact h.unpoisoned
  · exact h.totalSlots
  · rw [h.file]
    exact hlayout.len
  · rw [hindex]
    exact ⟨h.nodup, h.mem_iff, hlayout.lt, hlayout.injective⟩
  · rw [hindex]
    exact hlayout.live_iff
  · rw [hindex, h.file]
    exact hlayout.holds
  · intro slot hfree
    have hslot := (h.mem_iff slot).mp hfree
    rw [h.file]
    exact hlayout.blank slot hslot.1 hslot.2

/-- `recover_index` finds the chunks that the headers of the file name. -/
theorem Layout.recoverIndex {store : ChunkStore} {map : BoundedMap}
    {index : HashMap UInt64 Nat}
    (hlayout : Layout crc32 store.file.file map.capacity index map.live)
    (hdisk : store.file.Reliable) (hunpoisoned : store.index.poisoned = false)
    (htotal : store.totalSlots = map.capacity) (fastRecover : Bool) :
    ∃ recovered, store.recoverIndex crc32 fastRecover = (.returned (.ok ()), recovered) ∧
      Represents crc32 recovered map := by
  rcases Disk.call_reliable hdisk with ⟨disk, hcall, hfile, hreliable⟩
  have hcount : disk.file.len / SLOT_SIZE = map.capacity := by
    rw [hfile, hlayout.len]
    exact Nat.mul_div_cancel_left _ (by decide)
  have hstart : Scanned store.file.file index map.capacity 0
      { store with
        file := disk, index := { store.index with value := ∅ }, freeSlots := [] } := by
    refine ⟨hreliable, hfile, hunpoisoned, htotal, List.nodup_nil, ?_, ?_⟩
    · intro slot
      simp
    · intro id slot
      simp
  have hscan := hstart.recoverSlots hlayout fastRecover map.capacity 0 (by omega)
  rw [← List.range_eq_range'] at hscan
  rcases hscan with ⟨hok, hscanned⟩
  have hrecover : store.recoverIndex crc32 fastRecover = (.returned (.ok ()),
      (ChunkStore.recoverSlots crc32 fastRecover
        { store with
          file := disk, index := { store.index with value := ∅ }, freeSlots := [] }
        (List.range map.capacity)).2) := by
    have hlock : ¬ store.index.poisoned = true := by simp [hunpoisoned]
    rw [ChunkStore.recoverIndex, hcall]
    simp only [if_neg hlock, hcount]
    exact Prod.ext (congrArg Outcome.returned hok) rfl
  exact ⟨_, hrecover, hscanned.represents hlayout⟩

/-! ## Restarts -/

/-- The slot count that `open` uses. -/
def slotCount (allocatedSlots : Option Nat) : Nat :=
  allocatedSlots.getD ALLOCATED_ARENA_SIZE

/-- A byte size that `set_len` accepts has not wrapped around. -/
theorem fileBytes_of_le {slots : Nat} (h : SLOT_SIZE * slots ≤ maxFileLen) :
    ChunkStore.fileBytes slots = SLOT_SIZE * slots := by
  have hle : SLOT_SIZE * slots ≤ 2 ^ 63 - 1 := h
  exact Nat.mod_eq_of_lt (by omega)

/-- `open` resizes the file and starts with an empty index. -/
theorem openFile_reliable {disk : Disk} (h : disk.Reliable) {allocatedSlots : Option Nat}
    (hslots : SLOT_SIZE * slotCount allocatedSlots ≤ maxFileLen) (options : ChunkStoreOptions) :
    ∃ store disk', ChunkStore.openFile disk allocatedSlots options =
        (.returned (.ok store), disk') ∧
      store.file.Reliable ∧
      store.file.file = disk.file.setLen (SLOT_SIZE * slotCount allocatedSlots) ∧
      store.index = RwLock.new ∅ ∧ store.freeSlots = List.range (slotCount allocatedSlots) ∧
      store.totalSlots = slotCount allocatedSlots := by
  have hfits : ¬ 2 ^ 64 ≤ SLOT_SIZE * allocatedSlots.getD ALLOCATED_ARENA_SIZE := by
    have hle : SLOT_SIZE * allocatedSlots.getD ALLOCATED_ARENA_SIZE ≤ 2 ^ 63 - 1 := hslots
    omega
  rcases Disk.call_reliable h with ⟨disk₁, hcall, hfile₁, hdisk₁⟩
  rcases Disk.setLen_reliable hdisk₁ hslots with ⟨disk₂, hsetLen, hfile₂, hdisk₂⟩
  rw [hfile₁] at hfile₂
  rw [← fileBytes_of_le hslots] at hsetLen
  unfold slotCount at hsetLen
  rw [ChunkStore.openFile, hcall]
  simp only [hsetLen, if_neg hfits]
  exact ⟨_, disk₂, rfl, hdisk₂, hfile₂, rfl, rfl, rfl⟩

/-- A restart on the same file with at least as many slots keeps the map. -/
theorem Represents.restart {store : ChunkStore} {map : BoundedMap}
    (h : Represents crc32 store map) {allocatedSlots : Option Nat}
    (hgrow : map.capacity ≤ slotCount allocatedSlots)
    (hslots : SLOT_SIZE * slotCount allocatedSlots ≤ maxFileLen) (options : ChunkStoreOptions) :
    ∃ restarted,
      ChunkStore.construct crc32 store.file true allocatedSlots options =
        .returned (.ok restarted) ∧
      Represents crc32 restarted (map.grow (slotCount allocatedSlots)) := by
  have hcapacity : (map.grow (slotCount allocatedSlots)).capacity = slotCount allocatedSlots :=
    Nat.max_eq_right hgrow
  rcases openFile_reliable h.reliable hslots options with
    ⟨opened, disk, hopen, hreliable, hfile, hindex, hfree, htotal⟩
  have hlayout := h.layout.setLen hgrow
  rw [← hfile, ← hcapacity] at hlayout
  rcases hlayout.recoverIndex hreliable (by rw [hindex]; rfl)
    (htotal.trans hcapacity.symm) options.fastRecover with
    ⟨restarted, hrecover, hrepresents⟩
  rw [ChunkStore.construct, hopen]
  simp only [if_true, hrecover]
  exact ⟨restarted, rfl, hrepresents⟩

/-- A store on a new file is empty. -/
theorem represents_construct {disk : Disk} (h : disk.Reliable) (hempty : disk.file = ByteFile.empty)
    {allocatedSlots : Option Nat} (hslots : SLOT_SIZE * slotCount allocatedSlots ≤ maxFileLen)
    (options : ChunkStoreOptions) :
    ∃ store, ChunkStore.construct crc32 disk false allocatedSlots options =
        .returned (.ok store) ∧
      Represents crc32 store (BoundedMap.empty (slotCount allocatedSlots)) := by
  rcases openFile_reliable h hslots options with
    ⟨store, disk', hopen, hreliable, hfile, hindex, hfree, htotal⟩
  have hblank : Layout crc32 ByteFile.empty 0 ∅ ∅ := by
    refine ⟨rfl, ?_, ?_, ?_, ?_, ?_⟩ <;> simp
  have hlayout := hblank.setLen (Nat.zero_le (slotCount allocatedSlots))
  rw [← hempty, ← hfile] at hlayout
  refine ⟨store, ?_, ?_⟩
  · rw [ChunkStore.construct, hopen]
    rfl
  · constructor
    · exact hreliable
    · rw [hindex]
      rfl
    · exact htotal
    · exact hlayout.len
    · rw [hindex, hfree]
      refine ⟨List.nodup_range, ?_, ?_, ?_⟩ <;> simp [RwLock.new, BoundedMap.empty]
    · rw [hindex]
      exact hlayout.live_iff
    · rw [hindex]
      exact hlayout.holds
    · intro slot hmem
      rw [hfree, List.mem_range] at hmem
      exact hlayout.blank slot hmem (by simp)

/-! ## Runs -/

/-- What can happen to a storage node. -/
inductive Request where
  | putChunk (id : UInt64) (data : Bytes)
  | getChunk (id : UInt64)
  | deleteChunk (id : UInt64)
  /-- The process ends and opens the same file again. -/
  | restart (allocatedSlots : Option Nat) (options : ChunkStoreOptions)

/-- The chunk that a request is about. -/
def Request.id? : Request → Option UInt64
  | .putChunk id _ | .getChunk id | .deleteChunk id => some id
  | .restart _ _ => none

/-- The chunk store handles a request; `none` when the process does not come up. -/
def ChunkStore.serve (crc32 : Bytes → UInt32) (self : ChunkStore) :
    Request → Option (Reply × ChunkStore)
  | .putChunk id data =>
      let (outcome, self) := self.putChunk crc32 id data
      some (outcome.reply (fun _ => .ok), self)
  | .getChunk id =>
      let (outcome, self) := self.getChunk crc32 id
      some (outcome.reply (fun (data, checksum) => .chunk data checksum), self)
  | .deleteChunk id =>
      let (outcome, self) := self.deleteChunk id
      some (outcome.reply (fun _ => .ok), self)
  | .restart allocatedSlots options =>
      match ChunkStore.construct crc32 self.file true allocatedSlots options with
      | .returned (.ok self) => some (.ok, self)
      | _ => none

/-- The bounded map handles a request. -/
def BoundedMap.serve (crc32 : Bytes → UInt32) (self : BoundedMap) : Request → Reply × BoundedMap
  | .putChunk id data => self.put id data
  | .getChunk id => (self.get crc32 id, self)
  | .deleteChunk id => (.ok, self.delete id)
  | .restart allocatedSlots _ => (.ok, self.grow (slotCount allocatedSlots))

/-- The replies to requests, one after the other. -/
def ChunkStore.run (crc32 : Bytes → UInt32) (self : ChunkStore) :
    List Request → Option (List Reply × ChunkStore)
  | [] => some ([], self)
  | request :: requests =>
      match self.serve crc32 request with
      | none => none
      | some (reply, self) =>
          (self.run crc32 requests).map fun (replies, self) => (reply :: replies, self)

/-- The replies of the map. -/
def BoundedMap.run (crc32 : Bytes → UInt32) (self : BoundedMap) :
    List Request → List Reply × BoundedMap
  | [] => ([], self)
  | request :: requests =>
      let (reply, self) := self.serve crc32 request
      let (replies, self) := self.run crc32 requests
      (reply :: replies, self)

/-- Payloads fit in a slot; a restart keeps or raises the slot count, up to what `set_len`
accepts. -/
def Request.Admissible (slots : Nat) : Request → Prop
  | .putChunk _ data => data.length ≤ SLOT_DATA_SIZE
  | .getChunk _ | .deleteChunk _ => True
  | .restart allocatedSlots _ =>
      slots ≤ slotCount allocatedSlots ∧ SLOT_SIZE * slotCount allocatedSlots ≤ maxFileLen

/-- The slot count after a request. -/
def Request.slotsAfter (slots : Nat) : Request → Nat
  | .restart allocatedSlots _ => slotCount allocatedSlots
  | _ => slots

/-- Every request of the run is admissible at the slot count it meets. -/
def Admissible (slots : Nat) : List Request → Prop
  | [] => True
  | request :: requests =>
      request.Admissible slots ∧ Admissible (request.slotsAfter slots) requests

theorem BoundedMap.capacity_serve {map : BoundedMap} {request : Request}
    (h : request.Admissible map.capacity) :
    (map.serve crc32 request).2.capacity = request.slotsAfter map.capacity := by
  cases request with
  | putChunk id data =>
      simp only [BoundedMap.serve, BoundedMap.put]
      split
      · rfl
      · split <;> rfl
  | getChunk id => rfl
  | deleteChunk id => rfl
  | restart allocatedSlots options => exact Nat.max_eq_right h.1

/-- One request: the reply of the map, and the invariant again. -/
theorem Represents.serve {store : ChunkStore} {map : BoundedMap} (h : Represents crc32 store map)
    {request : Request} (hrequest : request.Admissible map.capacity) :
    ∃ store', store.serve crc32 request = some ((map.serve crc32 request).1, store') ∧
      Represents crc32 store' (map.serve crc32 request).2 := by
  cases request with
  | putChunk id data =>
      rcases h.putChunk id hrequest with ⟨hreply, hnext⟩
      exact ⟨_, by rw [ChunkStore.serve, BoundedMap.serve, ← hreply], hnext⟩
  | getChunk id =>
      rcases h.getChunk id with ⟨hreply, hnext⟩
      exact ⟨_, by rw [ChunkStore.serve, BoundedMap.serve, ← hreply], hnext⟩
  | deleteChunk id =>
      rcases h.deleteChunk id with ⟨hreply, hnext⟩
      exact ⟨_, by simp only [ChunkStore.serve, BoundedMap.serve, hreply], hnext⟩
  | restart allocatedSlots options =>
      rcases h.restart hrequest.1 hrequest.2 options with ⟨restarted, hrestart, hnext⟩
      exact ⟨restarted, by rw [ChunkStore.serve, hrestart]; rfl, hnext⟩

/-- The invariant along a run. -/
theorem Represents.run {store : ChunkStore} {map : BoundedMap} (h : Represents crc32 store map)
    {requests : List Request} (hrequests : Admissible map.capacity requests) :
    ∃ store', store.run crc32 requests = some ((map.run crc32 requests).1, store') ∧
      Represents crc32 store' (map.run crc32 requests).2 := by
  induction requests generalizing store map with
  | nil => exact ⟨store, rfl, h⟩
  | cons request requests ih =>
      rcases h.serve hrequests.1 with ⟨store', hserve, hnext⟩
      have hrest := hrequests.2
      rw [← @BoundedMap.capacity_serve crc32 _ _ hrequests.1] at hrest
      rcases ih hnext hrest with ⟨store'', hrun, hlast⟩
      refine ⟨store'', ?_, hlast⟩
      rw [ChunkStore.run, hserve]
      simp only [hrun, Option.map_some]
      rfl

/-- No request about one id changes what the map holds for another. -/
theorem BoundedMap.get_serve_of_ne (map : BoundedMap) {request : Request} {other : UInt64}
    (hother : request.id? ≠ some other) :
    (map.serve crc32 request).2.get crc32 other = map.get crc32 other := by
  cases request with
  | putChunk id data =>
      have hne : other ≠ id := fun heq => hother (congrArg some heq.symm)
      simp only [BoundedMap.serve, BoundedMap.put]
      split
      · rfl
      · split
        · rfl
        · simp only [BoundedMap.get, HashMap.getElem?_insert_of_ne _ _ hne]
  | getChunk id => rfl
  | deleteChunk id =>
      have hne : other ≠ id := fun heq => hother (congrArg some heq.symm)
      simp only [BoundedMap.serve, BoundedMap.delete, BoundedMap.get,
        HashMap.getElem?_erase_of_ne _ hne]
  | restart allocatedSlots options => rfl

/-- `open` refuses files that are too large. -/
theorem le_maxFileLen_of_construct {disk : Disk} {allocatedSlots : Option Nat}
    {options : ChunkStoreOptions} {store : ChunkStore}
    (h : ChunkStore.construct crc32 disk false allocatedSlots options = .returned (.ok store)) :
    SLOT_SIZE * slotCount allocatedSlots ≤ maxFileLen := by
  by_contra hlarge
  have hlarge' : maxFileLen < SLOT_SIZE * allocatedSlots.getD ALLOCATED_ARENA_SIZE :=
    Nat.lt_of_not_le hlarge
  rw [ChunkStore.construct, ChunkStore.openFile] at h
  rcases hcall : disk.call with ⟨_ | _, disk'⟩
  · simp [hcall] at h
  · rw [hcall] at h
    by_cases hoverflow : 2 ^ 64 ≤ SLOT_SIZE * allocatedSlots.getD ALLOCATED_ARENA_SIZE
    · simp only [if_pos hoverflow] at h
      rcases hsize : disk'.setLen _ with ⟨_ | _, disk₂⟩ <;> rw [hsize] at h <;> cases h
    · have hexact : ChunkStore.fileBytes (allocatedSlots.getD ALLOCATED_ARENA_SIZE) =
          SLOT_SIZE * allocatedSlots.getD ALLOCATED_ARENA_SIZE :=
        Nat.mod_eq_of_lt (Nat.lt_of_not_le hoverflow)
      simp only [hexact, Disk.setLen, if_pos hlarge'] at h
      cases h

theorem le_maxFileLen_of_openFile {disk disk' : Disk} {allocatedSlots : Option Nat}
    {options : ChunkStoreOptions} {store : ChunkStore}
    (hopen : ChunkStore.openFile disk allocatedSlots options = (.returned (.ok store), disk')) :
    SLOT_SIZE * slotCount allocatedSlots ≤ maxFileLen := by
  refine @le_maxFileLen_of_construct (fun _ => 0) disk allocatedSlots options store ?_
  rw [ChunkStore.construct, hopen]
  rfl

/-- Along every run of requests, restarts included, a storage node on a new file answers
as the bounded map does, and no request changes what another id reads. -/
theorem chunkStore_refines_boundedMap (crc32 : Bytes → UInt32) (disk : Disk)
    (hdisk : disk.Reliable) (hempty : disk.file = ByteFile.empty) (allocatedSlots : Option Nat)
    (options : ChunkStoreOptions) (store : ChunkStore)
    (hopen : ChunkStore.construct crc32 disk false allocatedSlots options =
      .returned (.ok store))
    (requests : List Request) (hrequests : Admissible (slotCount allocatedSlots) requests) :
    ∃ store',
      store.run crc32 requests =
          some (((BoundedMap.empty (slotCount allocatedSlots)).run crc32 requests).1, store') ∧
        ∀ request : Request, request.Admissible store'.totalSlots → ∀ other : UInt64,
          request.id? ≠ some other → ∃ reply store'', store'.serve crc32 request =
              some (reply, store'') ∧
            (store''.serve crc32 (.getChunk other)).map Prod.fst =
              (store'.serve crc32 (.getChunk other)).map Prod.fst := by
  rcases @represents_construct crc32 _ hdisk hempty _ (le_maxFileLen_of_construct hopen)
    options with ⟨opened, hopened, hrepresents⟩
  have hsame : opened = store := by
    rw [hopened] at hopen
    injection hopen with hresult
    exact Except.ok.inj hresult
  subst hsame
  rcases hrepresents.run hrequests with ⟨store', hrun, hlast⟩
  refine ⟨store', hrun, fun request hrequest other hother => ?_⟩
  rw [hlast.totalSlots] at hrequest
  rcases hlast.serve hrequest with ⟨store'', hserve, hnext⟩
  refine ⟨_, store'', hserve, ?_⟩
  have hread : ∀ slots, Request.Admissible slots (.getChunk other) := fun _ => trivial
  rcases hnext.serve (hread _) with ⟨_, hget, _⟩
  rcases hlast.serve (hread _) with ⟨_, hget', _⟩
  rw [hget, hget']
  simp only [Option.map_some, BoundedMap.serve, Option.some.injEq]
  exact BoundedMap.get_serve_of_ne _ hother

/-- Two slots, filled, partly emptied and grown to three by a restart, on a disk that moves
one byte at a time. -/
theorem chunkStore_refines_boundedMap_twoSlots :
    ∃ store store', ChunkStore.construct Library.crc32
        ⟨ByteFile.empty, Stream'.const (.moved 1)⟩ false (some 2) ChunkStoreOptions.default =
          .returned (.ok store) ∧
      store.run Library.crc32
          [.putChunk 1 [10, 20], .putChunk 2 [], .putChunk 3 [7], .putChunk 1 [5], .getChunk 1,
            .deleteChunk 1, .getChunk 1, .restart (some 3) ChunkStoreOptions.default,
            .putChunk 3 [7], .putChunk 4 [8], .getChunk 2, .getChunk 3] =
        some ([.ok, .ok, .failed .storageFull, .failed .alreadyExists,
            .chunk [10, 20] (Library.crc32 [10, 20]), .ok, .failed .notFound, .ok, .ok, .ok,
            .chunk [] 0, .chunk [7] (Library.crc32 [7])], store') := by
  have hdisk : (⟨ByteFile.empty, Stream'.const (.moved 1)⟩ : Disk).Reliable := fun _ => ⟨0, rfl⟩
  have hfits : SLOT_SIZE * slotCount (some 2) ≤ maxFileLen := by decide
  rcases @represents_construct Library.crc32 _ hdisk rfl (some 2) hfits
    ChunkStoreOptions.default with ⟨store, hopen, _⟩
  rcases chunkStore_refines_boundedMap Library.crc32 _ hdisk rfl (some 2) ChunkStoreOptions.default
    store hopen
    [.putChunk 1 [10, 20], .putChunk 2 [], .putChunk 3 [7], .putChunk 1 [5], .getChunk 1,
      .deleteChunk 1, .getChunk 1, .restart (some 3) ChunkStoreOptions.default,
      .putChunk 3 [7], .putChunk 4 [8], .getChunk 2, .getChunk 3]
    (by simp [Admissible, Request.Admissible, Request.slotsAfter, slotCount, SLOT_DATA_SIZE,
      SLOT_SIZE, CHUNK_HEADER_SIZE, maxFileLen]) with ⟨store', hrun, _⟩
  refine ⟨store, store', hopen, hrun.trans ?_⟩
  have hreplies : ((BoundedMap.empty (slotCount (some 2))).run Library.crc32
      [.putChunk 1 [10, 20], .putChunk 2 [], .putChunk 3 [7], .putChunk 1 [5], .getChunk 1,
        .deleteChunk 1, .getChunk 1, .restart (some 3) ChunkStoreOptions.default,
        .putChunk 3 [7], .putChunk 4 [8], .getChunk 2, .getChunk 3]).1 =
      [.ok, .ok, .failed .storageFull, .failed .alreadyExists,
        .chunk [10, 20] (Library.crc32 [10, 20]), .ok, .failed .notFound, .ok, .ok, .ok,
        .chunk [] 0, .chunk [7] (Library.crc32 [7])] := by
    decide +kernel
  rw [hreplies]

end StorageNode
end ObjectStore
