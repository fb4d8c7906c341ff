import ObjectStore.StorageNode.Durability

/-!
# Storage node - Reopening with another slot count

`open` sets the length of the file before anything is read.  More slots leave every chunk where
it is; fewer slots cut off the slots at the end, which are the first to be handed out.  From
2^41 slots on the byte size wraps around: the file is cut to the wrapped length, and the
process dies on the list of free slots.

Main definitions:

- `reopen`: opening and recovering, with the file that is left.
- `SurvivesReopening`: it fails on the same file, or every chunk is returned as before.
- `keptChunks`: the chunks in the first slots.
- `KeptBy`: the slot counts that lose nothing.

Main results:

- Theorem `Layout.cut`: what a resized file holds.
- Theorem `Represents.reopen`: a reopened store has the chunks in the slots that are left.
- Theorem `reopening_keeps_chunks_iff`: when no chunk is lost.
-/

namespace ObjectStore
namespace StorageNode

open Library (ByteFile)

variable {crc32 : Bytes → UInt32}

/-! ## Reopening -/

/-- `construct` on an existing file, with the file that is left. -/
def reopen (crc32 : Bytes → UInt32) (disk : Disk) (allocatedSlots : Option Nat)
    (options : ChunkStoreOptions) : Outcome ChunkStore × ByteFile :=
  match ChunkStore.openFile disk allocatedSlots options with
  | (.returned (.ok store), _) =>
      match store.recoverIndex crc32 options.fastRecover with
      | (.returned (.ok ()), store) => (.returned (.ok store), store.file.file)
      | (.returned (.error error), store) => (.returned (.error error), store.file.file)
      | (.panicked, store) => (.panicked, store.file.file)
  | (.returned (.error error), disk) => (.returned (.error error), disk.file)
  | (.panicked, disk) => (.panicked, disk.file)

theorem reopen_eq_construct (disk : Disk) (allocatedSlots : Option Nat)
    (options : ChunkStoreOptions) :
    (reopen crc32 disk allocatedSlots options).1 =
      ChunkStore.construct crc32 disk true allocatedSlots options := by
  unfold reopen ChunkStore.construct
  rcases ChunkStore.openFile disk allocatedSlots options with ⟨(error | store) | _, disk'⟩
  · rfl
  · simp only [if_true]
    rcases store.recoverIndex crc32 options.fastRecover with ⟨(error | _) | _, recovered⟩ <;> rfl
  · rfl

/-- The file cannot be opened with the slot count and stays as it is, or the reopened store
returns every chunk that the store returned. -/
def SurvivesReopening (crc32 : Bytes → UInt32) (store : ChunkStore) (disk : Disk)
    (allocatedSlots : Option Nat) (options : ChunkStoreOptions) : Prop :=
  match reopen crc32 disk allocatedSlots options with
  | (.returned (.ok reopened), _) => ∀ id data checksum,
      (store.getChunk crc32 id).1 = .returned (.ok (data, checksum)) →
        (reopened.getChunk crc32 id).1 = .returned (.ok (data, checksum))
  | (_, file) => file = disk.file

/-- A byte size that `set_len` refuses. -/
theorem reopen_of_too_large {disk : Disk} (h : disk.Reliable) {allocatedSlots : Option Nat}
    (hlarge : maxFileLen < ChunkStore.fileBytes (slotCount allocatedSlots))
    (options : ChunkStoreOptions) :
    (∀ store, (reopen crc32 disk allocatedSlots options).1 ≠ .returned (.ok store)) ∧
      (reopen crc32 disk allocatedSlots options).2 = disk.file := by
  unfold slotCount at hlarge
  rcases Disk.call_reliable h with ⟨disk', hcall, hfile, _⟩
  unfold reopen ChunkStore.openFile
  simp only [hcall, Disk.setLen, if_pos hlarge]
  exact ⟨by simp, hfile⟩

/-- A byte size that wraps around to one that `set_len` accepts: the process dies, and the
file has the wrapped length. -/
theorem reopen_of_wrapped {disk : Disk} (h : disk.Reliable) {allocatedSlots : Option Nat}
    (hwrapped : 2 ^ 64 ≤ SLOT_SIZE * slotCount allocatedSlots)
    (hsmall : ChunkStore.fileBytes (slotCount allocatedSlots) ≤ maxFileLen)
    (options : ChunkStoreOptions) :
    reopen crc32 disk allocatedSlots options =
      (.panicked, disk.file.setLen (ChunkStore.fileBytes (slotCount allocatedSlots))) := by
  rcases Disk.call_reliable h with ⟨disk₁, hcall, hfile₁, hdisk₁⟩
  rcases Disk.setLen_reliable hdisk₁ hsmall with ⟨disk₂, hsetLen, hfile₂, _⟩
  unfold slotCount at hwrapped hsetLen
  unfold reopen ChunkStore.openFile
  simp only [hcall, hsetLen, if_pos hwrapped]
  rw [hfile₂, hfile₁]

/-- A file that `set_len` leaves as it is had that length already. -/
theorem setLen_eq_self_iff {file : ByteFile} {len : Nat} :
    file.setLen len = file ↔ len = file.len := by
  constructor
  · intro hsame
    rw [← hsame, ByteFile.len_setLen]
  · rintro rfl
    exact file.setLen_self

/-! ## The resized file -/

/-- A range in front of the new end is not touched. -/
theorem slice_setLen_of_add_le {file : ByteFile} {len offset count : Nat}
    (h : offset + count ≤ len) :
    (file.setLen len).slice offset count = file.slice offset count := by
  refine ByteFile.slice_congr fun position hle hlt => ?_
  have hinside : position < len := by omega
  simp only [ByteFile.setLen, if_pos hinside]

/-- The entries for the first `slots` slots. -/
def keptIndex (index : HashMap UInt64 Nat) (slots : Nat) : HashMap UInt64 Nat :=
  index.filter fun _ slot => decide (slot < slots)

/-- The chunks in the first `slots` slots. -/
def keptChunks (index : HashMap UInt64 Nat) (live : HashMap UInt64 Bytes) (slots : Nat) :
    HashMap UInt64 Bytes :=
  live.filter fun id _ => decide (id ∈ keptIndex index slots)

@[simp]
theorem getElem?_keptIndex_eq_some_iff {index : HashMap UInt64 Nat} {slots : Nat} {id : UInt64}
    {slot : Nat} :
    (keptIndex index slots)[id]? = some slot ↔ index[id]? = some slot ∧ slot < slots := by
  simp [keptIndex, Option.filter_eq_some_iff]

theorem mem_keptIndex_iff {index : HashMap UInt64 Nat} {slots : Nat} {id : UInt64} :
    id ∈ keptIndex index slots ↔ ∃ slot, index[id]? = some slot ∧ slot < slots := by
  rw [HashMap.mem_iff_exists_getElem?]
  simp only [getElem?_keptIndex_eq_some_iff]

@[simp]
theorem getElem?_keptChunks_eq_some_iff {index : HashMap UInt64 Nat}
    {live : HashMap UInt64 Bytes} {slots : Nat} {id : UInt64} {data : Bytes} :
    (keptChunks index live slots)[id]? = some data ↔
      live[id]? = some data ∧ id ∈ keptIndex index slots := by
  simp [keptChunks, Option.filter_eq_some_iff]

/-- The resized file holds the chunks in the slots that it still has; new slots are blank. -/
theorem Layout.cut {file : ByteFile} {slots : Nat} {index : HashMap UInt64 Nat}
    {live : HashMap UInt64 Bytes} (h : Layout crc32 file slots index live) (slots' : Nat) :
    Layout crc32 (file.setLen (SLOT_SIZE * slots')) slots' (keptIndex index slots')
      (keptChunks index live slots') := by
  have hrange : ∀ slot < slots', ∀ count ≤ SLOT_SIZE,
      slot * SLOT_SIZE + count ≤ SLOT_SIZE * slots' := by
    intro slot hslot count hcount
    simp only [SLOT_SIZE] at *
    omega
  have hheader : ∀ slot < slots',
      headerAt (file.setLen (SLOT_SIZE * slots')) slot = headerAt file slot := by
    intro slot hslot
    have hsmall : CHUNK_HEADER_SIZE ≤ SLOT_SIZE := by decide
    rw [headerAt, headerAt, slice_setLen_of_add_le (hrange slot hslot _ hsmall)]
  have hpayload : ∀ slot < slots', ∀ len ≤ SLOT_DATA_SIZE,
      payloadAt (file.setLen (SLOT_SIZE * slots')) slot len = payloadAt file slot len := by
    intro slot hslot len hlen
    have hsmall : CHUNK_HEADER_SIZE + len ≤ SLOT_SIZE := by
      simp only [SLOT_DATA_SIZE, SLOT_SIZE, CHUNK_HEADER_SIZE] at *
      omega
    have hinside := hrange slot hslot _ hsmall
    rw [← Nat.add_assoc] at hinside
    rw [payloadAt, payloadAt, slice_setLen_of_add_le hinside]
  constructor
  · rfl
  · intro id slot hid
    exact (getElem?_keptIndex_eq_some_iff.mp hid).2
  · intro id id' slot hid hid'
    exact h.injective id id' slot (getElem?_keptIndex_eq_some_iff.mp hid).1
      (getElem?_keptIndex_eq_some_iff.mp hid').1
  · intro id
    constructor
    · intro hmem
      rcases mem_keptIndex_iff.mp hmem with ⟨slot, hslot, _⟩
      have hlive := (h.live_iff id).mp (HashMap.mem_iff_exists_getElem?.mpr ⟨slot, hslot⟩)
      rcases HashMap.mem_iff_exists_getElem?.mp hlive with ⟨data, hdata⟩
      exact HashMap.mem_iff_exists_getElem?.mpr
        ⟨data, getElem?_keptChunks_eq_some_iff.mpr ⟨hdata, hmem⟩⟩
    · intro hmem
      rcases HashMap.mem_iff_exists_getElem?.mp hmem with ⟨data, hdata⟩
      exact (getElem?_keptChunks_eq_some_iff.mp hdata).2
  · intro id slot data hid hdata
    rcases getElem?_keptIndex_eq_some_iff.mp hid with ⟨hindex, hslot⟩
    have hholds := h.holds id slot data hindex (getElem?_keptChunks_eq_some_iff.mp hdata).1
    exact ⟨hholds.length, (hheader slot hslot).trans hholds.header,
      (hpayload slot hslot _ hholds.length).trans hholds.payload⟩
  · intro slot hslot hunused
    rw [hheader slot hslot]
    by_cases hold : slot < slots
    · refine h.blank slot hold fun id hid => hunused id ?_
      exact getElem?_keptIndex_eq_some_iff.mpr ⟨hid, hslot⟩
    · refine magic_headerAt_of_len_le ?_
      rw [h.len, Nat.mul_comm]
      exact Nat.mul_le_mul_right _ (Nat.le_of_not_lt hold)

/-- Chunks in different slots are no more than the slots. -/
theorem Layout.size_le {file : ByteFile} {slots : Nat} {index : HashMap UInt64 Nat}
    {live : HashMap UInt64 Bytes} (h : Layout crc32 file slots index live) :
    live.size ≤ slots := by
  have hnodup : index.valueList.Nodup := HashMap.nodup_valueList h.injective
  have hsub : index.valueList ⊆ List.range slots := by
    intro slot hmem
    rcases HashMap.mem_valueList.mp hmem with ⟨id, hid⟩
    exact List.mem_range.mpr (h.lt id slot hid)
  have hle := (List.subperm_of_subset hnodup hsub).length_le
  rw [HashMap.length_valueList, List.length_range] at hle
  rwa [← HashMap.size_eq_of_mem_iff h.live_iff]

/-! ## The reopened store -/

variable {store : ChunkStore} {map : BoundedMap}

/-- The map with the chunks in the first `slots` slots. -/
def Represents.cut (h : Represents crc32 store map) (slots : Nat) : BoundedMap where
  capacity := slots
  live := keptChunks store.index.value map.live slots
  bounded := (h.layout.cut slots).size_le

/-- A reopened store has the chunks in the slots that are left. -/
theorem Represents.reopen (h : Represents crc32 store map) {disk : Disk} (hdisk : disk.Reliable)
    (hfile : disk.file = store.file.file) {allocatedSlots : Option Nat}
    (hslots : SLOT_SIZE * slotCount allocatedSlots ≤ maxFileLen) (options : ChunkStoreOptions) :
    ∃ reopened, (StorageNode.reopen crc32 disk allocatedSlots options).1 =
        .returned (.ok reopened) ∧
      Represents crc32 reopened (h.cut (slotCount allocatedSlots)) := by
  rcases openFile_reliable hdisk hslots options with
    ⟨opened, disk', hopen, hreliable, hresized, hindex, _, htotal⟩
  have hlayout := h.layout.cut (slotCount allocatedSlots)
  rw [← hfile, ← hresized] at hlayout
  have hcut : Layout crc32 opened.file.file (h.cut (slotCount allocatedSlots)).capacity _
    (h.cut (slotCount allocatedSlots)).live := hlayout
  rcases hcut.recoverIndex hreliable (by rw [hindex]; rfl) htotal options.fastRecover with
    ⟨reopened, hrecover, hrepresents⟩
  refine ⟨reopened, ?_, hrepresents⟩
  rw [StorageNode.reopen, hopen]
  simp only [hrecover]

/-- The store returns the chunks of the map. -/
theorem Represents.getChunk_eq_iff (h : Represents crc32 store map) {id : UInt64} {data : Bytes}
    {checksum : UInt32} :
    (store.getChunk crc32 id).1 = .returned (.ok (data, checksum)) ↔
      map.live[id]? = some data ∧ checksum = crc32 data := by
  have hreply := (h.getChunk id).1
  rw [BoundedMap.get] at hreply
  constructor
  · intro houtcome
    rw [houtcome] at hreply
    cases hlive : map.live[id]? with
    | none =>
        rw [hlive] at hreply
        cases hreply
    | some found =>
        rw [hlive] at hreply
        cases hreply
        exact ⟨rfl, rfl⟩
  · rintro ⟨hlive, hchecksum⟩
    rw [hlive] at hreply
    rcases houtcome : (store.getChunk crc32 id).1 with (error | ⟨found, sum⟩) | _ <;>
      rw [houtcome] at hreply <;> cases hreply
    rw [hchecksum]

/-- A slot count that fits survives exactly if every chunk is in a slot that is left. -/
theorem Represents.survives_iff (h : Represents crc32 store map) {disk : Disk}
    (hdisk : disk.Reliable) (hfile : disk.file = store.file.file) {allocatedSlots : Option Nat}
    (hslots : SLOT_SIZE * slotCount allocatedSlots ≤ maxFileLen) (options : ChunkStoreOptions) :
    SurvivesReopening crc32 store disk allocatedSlots options ↔
      ∀ (id : UInt64) (slot : Nat), store.index.value[id]? = some slot →
        slot < slotCount allocatedSlots := by
  rcases h.reopen hdisk hfile hslots options with ⟨reopened, hreopen, hrepresents⟩
  rw [SurvivesReopening]
  rcases houtcome : StorageNode.reopen crc32 disk allocatedSlots options with ⟨outcome, file⟩
  rw [houtcome] at hreopen
  simp only at hreopen
  subst hreopen
  simp only [h.getChunk_eq_iff, hrepresents.getChunk_eq_iff]
  constructor
  · intro hsurvives id slot hslot
    rcases h.exists_data hslot with ⟨data, hdata⟩
    have hkept := (hsurvives id data _ ⟨hdata, rfl⟩).1
    rcases mem_keptIndex_iff.mp (getElem?_keptChunks_eq_some_iff.mp hkept).2 with
      ⟨found, hfound, hlt⟩
    cases hslot.symm.trans hfound
    exact hlt
  · rintro hall id data checksum ⟨hdata, hchecksum⟩
    have hmem := (h.live_iff id).mpr (HashMap.mem_iff_exists_getElem?.mpr ⟨data, hdata⟩)
    rcases HashMap.mem_iff_exists_getElem?.mp hmem with ⟨slot, hslot⟩
    have hkept := mem_keptIndex_iff.mpr ⟨slot, hslot, hall id slot hslot⟩
    exact ⟨getElem?_keptChunks_eq_some_iff.mpr ⟨hdata, hkept⟩, hchecksum⟩

/-- When reopening with `slots` slots loses nothing: `set_len` refuses the byte size, or every
chunk is in a slot that is left, or the byte size wraps around to the length of the file. -/
def KeptBy (store : ChunkStore) (slots : Nat) : Prop :=
  maxFileLen < ChunkStore.fileBytes slots ∨
    (SLOT_SIZE * slots < 2 ^ 64 ∧
      ∀ (id : UInt64) (slot : Nat), store.index.value[id]? = some slot → slot < slots) ∨
    (2 ^ 64 ≤ SLOT_SIZE * slots ∧ ChunkStore.fileBytes slots = store.file.file.len)

/-- After any run of requests on a new file, reopening it with any slot count loses no chunk,
or fails without touching the file, exactly if `open` refuses the byte size, or every chunk is
in a slot that is left, or the process dies with the file at the length that it had. -/
theorem reopening_keeps_chunks_iff (crc32 : Bytes → UInt32) (disk : Disk)
    (hdisk : disk.Reliable) (hempty : disk.file = ByteFile.empty) (allocatedSlots : Option Nat)
    (options : ChunkStoreOptions) (store : ChunkStore)
    (hopen : ChunkStore.construct crc32 disk false allocatedSlots options =
      .returned (.ok store))
    (requests : List Request) (hrequests : Admissible (slotCount allocatedSlots) requests)
    (replies : List Reply) (reached : ChunkStore)
    (hrun : store.run crc32 requests = some (replies, reached)) (disk' : Disk)
    (hdisk' : disk'.Reliable) (hfile : disk'.file = reached.file.file)
    (allocatedSlots' : Option Nat) (options' : ChunkStoreOptions) :
    SurvivesReopening crc32 reached disk' allocatedSlots' options' ↔
      KeptBy reached (slotCount allocatedSlots') := by
  rcases @represents_construct crc32 _ hdisk hempty _ (le_maxFileLen_of_construct hopen)
    options with ⟨opened, hopened, hrepresents⟩
  cases hopened.symm.trans hopen
  rcases hrepresents.run hrequests with ⟨last, hlast, hreached⟩
  cases hlast.symm.trans hrun
  by_cases hlarge : maxFileLen < ChunkStore.fileBytes (slotCount allocatedSlots')
  · refine iff_of_true ?_ (.inl hlarge)
    rcases @reopen_of_too_large crc32 _ hdisk' _ hlarge options' with ⟨hfails, hsame⟩
    rw [SurvivesReopening]
    split
    · rename_i reopened file heq
      exact absurd (congrArg Prod.fst heq) (hfails reopened)
    · rename_i outcome file _ heq
      rw [heq] at hsame
      exact hsame
  · rw [KeptBy, or_iff_right hlarge]
    rcases Nat.lt_or_ge (SLOT_SIZE * slotCount allocatedSlots') (2 ^ 64) with hexact | hwrapped
    · have hbytes : ChunkStore.fileBytes (slotCount allocatedSlots') =
          SLOT_SIZE * slotCount allocatedSlots' := Nat.mod_eq_of_lt hexact
      rw [hbytes] at hlarge
      rw [hreached.survives_iff hdisk' hfile (Nat.le_of_not_lt hlarge) options',
        or_iff_left (fun hwrapped => absurd hwrapped.1 (Nat.not_le.mpr hexact)),
        and_iff_right hexact]
    · rw [or_iff_right (fun hfits => absurd hfits.1 (Nat.not_lt.mpr hwrapped)),
        and_iff_right hwrapped, SurvivesReopening,
        reopen_of_wrapped hdisk' hwrapped (Nat.le_of_not_lt hlarge), ← hfile]
      exact setLen_eq_self_iff

/-! ## A store cut in half -/

/-- The slots of the used ids after one put on a store that could be opened. -/
def indexAfterPut (opened : Outcome ChunkStore) : Option (List (UInt64 × Nat)) :=
  match opened with
  | .returned (.ok store) =>
      (store.run Library.crc32 [.putChunk 7 [1]]).map fun run => run.2.index.value.toList
  | .returned (.error _) | .panicked => none

/-- The same on a new file with two slots. -/
theorem run_put_twoSlots :
    ∃ store replies reached,
      ChunkStore.construct Library.crc32 (sound ByteFile.empty) false (some 2)
        ChunkStoreOptions.default = .returned (.ok store) ∧
      Admissible (slotCount (some 2)) [.putChunk 7 [1]] ∧
      store.run Library.crc32 [.putChunk 7 [1]] = some (replies, reached) ∧
      reached.index.value.toList = [(7, 1)] := by
  have hadmissible : Admissible (slotCount (some 2)) [.putChunk 7 [1]] := by
    simp [Admissible, Request.Admissible, SLOT_DATA_SIZE, SLOT_SIZE, CHUNK_HEADER_SIZE]
  have hslots : SLOT_SIZE * slotCount (some 2) ≤ maxFileLen := by decide
  rcases @represents_construct Library.crc32 _ (sound_reliable ByteFile.empty) rfl (some 2) hslots
    ChunkStoreOptions.default with ⟨store, hopen, hrepresents⟩
  rcases hrepresents.run hadmissible with ⟨reached, hrun, _⟩
  refine ⟨store, _, reached, hopen, hadmissible, hrun, ?_⟩
  have hindex : indexAfterPut (ChunkStore.construct Library.crc32 (sound ByteFile.empty) false
      (some 2) ChunkStoreOptions.default) = some [(7, 1)] := by
    decide +kernel
  rw [hopen] at hindex
  simp only [indexAfterPut, hrun, Option.map_some, Option.some.injEq] at hindex
  exact hindex

/-- Three slots have room for the chunk in the second one. -/
theorem reopening_keeps_chunks_iff_grown :
    ∃ reached, reached.index.value.toList = [((7 : UInt64), 1)] ∧
      SurvivesReopening Library.crc32 reached (sound reached.file.file) (some 3)
        ChunkStoreOptions.default := by
  rcases run_put_twoSlots with ⟨store, replies, reached, hopen, hadmissible, hrun, hindex⟩
  refine ⟨reached, hindex, ?_⟩
  refine (reopening_keeps_chunks_iff Library.crc32 _ (sound_reliable _) rfl (some 2)
    ChunkStoreOptions.default store hopen _ hadmissible replies reached hrun
    (sound reached.file.file) (sound_reliable _) rfl (some 3) ChunkStoreOptions.default).mpr ?_
  refine .inr (.inl ⟨by decide, fun id slot hslot => ?_⟩)
  have hmem := Std.ExtTreeMap.mem_toList_iff_getElem?_eq_some.mpr hslot
  rw [hindex] at hmem
  cases List.mem_singleton.mp hmem
  decide

/-- The only chunk of two slots is in the second one, and one slot has no room for it: it is
gone, and the file has been cut. -/
theorem shrinking_loses_chunk :
    ∃ store replies reached,
      ChunkStore.construct Library.crc32 (sound ByteFile.empty) false (some 2)
        ChunkStoreOptions.default = .returned (.ok store) ∧
      store.run Library.crc32 [.putChunk 7 [1]] = some (replies, reached) ∧
      ¬ SurvivesReopening Library.crc32 reached (sound reached.file.file) (some 1)
        ChunkStoreOptions.default := by
  rcases run_put_twoSlots with ⟨store, replies, reached, hopen, hadmissible, hrun, hindex⟩
  refine ⟨store, replies, reached, hopen, hrun, fun hsurvives => ?_⟩
  have hslots : SLOT_SIZE * slotCount (some 2) ≤ maxFileLen := by decide
  rcases @represents_construct Library.crc32 _ (sound_reliable ByteFile.empty) rfl (some 2) hslots
    ChunkStoreOptions.default with ⟨opened, hopened, hrepresents⟩
  cases hopened.symm.trans hopen
  rcases hrepresents.run hadmissible with ⟨last, hlast, hreached⟩
  cases hlast.symm.trans hrun
  have hslot : reached.index.value[(7 : UInt64)]? = some 1 := by
    refine Std.ExtTreeMap.mem_toList_iff_getElem?_eq_some.mp ?_
    rw [hindex]
    exact List.mem_singleton_self _
  have hone : SLOT_SIZE * slotCount (some 1) ≤ maxFileLen := by decide
  have hall := (hreached.survives_iff (sound_reliable _) rfl hone
    ChunkStoreOptions.default).mp hsurvives
  exact absurd (hall 7 1 hslot) (by decide)

end StorageNode
end ObjectStore
