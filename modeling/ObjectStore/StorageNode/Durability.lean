import ObjectStore.StorageNode.Reopening

/-!
# Storage node - Acknowledged chunks across a restart

A put that returned `Ok` promises the chunk until somebody tries to delete it.  The slot
that the index names keeps the chunk whatever else fails.  A failed put or delete may
however leave a chunk of the same id in a slot that the index has forgotten, and the scan of
a restart lets the last slot win.

Main definitions:

- `acknowledged`: what the replies of a run promise about an id.
- `Kept`: the promise is on disk.
- `Tidy`, `failsClean`: no forgotten chunks, and the failures that leave none.

Main results:

- Theorem `SlotTable.Step.kept`: every request keeps the promises.
- Theorem `acknowledged_survive_iff`: when a restart keeps an acknowledged chunk.
- Theorem `deleted_chunk_shadows_retry`: a failed delete, a retry and a restart.
-/

namespace ObjectStore
namespace StorageNode

open Library (ByteFile)

variable {crc32 : Bytes → UInt32}

/-! ## Promises -/

/-- A successful put promises its payload; an attempted delete ends the promise. -/
def acknowledge (id : UInt64) (promised : Option Bytes) : Operation × Reply → Option Bytes
  | (.request (.putChunk other data), .ok) => if other = id then some data else promised
  | (.request (.deleteChunk other), _) => if other = id then none else promised
  | _ => promised

/-- The payload of the last successful put of an id, unless a delete of it was attempted
since. -/
def acknowledged (id : UInt64) (entries : List (Operation × Reply)) : Option Bytes :=
  entries.foldl (acknowledge id) none

/-- Only a successful put makes a promise. -/
theorem promised_of_acknowledge {id : UInt64} {promised : Option Bytes} {data : Bytes}
    {operation : Operation} {reply : Reply}
    (hput : ∀ other payload, operation = .request (.putChunk other payload) → reply ≠ .ok)
    (h : acknowledge id promised (operation, reply) = some data) : promised = some data := by
  cases operation with
  | recoverIndex fastRecover => exact h
  | request request =>
      cases request with
      | getChunk other => exact h
      | restart allocatedSlots options => exact h
      | deleteChunk other =>
          simp only [acknowledge] at h
          split at h
          · cases h
          · exact h
      | putChunk other payload =>
          cases reply with
          | ok => exact absurd rfl (hput other payload rfl)
          | chunk | failed | panicked => exact h

/-- The chunk that is promised lies in the slot that the index names. -/
def Kept (crc32 : Bytes → UInt32) (table : SlotTable) (id : UInt64) (promised : Option Bytes) :
    Prop :=
  ∀ data, promised = some data →
    ∃ slot, table.index[id]? = some slot ∧ chunkAt crc32 table.file slot = some (id, data)

namespace SlotTable

variable {table table' : SlotTable} {operation : Operation} {reply : Reply} {id : UInt64}
  {promised : Option Bytes}

/-- A slot that an id uses is not the one that is handed out. -/
theorem WellFormed.ne_top (h : table.WellFormed) {rest : List Nat} {slot other : Nat}
    (hfree : table.freeSlots = rest ++ [slot]) (hid : table.index[id]? = some other) :
    other ≠ slot := by
  intro heq
  exact (h.pop hfree).2.1.ne id (heq ▸ hid)

theorem WellFormed.ne_of_ne (h : table.WellFormed) {id' : UInt64} {slot slot' : Nat}
    (hne : id' ≠ id) (hid : table.index[id]? = some slot) (hid' : table.index[id']? = some slot') :
    slot' ≠ slot := by
  intro heq
  exact hne (h.apart.injective id' id slot (heq ▸ hid') hid)

/-- An erased id takes no promise of another id with it. -/
theorem WellFormed.kept_erase (hwell : table.WellFormed) (h : Kept crc32 table id promised)
    {other : UInt64} {slot : Nat} (hid : table.index[other]? = some slot) (hne : other ≠ id)
    {bytes : Bytes} (hbytes : bytes.length ≤ SLOT_SIZE) {data : Bytes}
    (hdata : promised = some data) :
    ∃ owner, (table.index.erase other)[id]? = some owner ∧
      chunkAt crc32 (table.file.splice (slot * SLOT_SIZE) bytes) owner = some (id, data) := by
  rcases h data hdata with ⟨owner, howner, hchunk⟩
  refine ⟨owner, ?_, ?_⟩
  · rw [HashMap.getElem?_erase_of_ne _ (Ne.symm hne)]
    exact howner
  · rw [chunkAt_splice_of_ne _ (hwell.ne_of_ne (Ne.symm hne) hid howner) hbytes]
    exact hchunk

/-- Every request keeps the promises. -/
theorem Step.kept (hstep : Step crc32 table operation reply table') (hwell : table.WellFormed)
    (hrequest : operation.id?.isSome) (h : Kept crc32 table id promised) :
    Kept crc32 table' id (acknowledge id promised (operation, reply)) := by
  intro data hdata
  cases hstep with
  | idle hput hpanic => exact h data (promised_of_acknowledge hput hdata)
  | @stored other payload rest slot hfree hid hfits =>
      simp only [acknowledge] at hdata
      by_cases heq : other = id
      · rw [if_pos heq, Option.some.injEq] at hdata
        subst heq hdata
        exact ⟨slot, Std.ExtTreeMap.getElem?_insert_self, chunkAt_splice _ slot other hfits⟩
      · rw [if_neg heq] at hdata
        rcases h data hdata with ⟨owner, howner, hchunk⟩
        refine ⟨owner, ?_, ?_⟩
        · rw [HashMap.getElem?_insert_of_ne _ _ (Ne.symm heq)]
          exact howner
        · rw [chunkAt_splice_of_ne _ (hwell.ne_top hfree howner) (length_chunkBytes_le other hfits)]
          exact hchunk
  | @torn other payload rest slot count kind hfree hid hfits hcount =>
      rcases h data (promised_of_acknowledge (by simp) hdata) with ⟨owner, howner, hchunk⟩
      refine ⟨owner, howner, ?_⟩
      rw [chunkAt_splice_of_ne _ (hwell.ne_top hfree howner)
        (length_take_chunkBytes_le other hfits count)]
      exact hchunk
  | oversized hfree hfits => exact h data (promised_of_acknowledge (by simp) hdata)
  | @deleted other slot hid =>
      have hne : other ≠ id := by
        intro heq
        simp [acknowledge, heq] at hdata
      exact hwell.kept_erase h hid hne (length_zeros_le (Nat.le_refl _))
        (promised_of_acknowledge (by simp) hdata)
  | @leaked other slot count kind hid hcount =>
      have hne : other ≠ id := by
        intro heq
        simp [acknowledge, heq] at hdata
      exact hwell.kept_erase h hid hne (length_zeros_le hcount)
        (promised_of_acknowledge (by simp) hdata)
  | rescanned | reopened => cases hrequest

end SlotTable

/-- The promises along a run. -/
theorem history_kept {store : ChunkStore} (hwell : store.table.WellFormed)
    {operations : List Operation} (hrequests : ∀ operation ∈ operations, operation.id?.isSome)
    {entries : List (Operation × Reply)} {last : ChunkStore}
    (hrun : store.history crc32 operations = some (entries, last)) {id : UInt64}
    {promised : Option Bytes} (h : Kept crc32 store.table id promised) :
    Kept crc32 last.table id (entries.foldl (acknowledge id) promised) ∧
      last.totalSlots = store.totalSlots := by
  induction operations generalizing store entries promised with
  | nil =>
      cases hrun
      exact ⟨h, rfl⟩
  | cons operation operations ih =>
      rcases ChunkStore.history_cons hrun with ⟨reply, next, rest, hperform, hrest, hentries⟩
      have hstep := ChunkStore.perform_step hwell hperform
      have hfirst := hrequests operation (by simp)
      rcases ih (hstep.wellFormed hwell)
        (fun other hmem => hrequests other (List.mem_cons_of_mem _ hmem)) hrest
        (hstep.kept hwell hfirst h) with ⟨hkept, htotal⟩
      rw [hentries, List.foldl_cons]
      exact ⟨hkept, htotal.trans (hstep.totalSlots hfirst)⟩

/-! ## Failures that leave no chunk -/

/-- Every chunk in the file is the one that the index names for its id. -/
def Tidy (crc32 : Bytes → UInt32) (table : SlotTable) : Prop :=
  ∀ slot id data, chunkAt crc32 table.file slot = some (id, data) → table.index[id]? = some slot

/-- A put or delete that fails leaves no chunk in the slot it was working on. -/
def failsClean (crc32 : Bytes → UInt32) (table : SlotTable) (operation : Operation)
    (reply : Reply) (table' : SlotTable) : Bool :=
  match operation, reply with
  | .request (.putChunk _ _), .failed _ =>
      (table.freeSlots.getLast?.bind (chunkAt crc32 table'.file)).isNone
  | .request (.deleteChunk id), .failed _ =>
      (table.index[id]?.bind (chunkAt crc32 table'.file)).isNone
  | _, _ => true

theorem failsClean_putChunk {table table' : SlotTable} {id : UInt64} {data : Bytes}
    {kind : ErrorKind} {slot : Nat} (hslot : table.freeSlots.getLast? = some slot)
    (h : failsClean crc32 table (.request (.putChunk id data)) (.failed kind) table' = true) :
    chunkAt crc32 table'.file slot = none := by
  have hnone : (table.freeSlots.getLast?.bind (chunkAt crc32 table'.file)).isNone = true := h
  rw [hslot, Option.bind_some] at hnone
  exact Option.isNone_iff_eq_none.mp hnone

theorem failsClean_deleteChunk {table table' : SlotTable} {id : UInt64} {kind : ErrorKind}
    {slot : Nat} (hid : table.index[id]? = some slot)
    (h : failsClean crc32 table (.request (.deleteChunk id)) (.failed kind) table' = true) :
    chunkAt crc32 table'.file slot = none := by
  have hnone : (table.index[id]?.bind (chunkAt crc32 table'.file)).isNone = true := h
  rw [hid, Option.bind_some] at hnone
  exact Option.isNone_iff_eq_none.mp hnone

theorem chunkAt_zeroed (file : ByteFile) (slot : Nat) :
    chunkAt crc32 (file.splice (slot * SLOT_SIZE) (List.replicate CHUNK_HEADER_SIZE 0)) slot =
      none := by
  rw [chunkAt, if_neg (headerAt_zeroed file slot)]

/-- A new file is tidy. -/
theorem tidy_of_blank {table : SlotTable} (h : ∀ position, table.file.byteAt position = 0) :
    Tidy crc32 table := by
  intro slot id data hchunk
  rw [chunkAt_eq_some_iff, magic_headerAt_iff, h] at hchunk
  exact absurd hchunk.1.1 (by decide)

namespace SlotTable

variable {table table' : SlotTable} {operation : Operation} {reply : Reply}

/-- An erased id whose slot holds no chunk any more. -/
theorem getElem?_erase_of_tidy (h : Tidy crc32 table) {id : UInt64} {slot : Nat}
    (hid : table.index[id]? = some slot) {bytes : Bytes}
    (hbytes : bytes.length ≤ SLOT_SIZE)
    (hnone : chunkAt crc32 (table.file.splice (slot * SLOT_SIZE) bytes) slot = none)
    {other : Nat} {found : UInt64} {data : Bytes}
    (hchunk : chunkAt crc32 (table.file.splice (slot * SLOT_SIZE) bytes) other =
      some (found, data)) :
    (table.index.erase id)[found]? = some other := by
  have hother : other ≠ slot := by
    intro heq
    rw [heq, hnone] at hchunk
    cases hchunk
  rw [chunkAt_splice_of_ne _ hother hbytes] at hchunk
  have howner := h other found data hchunk
  have hne : found ≠ id := by
    intro heq
    rw [heq, hid] at howner
    exact hother (Option.some.inj howner).symm
  rw [HashMap.getElem?_erase_of_ne _ hne]
  exact howner

/-- Requests that fail cleanly forget no chunk. -/
theorem Step.tidy (hstep : Step crc32 table operation reply table')
    (hrequest : operation.id?.isSome)
    (hclean : failsClean crc32 table operation reply table' = true) (h : Tidy crc32 table) :
    Tidy crc32 table' := by
  intro other found data hchunk
  cases hstep with
  | idle hput hpanic => exact h other found data hchunk
  | @stored id payload rest slot hfree hid hfits =>
      by_cases heq : other = slot
      · subst heq
        rw [chunkAt_splice _ _ _ hfits, Option.some.injEq, Prod.mk.injEq] at hchunk
        rw [← hchunk.1]
        exact Std.ExtTreeMap.getElem?_insert_self
      · rw [chunkAt_splice_of_ne _ heq (length_chunkBytes_le id hfits)] at hchunk
        have howner := h other found data hchunk
        have hne : found ≠ id := by
          intro hfound
          rw [← hfound] at hid
          exact hid (HashMap.mem_iff_exists_getElem?.mpr ⟨other, howner⟩)
        rw [HashMap.getElem?_insert_of_ne _ _ hne]
        exact howner
  | @torn id payload rest slot count kind hfree hid hfits hcount =>
      have hother : other ≠ slot := by
        intro heq
        rw [heq, failsClean_putChunk (by rw [hfree, List.getLast?_concat]) hclean] at hchunk
        cases hchunk
      rw [chunkAt_splice_of_ne _ hother (length_take_chunkBytes_le id hfits count)] at hchunk
      exact h other found data hchunk
  | oversized hfree hfits => exact h other found data hchunk
  | deleted hid =>
      exact getElem?_erase_of_tidy h hid (length_zeros_le (Nat.le_refl _))
        (chunkAt_zeroed _ _) hchunk
  | leaked hid hcount =>
      have hnone := failsClean_deleteChunk hid hclean
      exact getElem?_erase_of_tidy h hid (length_zeros_le hcount) hnone hchunk
  | rescanned | reopened => cases hrequest

end SlotTable

theorem history_tidy {store : ChunkStore} (hwell : store.table.WellFormed)
    {operations : List Operation} (hrequests : ∀ operation ∈ operations, operation.id?.isSome)
    {entries : List (Operation × Reply)} {last : ChunkStore}
    (hrun : store.history crc32 operations = some (entries, last))
    (hclean : store.stepsMeet crc32 (failsClean crc32) operations = true)
    (h : Tidy crc32 store.table) : Tidy crc32 last.table := by
  induction operations generalizing store entries with
  | nil =>
      cases hrun
      exact h
  | cons operation operations ih =>
      rcases ChunkStore.history_cons hrun with ⟨reply, next, rest, hperform, hrest, _⟩
      rcases ChunkStore.stepsMeet_cons hclean hperform with ⟨hfirst, hlater⟩
      have hstep := ChunkStore.perform_step hwell hperform
      exact ih (hstep.wellFormed hwell)
        (fun other hmem => hrequests other (List.mem_cons_of_mem _ hmem)) hrest hlater
        (hstep.tidy (hrequests operation (by simp)) hfirst h)

/-! ## Restarts -/

/-- A store came up only on a file that `set_len` accepts. -/
theorem exists_openFile {disk : Disk} {recover : Bool} {allocatedSlots : Option Nat}
    {options : ChunkStoreOptions} {store : ChunkStore}
    (hopen : ChunkStore.construct crc32 disk recover allocatedSlots options =
      .returned (.ok store)) :
    ∃ opened disk', ChunkStore.openFile disk allocatedSlots options =
      (.returned (.ok opened), disk') := by
  unfold ChunkStore.construct at hopen
  rcases hfile : ChunkStore.openFile disk allocatedSlots options with
    ⟨(error | opened) | _, disk'⟩ <;>
    rw [hfile] at hopen
  · cases hopen
  · exact ⟨opened, disk', rfl⟩
  · cases hopen

/-- After a run and a restart, an acknowledged chunk has a copy in the slot that the index
named, and its last copy is what is read. -/
theorem history_reread {disk : Disk} {recover : Bool} {allocatedSlots : Option Nat}
    {options : ChunkStoreOptions} {store : ChunkStore}
    (hopen : ChunkStore.construct crc32 disk recover allocatedSlots options =
      .returned (.ok store))
    {operations : List Operation} (hrequests : ∀ operation ∈ operations, operation.id?.isSome)
    {entries : List (Operation × Reply)} {last : ChunkStore}
    (hrun : store.history crc32 operations = some (entries, last)) {id : UInt64} {data : Bytes}
    (hacknowledged : acknowledged id entries = some data) {reopened : Disk}
    (hreliable : reopened.Reliable) (hfile : reopened.file = last.file.file)
    {options' : ChunkStoreOptions} (hslow : options'.fastRecover = false) :
    ∃ restarted owner winner payload,
      ChunkStore.construct crc32 reopened true allocatedSlots options' =
        .returned (.ok restarted) ∧
      last.index.value[id]? = some owner ∧
      chunkAt crc32 last.file.file owner = some (id, data) ∧
      LastCopy crc32 last.file.file (slotCount allocatedSlots) id winner ∧
      chunkAt crc32 last.file.file winner = some (id, payload) ∧
      (restarted.getChunk crc32 id).1 = .returned (.ok (payload, crc32 payload)) := by
  have hwell := ChunkStore.wellFormed_of_construct hopen
  have hstart : store.totalSlots = slotCount allocatedSlots :=
    congrArg SlotTable.totalSlots (ChunkStore.table_of_construct hopen).2
  have hnone : Kept crc32 store.table id none := by
    intro data hdata
    cases hdata
  rcases history_kept hwell hrequests hrun hnone with ⟨hkept, htotal⟩
  have hlastWell := ChunkStore.history_wellFormed hwell hrun
  have hslots : last.totalSlots = slotCount allocatedSlots := htotal.trans hstart
  have hlen : last.file.file.len = SLOT_SIZE * slotCount allocatedSlots := by
    rw [← hslots]
    exact hlastWell.len
  rcases exists_openFile hopen with ⟨opened, disk', hopened⟩
  rcases reopen_index hreliable (le_maxFileLen_of_openFile hopened) hslow with
    ⟨restarted, hrestarted, hreads⟩
  rw [hfile, ← hlen, ByteFile.setLen_self] at hreads
  rcases hkept data hacknowledged with ⟨owner, howner, hchunk⟩
  have hlt : owner < slotCount allocatedSlots := by
    rw [← hslots]
    exact hlastWell.apart.valid_owned id owner howner
  rcases exists_lastCopy hlt hchunk with ⟨winner, hwinner⟩
  rcases hwinner.holds with ⟨payload, hpayload⟩
  exact ⟨restarted, owner, winner, payload, hrestarted, howner, hchunk, hwinner, hpayload,
    hreads.getChunk hwinner hpayload⟩

/-- After any run of puts, reads and deletes, whatever failed in it, and a restart with the
same number of slots, an acknowledged chunk is read back exactly if the last slot that holds
a chunk of its id holds that payload.  That is so in every run whose failures leave no chunk
behind. -/
theorem acknowledged_survive_iff (crc32 : Bytes → UInt32) (disk : Disk) (recover : Bool)
    (allocatedSlots : Option Nat) (options : ChunkStoreOptions) (store : ChunkStore)
    (hopen : ChunkStore.construct crc32 disk recover allocatedSlots options =
      .returned (.ok store))
    (operations : List Operation) (hrequests : ∀ operation ∈ operations, operation.id?.isSome)
    (entries : List (Operation × Reply)) (last : ChunkStore)
    (hrun : store.history crc32 operations = some (entries, last)) (id : UInt64) (data : Bytes)
    (hacknowledged : acknowledged id entries = some data) (reopened : Disk)
    (hreliable : reopened.Reliable) (hfile : reopened.file = last.file.file)
    (options' : ChunkStoreOptions) (hslow : options'.fastRecover = false) :
    ∃ restarted, ChunkStore.construct crc32 reopened true allocatedSlots options' =
        .returned (.ok restarted) ∧
      ((restarted.getChunk crc32 id).1 = .returned (.ok (data, crc32 data)) ↔
        ∀ slot, LastCopy crc32 last.file.file (slotCount allocatedSlots) id slot →
          ∀ found, chunkAt crc32 last.file.file slot = some (id, found) → found = data) ∧
      (Tidy crc32 store.table → store.stepsMeet crc32 (failsClean crc32) operations = true →
        (restarted.getChunk crc32 id).1 = .returned (.ok (data, crc32 data))) := by
  rcases history_reread hopen hrequests hrun hacknowledged hreliable hfile hslow with
    ⟨restarted, owner, winner, payload, hrestarted, howner, hchunk, hwinner, hpayload, hget⟩
  refine ⟨restarted, hrestarted, ?_, ?_⟩
  · rw [hget]
    constructor
    · intro heq slot hlast found hfound
      simp only [Outcome.returned.injEq, Except.ok.injEq, Prod.mk.injEq] at heq
      rw [hlast.unique hwinner, hpayload, Option.some.injEq, Prod.mk.injEq] at hfound
      exact hfound.2.symm.trans heq.1
    · intro hlast
      rw [hlast winner hwinner payload hpayload]
  · intro htidy hclean
    have hwell := ChunkStore.wellFormed_of_construct hopen
    have howner' : last.index.value[id]? = some winner :=
      history_tidy hwell hrequests hrun hclean htidy winner id payload hpayload
    rw [howner, Option.some.injEq] at howner'
    rw [← howner', hchunk, Option.some.injEq, Prod.mk.injEq] at hpayload
    rw [hget, hpayload.2]

theorem construct_twoSlots (failing : Nat) :
    ChunkStore.construct crc32 ⟨ByteFile.empty, failingCall (failing + 2)⟩ false (some 2)
      ChunkStoreOptions.default = .returned (.ok (twoSlots failing)) := by
  rw [ChunkStore.construct, openFile_twoSlots]
  rfl

/-- A file behind system calls that never fail. -/
def sound (file : ByteFile) : Disk := ⟨file, Stream'.const (.moved SLOT_SIZE)⟩

theorem sound_reliable (file : ByteFile) : (sound file).Reliable :=
  fun _ => ⟨SLOT_SIZE - 1, rfl⟩

/-- A put that fails before its first byte, and the retry. -/
theorem acknowledged_survive_iff_retry :
    ∃ entries last restarted,
      (twoSlots 0).history Library.crc32
          [.request (.putChunk 7 [1]), .request (.putChunk 7 [2])] = some (entries, last) ∧
      entries.map Prod.snd = [.failed .other, .ok] ∧
      ChunkStore.construct Library.crc32 (sound last.file.file) true (some 2)
        ChunkStoreOptions.default = .returned (.ok restarted) ∧
      (restarted.getChunk Library.crc32 7).1 = .returned (.ok ([2], Library.crc32 [2])) := by
  have hrun : ((twoSlots 0).history Library.crc32
      [.request (.putChunk 7 [1]), .request (.putChunk 7 [2])]).map
        (fun run => (run.1.map Prod.snd, acknowledged 7 run.1)) =
      some ([.failed .other, .ok], some [2]) := by
    decide +kernel
  rcases Option.map_eq_some_iff.mp hrun with ⟨⟨entries, last⟩, hhistory, hreplies⟩
  simp only [Prod.mk.injEq] at hreplies
  have hclean : (twoSlots 0).stepsMeet Library.crc32 (failsClean Library.crc32)
      [.request (.putChunk 7 [1]), .request (.putChunk 7 [2])] = true := by
    decide +kernel
  have hblank : Tidy Library.crc32 (twoSlots 0).table := by
    refine tidy_of_blank fun position => ?_
    simp [twoSlots, ChunkStore.table, ByteFile.setLen, ByteFile.empty]
  rcases acknowledged_survive_iff Library.crc32 _ false _ _ (twoSlots 0) (construct_twoSlots 0)
    _ (by simp [Operation.id?, Request.id?]) entries last hhistory 7 [2] hreplies.2
    (sound last.file.file) (sound_reliable _) rfl ChunkStoreOptions.default rfl with
    ⟨restarted, hrestarted, _, hget⟩
  exact ⟨entries, last, restarted, hhistory, hreplies.1, hrestarted, hget hblank hclean⟩

/-- What the last of two slots holds is what a restart finds. -/
theorem reopen_lastSlot {file : ByteFile} (hlen : file.len = SLOT_SIZE * 2) {id : UInt64}
    {data : Bytes} (hchunk : chunkAt crc32 file 1 = some (id, data)) :
    ∃ restarted, ChunkStore.construct crc32 (sound file) true (some 2)
        ChunkStoreOptions.default = .returned (.ok restarted) ∧
      restarted.index.value[id]? = some 1 ∧
      (restarted.getChunk crc32 id).1 = .returned (.ok (data, crc32 data)) := by
  have hslots : SLOT_SIZE * slotCount (some 2) ≤ maxFileLen := by decide
  have hslow : ChunkStoreOptions.default.fastRecover = false := rfl
  rcases reopen_index (sound_reliable file) hslots hslow with ⟨restarted, hrestarted, hreads⟩
  have hsame : (sound file).file.setLen (SLOT_SIZE * slotCount (some 2)) = file := by
    have hself := file.setLen_self
    rw [hlen] at hself
    exact hself
  rw [hsame] at hreads
  have hlast : LastCopy crc32 file (slotCount (some 2)) id 1 := by
    constructor
    · decide
    · exact ⟨data, hchunk⟩
    · intro later hlt hle
      have htwo : slotCount (some 2) = 2 := rfl
      omega
  exact ⟨restarted, hrestarted, (hreads.index_iff id 1).mpr hlast, hreads.getChunk hlast hchunk⟩

/-- The delete of chunk 7 fails before its first byte, the chunk is put again into the other
slot, and after a restart the old payload is back. -/
theorem deleted_chunk_shadows_retry :
    ∃ entries last restarted,
      (twoSlots 3).history Library.crc32 putDeletePut = some (entries, last) ∧
      acknowledged 7 entries = some [2] ∧
      ChunkStore.construct Library.crc32 (sound last.file.file) true (some 2)
        ChunkStoreOptions.default = .returned (.ok restarted) ∧
      (restarted.getChunk Library.crc32 7).1 = .returned (.ok ([1], Library.crc32 [1])) ∧
      Library.crc32 [1] ≠ Library.crc32 [2] := by
  have hrun : ((twoSlots 3).history Library.crc32 putDeletePut).map
      (fun run => (acknowledged 7 run.1, run.2.file.file.len,
        chunkAt Library.crc32 run.2.file.file 1)) =
      some (some [2], SLOT_SIZE * 2, some (7, [1])) := by
    decide +kernel
  rcases Option.map_eq_some_iff.mp hrun with ⟨⟨entries, last⟩, hhistory, hfacts⟩
  simp only [Prod.mk.injEq] at hfacts
  rcases hfacts with ⟨hacknowledged, hlen, hchunk⟩
  rcases reopen_lastSlot hlen hchunk with ⟨restarted, hrestarted, _, hget⟩
  exact ⟨entries, last, restarted, hhistory, hacknowledged, hrestarted, hget, by decide +kernel⟩

end StorageNode
end ObjectStore
