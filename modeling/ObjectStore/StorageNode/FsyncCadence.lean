import ObjectStore.StorageNode.SlotLeaks

/-!
# Storage node - The fsync cadence

Puts and deletes whose writes and syncs may fail, next to the number of acknowledged puts that
no successful `sync_data` covers.  The write counter advances before the write: a put whose
turn it is to sync and that fails leaves the sync to the put that is due `n` puts later.

Main definitions:

- `slotWriteSyncs`, `ChunkStore.syncs`: a call gets as far as a successful sync.
- `SyncedStore`: a store with its acknowledged puts that are not synced.
- `SyncedStore.SyncsWhenDue`: a put that is due does not fail over unsynced puts.

Main results:

- Theorem `writeChunkAt_fsync_iff`: a write that is to be synced returns `Ok` once it is synced.
- Theorem `SyncedStore.Covered.call`: the counter keeps up with the unsynced puts.
- Theorem `fsync_cadence_bounds`: at most `n - 1` acknowledged puts are not synced.
-/

namespace ObjectStore
namespace StorageNode

open Library (ByteFile)

variable {crc32 : Bytes → UInt32}

/-! ## Successful syncs -/

/-- The writes of a slot and the `sync_data` behind them go through. -/
def slotWriteSyncs (file : Disk) (slotIndex : Nat) (header : ChunkHeader) (bytes : Bytes) :
    Bool :=
  let offset := slotIndex * SLOT_SIZE
  match file.writeAllAt header.toBytes offset with
  | (.error _, _) => false
  | (.ok (), file) =>
      match file.writeAllAt bytes (offset + CHUNK_HEADER_SIZE) with
      | (.error _, _) => false
      | (.ok (), file) => file.call.1.isOk

/-- `write_chunk_at` ends with the sync. -/
theorem writeChunkAt_fsync_iff {file : Disk} {slotIndex : Nat} {header : ChunkHeader}
    {bytes : Bytes} (hbytes : bytes.length ≤ SLOT_DATA_SIZE) :
    (writeChunkAt file slotIndex header bytes true).1 = .returned (.ok ()) ↔
      slotWriteSyncs file slotIndex header bytes = true := by
  rw [writeChunkAt, slotWriteSyncs, if_neg (Nat.not_lt.mpr hbytes)]
  rcases hheader : file.writeAllAt header.toBytes (slotIndex * SLOT_SIZE) with ⟨error | _, disk⟩
  · simp [hheader]
  · rcases hdata : disk.writeAllAt bytes (slotIndex * SLOT_SIZE + CHUNK_HEADER_SIZE) with
      ⟨error | _, disk'⟩
    · simp [hheader, hdata]
    · rcases hcall : disk'.call with ⟨error | _, disk''⟩ <;>
        simp [hheader, hdata, hcall, Except.isOk, Except.toBool]

namespace ChunkStore

variable {store : ChunkStore}

/-- The slot that a put goes on to write, if it is not refused. -/
def attempt? (self : ChunkStore) (id : UInt64) (data : Bytes) : Option Nat :=
  if self.index.poisoned ∨ id ∈ self.index.value ∨ SLOT_DATA_SIZE < data.length then none
  else self.freeSlots.getLast?

/-- A put that writes this slot gets as far as a successful `sync_data` when it is due. -/
def writeSyncs (crc32 : Bytes → UInt32) (self : ChunkStore) (id : UInt64) (data : Bytes)
    (slotIndex : Nat) : Bool :=
  slotWriteSyncs self.file slotIndex (ChunkHeader.new id (crc32 data) (UInt32.ofNat data.length))
    data

/-- The next put is to be synced. -/
def nextWriteDue (self : ChunkStore) : Bool :=
  match self.fsyncEveryNWrites with
  | some n => 0 < n && (self.writeCounter + 1) % 2 ^ 64 % n == 0
  | none => false

/-- The call gets as far as a successful `sync_data`. -/
def syncs (crc32 : Bytes → UInt32) (self : ChunkStore) : WriteCall → Bool
  | .putChunk id data =>
      match self.attempt? id data with
      | some slotIndex => self.nextWriteDue && self.writeSyncs crc32 id data slotIndex
      | none => false
  | .deleteChunk id =>
      match self.index.value[id]? with
      | some slotIndex =>
          !self.index.poisoned && self.fsyncOnDelete && zeroesHeader self.file slotIndex true
      | none => false

/-! ## One put -/

theorem shouldFsyncWrite_of_cadence {n : Nat} (hn : 0 < n)
    (hcadence : store.fsyncEveryNWrites = some n) :
    store.shouldFsyncWrite =
      (store.nextWriteDue, { store with writeCounter := (store.writeCounter + 1) % 2 ^ 64 }) := by
  rw [shouldFsyncWrite, nextWriteDue, hcadence]
  simp [hn]

/-- A put that does not get to its write is not acknowledged.  It leaves the counter, unless it
panics and poisons the lock. -/
theorem putChunk_refused {id : UInt64} {data : Bytes} (h : store.attempt? id data = none) :
    (store.putChunk crc32 id data).1 ≠ .returned (.ok ()) ∧
      ((store.putChunk crc32 id data).2 = store ∨
        (store.putChunk crc32 id data).2.index.poisoned = true ∧
          (store.putChunk crc32 id data).2.fsyncEveryNWrites = store.fsyncEveryNWrites) := by
  unfold putChunk
  by_cases hpoisoned : store.index.poisoned = true
  · simp [hpoisoned]
  · rw [if_neg hpoisoned]
    by_cases hid : id ∈ store.index.value
    · simp [hid]
    · rw [if_neg hid, findSlot]
      cases hlast : store.freeSlots.getLast? with
      | none => simp
      | some slotIndex =>
          have hlarge : SLOT_DATA_SIZE < data.length := by
            by_contra hfits
            rw [attempt?, if_neg (by simp [hpoisoned, hid, hfits]), hlast] at h
            cases h
          rcases shouldFsyncWrite_eq { store with freeSlots := store.freeSlots.dropLast } with
            ⟨fsync, count, hfsync⟩
          simp [hfsync, writeChunkAt, hlarge, panicWithIndex]

/-- A put that gets to its write advances the counter; when it is due it is acknowledged
exactly if it is synced. -/
theorem putChunk_attempted {n : Nat} (hn : 0 < n) (hcadence : store.fsyncEveryNWrites = some n)
    {id : UInt64} {data : Bytes} {slotIndex : Nat}
    (h : store.attempt? id data = some slotIndex) :
    (store.putChunk crc32 id data).2.writeCounter = (store.writeCounter + 1) % 2 ^ 64 ∧
      (store.putChunk crc32 id data).2.fsyncEveryNWrites = some n ∧
      (store.nextWriteDue = true →
        ((store.putChunk crc32 id data).1 = .returned (.ok ()) ↔
          store.writeSyncs crc32 id data slotIndex = true)) := by
  unfold attempt? at h
  split at h
  · cases h
  · rename_i hreaches
    simp only [not_or, Nat.not_lt] at hreaches
    rcases hreaches with ⟨hpoisoned, hid, hdata⟩
    have hcount := @shouldFsyncWrite_of_cadence
      { store with freeSlots := store.freeSlots.dropLast } n hn hcadence
    unfold putChunk
    rw [if_neg hpoisoned, if_neg hid, findSlot, h]
    simp only [hcount]
    have hsync : store.nextWriteDue = true →
        ((writeChunkAt store.file slotIndex
          (ChunkHeader.new id (crc32 data) (UInt32.ofNat data.length)) data
            store.nextWriteDue).1 = .returned (.ok ()) ↔
          store.writeSyncs crc32 id data slotIndex = true) := by
      intro hdue
      rw [hdue]
      exact writeChunkAt_fsync_iff hdata
    have hdue : nextWriteDue { store with freeSlots := store.freeSlots.dropLast } =
        store.nextWriteDue := rfl
    rw [hdue]
    rcases hwrite : writeChunkAt store.file slotIndex
        (ChunkHeader.new id (crc32 data) (UInt32.ofNat data.length)) data store.nextWriteDue with
      ⟨(error | _) | _, disk⟩ <;> rw [hwrite] at hsync
    · have hfails : store.nextWriteDue = true →
          ¬ store.writeSyncs crc32 id data slotIndex = true := fun h hsynced => by
        cases (hsync h).mpr hsynced
      by_cases hslot : slotIndex < store.totalSlots
      · simp only [clearSlot, if_pos hslot]
        exact ⟨trivial, hcadence, fun h => iff_of_false (by simp) (hfails h)⟩
      · simp only [clearSlot, if_neg hslot, panicWithIndex]
        exact ⟨trivial, hcadence, fun h => iff_of_false (by simp) (hfails h)⟩
    · exact ⟨rfl, hcadence, fun h => iff_of_true rfl ((hsync h).mp rfl)⟩
    · exact ⟨rfl, hcadence, fun h => iff_of_false (by simp [panicWithIndex]) fun hsynced => by
        cases (hsync h).mpr hsynced⟩

/-- A delete leaves the cadence and the counter alone. -/
theorem deleteChunk_cadence (id : UInt64) :
    (store.deleteChunk id).2.fsyncEveryNWrites = store.fsyncEveryNWrites ∧
      (store.deleteChunk id).2.writeCounter = store.writeCounter ∧
      (store.index.poisoned = true → (store.deleteChunk id).2.index.poisoned = true) := by
  unfold deleteChunk
  by_cases hpoisoned : store.index.poisoned = true
  · simp [hpoisoned]
  · rw [if_neg hpoisoned]
    cases store.index.value[id]? with
    | none => simp [hpoisoned]
    | some slotIndex =>
        simp only
        rcases store.file.writeAllAt (List.replicate CHUNK_HEADER_SIZE 0) (slotIndex * SLOT_SIZE)
          with ⟨error | _, disk⟩
        · simp
        · simp only
          rcases (if store.fsyncOnDelete then disk.call else (.ok (), disk)) with
            ⟨error | _, disk'⟩
          · simp
          · by_cases hslot : slotIndex < store.totalSlots
            · simp [clearSlot, hslot]
            · simp [clearSlot, hslot, panicWithIndex]

end ChunkStore

/-! ## Unsynced puts -/

/-- A chunk store with the number of its acknowledged puts that no successful sync covers.  A
put that syncs its own write is covered. -/
structure SyncedStore where
  store : ChunkStore
  unsynced : Nat

/-- The puts that a call acknowledges. -/
def WriteCall.acknowledged : WriteCall → Outcome Unit → Nat
  | .putChunk _ _, .returned (.ok ()) => 1
  | .putChunk _ _, _ => 0
  | .deleteChunk _, _ => 0

theorem WriteCall.acknowledged_le (call : WriteCall) (outcome : Outcome Unit) :
    call.acknowledged outcome ≤ 1 := by
  unfold acknowledged
  split <;> simp

theorem WriteCall.acknowledged_of_ne {call : WriteCall} {outcome : Outcome Unit}
    (h : outcome ≠ .returned (.ok ())) : call.acknowledged outcome = 0 := by
  unfold acknowledged
  split
  · exact absurd rfl h
  · rfl
  · rfl

namespace SyncedStore

/-- The store after a call, with the acknowledged writes that no sync has covered. -/
def call (crc32 : Bytes → UInt32) (self : SyncedStore) (call : WriteCall) : SyncedStore where
  store := (self.store.call crc32 call).2
  unsynced :=
    if self.store.syncs crc32 call then 0
    else self.unsynced + call.acknowledged (self.store.call crc32 call).1

/-- The store after a run of calls, whatever they return. -/
def calls (crc32 : Bytes → UInt32) (self : SyncedStore) (run : List WriteCall) : SyncedStore :=
  run.foldl (call crc32) self

/-- A put that is due while acknowledged puts are unsynced does not fail in its writes or in
its sync. -/
def SyncsWhenDue (crc32 : Bytes → UInt32) (self : SyncedStore) : WriteCall → Prop
  | .putChunk id data => ∀ slotIndex, self.store.attempt? id data = some slotIndex →
      self.store.nextWriteDue = true → 0 < self.unsynced →
        self.store.writeSyncs crc32 id data slotIndex = true
  | .deleteChunk _ => True

instance (self : SyncedStore) (call : WriteCall) : Decidable (self.SyncsWhenDue crc32 call) :=
  match call with
  | .putChunk id data =>
      match hattempt : self.store.attempt? id data with
      | none => .isTrue fun slotIndex heq => by cases hattempt.symm.trans heq
      | some slotIndex =>
          decidable_of_iff (self.store.nextWriteDue = true → 0 < self.unsynced →
              self.store.writeSyncs crc32 id data slotIndex = true)
            ⟨fun h other heq => Option.some.inj (hattempt.symm.trans heq) ▸ h,
              fun h => h slotIndex hattempt⟩
  | .deleteChunk _ => .isTrue trivial

/-- Every call of the run meets the condition. -/
def AllSyncWhenDue (crc32 : Bytes → UInt32) (self : SyncedStore) (run : List WriteCall) : Prop :=
  ∀ before call after, run = before ++ call :: after →
    (self.calls crc32 before).SyncsWhenDue crc32 call

theorem allSyncWhenDue_nil (self : SyncedStore) : self.AllSyncWhenDue crc32 [] := by
  intro before call after heq
  simp at heq

theorem allSyncWhenDue_cons_iff {self : SyncedStore} {call : WriteCall} {run : List WriteCall} :
    self.AllSyncWhenDue crc32 (call :: run) ↔
      self.SyncsWhenDue crc32 call ∧ (self.call crc32 call).AllSyncWhenDue crc32 run := by
  constructor
  · intro h
    refine ⟨h [] call run rfl, fun before other after heq => ?_⟩
    exact h (call :: before) other after (by rw [heq]; rfl)
  · rintro ⟨hfirst, hrest⟩ before other after heq
    cases before with
    | nil =>
        cases heq
        exact hfirst
    | cons first before =>
        cases heq
        exact hrest before other after rfl

/-! ## The counter and the unsynced puts -/

variable {synced : SyncedStore} {n : Nat}

/-- As many puts are unsynced as the counter has advanced since a multiple of `n`, or fewer.  A
poisoned store acknowledges no put any more. -/
structure Covered (n : Nat) (synced : SyncedStore) : Prop where
  cadence : synced.store.fsyncEveryNWrites = some n
  counted : synced.unsynced ≤ synced.store.writeCounter % 2 ^ 64 % n ∨
    synced.store.index.poisoned = true ∧ synced.unsynced < n

theorem Covered.lt (h : synced.Covered n) (hn : 0 < n) : synced.unsynced < n := by
  rcases h.counted with hcounted | ⟨_, hlt⟩
  · exact Nat.lt_of_le_of_lt hcounted (Nat.mod_lt _ hn)
  · exact hlt

/-- The counter starts again at a multiple of `n`, so a write that is not due only adds one. -/
theorem mod_succ_of_not_due (hn : 0 < n) {count : Nat} (hdue : (count + 1) % 2 ^ 64 % n ≠ 0) :
    (count + 1) % 2 ^ 64 % n = count % 2 ^ 64 % n + 1 := by
  have hrestart : count % 2 ^ 64 + 1 ≠ 2 ^ 64 := by
    intro heq
    have hzero : (count + 1) % 2 ^ 64 = 0 := by omega
    rw [hzero, Nat.zero_mod] at hdue
    exact hdue rfl
  have hcount : (count + 1) % 2 ^ 64 = count % 2 ^ 64 + 1 := by omega
  have hlt : count % 2 ^ 64 % n < n := Nat.mod_lt _ hn
  rw [hcount, ← Nat.mod_add_mod] at hdue ⊢
  have hne : count % 2 ^ 64 % n + 1 ≠ n := by
    intro heq
    rw [heq, Nat.mod_self] at hdue
    exact hdue rfl
  exact Nat.mod_eq_of_lt (by omega)

theorem Covered.putChunk (h : synced.Covered n) (hn : 0 < n) {id : UInt64} {data : Bytes}
    (hmeets : synced.SyncsWhenDue crc32 (.putChunk id data)) :
    (synced.call crc32 (.putChunk id data)).Covered n := by
  have hlt := h.lt hn
  cases hattempt : synced.store.attempt? id data with
  | none =>
      rcases @ChunkStore.putChunk_refused crc32 synced.store id data hattempt with
        ⟨hrefused, hstore⟩
      have hunsynced : (synced.call crc32 (.putChunk id data)).unsynced = synced.unsynced := by
        simp only [call, ChunkStore.syncs, hattempt, ChunkStore.call, Bool.false_eq_true, if_false,
          WriteCall.acknowledged_of_ne hrefused, Nat.add_zero]
      rcases hstore with hsame | ⟨hpoisoned, hcadence⟩
      · constructor
        · exact (congrArg ChunkStore.fsyncEveryNWrites hsame).trans h.cadence
        · rw [hunsynced]
          simp only [call, ChunkStore.call, hsame]
          exact h.counted
      · exact ⟨hcadence.trans h.cadence, .inr ⟨hpoisoned, hunsynced ▸ hlt⟩⟩
  | some slotIndex =>
      rcases @ChunkStore.putChunk_attempted crc32 synced.store n hn h.cadence id data slotIndex
        hattempt with ⟨hcounter, hcadence, hsync⟩
      have hcounted : synced.unsynced ≤ synced.store.writeCounter % 2 ^ 64 % n := by
        rcases h.counted with hcounted | ⟨hpoisoned, _⟩
        · exact hcounted
        · rw [ChunkStore.attempt?, if_pos (.inl hpoisoned)] at hattempt
          cases hattempt
      have hdue : synced.store.nextWriteDue = true ↔
          (synced.store.writeCounter + 1) % 2 ^ 64 % n = 0 := by
        simp [ChunkStore.nextWriteDue, h.cadence, hn]
      refine ⟨hcadence, .inl ?_⟩
      simp only [call, ChunkStore.call, ChunkStore.syncs, hattempt, hcounter]
      by_cases hnext : synced.store.nextWriteDue = true
      · by_cases hwrites : synced.store.writeSyncs crc32 id data slotIndex = true
        · simp [hnext, hwrites]
        · have hfails := mt (hsync hnext).mp hwrites
          have hnone : synced.unsynced = 0 := by
            by_contra hsome
            exact hwrites (hmeets slotIndex hattempt hnext (Nat.pos_of_ne_zero hsome))
          simp [hwrites, hnone, WriteCall.acknowledged_of_ne hfails]
      · have hmod := mod_succ_of_not_due hn (mt hdue.mpr hnext)
        have hone := WriteCall.acknowledged_le (.putChunk id data)
          (synced.store.putChunk crc32 id data).1
        simp only [hnext, Bool.false_and, Bool.false_eq_true, if_false, Nat.mod_mod]
        omega

theorem Covered.deleteChunk (h : synced.Covered n) (id : UInt64) :
    (synced.call crc32 (.deleteChunk id)).Covered n := by
  rcases @ChunkStore.deleteChunk_cadence synced.store id with ⟨hcadence, hcounter, hpoisoned⟩
  constructor
  · exact hcadence.trans h.cadence
  · simp only [call, ChunkStore.call]
    split
    · exact .inl (Nat.zero_le _)
    · rw [hcounter, WriteCall.acknowledged, Nat.add_zero]
      exact h.counted.imp_right fun hlast => ⟨hpoisoned hlast.1, hlast.2⟩

theorem Covered.call (h : synced.Covered n) (hn : 0 < n) {call : WriteCall}
    (hmeets : synced.SyncsWhenDue crc32 call) : (synced.call crc32 call).Covered n := by
  cases call with
  | putChunk id data => exact h.putChunk hn hmeets
  | deleteChunk id => exact h.deleteChunk id

theorem Covered.calls (h : synced.Covered n) (hn : 0 < n) {run : List WriteCall}
    (hmeets : synced.AllSyncWhenDue crc32 run) : (synced.calls crc32 run).Covered n := by
  induction run generalizing synced with
  | nil => exact h
  | cons call run ih =>
      rcases allSyncWhenDue_cons_iff.mp hmeets with ⟨hfirst, hrest⟩
      exact ih (h.call hn hfirst) hrest

end SyncedStore

/-- For every store with a cadence of `n` and every run of puts and deletes, whatever fails: if
no put that is due fails in its writes or its sync while acknowledged puts are unsynced, then
at every point of the run at most `n - 1` acknowledged puts are unsynced. -/
theorem fsync_cadence_bounds (crc32 : Bytes → UInt32) (store : ChunkStore) (n : Nat) (hn : 0 < n)
    (hcadence : store.fsyncEveryNWrites = some n) (run : List WriteCall)
    (hmeets : SyncedStore.AllSyncWhenDue crc32 ⟨store, 0⟩ run) :
    ∀ before after, run = before ++ after →
      (SyncedStore.calls crc32 ⟨store, 0⟩ before).unsynced ≤ n - 1 := by
  intro before after hrun
  have hstart : SyncedStore.Covered n ⟨store, 0⟩ := ⟨hcadence, .inl (Nat.zero_le _)⟩
  have hbefore : SyncedStore.AllSyncWhenDue crc32 ⟨store, 0⟩ before := by
    intro first call rest heq
    refine hmeets first call (rest ++ after) ?_
    rw [hrun, heq, List.append_assoc, List.cons_append]
  have hlt := (hstart.calls hn hbefore).lt hn
  omega

/-! ## A sync that fails -/

/-- A store with two slots on a new file that syncs every other put; one system call since it
was opened fails. -/
def everyOther (failing : Nat) : ChunkStore :=
  { twoSlots failing with fsyncEveryNWrites := some 2 }

example (failing : Nat) :
    ChunkStore.openFile ⟨ByteFile.empty, failingCall (failing + 2)⟩ (some 2)
        { ChunkStoreOptions.default with fsyncEveryNWrites := some 2 } =
      (.returned (.ok (everyOther failing)), (everyOther failing).file) :=
  rfl

/-- The put that is due syncs; the write of the delete behind it fails. -/
theorem fsync_cadence_bounds_every_other :
    (SyncedStore.calls Library.crc32 ⟨everyOther 5, 0⟩
      [.putChunk 7 [1], .putChunk 8 [2], .deleteChunk 7]).unsynced ≤ 1 := by
  refine fsync_cadence_bounds Library.crc32 (everyOther 5) 2 (by decide) rfl
    [.putChunk 7 [1], .putChunk 8 [2], .deleteChunk 7] ?_ _ [] rfl
  refine SyncedStore.allSyncWhenDue_cons_iff.mpr ⟨by decide +kernel, ?_⟩
  refine SyncedStore.allSyncWhenDue_cons_iff.mpr ⟨by decide +kernel, ?_⟩
  refine SyncedStore.allSyncWhenDue_cons_iff.mpr ⟨trivial, ?_⟩
  exact SyncedStore.allSyncWhenDue_nil _

/-- The second put is due, and its first write fails.  The third put is acknowledged and not
due, so that two puts are unsynced. -/
theorem failed_sync_is_not_retried :
    ¬ (SyncedStore.calls Library.crc32 ⟨everyOther 2, 0⟩
      [.putChunk 7 [1], .putChunk 8 [2], .putChunk 8 [2]]).unsynced ≤ 1 := by
  decide +kernel

end StorageNode
end ObjectStore
