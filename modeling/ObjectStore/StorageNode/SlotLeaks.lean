import ObjectStore.StorageNode.Faults

/-!
# Storage node - Slots that errors leak

Puts and deletes whose writes and syncs may fail.  A put that fails gives its slot back.  A
delete has taken the id out of the index before it writes, and on an error the slot goes
neither back to the id nor onto the stack.

Main definitions:

- `WriteCall`: the calls that write, with `ChunkStore.call` and `ChunkStore.calls`.
- `ChunkStore.Completes`: the file operations of a delete go through.
- `ChunkStore.leaks`: how many deletes of a run do not complete.

Main results:

- Theorem `ChunkStore.call_keeps_iff`: when an error leaves the slots as they were.
- Theorem `ChunkStore.calls_accounted`: used, free and leaked slots are all slots.
- Theorem `errors_leak_no_slot_iff`: both, for every reachable store and every run.
-/

namespace ObjectStore
namespace StorageNode

variable {crc32 : Bytes → UInt32}

/-! ## Calls -/

/-- The calls that write to the file. -/
inductive WriteCall where
  | putChunk (id : UInt64) (data : Bytes)
  | deleteChunk (id : UInt64)

/-- The payload of a put fits into a slot. -/
def WriteCall.Fits : WriteCall → Prop
  | .putChunk _ data => data.length ≤ SLOT_DATA_SIZE
  | .deleteChunk _ => True

/-- The zeroing of a header goes through, and so does the sync behind it if there is one. -/
def zeroesHeader (file : Disk) (slotIndex : Nat) (fsync : Bool) : Bool :=
  match file.writeAllAt (List.replicate CHUNK_HEADER_SIZE 0) (slotIndex * SLOT_SIZE) with
  | (.error _, _) => false
  | (.ok (), file) => !fsync || file.call.1.isOk

namespace ChunkStore

variable {store : ChunkStore}

/-- A put or a delete. -/
def call (crc32 : Bytes → UInt32) (self : ChunkStore) : WriteCall → Outcome Unit × ChunkStore
  | .putChunk id data => self.putChunk crc32 id data
  | .deleteChunk id => self.deleteChunk id

/-- The store after a run of calls, whatever they return. -/
def calls (crc32 : Bytes → UInt32) (self : ChunkStore) (run : List WriteCall) : ChunkStore :=
  run.foldl (fun store call => (store.call crc32 call).2) self

/-- The call is not a delete of a stored chunk, or its file operations go through. -/
def Completes (self : ChunkStore) : WriteCall → Prop
  | .putChunk _ _ => True
  | .deleteChunk id => ∀ slot, self.index.value[id]? = some slot →
      zeroesHeader self.file slot self.fsyncOnDelete = true

instance (self : ChunkStore) (call : WriteCall) : Decidable (self.Completes call) :=
  match call with
  | .putChunk _ _ => .isTrue trivial
  | .deleteChunk id =>
      match hslot : self.index.value[id]? with
      | none => .isTrue fun slot heq => by cases hslot.symm.trans heq
      | some slot =>
          decidable_of_iff (zeroesHeader self.file slot self.fsyncOnDelete = true)
            ⟨fun h other heq => Option.some.inj (hslot.symm.trans heq) ▸ h, fun h => h slot hslot⟩

/-- If the call returns an error, the index and the free slots are as they were. -/
def ErrorKeepsSlots (crc32 : Bytes → UInt32) (self : ChunkStore) (call : WriteCall) : Prop :=
  ∀ error, (self.call crc32 call).1 = .returned (.error error) →
    (self.call crc32 call).2.index.value = self.index.value ∧
      (self.call crc32 call).2.freeSlots = self.freeSlots

/-- `free_slots`. -/
def freeSlotCount (self : ChunkStore) : Nat :=
  self.freeSlots.length

/-- Every slot is used by a chunk or free. -/
def SlotsConserved (self : ChunkStore) : Prop :=
  self.index.value.size + self.freeSlotCount = self.totalSlots

/-! ## One call -/

/-- The slots are apart and the lock is not poisoned. -/
structure Sound (store : ChunkStore) : Prop where
  wellFormed : store.table.WellFormed
  unpoisoned : store.index.poisoned = false

theorem Sound.call (h : store.Sound) {call : WriteCall} (hfits : call.Fits) :
    (store.call crc32 call).2.Sound := by
  cases call with
  | putChunk id data =>
      have hstep := @putChunk_step crc32 store h.wellFormed id data
      exact ⟨hstep.wellFormed h.wellFormed, (hstep.ne_panicked hfits h.unpoisoned).2⟩
  | deleteChunk id =>
      have hstep := @deleteChunk_step crc32 store h.wellFormed id
      exact ⟨hstep.wellFormed h.wellFormed, (hstep.ne_panicked trivial h.unpoisoned).2⟩

theorem Sound.calls (h : store.Sound) {run : List WriteCall} (hfits : ∀ call ∈ run, call.Fits) :
    (store.calls crc32 run).Sound := by
  induction run generalizing store with
  | nil => exact h
  | cons call run ih =>
      exact ih (h.call (hfits call (by simp))) fun other hmem =>
        hfits other (List.mem_cons_of_mem _ hmem)

/-- A put leaves the slots alone, or moves the top of the stack to the id. -/
theorem putChunk_slots (h : store.Sound) (id : UInt64) {data : Bytes}
    (hdata : data.length ≤ SLOT_DATA_SIZE) :
    (store.putChunk crc32 id data).2.totalSlots = store.totalSlots ∧
      ((store.putChunk crc32 id data).2.index.value = store.index.value ∧
          (store.putChunk crc32 id data).2.freeSlots = store.freeSlots ∨
        ∃ slot, (store.putChunk crc32 id data).1 = .returned (.ok ()) ∧ id ∉ store.index.value ∧
          (store.putChunk crc32 id data).2.index.value = store.index.value.insert id slot ∧
          store.freeSlots = (store.putChunk crc32 id data).2.freeSlots ++ [slot]) := by
  have hstep := @putChunk_step crc32 store h.wellFormed id data
  have htotal : (store.putChunk crc32 id data).2.totalSlots = store.totalSlots :=
    hstep.totalSlots rfl
  refine ⟨htotal, ?_⟩
  generalize hreply : (store.putChunk crc32 id data).1.reply (fun _ => Reply.ok) = reply at hstep
  generalize htable : (store.putChunk crc32 id data).2.table = table at hstep
  have hindex := congrArg SlotTable.index htable
  have hfree := congrArg SlotTable.freeSlots htable
  cases hstep with
  | idle hput hpanic => exact .inl ⟨hindex, hfree⟩
  | torn hstack hid hfit hcount => exact .inl ⟨hindex, hfree⟩
  | oversized hstack hlarge => exact absurd hdata (Nat.not_le.mpr hlarge)
  | @stored _ _ rest slot hstack hid hfit =>
      refine .inr ⟨slot, ?_, hid, hindex, ?_⟩
      · rcases houtcome : (store.putChunk crc32 id data).1 with (error | _) | _ <;>
          rw [houtcome] at hreply <;> cases hreply
      · exact hstack.trans (congrArg (· ++ [slot]) hfree.symm)

/-- A delete of a stored chunk drops the id; the slot is free again if its file operations go
through, and an error is returned otherwise. -/
theorem deleteChunk_slots (h : store.Sound) {id : UInt64} {slot : Nat}
    (hslot : store.index.value[id]? = some slot) :
    (store.deleteChunk id).2.totalSlots = store.totalSlots ∧
      (store.deleteChunk id).2.index.value = store.index.value.erase id ∧
      if zeroesHeader store.file slot store.fsyncOnDelete then
        (store.deleteChunk id).1 = .returned (.ok ()) ∧
          (store.deleteChunk id).2.freeSlots = store.freeSlots ++ [slot]
      else (∃ error, (store.deleteChunk id).1 = .returned (.error error)) ∧
        (store.deleteChunk id).2.freeSlots = store.freeSlots := by
  have hlt : slot < store.totalSlots := h.wellFormed.apart.valid_owned id slot hslot
  unfold deleteChunk zeroesHeader
  rw [if_neg (by simp [h.unpoisoned]), hslot]
  simp only
  rcases store.file.writeAllAt (List.replicate CHUNK_HEADER_SIZE 0) (slot * SLOT_SIZE) with
    ⟨error | _, disk⟩
  · exact ⟨rfl, rfl, ⟨error, rfl⟩, rfl⟩
  · cases hsync : store.fsyncOnDelete with
    | false => simp [clearSlot, hlt]
    | true =>
        rcases hcall : disk.call with ⟨error | _, disk'⟩
        · simp [hcall, Except.isOk, Except.toBool]
        · simp [hcall, clearSlot, hlt, Except.isOk, Except.toBool]

theorem deleteChunk_absent (h : store.Sound) {id : UInt64}
    (hslot : store.index.value[id]? = none) :
    store.deleteChunk id = (.returned (.ok ()), store) := by
  rw [deleteChunk, if_neg (by simp [h.unpoisoned]), hslot]

theorem completes_delete_iff {id : UInt64} {slot : Nat}
    (hslot : store.index.value[id]? = some slot) :
    store.Completes (.deleteChunk id) ↔
      zeroesHeader store.file slot store.fsyncOnDelete = true := by
  refine ⟨fun hcompletes => hcompletes slot hslot, fun hzeroes other heq => ?_⟩
  rw [← Option.some.inj (hslot.symm.trans heq)]
  exact hzeroes

/-- An error leaves the slots alone exactly if the call completes: a put always does. -/
theorem call_keeps_iff (h : store.Sound) {call : WriteCall} (hfits : call.Fits) :
    store.ErrorKeepsSlots crc32 call ↔ store.Completes call := by
  cases call with
  | putChunk id data =>
      refine iff_of_true (fun error herror => ?_) trivial
      rcases (@putChunk_slots crc32 store h id data hfits).2 with hsame | ⟨slot, hok, _⟩
      · exact hsame
      · cases hok.symm.trans herror
  | deleteChunk id =>
      cases hslot : store.index.value[id]? with
      | none =>
          refine iff_of_true (fun error herror => ?_) fun slot heq => ?_
          · rw [call, deleteChunk_absent h hslot] at herror
            cases herror
          · cases hslot.symm.trans heq
      | some slot =>
          rcases deleteChunk_slots h hslot with ⟨_, hindex, hzeroes⟩
          split at hzeroes
          · rename_i hcompletes
            refine iff_of_true (fun error herror => ?_)
              ((completes_delete_iff hslot).mpr hcompletes)
            cases hzeroes.1.symm.trans herror
          · rename_i hfails
            refine iff_of_false (fun hkeeps => ?_) (mt (completes_delete_iff hslot).mp hfails)
            rcases hzeroes.1 with ⟨error, herror⟩
            have hsame : (store.deleteChunk id).2.index.value = store.index.value :=
              (hkeeps error herror).1
            have hgone : (store.index.value.erase id)[id]? = none :=
              Std.ExtTreeMap.getElem?_erase_self
            rw [← hindex, hsame, hslot] at hgone
            cases hgone

/-! ## Runs -/

/-- How many deletes of stored chunks do not complete. -/
def leaks (crc32 : Bytes → UInt32) (self : ChunkStore) : List WriteCall → Nat
  | [] => 0
  | call :: run =>
      (if self.Completes call then 0 else 1) + (self.call crc32 call).2.leaks crc32 run

/-- A call moves a slot between the used and the free ones, or leaks one. -/
theorem call_accounted (h : store.Sound) {call : WriteCall} (hfits : call.Fits) :
    (store.call crc32 call).2.totalSlots = store.totalSlots ∧
      (store.call crc32 call).2.index.value.size + (store.call crc32 call).2.freeSlotCount +
          (if store.Completes call then 0 else 1) =
        store.index.value.size + store.freeSlotCount := by
  cases call with
  | putChunk id data =>
      have hcompletes : store.Completes (.putChunk id data) := trivial
      rcases @putChunk_slots crc32 store h id data hfits with
        ⟨htotal, ⟨hindex, hfree⟩ | ⟨slot, _, hid, hindex, hfree⟩⟩
      · exact ⟨htotal, by simp only [call, if_pos hcompletes, freeSlotCount, hindex, hfree]; rfl⟩
      · have hsize : (store.index.value.insert id slot).size = store.index.value.size + 1 := by
          simp [Std.ExtTreeMap.size_insert, hid]
        refine ⟨htotal, ?_⟩
        simp only [call, if_pos hcompletes, freeSlotCount, hindex, hsize, hfree,
          List.length_append, List.length_singleton]
        omega
  | deleteChunk id =>
      cases hslot : store.index.value[id]? with
      | none =>
          have hcompletes : store.Completes (.deleteChunk id) := by
            intro slot heq
            cases hslot.symm.trans heq
          simp only [call, deleteChunk_absent h hslot, if_pos hcompletes, Nat.add_zero, and_self]
      | some slot =>
          rcases deleteChunk_slots h hslot with ⟨htotal, hindex, hzeroes⟩
          have hmem : id ∈ store.index.value := HashMap.mem_iff_exists_getElem?.mpr ⟨slot, hslot⟩
          have hsize : (store.index.value.erase id).size + 1 = store.index.value.size := by
            have hpos : store.index.value.size ≠ 0 := by
              intro hzero
              rw [Std.ExtTreeMap.eq_empty_iff_size_eq_zero.mpr hzero] at hmem
              exact Std.ExtTreeMap.not_mem_empty hmem
            have herase : (store.index.value.erase id).size = store.index.value.size - 1 := by
              simp [Std.ExtTreeMap.size_erase, hmem]
            omega
          refine ⟨htotal, ?_⟩
          split at hzeroes
          · rename_i hzero
            simp only [call, if_pos ((completes_delete_iff hslot).mpr hzero), freeSlotCount, hindex,
              hzeroes.2, List.length_append, List.length_singleton]
            omega
          · rename_i hzero
            simp only [call, if_neg (mt (completes_delete_iff hslot).mp hzero), freeSlotCount,
              hindex, hzeroes.2]
            omega

/-- Used, free and leaked slots are all the slots there were. -/
theorem calls_accounted (h : store.Sound) {run : List WriteCall}
    (hfits : ∀ call ∈ run, call.Fits) :
    (store.calls crc32 run).totalSlots = store.totalSlots ∧
      (store.calls crc32 run).index.value.size + (store.calls crc32 run).freeSlotCount +
          store.leaks crc32 run =
        store.index.value.size + store.freeSlotCount := by
  induction run generalizing store with
  | nil => exact ⟨rfl, rfl⟩
  | cons call run ih =>
      have hfirst := hfits call (by simp)
      rcases @call_accounted crc32 store h call hfirst with ⟨htotal, hcount⟩
      rcases ih (h.call hfirst) fun other hmem => hfits other (List.mem_cons_of_mem _ hmem) with
        ⟨htotal', hcount'⟩
      refine ⟨htotal'.trans htotal, ?_⟩
      rw [leaks, ← hcount, ← hcount', calls, List.foldl_cons, ← calls]
      omega

/-- Every call of the run completes. -/
def AllComplete (crc32 : Bytes → UInt32) (self : ChunkStore) (run : List WriteCall) : Prop :=
  ∀ before call after, run = before ++ call :: after →
    (self.calls crc32 before).Completes call

theorem leaks_eq_zero_iff {run : List WriteCall} :
    store.leaks crc32 run = 0 ↔ store.AllComplete crc32 run := by
  induction run generalizing store with
  | nil =>
      refine iff_of_true rfl fun before call after heq => ?_
      simp at heq
  | cons call run ih =>
      rw [leaks, Nat.add_eq_zero_iff, ih]
      constructor
      · rintro ⟨hfirst, hrest⟩ before other after heq
        cases before with
        | nil =>
            cases heq
            by_contra hleaks
            rw [calls, List.foldl_nil] at hleaks
            simp [hleaks] at hfirst
        | cons first before =>
            cases heq
            exact hrest before other after rfl
      · intro hall
        constructor
        · exact if_pos (hall [] call run rfl)
        · exact fun before other after heq => hall (call :: before) other after (by rw [heq]; rfl)

theorem sound_of_openFile {disk disk' : Disk} {allocatedSlots : Option Nat}
    {options : ChunkStoreOptions}
    (hopen : openFile disk allocatedSlots options = (.returned (.ok store), disk')) :
    store.Sound :=
  ⟨wellFormed_of_openFile hopen, congrArg SlotTable.poisoned (table_of_openFile hopen)⟩

theorem Sound.history (h : store.Sound) {operations : List Operation}
    (hfits : ∀ operation ∈ operations, operation.Fits) {entries : List (Operation × Reply)}
    {last : ChunkStore} (hrun : store.history crc32 operations = some (entries, last)) :
    last.Sound := by
  induction operations generalizing store entries with
  | nil =>
      cases hrun
      exact h
  | cons operation operations ih =>
      rcases history_cons hrun with ⟨reply, next, rest, hperform, hrest, _⟩
      have hstep := perform_step h.wellFormed hperform
      have hnext := hstep.ne_panicked (hfits operation (by simp)) h.unpoisoned
      exact ih ⟨hstep.wellFormed h.wellFormed, hnext.2⟩
        (fun other hmem => hfits other (List.mem_cons_of_mem _ hmem)) hrest

end ChunkStore

/-- In every store that is reached, whatever it was opened on and whatever failed before, an
error of a put or a delete leaves the index and the free slots alone exactly if the call is not
a delete of a stored chunk whose zeroing or sync fails.  On a fresh store every slot stays used
or free through a run of puts and deletes exactly if no such delete is among them. -/
theorem errors_leak_no_slot_iff (crc32 : Bytes → UInt32) (disk disk' : Disk)
    (allocatedSlots : Option Nat) (options : ChunkStoreOptions) (store : ChunkStore)
    (hopen : ChunkStore.openFile disk allocatedSlots options = (.returned (.ok store), disk')) :
    (∀ operations entries reached, (∀ operation ∈ operations, operation.Fits) →
      store.history crc32 operations = some (entries, reached) →
        ∀ call : WriteCall, call.Fits →
          (reached.ErrorKeepsSlots crc32 call ↔ reached.Completes call)) ∧
      ∀ run : List WriteCall, (∀ call ∈ run, call.Fits) →
        ((store.calls crc32 run).SlotsConserved ↔ store.AllComplete crc32 run) := by
  have hsound := ChunkStore.sound_of_openFile hopen
  constructor
  · intro operations entries reached hfits hrun call hcall
    exact ChunkStore.call_keeps_iff (hsound.history hfits hrun) hcall
  · intro run hfits
    have htable := ChunkStore.table_of_openFile hopen
    have hindex : store.index.value = ∅ := congrArg SlotTable.index htable
    have hfree : store.freeSlots = List.range (slotCount allocatedSlots) :=
      congrArg SlotTable.freeSlots htable
    have htotal : store.totalSlots = slotCount allocatedSlots :=
      congrArg SlotTable.totalSlots htable
    have hstart : store.index.value.size + store.freeSlotCount = store.totalSlots := by
      simp [ChunkStore.freeSlotCount, hindex, hfree, htotal]
    rcases @ChunkStore.calls_accounted crc32 store hsound run hfits with ⟨htotal', hcount⟩
    rw [ChunkStore.SlotsConserved, htotal', ← hstart, ← hcount, ← ChunkStore.leaks_eq_zero_iff]
    omega

/-! ## A slot that a failed delete leaks -/

/-- No system call of the delete fails: its slot is free again. -/
theorem errors_leak_no_slot_iff_freed :
    (twoSlots 5).AllComplete Library.crc32 [.putChunk 7 [1], .deleteChunk 7] ∧
      ((twoSlots 5).calls Library.crc32 [.putChunk 7 [1], .deleteChunk 7]).SlotsConserved := by
  have hcomplete : (twoSlots 5).AllComplete Library.crc32 [.putChunk 7 [1], .deleteChunk 7] := by
    refine ChunkStore.leaks_eq_zero_iff.mp ?_
    decide +kernel
  have hfits : ∀ call ∈ [WriteCall.putChunk 7 [1], .deleteChunk 7], call.Fits := by
    simp [WriteCall.Fits, SLOT_DATA_SIZE, SLOT_SIZE, CHUNK_HEADER_SIZE]
  exact ⟨hcomplete, ((errors_leak_no_slot_iff Library.crc32 _ _ _ _ (twoSlots 5)
    (openFile_twoSlots 5)).2 _ hfits).mpr hcomplete⟩

/-- A put, and then a delete whose first system call fails. -/
def storedSeven : ChunkStore :=
  (twoSlots 3).calls Library.crc32 [.putChunk 7 [1]]

/-- The failed delete takes the chunk out of the index and its slot out of use. -/
theorem failed_delete_leaks_slot :
    ¬ storedSeven.ErrorKeepsSlots Library.crc32 (.deleteChunk 7) ∧
      ¬ (storedSeven.call Library.crc32 (.deleteChunk 7)).2.SlotsConserved := by
  have hsound : storedSeven.Sound := by
    refine ChunkStore.Sound.calls (ChunkStore.sound_of_openFile (openFile_twoSlots 3)) ?_
    simp [WriteCall.Fits, SLOT_DATA_SIZE, SLOT_SIZE, CHUNK_HEADER_SIZE]
  have hfails : ¬ storedSeven.Completes (.deleteChunk 7) := by
    decide +kernel
  have hkeeps_iff := @ChunkStore.call_keeps_iff Library.crc32 storedSeven hsound (.deleteChunk 7)
    trivial
  constructor
  · intro hkeeps
    exact hfails (hkeeps_iff.mp hkeeps)
  · unfold ChunkStore.SlotsConserved
    decide +kernel

end StorageNode
end ObjectStore
