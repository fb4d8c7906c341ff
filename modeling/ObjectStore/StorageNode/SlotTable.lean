import ObjectStore.Library.Ownership
import ObjectStore.StorageNode.Recovery

/-!
# Storage node - Slots under I/O errors

Any file operation of a chunk store may fail and leave a prefix of what it was to write.
`SlotTable.Step` says what an operation may do to the file, the index and the stack of free
slots; the methods of `ChunkStore` are shown to do nothing else.

Main definitions:

- `Operation`: the requests, and a recovery of the running store.
- `SlotTable`, `SlotTable.Step`: the store as its slots see it, and one operation on it.
- `SlotTable.WellFormed`: no slot serves two masters.

Main results:

- Theorem `SlotTable.Step.wellFormed`: every step keeps the slots apart.
- Theorem `SlotTable.Step.ne_panicked`: no step panics while payloads fit into slots.
-/

namespace ObjectStore
namespace StorageNode

open Library (ByteFile Exclusive Unclaimed)

/-! ## Operations -/

/-- What can happen to a chunk store. -/
inductive Operation where
  | request (request : Request)
  /-- `recover_index` on the running store. -/
  | recoverIndex (fastRecover : Bool)

/-- The chunk that an operation is about. -/
def Operation.id? : Operation → Option UInt64
  | .request inner => inner.id?
  | .recoverIndex _ => none

/-- The payload of a put fits into a slot. -/
def Operation.Fits : Operation → Prop
  | .request (.putChunk _ data) => data.length ≤ SLOT_DATA_SIZE
  | _ => True

/-- The chunk store performs an operation; `none` when a restart does not come up. -/
def ChunkStore.perform (crc32 : Bytes → UInt32) (self : ChunkStore) :
    Operation → Option (Reply × ChunkStore)
  | .request request => self.serve crc32 request
  | .recoverIndex fastRecover =>
      let (outcome, self) := self.recoverIndex crc32 fastRecover
      some (outcome.reply (fun _ => .ok), self)

/-- The operations of a run with their replies, and the store they leave. -/
def ChunkStore.history (crc32 : Bytes → UInt32) (self : ChunkStore) :
    List Operation → Option (List (Operation × Reply) × ChunkStore)
  | [] => some ([], self)
  | operation :: operations =>
      match self.perform crc32 operation with
      | none => none
      | some (reply, self) =>
          (self.history crc32 operations).map fun (entries, self) =>
            ((operation, reply) :: entries, self)

/-! ## Slots -/

/-- What the slots of a chunk store depend on. -/
structure SlotTable where
  file : ByteFile
  index : HashMap UInt64 Nat
  freeSlots : List Nat
  totalSlots : Nat
  poisoned : Bool

/-- The file, the index and the free slots of a store. -/
def ChunkStore.table (self : ChunkStore) : SlotTable where
  file := self.file.file
  index := self.index.value
  freeSlots := self.freeSlots
  totalSlots := self.totalSlots
  poisoned := self.index.poisoned

/-- The slots below `totalSlots`, each free, used by one id, or neither. -/
def SlotsApart (index : HashMap UInt64 Nat) (freeSlots : List Nat) (totalSlots : Nat) : Prop :=
  Exclusive (· < totalSlots) freeSlots fun id : UInt64 => index[id]?

/-- The bytes that `put_chunk` writes: the header, then the payload. -/
def chunkBytes (crc32 : Bytes → UInt32) (id : UInt64) (data : Bytes) : Bytes :=
  (ChunkHeader.new id (crc32 data) (UInt32.ofNat data.length)).toBytes ++ data

@[simp]
theorem length_chunkBytes (crc32 : Bytes → UInt32) (id : UInt64) (data : Bytes) :
    (chunkBytes crc32 id data).length = CHUNK_HEADER_SIZE + data.length := by
  simp [chunkBytes]

namespace SlotTable

/-- No slot serves two masters, and the file has every slot. -/
structure WellFormed (table : SlotTable) : Prop where
  apart : SlotsApart table.index table.freeSlots table.totalSlots
  len : table.file.len = SLOT_SIZE * table.totalSlots

/-- What one operation may do, whatever fails in it. -/
inductive Step (crc32 : Bytes → UInt32) : SlotTable → Operation → Reply → SlotTable → Prop where
  /-- Reads, refusals and requests that meet a poisoned lock change nothing. -/
  | idle {table : SlotTable} {operation : Operation} {reply : Reply}
      (hput : ∀ id data, operation = .request (.putChunk id data) → reply ≠ .ok)
      (hpanic : reply = .panicked → table.poisoned = true) :
      Step crc32 table operation reply table
  | stored {table : SlotTable} {id : UInt64} {data : Bytes} {rest : List Nat} {slot : Nat}
      (hfree : table.freeSlots = rest ++ [slot]) (hid : id ∉ table.index)
      (hdata : data.length ≤ SLOT_DATA_SIZE) :
      Step crc32 table (.request (.putChunk id data)) .ok
        { table with
          file := table.file.splice (slot * SLOT_SIZE) (chunkBytes crc32 id data)
          index := table.index.insert id slot
          freeSlots := rest }
  /-- A put that fails has written a prefix, perhaps all, and gives the slot back. -/
  | torn {table : SlotTable} {id : UInt64} {data : Bytes} {rest : List Nat} {slot count : Nat}
      {kind : ErrorKind} (hfree : table.freeSlots = rest ++ [slot]) (hid : id ∉ table.index)
      (hdata : data.length ≤ SLOT_DATA_SIZE) (hcount : count ≤ (chunkBytes crc32 id data).length) :
      Step crc32 table (.request (.putChunk id data)) (.failed kind)
        { table with
          file := table.file.splice (slot * SLOT_SIZE) ((chunkBytes crc32 id data).take count) }
  /-- A payload that does not fit panics in `write_chunk_at`, with the slot taken. -/
  | oversized {table : SlotTable} {id : UInt64} {data : Bytes} {rest : List Nat} {slot : Nat}
      (hfree : table.freeSlots = rest ++ [slot]) (hdata : SLOT_DATA_SIZE < data.length) :
      Step crc32 table (.request (.putChunk id data)) .panicked
        { table with freeSlots := rest, poisoned := true }
  | deleted {table : SlotTable} {id : UInt64} {slot : Nat} (hid : table.index[id]? = some slot) :
      Step crc32 table (.request (.deleteChunk id)) .ok
        { table with
          file := table.file.splice (slot * SLOT_SIZE) (List.replicate CHUNK_HEADER_SIZE 0)
          index := table.index.erase id
          freeSlots := table.freeSlots ++ [slot] }
  /-- A delete that fails has zeroed some of the header and forgets the slot. -/
  | leaked {table : SlotTable} {id : UInt64} {slot count : Nat} {kind : ErrorKind}
      (hid : table.index[id]? = some slot) (hcount : count ≤ CHUNK_HEADER_SIZE) :
      Step crc32 table (.request (.deleteChunk id)) (.failed kind)
        { table with
          file := table.file.splice (slot * SLOT_SIZE) (List.replicate count 0)
          index := table.index.erase id }
  /-- A recovery, complete or not, sorts slots into used and free ones. -/
  | rescanned {table : SlotTable} {fastRecover : Bool} {reply : Reply}
      {index : HashMap UInt64 Nat} {freeSlots : List Nat}
      (hapart : SlotsApart index freeSlots table.totalSlots) (hreply : reply ≠ .panicked) :
      Step crc32 table (.recoverIndex fastRecover) reply
        { table with index := index, freeSlots := freeSlots }
  | reopened {table : SlotTable} {allocatedSlots : Option Nat} {options : ChunkStoreOptions}
      {index : HashMap UInt64 Nat} {freeSlots : List Nat}
      (hapart : SlotsApart index freeSlots (slotCount allocatedSlots)) :
      Step crc32 table (.request (.restart allocatedSlots options)) .ok
        { file := table.file.setLen (SLOT_SIZE * slotCount allocatedSlots)
          index := index
          freeSlots := freeSlots
          totalSlots := slotCount allocatedSlots
          poisoned := false }

/-! ## Steps keep the slots apart -/

variable {crc32 : Bytes → UInt32} {table table' : SlotTable} {operation : Operation}
  {reply : Reply}

/-- A write inside a slot keeps the length of the file. -/
theorem WellFormed.len_splice (h : table.WellFormed) {slot : Nat} (hslot : slot < table.totalSlots)
    {bytes : Bytes} (hbytes : bytes.length ≤ SLOT_SIZE) :
    (table.file.splice (slot * SLOT_SIZE) bytes).len = SLOT_SIZE * table.totalSlots := by
  rw [(Frame.splice hslot h.len hbytes).len]
  exact h.len

theorem length_chunkBytes_le (id : UInt64) {data : Bytes} (hdata : data.length ≤ SLOT_DATA_SIZE) :
    (chunkBytes crc32 id data).length ≤ SLOT_SIZE := by
  rw [length_chunkBytes]
  simp only [SLOT_DATA_SIZE, SLOT_SIZE, CHUNK_HEADER_SIZE] at *
  omega

theorem length_take_chunkBytes_le (id : UInt64) {data : Bytes}
    (hdata : data.length ≤ SLOT_DATA_SIZE) (count : Nat) :
    ((chunkBytes crc32 id data).take count).length ≤ SLOT_SIZE := by
  have hwhole := @length_chunkBytes_le crc32 id data hdata
  rw [List.length_take]
  omega

theorem length_zeros_le {count : Nat} (hcount : count ≤ CHUNK_HEADER_SIZE) :
    (List.replicate count (0 : UInt8)).length ≤ SLOT_SIZE := by
  have hsmall : CHUNK_HEADER_SIZE ≤ SLOT_SIZE := by decide
  rw [List.length_replicate]
  omega

theorem WellFormed.pop (h : table.WellFormed) {rest : List Nat} {slot : Nat}
    (hfree : table.freeSlots = rest ++ [slot]) :
    SlotsApart table.index rest table.totalSlots ∧
      Unclaimed rest (fun id : UInt64 => table.index[id]?) slot ∧ slot < table.totalSlots := by
  have hapart : Exclusive (· < table.totalSlots) (rest ++ [slot])
      fun id : UInt64 => table.index[id]? := hfree ▸ h.apart
  exact ⟨hapart.pop, hapart.unclaimed_of_pop, hapart.valid_of_pop⟩

theorem WellFormed.erase (h : table.WellFormed) {id : UInt64} {slot : Nat}
    (hid : table.index[id]? = some slot) :
    SlotsApart (table.index.erase id) table.freeSlots table.totalSlots ∧
      Unclaimed table.freeSlots (fun other : UInt64 => (table.index.erase id)[other]?) slot ∧
        slot < table.totalSlots := by
  have hsub : ∀ (other : UInt64) (slot : Nat), (table.index.erase id)[other]? = some slot →
      table.index[other]? = some slot := fun other slot => HashMap.getElem?_of_erase
  constructor
  · exact h.apart.forget hsub
  · constructor
    · exact h.apart.unclaimed_of_forget hid Std.ExtTreeMap.getElem?_erase_self hsub
    · exact h.apart.valid_owned id slot hid

/-- Every step keeps the slots apart and the file as long as it was. -/
theorem Step.wellFormed (hstep : Step crc32 table operation reply table')
    (h : table.WellFormed) : table'.WellFormed := by
  cases hstep with
  | idle hput hpanic => exact h
  | @stored id data rest slot hfree hid hdata =>
      rcases h.pop hfree with ⟨hrest, hfresh, hslot⟩
      constructor
      · refine hrest.assign hfresh hslot Std.ExtTreeMap.getElem?_insert_self fun other hne => ?_
        exact HashMap.getElem?_insert_of_ne _ _ hne
      · exact h.len_splice hslot (length_chunkBytes_le id hdata)
  | @torn id data rest slot count kind hfree hid hdata hcount =>
      rcases h.pop hfree with ⟨hrest, hfresh, hslot⟩
      constructor
      · exact h.apart
      · exact h.len_splice hslot (length_take_chunkBytes_le id hdata count)
  | oversized hfree hdata =>
      constructor
      · exact (h.pop hfree).1
      · exact h.len
  | deleted hid =>
      rcases h.erase hid with ⟨hrest, hfresh, hslot⟩
      constructor
      · exact hrest.push hfresh hslot
      · exact h.len_splice hslot (length_zeros_le (Nat.le_refl _))
  | leaked hid hcount =>
      rcases h.erase hid with ⟨hrest, hfresh, hslot⟩
      constructor
      · exact hrest
      · exact h.len_splice hslot (length_zeros_le hcount)
  | rescanned hapart hreply => exact ⟨hapart, h.len⟩
  | reopened hapart => exact ⟨hapart, rfl⟩

/-- A request about a chunk leaves the number of slots. -/
theorem Step.totalSlots (hstep : Step crc32 table operation reply table')
    (hrequest : operation.id?.isSome) : table'.totalSlots = table.totalSlots := by
  cases hstep with
  | reopened hapart => cases hrequest
  | idle | stored | torn | oversized | deleted | leaked | rescanned => rfl

/-- While the lock is sound and payloads fit into slots, no step panics. -/
theorem Step.ne_panicked (hstep : Step crc32 table operation reply table')
    (hfits : operation.Fits) (hsound : table.poisoned = false) :
    reply ≠ .panicked ∧ table'.poisoned = false := by
  cases hstep with
  | idle hput hpanic =>
      constructor
      · intro hreply
        rw [hpanic hreply] at hsound
        cases hsound
      · exact hsound
  | oversized hfree hdata => exact absurd hfits (Nat.not_le.mpr hdata)
  | rescanned hapart hreply => exact ⟨hreply, hsound⟩
  | reopened hapart => simp
  | stored | torn | deleted | leaked => exact ⟨by simp, hsound⟩

end SlotTable
end StorageNode
end ObjectStore
