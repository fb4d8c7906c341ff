import ObjectStore.Library.Protocol
import ObjectStore.System.Uploads

/-!
# System - A store with requests in flight

While uploads and replication cycles are under way, the store is a tidy one and, on top of
it, what they have in hand: chunk ids that are reserved but not confirmed, and data that is
written but not recorded.  Every program has its own hand, and no two hands hold the same.

Main definitions:

- `Hand`: what a program in flight knows and owns.
- `Rule`: the calls that it may make, with the replies to expect.
- `Afloat`: the store is a tidy one with the things in hand on top.

Main results:

- Theorems `Afloat.insertObject`, `reserve`, `write`, `drop`, `attach`, `replicate`: one for
  each way in which a hand and the store change together.
-/

namespace ObjectStore
namespace System

open ApiGateway (Replica content)
open Deployment (Call SameMemory SameServices Services)
open Library (Owned Separate)
open StorageMetadata (MetaChunk MetadataStore MetaObject)
open StorageMetadata.Proto (AllocateChunkResponse UnderReplicatedChunk)

/-! ## Hands -/

/-- What a program in flight knows and owns. -/
structure Hand where
  /-- Storage nodes that are registered. -/
  nodes : List StorageMetadata.Proto.MetaStorageNode
  /-- Chunks that are recorded. -/
  chunks : List UInt64
  /-- What has been read of them. -/
  copies : List (UInt64 × Bytes)
  /-- The object that is being uploaded, and the bytes that it has so far. -/
  object : Option (String × Bytes)
  /-- The name that was taken already. -/
  refused : Option String
  /-- A chunk id, and the storage node that it was allocated on. -/
  reserved : Option (UInt64 × StorageMetadata.Proto.MetaStorageNode)
  /-- Data on a storage node that is not recorded yet. -/
  written : Option ((String × UInt64) × Bytes)

/-- Nothing has been learnt or taken. -/
def Hand.empty : Hand := ⟨[], [], [], none, none, none, none⟩

/-- The calls of a program in flight, with the replies to expect and the hand after them.
Nothing is deleted but what the program has written itself. -/
inductive Rule (crc32 : Bytes → UInt32) :
    Hand → (call : Call) → (call.Reply → Hand → Prop) → Prop where
  | read {hand : Hand} {call : Call} (hreads : call.Reads) :
      Rule crc32 hand call fun _ after => after = hand
  | connect {hand : Hand} {node : StorageMetadata.Proto.MetaStorageNode}
      (hnode : node ∈ hand.nodes) :
      Rule crc32 hand (.connect node.address) fun (reply : Except String Unit) after =>
        reply = .ok () ∧ after = hand
  | connectCached {hand : Hand} {node : StorageMetadata.Proto.MetaStorageNode}
      (hnode : node ∈ hand.nodes) :
      Rule crc32 hand (.connectCached node.address) fun (reply : Except String Unit) after =>
        reply = .ok () ∧ after = hand
  | getChunkSize {hand : Hand} {node : StorageMetadata.Proto.MetaStorageNode}
      (hnode : node ∈ hand.nodes) :
      Rule crc32 hand (.storageNode node.address .getChunkSize)
        fun (reply : Except Status StorageNode.ChunkSize) after =>
          (∃ size, reply = .ok size) ∧ after = hand
  | listStorageNodes {hand : Hand} :
      Rule crc32 hand (.metadata .listStorageNodes)
        fun (reply : Except Status (List StorageMetadata.Proto.MetaStorageNode)) after =>
          ∃ nodes, reply = .ok nodes ∧ nodes ≠ [] ∧
            after = { hand with nodes := nodes ++ hand.nodes }
  | listUnderReplicatedChunks {hand : Hand} (maxReplicas : UInt32) :
      Rule crc32 hand (.metadata (.listUnderReplicatedChunks maxReplicas))
        fun (reply : Except Status (List UnderReplicatedChunk)) after =>
          (∃ status, reply = .error status) ∧ after = hand ∨ ∃ chunks, reply = .ok chunks ∧
            after = { hand with chunks := chunks.map (·.chunkId) ++ hand.chunks }
  | readChunk {hand : Hand} {id : UInt64} (address : String) (hid : id ∈ hand.chunks) :
      Rule crc32 hand (.storageNode address (.readChunk id))
        fun (reply : Except Status StorageNode.ReadChunkResponse) after =>
          (∃ status, reply = .error status) ∧ after = hand ∨ ∃ response, reply = .ok response ∧
            after = { hand with copies := (id, response.chunkBytes) :: hand.copies }
  | putObject {hand : Hand} {name : String} (checksum : UInt32) (hobject : hand.object = none) :
      Rule crc32 hand
        (.metadata (.putObject checksum name)) fun (reply : Except Status Unit) after =>
        reply = .ok () ∧ after = { hand with object := some (name, []) } ∨
          (∃ status, reply = .error status) ∧ after = { hand with refused := some name }
  | allocateChunk {hand : Hand} {name : String} {bytes : Bytes} (checksum : UInt32)
      (hobject : hand.object = some (name, bytes)) (hreserved : hand.reserved = none)
      (hwritten : hand.written = none) :
      Rule crc32 hand (.metadata (.allocateChunk name checksum))
        fun (reply : Except Status AllocateChunkResponse) after =>
          ∃ id address nodeId, reply = .ok ⟨id, address, nodeId⟩ ∧
            after = { hand with
              nodes := ⟨nodeId, address⟩ :: hand.nodes, reserved := some (id, ⟨nodeId, address⟩) }
  | writeChunk {hand : Hand} {id : UInt64} {node : StorageMetadata.Proto.MetaStorageNode}
      {piece : Bytes} (hreserved : hand.reserved = some (id, node)) (hwritten : hand.written = none)
      (hpiece : piece ≠ []) :
      Rule crc32 hand (.storageNode node.address (.writeChunk id piece))
        fun (reply : Except Status UInt64) after => (∃ value, reply = .ok value) ∧
          after = { hand with written := some ((node.address, id), piece) }
  | confirmChunk {hand : Hand} {name : String} {id : UInt64}
      {node : StorageMetadata.Proto.MetaStorageNode} {bytes piece : Bytes}
      (hobject : hand.object = some (name, bytes)) (hreserved : hand.reserved = some (id, node))
      (hwritten : hand.written = some ((node.address, id), piece)) :
      Rule crc32 hand (.metadata (.confirmChunk id name (crc32 piece) node.id))
        fun (reply : Except Status Unit) after => reply = .ok () ∧ after =
          { hand with object := some (name, bytes ++ piece), reserved := none, written := none }
  | updateObjectChecksum {hand : Hand} {name : String} {bytes : Bytes} (checksum : UInt32)
      (totalSize : UInt64) (hobject : hand.object = some (name, bytes)) :
      Rule crc32 hand (.metadata (.updateObjectChecksum name checksum totalSize))
        fun (reply : Except Status Unit) after => reply = .ok () ∧ after = hand
  | copyChunk {hand : Hand} {id : UInt64} {bytes : Bytes} (address : String)
      (hcopy : (id, bytes) ∈ hand.copies) (hreserved : hand.reserved = none)
      (hwritten : hand.written = none) :
      Rule crc32 hand (.storageNode address (.writeChunk id bytes))
        fun (reply : Except Status UInt64) after =>
          (∃ status, reply = .error status) ∧ after = hand ∨ (∃ value, reply = .ok value) ∧
            after = { hand with written := some ((address, id), bytes) }
  | addChunkReplica {hand : Hand} {id : UInt64} {node : StorageMetadata.Proto.MetaStorageNode}
      {bytes : Bytes} (hnode : node ∈ hand.nodes) (hreserved : hand.reserved = none)
      (hwritten : hand.written = some ((node.address, id), bytes)) :
      Rule crc32 hand (.metadata (.addChunkReplica id node.id))
        fun (reply : Except Status Unit) after =>
          (∃ status, reply = .error status) ∧ after = hand ∨
            reply = .ok () ∧ after = { hand with written := none }
  | deleteChunk {hand : Hand} {address : String} {id : UInt64} {bytes : Bytes}
      (hreserved : hand.reserved = none) (hwritten : hand.written = some ((address, id), bytes)) :
      Rule crc32 hand (.storageNode address (.deleteChunk id))
        fun (_ : Except Status UInt64) after => after = { hand with written := none }

/-! ## The store -/

/-- What a hand knows and owns fits the store `s` and the tidy store `t` underneath. -/
structure Backed (base : String → Option Bytes) (pieces : UInt64 → Bytes) (t s : Services)
    (hand : Hand) : Prop where
  nodes : ∀ node ∈ hand.nodes,
    t.metadata.metadataStore.storageNodes[node.id]? = some ⟨node.id, node.address⟩
  chunks : ∀ id ∈ hand.chunks, id ∈ t.metadata.metadataStore.chunks
  copies : ∀ copy ∈ hand.copies, copy.1 ∈ t.metadata.metadataStore.chunks ∧ copy.2 = pieces copy.1
  object : ∀ name bytes, hand.object = some (name, bytes) →
    base name = none ∧ contents pieces t name = some bytes
  refused : ∀ name, hand.refused = some name → contents pieces t name ≠ none
  reserved : ∀ id node, hand.reserved = some (id, node) →
    node ∈ hand.nodes ∧ t.metadata.metadataStore.chunks[id]? = none ∧
      ∃ name bytes, hand.object = some (name, bytes) ∧
        s.metadata.metadataStore.chunks[id]? = some (.newPending id name)
  written : ∀ address id bytes, hand.written = some ((address, id), bytes) →
    s.dataAt address id = some bytes ∧ t.dataAt address id = none ∧
      ((∃ node, hand.reserved = some (id, node) ∧ node.address = address ∧ bytes ≠ []) ∨
        hand.reserved = none ∧ id ∈ t.metadata.metadataStore.chunks ∧ bytes = pieces id)

/-- The store `s` is the tidy store `t` and what the hands hold. -/
structure Afloat (crc32 : Bytes → UInt32) (base : String → Option Bytes) (pieces : UInt64 → Bytes)
    (t s : Services) (hands : Nat → Hand) : Prop where
  tidy : Tidy crc32 [] pieces t
  objects : s.metadata.metadataStore.objects = t.metadata.metadataStore.objects
  registry : s.metadata.metadataStore.storageNodes = t.metadata.metadataStore.storageNodes
  reachable : ∀ node ∈ s.metadata.metadataStore.storageNodes.valueList, node.address ∈ s.nodes
  records : ∀ (id : UInt64) (chunk : MetaChunk), t.metadata.metadataStore.chunks[id]? = some chunk →
    s.metadata.metadataStore.chunks[id]? = some chunk
  pending : ∀ (id : UInt64) (chunk : MetaChunk), s.metadata.metadataStore.chunks[id]? = some chunk →
    t.metadata.metadataStore.chunks[id]? = some chunk ∨ Owned Hand.reserved hands id
  data : ∀ (address : String) (id : UInt64) (bytes : Bytes), t.dataAt address id = some bytes →
    s.dataAt address id = some bytes
  extra : ∀ (address : String) (id : UInt64) (bytes : Bytes), s.dataAt address id = some bytes →
    t.dataAt address id = some bytes ∨ Owned Hand.written hands (address, id)
  backed : ∀ i, Backed base pieces t s (hands i)
  names : Separate Hand.object hands
  ids : Separate Hand.reserved hands
  places : Separate Hand.written hands
  frame : ∀ name, contents pieces t name = base name ∨ Owned Hand.object hands name

variable {crc32 : Bytes → UInt32} {base : String → Option Bytes} {pieces pieces' : UInt64 → Bytes}
  {t t' s s' : Services} {hands : Nat → Hand} {hand : Hand} {i : Nat} {name address : String}
  {id : UInt64} {bytes : Bytes}

/-- The records of the metadata node are replaced. -/
def withRecords (t : Services) (m : MetadataStore) : Services :=
  { t with metadata := t.metadata.withStore m }

@[simp]
theorem withRecords_metadataStore (m : MetadataStore) :
    (withRecords t m).metadata.metadataStore = m := rfl

@[simp]
theorem withRecords_dataAt (m : MetadataStore) (address : String) (id : UInt64) :
    (withRecords t m).dataAt address id = t.dataAt address id := rfl

/-- A chunk is stored, however full the storage node is. -/
def withData (t : Services) (address : String) (id : UInt64) (bytes : Bytes) : Services :=
  { t with
    nodes := t.nodes.insert address
      ⟨_, ((t.nodes[address]?).elim ∅ (·.live)).insert id bytes, Nat.le_refl _⟩ }

/-- One chunk has been written on one node. -/
theorem withData_dataAt (t : Services) (address : String) (id : UInt64) (bytes : Bytes)
    (other : String) (otherId : UInt64) : (withData t address id bytes).dataAt other otherId =
      if other = address ∧ otherId = id then some bytes else t.dataAt other otherId := by
  by_cases haddress : other = address
  · subst haddress
    by_cases hid : otherId = id
    · subst hid
      simp [withData, Services.dataAt]
    · cases hnode : t.nodes[other]? <;>
        simp [withData, Services.dataAt, hnode, hid, HashMap.getElem?_insert_of_ne _ _ hid]
  · simp [withData, Services.dataAt, haddress, HashMap.getElem?_insert_of_ne _ _ haddress]

theorem mem_withData_nodes {t : Services} {address other : String} {id : UInt64} {bytes : Bytes}
    (h : other ∈ t.nodes) : other ∈ (withData t address id bytes).nodes := by
  simp [withData, h]

/-- The stores change away from what the hand holds. -/
theorem Backed.mono (h : Backed base pieces t s hand)
    (hregistry : t'.metadata.metadataStore.storageNodes = t.metadata.metadataStore.storageNodes)
    (hchunks : ∀ id ∈ t.metadata.metadataStore.chunks,
      id ∈ t'.metadata.metadataStore.chunks ∧ pieces' id = pieces id)
    (hobject : ∀ name bytes, hand.object = some (name, bytes) →
      contents pieces' t' name = contents pieces t name)
    (htaken : ∀ name, contents pieces t name ≠ none → contents pieces' t' name ≠ none)
    (hreserved : ∀ id node, hand.reserved = some (id, node) →
      t'.metadata.metadataStore.chunks[id]? = t.metadata.metadataStore.chunks[id]? ∧
        s'.metadata.metadataStore.chunks[id]? = s.metadata.metadataStore.chunks[id]?)
    (hwritten : ∀ address id bytes, hand.written = some ((address, id), bytes) →
      t'.dataAt address id = t.dataAt address id ∧ s'.dataAt address id = s.dataAt address id) :
    Backed base pieces' t' s' hand where
  nodes := by
    rw [hregistry]
    exact h.nodes
  chunks id hid := (hchunks id (h.chunks id hid)).1
  copies copy hcopy := by
    rcases h.copies copy hcopy with ⟨hid, hbytes⟩
    rw [(hchunks _ hid).2]
    exact ⟨(hchunks _ hid).1, hbytes⟩
  object name bytes hname := by
    rw [hobject name bytes hname]
    exact h.object name bytes hname
  refused name hname := htaken name (h.refused name hname)
  reserved id node hid := by
    rw [(hreserved id node hid).1, (hreserved id node hid).2]
    exact h.reserved id node hid
  written address id bytes hplace := by
    rw [(hwritten address id bytes hplace).1, (hwritten address id bytes hplace).2]
    rcases h.written address id bytes hplace with ⟨hs, ht, hcases⟩
    refine ⟨hs, ht, hcases.imp_right fun hcopied => ?_⟩
    rcases hcopied with ⟨hnone, hid, hbytes⟩
    rw [(hchunks id hid).2]
    exact ⟨hnone, (hchunks id hid).1, hbytes⟩

/-- One hand changes, next to others that are backed as they were. -/
theorem backed_update (hothers : ∀ j ≠ i, Backed base pieces t s (hands j))
    (hhand : Backed base pieces t s hand) (j : Nat) :
    Backed base pieces t s (Function.update hands i hand j) := by
  by_cases hji : j = i
  · rw [hji, Function.update_self]
    exact hhand
  · rw [Function.update_of_ne hji]
    exact hothers j hji

namespace Afloat

variable (h : Afloat crc32 base pieces t s hands)

include h

/-- Reads make no difference. -/
theorem same (hsame : SameServices s s') : Afloat crc32 base pieces t s' hands where
  tidy := h.tidy
  objects := hsame.memory.objects.trans h.objects
  registry := hsame.memory.storageNodes.trans h.registry
  reachable := by
    rw [hsame.memory.storageNodes, hsame.nodes]
    exact h.reachable
  records := by
    rw [hsame.memory.chunks]
    exact h.records
  pending := by
    rw [hsame.memory.chunks]
    exact h.pending
  data := by
    simp only [hsame.dataAt]
    exact h.data
  extra := by
    simp only [hsame.dataAt]
    exact h.extra
  backed j := by
    apply (h.backed j).mono rfl
    · exact fun id hid => ⟨hid, rfl⟩
    · exact fun _ _ _ => rfl
    · exact fun _ htaken => htaken
    · intro id _ _
      rw [hsame.memory.chunks]
      exact ⟨rfl, rfl⟩
    · intro address id _ _
      rw [hsame.dataAt]
      exact ⟨rfl, rfl⟩
  names := h.names
  ids := h.ids
  places := h.places
  frame := h.frame

/-- A hand that owns what it owned. -/
theorem learn (hbacked : Backed base pieces t s hand) (hobject : hand.object = (hands i).object)
    (hreserved : hand.reserved = (hands i).reserved) (hwritten : hand.written = (hands i).written) :
    Afloat crc32 base pieces t s (Function.update hands i hand) where
  tidy := h.tidy
  objects := h.objects
  registry := h.registry
  reachable := h.reachable
  records := h.records
  pending id chunk hchunk := by
    refine (h.pending id chunk hchunk).imp_right fun howned => howned.update fun node hnode => ?_
    rw [hreserved]
    exact ⟨node, hnode⟩
  data := h.data
  extra address id bytes hbytes := by
    refine (h.extra address id bytes hbytes).imp_right fun howned => howned.update fun v hv => ?_
    rw [hwritten]
    exact ⟨v, hv⟩
  backed := backed_update (fun j _ => h.backed j) hbacked
  names := h.names.keep (by rw [hobject]; exact fun _ v hv => ⟨v, hv⟩)
  ids := h.ids.keep (by rw [hreserved]; exact fun _ v hv => ⟨v, hv⟩)
  places := h.places.keep (by rw [hwritten]; exact fun _ v hv => ⟨v, hv⟩)
  frame name := by
    refine (h.frame name).imp_right fun howned => howned.update fun v hv => ?_
    rw [hobject]
    exact ⟨v, hv⟩

/-- What is written or read at a place where nothing is settled belongs to a hand. -/
theorem owned_of_data (hbytes : s.dataAt address id = some bytes)
    (hnone : t.metadata.metadataStore.chunks[id]? = none) :
    Owned Hand.written hands (address, id) := by
  rcases h.extra address id bytes hbytes with hdata | howned
  · rcases replica_iff.mp (h.tidy.owned id address bytes hdata).2 with ⟨chunk, _, _, hchunk, _⟩
    cases hchunk.symm.trans hnone
  · exact howned

/-- Nothing has been written under an id that is only reserved. -/
theorem unwritten {node : StorageMetadata.Proto.MetaStorageNode}
    (hreserved : (hands i).reserved = some (id, node)) (hwritten : (hands i).written = none)
    (address : String) : s.dataAt address id = none := by
  have hnone := ((h.backed i).reserved id node hreserved).2.1
  by_contra hdata
  rcases Option.ne_none_iff_exists'.mp hdata with ⟨bytes, hbytes⟩
  rcases h.owned_of_data hbytes hnone with ⟨j, found, hj⟩
  rcases ((h.backed j).written address id found hj).2.2 with ⟨_, howner, _⟩ | ⟨_, hmem, _⟩
  · rw [h.ids i j id _ _ hreserved howner] at hwritten
    cases hwritten.symm.trans hj
  · rcases HashMap.mem_iff_exists_getElem?.mp hmem with ⟨chunk, hchunk⟩
    cases hchunk.symm.trans hnone

/-- An object is created, or replaced by one with the same bytes. -/
theorem insertObject {object : MetaObject}
    (hcatalogued : Catalogued (t.metadata.metadataStore.withObject name object))
    (hcontent : content object pieces = bytes) (hbase : base name = none)
    (howner : ∀ j w, (hands j).object = some (name, w) → j = i)
    (hown : ∀ other w, (hands i).object = some (other, w) → other = name)
    (hnodes : s'.nodes = s.nodes) (hmemory : SameMemory s'.metadata.metadataStore
      (s.metadata.metadataStore.withObject name object)) :
    ∃ t', Afloat crc32 base pieces t' s'
      (Function.update hands i { hands i with object := some (name, bytes) }) := by
  have hcontents : contents pieces
      (withRecords t (t.metadata.metadataStore.withObject name object)) =
      Function.update (contents pieces t) name (some bytes) := by
    rw [← hcontent]
    exact contents_insert pieces rfl
  have hdata : ∀ address id, s'.dataAt address id = s.dataAt address id := by
    intro address id
    simp only [Services.dataAt, hnodes]
  have hothers : ∀ other ≠ name, Function.update (contents pieces t) name (some bytes) other =
      contents pieces t other := fun other hother => Function.update_of_ne hother _ _
  have htaken : ∀ other, contents pieces t other ≠ none →
      Function.update (contents pieces t) name (some bytes) other ≠ none := by
    intro other hother
    by_cases hname : other = name
    · rw [hname, Function.update_self]
      simp
    · rw [hothers other hname]
      exact hother
  refine ⟨withRecords t (t.metadata.metadataStore.withObject name object), ?_⟩
  constructor
  · exact h.tidy.of_objects hcatalogued rfl rfl rfl
  · rw [hmemory.objects]
    exact congrArg (·.insert name object) h.objects
  · exact hmemory.storageNodes.trans h.registry
  · rw [hmemory.storageNodes, hnodes]
    exact h.reachable
  · rw [hmemory.chunks]
    exact h.records
  · intro id chunk hchunk
    rw [hmemory.chunks] at hchunk
    exact (h.pending id chunk hchunk).imp_right fun howned => howned.update fun v hv => ⟨v, hv⟩
  · intro address id found hfound
    rw [hdata]
    exact h.data address id found hfound
  · intro address id found hfound
    rw [hdata] at hfound
    exact (h.extra address id found hfound).imp_right fun howned =>
      howned.update fun v hv => ⟨v, hv⟩
  · have hbacked : ∀ j, (∀ other w, (hands j).object = some (other, w) → other ≠ name) →
        Backed base pieces (withRecords t (t.metadata.metadataStore.withObject name object)) s'
          (hands j) := by
      intro j hapart
      apply (h.backed j).mono
      · rfl
      · exact fun id hid => ⟨hid, rfl⟩
      · intro other w hother
        rw [hcontents]
        exact hothers other (hapart other w hother)
      · rw [hcontents]
        exact htaken
      · intro id _ _
        rw [hmemory.chunks]
        exact ⟨rfl, rfl⟩
      · intro address id _ _
        rw [hdata]
        exact ⟨rfl, rfl⟩
    apply backed_update
    · intro j hji
      apply hbacked j
      rintro other w hother rfl
      exact hji (howner j w hother)
    · have hi := h.backed i
      constructor
      · exact hi.nodes
      · exact hi.chunks
      · exact hi.copies
      · intro other w hother
        cases hother
        rw [hcontents, Function.update_self]
        exact ⟨hbase, rfl⟩
      · intro other hother
        rw [hcontents]
        exact htaken other (hi.refused other hother)
      · intro id node hid
        rcases hi.reserved id node hid with ⟨hnode, hnone, owner, w, howned, hpending⟩
        rw [hown owner w howned] at hpending
        refine ⟨hnode, hnone, name, bytes, rfl, ?_⟩
        rw [hmemory.chunks]
        exact hpending
      · intro address id found hplace
        rw [hdata]
        exact hi.written address id found hplace
  · apply h.names.update
    intro other w hother
    cases hother
    exact howner
  · exact h.ids.keep fun _ v hv => ⟨v, hv⟩
  · exact h.places.keep fun _ v hv => ⟨v, hv⟩
  · intro other
    by_cases hname : other = name
    · subst hname
      exact .inr (Owned.taken rfl)
    · rw [hcontents, hothers other hname]
      refine (h.frame other).imp_right fun howned => howned.update fun v hv => ?_
      exact absurd (hown other v hv) hname

/-- A hand that keeps its object, in stores in which `t` stays as it is. -/
theorem backed_of_services {j : Nat}
    (hchunks : ∀ id node, (hands j).reserved = some (id, node) →
      s'.metadata.metadataStore.chunks[id]? = s.metadata.metadataStore.chunks[id]?)
    (hdata : ∀ address id bytes, (hands j).written = some ((address, id), bytes) →
      s'.dataAt address id = s.dataAt address id) :
    Backed base pieces t s' (hands j) := by
  apply (h.backed j).mono
  · rfl
  · exact fun id hid => ⟨hid, rfl⟩
  · exact fun _ _ _ => rfl
  · exact fun _ htaken => htaken
  · exact fun id node hreserved => ⟨rfl, hchunks id node hreserved⟩
  · exact fun address id bytes hwritten => ⟨rfl, hdata address id bytes hwritten⟩

/-- A chunk id is allocated. -/
theorem reserve {node : StorageMetadata.MetaStorageNode}
    (hobject : (hands i).object = some (name, bytes)) (hreserved : (hands i).reserved = none)
    (hwritten : (hands i).written = none) (hnew : s.metadata.metadataStore.chunks[id]? = none)
    (hnode : node ∈ s.metadata.metadataStore.storageNodes.valueList) (hnodes : s'.nodes = s.nodes)
    (hmemory : SameMemory s'.metadata.metadataStore
      (s.metadata.metadataStore.withChunk id (.newPending id name))) :
    Afloat crc32 base pieces t s' (Function.update hands i { hands i with
      nodes := ⟨node.id, node.address⟩ :: (hands i).nodes
      reserved := some (id, ⟨node.id, node.address⟩) }) := by
  have hdata : ∀ address id, s'.dataAt address id = s.dataAt address id := by
    intro address id
    simp only [Services.dataAt, hnodes]
  have hunsettled : t.metadata.metadataStore.chunks[id]? = none := by
    by_contra hsome
    rcases Option.ne_none_iff_exists'.mp hsome with ⟨chunk, hchunk⟩
    cases (h.records id chunk hchunk).symm.trans hnew
  have hchunks : ∀ other ≠ id, s'.metadata.metadataStore.chunks[other]? =
      s.metadata.metadataStore.chunks[other]? := by
    intro other hother
    rw [hmemory.chunks]
    exact HashMap.getElem?_insert_of_ne _ _ hother
  have hpending : s'.metadata.metadataStore.chunks[id]? = some (.newPending id name) := by
    rw [hmemory.chunks]
    exact Std.ExtTreeMap.getElem?_insert_self
  have hapart : ∀ j node, (hands j).reserved ≠ some (id, node) := by
    intro j node hj
    rcases ((h.backed j).reserved id node hj).2.2 with ⟨_, _, _, hrecord⟩
    cases hrecord.symm.trans hnew
  have hregistered : t.metadata.metadataStore.storageNodes[node.id]? = some node := by
    rw [← h.registry]
    rcases HashMap.mem_valueList.mp hnode with ⟨key, hkey⟩
    rw [h.registry] at hkey ⊢
    have hid : node.id = key := h.tidy.catalogued.keyed key node hkey
    rw [hid]
    exact hkey
  constructor
  · exact h.tidy
  · exact hmemory.objects.trans h.objects
  · exact hmemory.storageNodes.trans h.registry
  · rw [hmemory.storageNodes, hnodes]
    exact h.reachable
  · intro other chunk hchunk
    have hother : other ≠ id := by
      rintro rfl
      cases hchunk.symm.trans hunsettled
    rw [hchunks other hother]
    exact h.records other chunk hchunk
  · intro other chunk hchunk
    by_cases hother : other = id
    · subst hother
      exact .inr (Owned.taken rfl)
    · rw [hchunks other hother] at hchunk
      refine (h.pending other chunk hchunk).imp_right fun howned => howned.update fun v hv => ?_
      cases hreserved.symm.trans hv
  · intro address other found hfound
    rw [hdata]
    exact h.data address other found hfound
  · intro address other found hfound
    rw [hdata] at hfound
    exact (h.extra address other found hfound).imp_right fun howned =>
      howned.update fun v hv => ⟨v, hv⟩
  · apply backed_update
    · intro j _
      apply h.backed_of_services
      · intro other found hother
        apply hchunks
        rintro rfl
        exact hapart j found hother
      · exact fun address other _ _ => hdata address other
    · have hi := h.backed i
      constructor
      · intro found hfound
        rcases List.mem_cons.mp hfound with rfl | hfound
        · exact hregistered
        · exact hi.nodes found hfound
      · exact hi.chunks
      · exact hi.copies
      · exact hi.object
      · exact hi.refused
      · intro other found hother
        cases hother
        exact ⟨List.mem_cons_self, hunsettled, name, bytes, hobject, hpending⟩
      · intro address other found hplace
        cases hwritten.symm.trans hplace
  · exact h.names.keep fun _ v hv => ⟨v, hv⟩
  · apply h.ids.update
    intro other found hother j w hj
    cases hother
    exact absurd hj (hapart j w)
  · exact h.places.keep fun _ v hv => ⟨v, hv⟩
  · exact fun other => (h.frame other).imp_right fun howned => howned.update fun v hv => ⟨v, hv⟩

/-- Data is written where there was none. -/
theorem write (hwritten : (hands i).written = none) (hfree : s.dataAt address id = none)
    (hmetadata : s'.metadata = s.metadata) (hnodes : ∀ other ∈ s.nodes, other ∈ s'.nodes)
    (hdata : ∀ (other : String) (otherId : UInt64), s'.dataAt other otherId =
      if other = address ∧ otherId = id then some bytes else s.dataAt other otherId)
    (howner : (∃ node, (hands i).reserved = some (id, node) ∧ node.address = address ∧ bytes ≠ []) ∨
      (hands i).reserved = none ∧ id ∈ t.metadata.metadataStore.chunks ∧ bytes = pieces id) :
    Afloat crc32 base pieces t s'
      (Function.update hands i { hands i with written := some ((address, id), bytes) }) := by
  have hothers : ∀ other otherId, s.dataAt other otherId ≠ none →
      s'.dataAt other otherId = s.dataAt other otherId := by
    intro other otherId hsome
    rw [hdata, if_neg]
    rintro ⟨rfl, rfl⟩
    exact hsome hfree
  have hkept : ∀ other otherId found, s.dataAt other otherId = some found →
      s'.dataAt other otherId = some found := by
    intro other otherId found hfound
    rw [hothers other otherId (by simp [hfound])]
    exact hfound
  have hunsettled : t.dataAt address id = none := by
    by_contra hsome
    rcases Option.ne_none_iff_exists'.mp hsome with ⟨found, hfound⟩
    cases (h.data address id found hfound).symm.trans hfree
  have hapart : ∀ j found, (hands j).written ≠ some ((address, id), found) := by
    intro j found hj
    cases ((h.backed j).written address id found hj).1.symm.trans hfree
  constructor
  · exact h.tidy
  · rw [hmetadata]
    exact h.objects
  · rw [hmetadata]
    exact h.registry
  · rw [hmetadata]
    exact fun node hnode => hnodes _ (h.reachable node hnode)
  · rw [hmetadata]
    exact h.records
  · intro other chunk hchunk
    rw [hmetadata] at hchunk
    exact (h.pending other chunk hchunk).imp_right fun howned => howned.update fun v hv => ⟨v, hv⟩
  · exact fun other otherId found hfound => hkept _ _ _ (h.data other otherId found hfound)
  · intro other otherId found hfound
    by_cases hplace : other = address ∧ otherId = id
    · rcases hplace with ⟨rfl, rfl⟩
      exact .inr (Owned.taken rfl)
    · rw [hdata, if_neg hplace] at hfound
      refine (h.extra other otherId found hfound).imp_right fun howned =>
        howned.update fun v hv => ?_
      cases hwritten.symm.trans hv
  · have hbacked : ∀ j, Backed base pieces t s' (hands j) := by
      intro j
      apply h.backed_of_services
      · rw [hmetadata]
        exact fun _ _ _ => rfl
      · intro other otherId found hplace
        apply hothers
        simp [((h.backed j).written other otherId found hplace).1]
    apply backed_update
    · exact fun j _ => hbacked j
    · constructor
      · exact (hbacked i).nodes
      · exact (hbacked i).chunks
      · exact (hbacked i).copies
      · exact (hbacked i).object
      · exact (hbacked i).refused
      · exact (hbacked i).reserved
      · intro other otherId found hplace
        cases hplace
        rw [hdata, if_pos ⟨rfl, rfl⟩]
        exact ⟨rfl, hunsettled, howner⟩
  · exact h.names.keep fun _ v hv => ⟨v, hv⟩
  · exact h.ids.keep fun _ v hv => ⟨v, hv⟩
  · apply h.places.update
    intro place found hplace j w hj
    cases hplace
    exact absurd hj (hapart j w)
  · exact fun other => (h.frame other).imp_right fun howned => howned.update fun v hv => ⟨v, hv⟩

/-- A copy that could not be recorded is deleted again. -/
theorem drop (hreserved : (hands i).reserved = none)
    (hwritten : (hands i).written = some ((address, id), bytes))
    (hmetadata : s'.metadata = s.metadata) (hnodes : ∀ other ∈ s.nodes, other ∈ s'.nodes)
    (hdata : ∀ (other : String) (otherId : UInt64), s'.dataAt other otherId =
      if other = address ∧ otherId = id then none else s.dataAt other otherId) :
    Afloat crc32 base pieces t s' (Function.update hands i { hands i with written := none }) := by
  have hunsettled := ((h.backed i).written address id bytes hwritten).2.1
  constructor
  · exact h.tidy
  · rw [hmetadata]
    exact h.objects
  · rw [hmetadata]
    exact h.registry
  · rw [hmetadata]
    exact fun node hnode => hnodes _ (h.reachable node hnode)
  · rw [hmetadata]
    exact h.records
  · intro other chunk hchunk
    rw [hmetadata] at hchunk
    exact (h.pending other chunk hchunk).imp_right fun howned => howned.update fun v hv => ⟨v, hv⟩
  · intro other otherId found hfound
    rw [hdata, if_neg]
    · exact h.data other otherId found hfound
    · rintro ⟨rfl, rfl⟩
      cases hunsettled.symm.trans hfound
  · intro other otherId found hfound
    rw [hdata] at hfound
    split at hfound
    · cases hfound
    · rename_i hplace
      refine (h.extra other otherId found hfound).imp_right fun howned =>
        howned.update fun v hv => ?_
      cases hwritten.symm.trans hv
      exact absurd ⟨rfl, rfl⟩ hplace
  · apply backed_update
    · intro j hji
      apply h.backed_of_services
      · rw [hmetadata]
        exact fun _ _ _ => rfl
      · intro other otherId found hplace
        rw [hdata, if_neg]
        rintro ⟨rfl, rfl⟩
        exact hji (h.places j i _ _ _ hplace hwritten)
    · have hi := h.backed i
      constructor
      · exact hi.nodes
      · exact hi.chunks
      · exact hi.copies
      · exact hi.object
      · exact hi.refused
      · intro other node hother
        cases hreserved.symm.trans hother
      · intro _ _ _ hplace
        cases hplace
  · exact h.names.keep fun _ v hv => ⟨v, hv⟩
  · exact h.ids.keep fun _ v hv => ⟨v, hv⟩
  · apply h.places.keep
    intro _ _ hplace
    cases hplace
  · exact fun other => (h.frame other).imp_right fun howned => howned.update fun v hv => ⟨v, hv⟩

/-- What a hand has written is recorded, and the hand lets go of it. -/
theorem settle {piece : Bytes} (hwritten : (hands i).written = some ((address, id), piece))
    (hreserved : ∀ other node, (hands i).reserved = some (other, node) → other = id)
    (hnodes : s'.nodes = s.nodes) (htidy : Tidy crc32 [] pieces' t')
    (hobjects : s'.metadata.metadataStore.objects = t'.metadata.metadataStore.objects)
    (hregistry : t'.metadata.metadataStore.storageNodes = t.metadata.metadataStore.storageNodes)
    (hregistry' : s'.metadata.metadataStore.storageNodes = s.metadata.metadataStore.storageNodes)
    (hothers : ∀ other ≠ id, t'.metadata.metadataStore.chunks[other]? =
      t.metadata.metadataStore.chunks[other]? ∧ s'.metadata.metadataStore.chunks[other]? =
        s.metadata.metadataStore.chunks[other]?)
    (hrecord : s'.metadata.metadataStore.chunks[id]? = t'.metadata.metadataStore.chunks[id]?)
    (hgrown : ∀ other ∈ t.metadata.metadataStore.chunks,
      other ∈ t'.metadata.metadataStore.chunks ∧ pieces' other = pieces other)
    (hdata : ∀ (other : String) (otherId : UInt64), t'.dataAt other otherId =
      if other = address ∧ otherId = id then some piece else t.dataAt other otherId)
    (hcontents : ∀ other, (∀ w, (hands i).object ≠ some (other, w)) →
      contents pieces' t' other = contents pieces t other)
    {object : Option (String × Bytes)}
    (hobject : ∀ other v, (hands i).object = some (other, v) → ∃ w, object = some (other, w))
    (hvalue : ∀ other w, object = some (other, w) → base other = none ∧
      contents pieces' t' other = some w ∧ ∃ v, (hands i).object = some (other, v)) :
    Afloat crc32 base pieces' t' s' (Function.update hands i
      { hands i with object := object, reserved := none, written := none }) := by
  have hi := h.backed i
  have hheld := (hi.written address id piece hwritten).1
  have hdata' : ∀ other otherId, s'.dataAt other otherId = s.dataAt other otherId := by
    intro other otherId
    simp only [Services.dataAt, hnodes]
  have htaken : ∀ other, contents pieces t other ≠ none → contents pieces' t' other ≠ none := by
    intro other hother
    by_cases hown : ∃ v, (hands i).object = some (other, v)
    · rcases hown with ⟨v, hv⟩
      rcases hobject other v hv with ⟨w, hw⟩
      rw [(hvalue other w hw).2.1]
      simp
    · rw [hcontents other (not_exists.mp hown)]
      exact hother
  constructor
  · exact htidy
  · exact hobjects
  · rw [hregistry, hregistry']
    exact h.registry
  · rw [hregistry', hnodes]
    exact h.reachable
  · intro other chunk hchunk
    by_cases hother : other = id
    · rw [hother] at hchunk ⊢
      exact hrecord.trans hchunk
    · rw [(hothers other hother).1] at hchunk
      rw [(hothers other hother).2]
      exact h.records other chunk hchunk
  · intro other chunk hchunk
    by_cases hother : other = id
    · rw [hother] at hchunk ⊢
      exact .inl (hrecord.symm.trans hchunk)
    · rw [(hothers other hother).2] at hchunk
      rw [(hothers other hother).1]
      refine (h.pending other chunk hchunk).imp_right fun howned => howned.update fun v hv => ?_
      exact absurd (hreserved other v hv) hother
  · intro other otherId found hfound
    rw [hdata']
    rw [hdata] at hfound
    split at hfound
    · rename_i hplace
      rw [hplace.1, hplace.2, ← hfound]
      exact hheld
    · exact h.data other otherId found hfound
  · intro other otherId found hfound
    rw [hdata'] at hfound
    rw [hdata]
    by_cases hplace : other = address ∧ otherId = id
    · rw [hplace.1, hplace.2] at hfound
      rw [if_pos hplace]
      exact .inl (hheld.symm.trans hfound)
    · rw [if_neg hplace]
      refine (h.extra other otherId found hfound).imp_right fun howned =>
        howned.update fun v hv => ?_
      cases hwritten.symm.trans hv
      exact absurd ⟨rfl, rfl⟩ hplace
  · apply backed_update
    · intro j hji
      apply (h.backed j).mono hregistry hgrown
      · intro other w hother
        apply hcontents
        exact fun v hv => hji (h.names j i other w v hother hv)
      · exact htaken
      · intro other node hother
        apply hothers
        rintro rfl
        rcases (hi.written address other piece hwritten).2.2 with ⟨_, howner, _⟩ | ⟨_, hmem, _⟩
        · exact hji (h.ids j i _ _ _ hother howner)
        · rcases HashMap.mem_iff_exists_getElem?.mp hmem with ⟨chunk, hchunk⟩
          cases hchunk.symm.trans ((h.backed j).reserved other node hother).2.1
      · intro other otherId found hplace
        rw [hdata, hdata', if_neg]
        · exact ⟨rfl, rfl⟩
        · rintro ⟨rfl, rfl⟩
          exact hji (h.places j i _ _ _ hplace hwritten)
    · constructor
      · rw [hregistry]
        exact hi.nodes
      · exact fun other hother => (hgrown other (hi.chunks other hother)).1
      · intro copy hcopy
        rcases hi.copies copy hcopy with ⟨hmem, hcopied⟩
        rw [(hgrown _ hmem).2]
        exact ⟨(hgrown _ hmem).1, hcopied⟩
      · intro other w hother
        exact ⟨(hvalue other w hother).1, (hvalue other w hother).2.1⟩
      · exact fun other hother => htaken other (hi.refused other hother)
      · intro _ _ hother
        cases hother
      · intro _ _ _ hother
        cases hother
  · apply h.names.keep
    exact fun other w hother => (hvalue other w hother).2.2
  · apply h.ids.keep
    intro _ _ hother
    cases hother
  · apply h.places.keep
    intro _ _ hother
    cases hother
  · intro other
    by_cases hown : ∃ v, (hands i).object = some (other, v)
    · rcases hown with ⟨v, hv⟩
      rcases hobject other v hv with ⟨w, hw⟩
      exact .inr (Owned.taken hw)
    · rw [hcontents other (not_exists.mp hown)]
      refine (h.frame other).imp_right fun howned => howned.update fun v hv => ?_
      exact hobject other v hv

/-- A chunk that has been written joins its object. -/
theorem attach {node : StorageMetadata.Proto.MetaStorageNode} {object : MetaObject} {piece : Bytes}
    (hobject : (hands i).object = some (name, bytes))
    (hreserved : (hands i).reserved = some (id, node))
    (hwritten : (hands i).written = some ((node.address, id), piece))
    (hfound : s.metadata.metadataStore.objects[name]? = some object) (hnodes : s'.nodes = s.nodes)
    (hmemory : SameMemory s'.metadata.metadataStore
      (s.metadata.metadataStore.withAttached id name object (crc32 piece) node.id)) :
    ∃ pieces' t', Afloat crc32 base pieces' t' s' (Function.update hands i
      { hands i with
        object := some (name, bytes ++ piece), reserved := none, written := none }) := by
  have hi := h.backed i
  rcases hi.reserved id node hreserved with ⟨hnode, hnew, _⟩
  rcases hi.object name bytes hobject with ⟨hbase, hvalue⟩
  have hpiece : piece ≠ [] := by
    rcases (hi.written _ id piece hwritten).2.2 with ⟨_, _, _, hpiece⟩ | ⟨hnone, _⟩
    · exact hpiece
    · cases hreserved.symm.trans hnone
  have hname : t.metadata.metadataStore.objects[name]? = some object := by
    rw [← h.objects]
    exact hfound
  have hcontent : content object pieces = bytes := by
    simpa [contents, hname] using hvalue
  have hunlisted : id ∉ object.chunks := by
    intro hid
    rcases h.tidy.catalogued.listed name object hname id hid with ⟨record, hrecord, _⟩
    cases hrecord.symm.trans hnew
  let settled := withData (withRecords t
    (t.metadata.metadataStore.withAttached id name object (crc32 piece) node.id))
      node.address id piece
  have hdata : ∀ other otherId, settled.dataAt other otherId =
      if other = node.address ∧ otherId = id then some piece else t.dataAt other otherId :=
    withData_dataAt _ node.address id piece
  have htidy : Tidy crc32 [] (Function.update pieces id piece) settled :=
    h.tidy.attach hname hnew (hi.nodes node hnode) hpiece (.refl _)
      (fun address haddress => mem_withData_nodes haddress) hdata
  have hcontents : contents (Function.update pieces id piece) settled =
      Function.update (contents pieces t) name (some (bytes ++ piece)) := by
    have hobjects : settled.metadata.metadataStore.objects =
        t.metadata.metadataStore.objects.insert name (object.addChunk id) := rfl
    rw [contents_insert _ hobjects, contents_update h.tidy.catalogued hnew,
      content_addChunk hunlisted, hcontent]
  have hold : ∀ other ∈ t.metadata.metadataStore.chunks, other ≠ id := by
    rintro other hother rfl
    rcases HashMap.mem_iff_exists_getElem?.mp hother with ⟨chunk, hchunk⟩
    cases hchunk.symm.trans hnew
  have hrecords : ∀ other ≠ id, settled.metadata.metadataStore.chunks[other]? =
      t.metadata.metadataStore.chunks[other]? :=
    fun other hother => HashMap.getElem?_insert_of_ne _ _ hother
  refine ⟨_, settled, h.settle hwritten ?_ hnodes htidy ?_ rfl hmemory.storageNodes ?_ ?_ ?_ hdata
    ?_ ?_ ?_⟩
  · intro other found hother
    cases hreserved.symm.trans hother
    rfl
  · rw [hmemory.objects]
    exact congrArg (·.insert name (object.addChunk id)) h.objects
  · intro other hother
    refine ⟨hrecords other hother, ?_⟩
    rw [hmemory.chunks]
    exact HashMap.getElem?_insert_of_ne _ _ hother
  · rw [hmemory.chunks]
    simp [settled, withData, MetadataStore.withAttached, MetadataStore.withChunk,
      MetadataStore.withObject]
  · intro other hother
    rw [Function.update_of_ne (hold other hother), HashMap.mem_iff_exists_getElem?,
      hrecords other (hold other hother), ← HashMap.mem_iff_exists_getElem?]
    exact ⟨hother, rfl⟩
  · intro other hother
    rw [hcontents]
    apply Function.update_of_ne
    rintro rfl
    exact hother bytes hobject
  · intro other v hother
    cases hobject.symm.trans hother
    exact ⟨_, rfl⟩
  · intro other w hother
    cases hother
    rw [hcontents, Function.update_self]
    exact ⟨hbase, rfl, bytes, hobject⟩

/-- A copy that has been written is recorded. -/
theorem replicate {node : StorageMetadata.Proto.MetaStorageNode} {chunk : MetaChunk}
    (hnode : node ∈ (hands i).nodes) (hreserved : (hands i).reserved = none)
    (hwritten : (hands i).written = some ((node.address, id), bytes))
    (hchunk : s.metadata.metadataStore.chunks[id]? = some chunk)
    (hnew : node.id ∉ chunk.storageNodes) (hnodes : s'.nodes = s.nodes)
    (hmemory : SameMemory s'.metadata.metadataStore
      (s.metadata.metadataStore.withChunk id (chunk.addStorageNode node.id))) :
    ∃ t', Afloat crc32 base pieces t' s'
      (Function.update hands i { hands i with reserved := none, written := none }) := by
  have hi := h.backed i
  have hmem : id ∈ t.metadata.metadataStore.chunks ∧ bytes = pieces id := by
    rcases (hi.written _ id bytes hwritten).2.2 with ⟨_, howner, _⟩ | ⟨_, hcopy⟩
    · cases hreserved.symm.trans howner
    · exact hcopy
  have hrecord : t.metadata.metadataStore.chunks[id]? = some chunk := by
    rcases HashMap.mem_iff_exists_getElem?.mp hmem.1 with ⟨found, hfound⟩
    rw [hfound, ← h.records id found hfound]
    exact hchunk
  let settled := withData (withRecords t
    (t.metadata.metadataStore.withChunk id (chunk.addStorageNode node.id)))
      node.address id (pieces id)
  have hdata : ∀ other otherId, settled.dataAt other otherId =
      if other = node.address ∧ otherId = id then some (pieces id) else t.dataAt other otherId :=
    withData_dataAt _ node.address id (pieces id)
  have htidy : Tidy crc32 [] pieces settled :=
    h.tidy.addReplica hrecord (hi.nodes node hnode) hnew (.refl _)
      (fun address haddress => mem_withData_nodes haddress) hdata
  rw [hmem.2] at hwritten
  refine ⟨settled, h.settle hwritten ?_ hnodes htidy ?_ rfl hmemory.storageNodes ?_ ?_ ?_ hdata
    (fun _ _ => rfl) (fun _ v hv => ⟨v, hv⟩) ?_⟩
  · intro other found hother
    cases hreserved.symm.trans hother
  · exact hmemory.objects.trans h.objects
  · intro other hother
    refine ⟨HashMap.getElem?_insert_of_ne _ _ hother, ?_⟩
    rw [hmemory.chunks]
    exact HashMap.getElem?_insert_of_ne _ _ hother
  · rw [hmemory.chunks]
    simp [settled, withData, MetadataStore.withChunk]
  · intro other hother
    refine ⟨?_, rfl⟩
    simp [settled, withData, MetadataStore.withChunk, hother]
  · intro other w hother
    rcases hi.object other w hother with ⟨hbase, hvalue⟩
    exact ⟨hbase, hvalue, w, hother⟩

end Afloat

end System
end ObjectStore
