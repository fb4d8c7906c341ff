import ObjectStore.ApiGateway.Download
import ObjectStore.Library.FiniteMap
import ObjectStore.ReplicationService.Cycle

/-!
# System - A store at rest

What the metadata node and the storage nodes look like together when no request is in
flight.  Every chunk record belongs to one object and has its replicas on registered storage
nodes; every storage node holds the chunks that are recorded for it, and nothing else.

Main definitions:

- `Catalogued`: the records of the metadata node fit together.
- `Tidy`: and the storage nodes hold what is recorded.
- `contents`: the map from object names to bytes that a tidy store stands for.

Main results:

- Theorems `Tidy.of_objects`, `Tidy.attach`, `Tidy.dropData`, `Tidy.removeRecord`,
  `Tidy.addReplica`: one for each way in which a store changes.
-/

namespace ObjectStore
namespace System

open ApiGateway (Replica StoredObject content)
open Deployment (SameMemory SameServices Services)
open StorageMetadata (MetaChunk MetadataStore MetaObject MetaStorageNode RegistryKeyed)

/-! ## The metadata node -/

/-- The record is confirmed for an object that lists it, and its replicas are on registered
storage nodes. -/
structure Placed (m : MetadataStore) (id : UInt64) (chunk : MetaChunk) : Prop where
  key : chunk.id = id
  confirmed : chunk.status = .confirmed
  owner : ∃ object, m.objects[chunk.objectName]? = some object ∧ id ∈ object.chunks
  replicated : chunk.storageNodes ≠ []
  distinct : chunk.storageNodes.Nodup
  registered : ∀ nodeId ∈ chunk.storageNodes, nodeId ∈ m.storageNodes

/-- The records of objects and chunks fit together. -/
structure Catalogued (m : MetadataStore) : Prop where
  keyed : RegistryKeyed m.storageNodes
  named : ∀ (name : String) (object : MetaObject), m.objects[name]? = some object →
    object.name = name
  listed : ∀ (name : String) (object : MetaObject), m.objects[name]? = some object →
    ∀ id ∈ object.chunks, ∃ chunk, m.chunks[id]? = some chunk ∧ chunk.objectName = name
  nodup : ∀ (name : String) (object : MetaObject), m.objects[name]? = some object →
    object.chunks.Nodup
  placed : ∀ (id : UInt64) (chunk : MetaChunk), m.chunks[id]? = some chunk → Placed m id chunk

variable {m m' : MetadataStore} {name : String} {object : MetaObject} {id nodeId : UInt64}
  {chunk : MetaChunk} {checksum : UInt32}

theorem Catalogued.of_memory (h : Catalogued m) (hmemory : SameMemory m' m) : Catalogued m' where
  keyed := by
    rw [hmemory.storageNodes]
    exact h.keyed
  named := by
    rw [hmemory.objects]
    exact h.named
  listed := by
    rw [hmemory.objects, hmemory.chunks]
    exact h.listed
  nodup := by
    rw [hmemory.objects]
    exact h.nodup
  placed other record hrecord := by
    rw [hmemory.chunks] at hrecord
    have hplaced := h.placed other record hrecord
    constructor
    · exact hplaced.key
    · exact hplaced.confirmed
    · rw [hmemory.objects]
      exact hplaced.owner
    · exact hplaced.replicated
    · exact hplaced.distinct
    · rw [hmemory.storageNodes]
      exact hplaced.registered

/-- A record that stays where it is, among objects that still list it. -/
theorem Placed.mono (h : Placed m id chunk) (hnodes : m'.storageNodes = m.storageNodes)
    (hobjects : ∀ object, m.objects[chunk.objectName]? = some object → id ∈ object.chunks →
      ∃ object', m'.objects[chunk.objectName]? = some object' ∧ id ∈ object'.chunks) :
    Placed m' id chunk where
  key := h.key
  confirmed := h.confirmed
  owner := by
    rcases h.owner with ⟨object, hobject, hid⟩
    exact hobjects object hobject hid
  replicated := h.replicated
  distinct := h.distinct
  registered := by
    rw [hnodes]
    exact h.registered

/-- An object is replaced by one with the same chunks, or a new object without chunks. -/
theorem Catalogued.insertObject (h : Catalogued m)
    (hchunks : ∀ id, id ∈ object.chunks → ∃ found, m.objects[name]? = some found ∧
      id ∈ found.chunks)
    (hkept : ∀ found, m.objects[name]? = some found → found.chunks ⊆ object.chunks)
    (hnodup : object.chunks.Nodup) (hnamed : object.name = name) :
    Catalogued (m.withObject name object) where
  keyed := h.keyed
  named := HashMap.forall_insert h.named hnamed
  listed other found hfound id hid := by
    by_cases hother : other = name
    · subst hother
      cases HashMap.getElem?_insert_same _ hfound
      rcases hchunks id hid with ⟨found', hfound', hid'⟩
      exact h.listed other found' hfound' id hid'
    · rw [MetadataStore.withObject, HashMap.getElem?_insert_of_ne _ _ hother] at hfound
      exact h.listed other found hfound id hid
  nodup other found hfound := by
    by_cases hother : other = name
    · subst hother
      cases HashMap.getElem?_insert_same _ hfound
      exact hnodup
    · rw [MetadataStore.withObject, HashMap.getElem?_insert_of_ne _ _ hother] at hfound
      exact h.nodup other found hfound
  placed id chunk hchunk := by
    refine (h.placed id chunk hchunk).mono rfl fun found hfound hid => ?_
    by_cases hother : chunk.objectName = name
    · subst hother
      exact ⟨object, Std.ExtTreeMap.getElem?_insert_self, hkept found hfound hid⟩
    · exact ⟨found, (HashMap.getElem?_insert_of_ne _ _ hother).trans hfound, hid⟩

/-- A new chunk with one replica joins the end of its object. -/
theorem Catalogued.attach (h : Catalogued m) (hname : m.objects[name]? = some object)
    (hnew : m.chunks[id]? = none) (hnode : nodeId ∈ m.storageNodes) :
    Catalogued (m.withAttached id name object checksum nodeId) where
  keyed := h.keyed
  named := HashMap.forall_insert h.named (h.named name object hname)
  listed other found hfound listed hlisted := by
    by_cases hid : listed = id
    · subst hid
      by_cases hother : other = name
      · subst hother
        exact ⟨_, Std.ExtTreeMap.getElem?_insert_self, rfl⟩
      · have hfound : m.objects[other]? = some found :=
          (HashMap.getElem?_insert_of_ne _ _ hother).symm.trans hfound
        rcases h.listed other found hfound listed hlisted with ⟨chunk, hchunk, _⟩
        cases hchunk.symm.trans hnew
    · have hrecord : ∃ chunk, m.chunks[listed]? = some chunk ∧ chunk.objectName = other := by
        by_cases hother : other = name
        · subst hother
          cases HashMap.getElem?_insert_same _ hfound
          rcases List.mem_append.mp hlisted with hlisted | hlisted
          · exact h.listed other object hname listed hlisted
          · exact absurd (List.mem_singleton.mp hlisted) hid
        · have hfound : m.objects[other]? = some found :=
            (HashMap.getElem?_insert_of_ne _ _ hother).symm.trans hfound
          exact h.listed other found hfound listed hlisted
      rcases hrecord with ⟨chunk, hchunk, howner⟩
      exact ⟨chunk, (HashMap.getElem?_insert_of_ne _ _ hid).trans hchunk, howner⟩
  nodup other found hfound := by
    by_cases hother : other = name
    · subst hother
      cases HashMap.getElem?_insert_same _ hfound
      have hfresh : id ∉ object.chunks := by
        intro hid
        rcases h.listed other object hname id hid with ⟨chunk, hchunk, _⟩
        cases hchunk.symm.trans hnew
      rw [MetaObject.addChunk, List.nodup_append]
      simp only [h.nodup other object hname, List.nodup_singleton, true_and]
      intro a ha b hb heq
      rw [List.mem_singleton] at hb
      exact hfresh (hb ▸ heq ▸ ha)
    · exact h.nodup other found ((HashMap.getElem?_insert_of_ne _ _ hother).symm.trans hfound)
  placed other record hrecord := by
    by_cases hid : other = id
    · subst hid
      cases HashMap.getElem?_insert_same _ hrecord
      constructor
      · rfl
      · rfl
      · exact ⟨_, Std.ExtTreeMap.getElem?_insert_self, by simp [MetaObject.addChunk]⟩
      · simp [MetaChunk.addStorageNode]
      · simp [MetaChunk.addStorageNode, MetaChunk.new]
      · intro registered hregistered
        rw [MetaChunk.addStorageNode, MetaChunk.new, List.nil_append, List.mem_singleton]
          at hregistered
        rw [hregistered]
        exact hnode
    · have hrecord : m.chunks[other]? = some record :=
        (HashMap.getElem?_insert_of_ne _ _ hid).symm.trans hrecord
      refine (h.placed other record hrecord).mono rfl fun found hfound hmem => ?_
      by_cases hother : record.objectName = name
      · rw [hother] at hfound ⊢
        cases hname.symm.trans hfound
        exact ⟨_, Std.ExtTreeMap.getElem?_insert_self, by simp [MetaObject.addChunk, hmem]⟩
      · exact ⟨found, (HashMap.getElem?_insert_of_ne _ _ hother).trans hfound, hmem⟩

/-- One chunk leaves its object. -/
theorem Catalogued.removeRecord (h : Catalogued m) (hchunk : m.chunks[id]? = some chunk)
    (hname : m.objects[chunk.objectName]? = some object) :
    Catalogued ((m.withoutChunk id).withObject chunk.objectName (object.removeChunk id)) where
  keyed := h.keyed
  named := HashMap.forall_insert h.named (h.named _ object hname)
  listed other found hfound listed hlisted := by
    have hrecord : listed ≠ id ∧ ∃ record, m.chunks[listed]? = some record ∧
        record.objectName = other := by
      by_cases hother : other = chunk.objectName
      · subst hother
        cases HashMap.getElem?_insert_same _ hfound
        rw [MetaObject.removeChunk, List.mem_filter, decide_eq_true_eq] at hlisted
        exact ⟨hlisted.2, h.listed _ object hname listed hlisted.1⟩
      · have hfound : m.objects[other]? = some found :=
          (HashMap.getElem?_insert_of_ne _ _ hother).symm.trans hfound
        rcases h.listed other found hfound listed hlisted with ⟨record, hrecord, howner⟩
        refine ⟨?_, record, hrecord, howner⟩
        rintro rfl
        cases hchunk.symm.trans hrecord
        exact hother howner.symm
    rcases hrecord with ⟨hid, record, hrecord, howner⟩
    exact ⟨record, (HashMap.getElem?_erase_of_ne _ hid).trans hrecord, howner⟩
  nodup other found hfound := by
    by_cases hother : other = chunk.objectName
    · subst hother
      cases HashMap.getElem?_insert_same _ hfound
      exact (h.nodup _ object hname).filter _
    · exact h.nodup other found ((HashMap.getElem?_insert_of_ne _ _ hother).symm.trans hfound)
  placed other record hrecord := by
    have hid : other ≠ id := by
      rintro rfl
      simp [MetadataStore.withObject, MetadataStore.withoutChunk] at hrecord
    have hrecord : m.chunks[other]? = some record :=
      (HashMap.getElem?_erase_of_ne _ hid).symm.trans hrecord
    refine (h.placed other record hrecord).mono rfl fun found hfound hmem => ?_
    by_cases hother : record.objectName = chunk.objectName
    · rw [hother] at hfound ⊢
      cases hname.symm.trans hfound
      exact ⟨_, Std.ExtTreeMap.getElem?_insert_self, by simp [MetaObject.removeChunk, hmem, hid]⟩
    · exact ⟨found, (HashMap.getElem?_insert_of_ne _ _ hother).trans hfound, hmem⟩

/-- An object without chunks is removed. -/
theorem Catalogued.removeObject (h : Catalogued m) (hname : m.objects[name]? = some object)
    (hempty : object.chunks = []) : Catalogued (m.withoutObject name object) where
  keyed := h.keyed
  named other found hfound := h.named other found (HashMap.getElem?_of_erase hfound)
  listed other found hfound listed hlisted := by
    have hfound : m.objects[other]? = some found := HashMap.getElem?_of_erase hfound
    simpa [MetadataStore.withoutObject, hempty] using h.listed other found hfound listed hlisted
  nodup other found hfound := h.nodup other found (HashMap.getElem?_of_erase hfound)
  placed id chunk hchunk := by
    simp only [MetadataStore.withoutObject, hempty, List.foldl_nil] at hchunk
    refine (h.placed id chunk hchunk).mono rfl fun found hfound hid => ?_
    have hother : chunk.objectName ≠ name := by
      rintro rfl
      cases hname.symm.trans hfound
      simp [hempty] at hid
    exact ⟨found, (HashMap.getElem?_erase_of_ne _ hother).trans hfound, hid⟩

/-- A replica is added. -/
theorem Catalogued.addReplica (h : Catalogued m) (hchunk : m.chunks[id]? = some chunk)
    (hnode : nodeId ∈ m.storageNodes) (hnew : nodeId ∉ chunk.storageNodes) :
    Catalogued (m.withChunk id (chunk.addStorageNode nodeId)) where
  keyed := h.keyed
  named := h.named
  listed other found hfound listed hlisted := by
    rcases h.listed other found hfound listed hlisted with ⟨record, hrecord, howner⟩
    by_cases hid : listed = id
    · subst hid
      cases hchunk.symm.trans hrecord
      exact ⟨_, Std.ExtTreeMap.getElem?_insert_self, howner⟩
    · exact ⟨record, (HashMap.getElem?_insert_of_ne _ _ hid).trans hrecord, howner⟩
  nodup := h.nodup
  placed other record hrecord := by
    by_cases hid : other = id
    · subst hid
      cases HashMap.getElem?_insert_same _ hrecord
      have hplaced := h.placed other chunk hchunk
      constructor
      · exact hplaced.key
      · exact hplaced.confirmed
      · exact hplaced.owner
      · simp [MetaChunk.addStorageNode]
      · rw [MetaChunk.addStorageNode, List.nodup_append]
        simp only [hplaced.distinct, List.nodup_singleton, true_and]
        intro a ha b hb heq
        rw [List.mem_singleton] at hb
        exact hnew (hb ▸ heq ▸ ha)
      · intro other hother
        rcases List.mem_append.mp hother with hother | hother
        · exact hplaced.registered other hother
        · rw [List.mem_singleton.mp hother]
          exact hnode
    · exact (h.placed other record
        ((HashMap.getElem?_insert_of_ne _ _ hid).symm.trans hrecord)).mono rfl
          fun found hfound hmem => ⟨found, hfound, hmem⟩

/-! ## The storage nodes -/

/-- A node has a replica when a record names it. -/
theorem replica_iff {s : Services} {address : String} : Replica s id address ↔
    ∃ chunk nodeId node, s.metadata.metadataStore.chunks[id]? = some chunk ∧
      nodeId ∈ chunk.storageNodes ∧ s.metadata.metadataStore.storageNodes[nodeId]? = some node ∧
        node.address = address := by
  simp only [Replica, StorageMetadata.mem_registeredStorageNodes]
  constructor
  · rintro ⟨chunk, hchunk, node, ⟨hmem, registered, hregistered, haddress⟩, rfl⟩
    exact ⟨chunk, node.id, registered, hchunk, hmem, hregistered, haddress.symm⟩
  · rintro ⟨chunk, nodeId, node, hchunk, hmem, hnode, rfl⟩
    exact ⟨chunk, hchunk, ⟨nodeId, node.address⟩, ⟨hmem, node, hnode, rfl⟩, rfl⟩

theorem replica_congr {s s' : Services} {address : String}
    (hchunk : s'.metadata.metadataStore.chunks[id]? = s.metadata.metadataStore.chunks[id]?)
    (hnodes : s'.metadata.metadataStore.storageNodes = s.metadata.metadataStore.storageNodes) :
    Replica s' id address ↔ Replica s id address := by
  rw [replica_iff, replica_iff, hchunk, hnodes]

/-- The records fit together, every storage node holds the `pieces` of the chunks that are
recorded for it, and nothing else.  The chunks in `dropped` have lost their data. -/
structure Tidy (crc32 : Bytes → UInt32) (dropped : List UInt64) (pieces : UInt64 → Bytes)
    (s : Services) : Prop where
  catalogued : Catalogued s.metadata.metadataStore
  registered : s.metadata.metadataStore.storageNodes.valueList ≠ []
  reachable : ∀ node ∈ s.metadata.metadataStore.storageNodes.valueList, node.address ∈ s.nodes
  held : ∀ (id : UInt64) (address : String), id ∉ dropped → Replica s id address →
    s.dataAt address id = some (pieces id)
  owned : ∀ (id : UInt64) (address : String) (bytes : Bytes), s.dataAt address id = some bytes →
    id ∉ dropped ∧ Replica s id address
  whole : ∀ (id : UInt64) (chunk : MetaChunk), s.metadata.metadataStore.chunks[id]? = some chunk →
    pieces id ≠ [] ∧ chunk.checksum = crc32 (pieces id)

variable {crc32 : Bytes → UInt32} {dropped : List UInt64} {pieces : UInt64 → Bytes}
  {s s' : Services} {piece : Bytes} {node : MetaStorageNode}

/-- Chunk records and data are where they were. -/
theorem Tidy.of_data (h : Tidy crc32 dropped pieces s)
    (hcatalogued : Catalogued s'.metadata.metadataStore)
    (hchunks : s'.metadata.metadataStore.chunks = s.metadata.metadataStore.chunks)
    (hregistry : s'.metadata.metadataStore.storageNodes = s.metadata.metadataStore.storageNodes)
    (hreachable : ∀ node ∈ s'.metadata.metadataStore.storageNodes.valueList,
      node.address ∈ s'.nodes)
    (hdata : ∀ address id, s'.dataAt address id = s.dataAt address id) :
    Tidy crc32 dropped pieces s' := by
  have hreplica : ∀ id address, Replica s' id address ↔ Replica s id address := fun id address =>
    replica_congr (by rw [hchunks]) hregistry
  constructor
  · exact hcatalogued
  · rw [hregistry]
    exact h.registered
  · exact hreachable
  · simp only [hdata, hreplica]
    exact h.held
  · simp only [hdata, hreplica]
    exact h.owned
  · rw [hchunks]
    exact h.whole

/-- Only objects have changed. -/
theorem Tidy.of_objects (h : Tidy crc32 dropped pieces s)
    (hcatalogued : Catalogued s'.metadata.metadataStore)
    (hchunks : s'.metadata.metadataStore.chunks = s.metadata.metadataStore.chunks)
    (hregistry : s'.metadata.metadataStore.storageNodes = s.metadata.metadataStore.storageNodes)
    (hnodes : s'.nodes = s.nodes) : Tidy crc32 dropped pieces s' := by
  apply h.of_data hcatalogued hchunks hregistry
  · rw [hregistry, hnodes]
    exact h.reachable
  · intro address id
    simp only [Services.dataAt, hnodes]

/-- Reads make no difference. -/
theorem Tidy.same (h : Tidy crc32 dropped pieces s) (hsame : SameServices s s') :
    Tidy crc32 dropped pieces s' :=
  h.of_objects (h.catalogued.of_memory hsame.memory) hsame.memory.chunks
    hsame.memory.storageNodes hsame.nodes

/-- A registered node can be reached. -/
theorem Tidy.node_reachable (h : Tidy crc32 dropped pieces s)
    (hnode : s.metadata.metadataStore.storageNodes[nodeId]? = some node) : node.address ∈ s.nodes :=
  h.reachable node (HashMap.mem_valueList.mpr ⟨nodeId, hnode⟩)

/-- A new chunk has joined an object, with one replica. -/
theorem Tidy.attach (h : Tidy crc32 [] pieces s)
    (hname : s.metadata.metadataStore.objects[name]? = some object)
    (hnew : s.metadata.metadataStore.chunks[id]? = none)
    (hnode : s.metadata.metadataStore.storageNodes[nodeId]? = some node) (hpiece : piece ≠ [])
    (hmemory : SameMemory s'.metadata.metadataStore
      (s.metadata.metadataStore.withAttached id name object (crc32 piece) nodeId))
    (hnodes : ∀ address ∈ s.nodes, address ∈ s'.nodes)
    (hdata : ∀ (other : String) (otherId : UInt64), s'.dataAt other otherId =
      if other = node.address ∧ otherId = id then some piece else s.dataAt other otherId) :
    Tidy crc32 [] (Function.update pieces id piece) s' := by
  have hmem : nodeId ∈ s.metadata.metadataStore.storageNodes :=
    HashMap.mem_iff_exists_getElem?.mpr ⟨node, hnode⟩
  have hchunk : s'.metadata.metadataStore.chunks[id]? =
      some ((MetaChunk.new id (crc32 piece) name).addStorageNode nodeId) := by
    rw [hmemory.chunks]
    exact Std.ExtTreeMap.getElem?_insert_self
  have hothers : ∀ other ≠ id, s'.metadata.metadataStore.chunks[other]? =
      s.metadata.metadataStore.chunks[other]? := by
    intro other hother
    rw [hmemory.chunks]
    exact HashMap.getElem?_insert_of_ne _ _ hother
  have hregistry : s'.metadata.metadataStore.storageNodes =
      s.metadata.metadataStore.storageNodes := hmemory.storageNodes
  have hfresh : ∀ address, ¬ Replica s id address := by
    intro address hreplica
    rcases replica_iff.mp hreplica with ⟨chunk, _, _, hchunk, _⟩
    cases hchunk.symm.trans hnew
  have hreplica : ∀ address, Replica s' id address ↔ address = node.address := by
    intro address
    rw [replica_iff, hchunk, hregistry]
    constructor
    · rintro ⟨chunk, other, found, hfound, hother, hregistered, rfl⟩
      cases hfound
      rw [MetaChunk.addStorageNode, MetaChunk.new, List.nil_append, List.mem_singleton] at hother
      rw [hother, hnode] at hregistered
      cases hregistered
      rfl
    · rintro rfl
      exact ⟨_, nodeId, node, rfl, by simp [MetaChunk.addStorageNode], hnode, rfl⟩
  constructor
  · exact (h.catalogued.attach hname hnew hmem).of_memory hmemory
  · rw [hregistry]
    exact h.registered
  · rw [hregistry]
    exact fun found hfound => hnodes _ (h.reachable found hfound)
  · intro other address hdropped hother
    by_cases hid : other = id
    · subst hid
      rw [hdata, if_pos ⟨(hreplica address).mp hother, rfl⟩, Function.update_self]
    · rw [hdata, if_neg fun heq => hid heq.2, Function.update_of_ne hid]
      exact h.held other address hdropped ((replica_congr (hothers other hid) hregistry).mp hother)
  · intro other address bytes hbytes
    rw [hdata] at hbytes
    split at hbytes
    · rename_i heq
      rcases heq with ⟨rfl, rfl⟩
      exact ⟨nofun, (hreplica _).mpr rfl⟩
    · have howned := (h.owned other address bytes hbytes).2
      have hid : other ≠ id := by
        rintro rfl
        exact hfresh address howned
      exact ⟨nofun, (replica_congr (hothers other hid) hregistry).mpr howned⟩
  · intro other chunk hother
    by_cases hid : other = id
    · subst hid
      rw [Function.update_self]
      cases hchunk.symm.trans hother
      exact ⟨hpiece, rfl⟩
    · rw [Function.update_of_ne hid]
      exact h.whole other chunk ((hothers other hid).symm.trans hother)

/-- The data of some chunks has been deleted. -/
theorem Tidy.dropData (h : Tidy crc32 [] pieces s)
    (hmemory : SameMemory s'.metadata.metadataStore s.metadata.metadataStore)
    (hnodes : ∀ address ∈ s.nodes, address ∈ s'.nodes)
    (hdata : ∀ address id, s'.dataAt address id =
      if id ∈ dropped then none else s.dataAt address id) :
    Tidy crc32 dropped pieces s' := by
  have hreplica : ∀ id address, Replica s' id address ↔ Replica s id address := fun id address =>
    replica_congr (by rw [hmemory.chunks]) hmemory.storageNodes
  constructor
  · exact h.catalogued.of_memory hmemory
  · rw [hmemory.storageNodes]
    exact h.registered
  · rw [hmemory.storageNodes]
    exact fun found hfound => hnodes _ (h.reachable found hfound)
  · intro id address hid hother
    rw [hdata, if_neg hid]
    exact h.held id address nofun ((hreplica id address).mp hother)
  · intro id address bytes hbytes
    rw [hdata] at hbytes
    split at hbytes
    · cases hbytes
    · rename_i hid
      exact ⟨hid, (hreplica id address).mpr (h.owned id address bytes hbytes).2⟩
  · rw [hmemory.chunks]
    exact h.whole

/-- The record of a chunk without data has been removed. -/
theorem Tidy.removeRecord (h : Tidy crc32 dropped pieces s) (hid : id ∈ dropped)
    (hchunk : s.metadata.metadataStore.chunks[id]? = some chunk)
    (hname : s.metadata.metadataStore.objects[chunk.objectName]? = some object)
    (hmemory : SameMemory s'.metadata.metadataStore
      ((s.metadata.metadataStore.withoutChunk id).withObject chunk.objectName
        (object.removeChunk id)))
    (hnodes : s'.nodes = s.nodes) : Tidy crc32 dropped pieces s' := by
  have hdata : ∀ address other, s'.dataAt address other = s.dataAt address other := by
    intro address other
    simp only [Services.dataAt, hnodes]
  have hchunks : ∀ other ≠ id, s'.metadata.metadataStore.chunks[other]? =
      s.metadata.metadataStore.chunks[other]? := by
    intro other hother
    rw [hmemory.chunks]
    exact HashMap.getElem?_erase_of_ne _ hother
  have hregistry : s'.metadata.metadataStore.storageNodes =
      s.metadata.metadataStore.storageNodes := hmemory.storageNodes
  have hne : ∀ other ∉ dropped, other ≠ id := by
    rintro other hother rfl
    exact hother hid
  constructor
  · exact (h.catalogued.removeRecord hchunk hname).of_memory hmemory
  · rw [hregistry]
    exact h.registered
  · rw [hregistry, hnodes]
    exact h.reachable
  · intro other address hother hreplica
    rw [hdata]
    exact h.held other address hother
      ((replica_congr (hchunks other (hne other hother)) hregistry).mp hreplica)
  · intro other address bytes hbytes
    rw [hdata] at hbytes
    rcases h.owned other address bytes hbytes with ⟨hother, hreplica⟩
    exact ⟨hother, (replica_congr (hchunks other (hne other hother)) hregistry).mpr hreplica⟩
  · intro other record hrecord
    rw [hmemory.chunks] at hrecord
    exact h.whole other record (HashMap.getElem?_of_erase hrecord)

/-- When the records of all dropped chunks are gone, nothing is missing. -/
theorem Tidy.restored (h : Tidy crc32 dropped pieces s)
    (hgone : ∀ id ∈ dropped, s.metadata.metadataStore.chunks[id]? = none) :
    Tidy crc32 [] pieces s where
  catalogued := h.catalogued
  registered := h.registered
  reachable := h.reachable
  held id address _ hreplica := by
    refine h.held id address (fun hid => ?_) hreplica
    rcases replica_iff.mp hreplica with ⟨chunk, _, _, hchunk, _⟩
    cases hchunk.symm.trans (hgone id hid)
  owned id address bytes hbytes := ⟨nofun, (h.owned id address bytes hbytes).2⟩
  whole := h.whole

/-- A copy of a chunk has been written to another storage node and recorded. -/
theorem Tidy.addReplica (h : Tidy crc32 [] pieces s)
    (hchunk : s.metadata.metadataStore.chunks[id]? = some chunk)
    (hnode : s.metadata.metadataStore.storageNodes[nodeId]? = some node)
    (hnew : nodeId ∉ chunk.storageNodes)
    (hmemory : SameMemory s'.metadata.metadataStore
      (s.metadata.metadataStore.withChunk id (chunk.addStorageNode nodeId)))
    (hnodes : ∀ address ∈ s.nodes, address ∈ s'.nodes)
    (hdata : ∀ (other : String) (otherId : UInt64), s'.dataAt other otherId =
      if other = node.address ∧ otherId = id then some (pieces id) else s.dataAt other otherId) :
    Tidy crc32 [] pieces s' := by
  have hmem : nodeId ∈ s.metadata.metadataStore.storageNodes :=
    HashMap.mem_iff_exists_getElem?.mpr ⟨node, hnode⟩
  have hrecord : s'.metadata.metadataStore.chunks[id]? = some (chunk.addStorageNode nodeId) := by
    rw [hmemory.chunks]
    exact Std.ExtTreeMap.getElem?_insert_self
  have hothers : ∀ other ≠ id, s'.metadata.metadataStore.chunks[other]? =
      s.metadata.metadataStore.chunks[other]? := by
    intro other hother
    rw [hmemory.chunks]
    exact HashMap.getElem?_insert_of_ne _ _ hother
  have hregistry : s'.metadata.metadataStore.storageNodes =
      s.metadata.metadataStore.storageNodes := hmemory.storageNodes
  have hreplica : ∀ address, Replica s' id address ↔
      Replica s id address ∨ address = node.address := by
    intro address
    rw [replica_iff, replica_iff, hrecord, hchunk, hregistry]
    constructor
    · rintro ⟨_, other, found, heq, hother, hregistered, rfl⟩
      cases heq
      rcases List.mem_append.mp hother with hother | hother
      · exact .inl ⟨chunk, other, found, rfl, hother, hregistered, rfl⟩
      · rw [List.mem_singleton.mp hother, hnode] at hregistered
        cases hregistered
        exact .inr rfl
    · rintro (⟨_, other, found, heq, hother, hregistered, rfl⟩ | rfl)
      · cases heq
        exact ⟨_, other, found, rfl, List.mem_append_left _ hother, hregistered, rfl⟩
      · exact ⟨_, nodeId, node, rfl,
          List.mem_append_right _ (List.mem_singleton_self _), hnode, rfl⟩
  constructor
  · exact (h.catalogued.addReplica hchunk hmem hnew).of_memory hmemory
  · rw [hregistry]
    exact h.registered
  · rw [hregistry]
    exact fun found hfound => hnodes _ (h.reachable found hfound)
  · intro other address hdropped hother
    rw [hdata]
    split
    · rename_i heq
      rw [heq.2]
    · rename_i hne
      by_cases hid : other = id
      · subst hid
        rcases (hreplica address).mp hother with hold | heq
        · exact h.held other address hdropped hold
        · exact absurd ⟨heq, rfl⟩ hne
      · exact h.held other address hdropped
          ((replica_congr (hothers other hid) hregistry).mp hother)
  · intro other address bytes hbytes
    refine ⟨nofun, ?_⟩
    rw [hdata] at hbytes
    split at hbytes
    · rename_i heq
      rcases heq with ⟨rfl, rfl⟩
      exact (hreplica _).mpr (.inr rfl)
    · have howned := (h.owned other address bytes hbytes).2
      by_cases hid : other = id
      · subst hid
        exact (hreplica address).mpr (.inl howned)
      · exact (replica_congr (hothers other hid) hregistry).mpr howned
  · intro other record hother
    by_cases hid : other = id
    · subst hid
      cases hrecord.symm.trans hother
      exact h.whole other chunk hchunk
    · exact h.whole other record ((hothers other hid).symm.trans hother)

/-! ## Contents -/

/-- The bytes behind every object name. -/
def contents (pieces : UInt64 → Bytes) (s : Services) : String → Option Bytes :=
  fun name => (s.metadata.metadataStore.objects[name]?).map fun object => content object pieces

/-- The contents with one more object. -/
theorem contents_insert (pieces : UInt64 → Bytes)
    (hobjects : s'.metadata.metadataStore.objects =
      s.metadata.metadataStore.objects.insert name object) :
    contents pieces s' =
      Function.update (contents pieces s) name (some (content object pieces)) := by
  funext other
  by_cases hother : other = name
  · subst hother
    simp [contents, hobjects]
  · simp only [contents, hobjects, HashMap.getElem?_insert_of_ne _ _ hother,
      Function.update_of_ne hother]

/-- The contents with one object less. -/
theorem contents_erase (pieces : UInt64 → Bytes)
    (hobjects : s'.metadata.metadataStore.objects = s.metadata.metadataStore.objects.erase name) :
    contents pieces s' = Function.update (contents pieces s) name none := by
  funext other
  by_cases hother : other = name
  · subst hother
    simp [contents, hobjects]
  · simp only [contents, hobjects, HashMap.getElem?_erase_of_ne _ hother,
      Function.update_of_ne hother]

/-- A chunk that no object lists has no part in the contents. -/
theorem contents_update (h : Catalogued s.metadata.metadataStore)
    (hnew : s.metadata.metadataStore.chunks[id]? = none) :
    contents (Function.update pieces id piece) s = contents pieces s := by
  funext name
  unfold contents
  cases hname : s.metadata.metadataStore.objects[name]? with
  | none => rfl
  | some object =>
      simp only [Option.map_some, content]
      congr 2
      apply List.map_congr_left
      intro other hother
      have hne : other ≠ id := by
        rintro rfl
        rcases h.listed name object hname other hother with ⟨chunk, hchunk, _⟩
        cases hchunk.symm.trans hnew
      rw [Function.update_of_ne hne]

/-- A tidy store with these contents. -/
def Represents (crc32 : Bytes → UInt32) (s : Services) (map : String → Option Bytes) : Prop :=
  ∃ pieces, Tidy crc32 [] pieces s ∧ contents pieces s = map

/-- Reads make no difference. -/
theorem Represents.same {map : String → Option Bytes} (h : Represents crc32 s map)
    (hsame : SameServices s s') : Represents crc32 s' map := by
  rcases h with ⟨pieces, htidy, rfl⟩
  refine ⟨pieces, htidy.same hsame, ?_⟩
  funext name
  simp only [contents, hsame.memory.objects]

/-- The stored objects, as downloads see them. -/
theorem Tidy.storedObject (h : Tidy crc32 [] pieces s)
    (hname : s.metadata.metadataStore.objects[name]? = some object) :
    StoredObject s name object pieces where
  stored := hname
  nodup := h.catalogued.nodup name object hname
  recorded id hid := by
    rcases h.catalogued.listed name object hname id hid with ⟨chunk, hchunk, howner⟩
    exact ⟨chunk, hchunk, (h.catalogued.placed id chunk hchunk).key, howner⟩
  data id hid address hreplica bytes hbytes := by
    rw [h.held id address nofun hreplica] at hbytes
    exact (Option.some.inj hbytes).symm
  nonempty id hid := by
    rcases h.catalogued.listed name object hname id hid with ⟨chunk, hchunk, _⟩
    exact (h.whole id chunk hchunk).1

/-- Every chunk of a stored object can be read, and all its replicas are registered. -/
theorem Tidy.live (h : Tidy crc32 [] pieces s)
    (hname : s.metadata.metadataStore.objects[name]? = some object) :
    StorageMetadata.Resolvable s.metadata.metadataStore object.chunks ∧
      ∀ id ∈ object.chunks, ApiGateway.Live s id := by
  constructor
  · intro id hid
    rcases h.catalogued.listed name object hname id hid with ⟨chunk, hchunk, _⟩
    exact ⟨chunk, hchunk, (h.catalogued.placed id chunk hchunk).registered⟩
  · intro id hid
    rcases h.catalogued.listed name object hname id hid with ⟨chunk, hchunk, _⟩
    have hplaced := h.catalogued.placed id chunk hchunk
    rcases List.exists_mem_of_ne_nil _ hplaced.replicated with ⟨nodeId, hnodeId⟩
    rcases HashMap.mem_iff_exists_getElem?.mp (hplaced.registered nodeId hnodeId) with
      ⟨node, hnode⟩
    have hreplica : Replica s id node.address :=
      replica_iff.mpr ⟨chunk, nodeId, node, hchunk, hnodeId, hnode, rfl⟩
    exact ⟨node.address, hreplica, by simp [h.held id node.address nofun hreplica]⟩

end System
end ObjectStore
