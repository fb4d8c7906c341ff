import ObjectStore.Library.KeyValue
import ObjectStore.System.Answers
import ObjectStore.System.Tidy

/-!
# System - Listings of a store at rest

A listing of a tidy store shows every object with all its bytes.

Main definitions:

- `Listed`: what `list_objects` of the metadata node replies.
- `Displays`: what a listing responds when the store has certain contents.

Main results:

- Theorem `handleListObjects_displays`: a listing shows the contents.
-/

namespace ObjectStore
namespace System

open ApiGateway (HttpResult Library ListObjectsResponseChunk ListObjectsResponsePayload Replica
  StatusCode connectFirst content handleListObjects listChunk listChunks listEach)
open Deployment (Environment Services)
open StorageMetadata (MetadataStore)
open StorageMetadata.Proto (MetaChunk MetaObject MetaStorageNode)

variable {env : Environment} {lib : Library} {debug : StatusCode × String → String}
  {crc32 : Bytes → UInt32} {pieces : UInt64 → Bytes} {s s' : Services}
  {map : String → Option Bytes}

/-! ## One chunk -/

/-- The first storage node that is asked accepts the connection. -/
theorem connectFirst_connects {nodes : List MetaStorageNode} (hnodes : nodes ≠ [])
    (hup : ∀ node ∈ nodes, node.address ∈ s.nodes) :
    (connectFirst none nodes).Ensures (RoomyStep env)
      (fun result s' => (∃ node ∈ nodes, result = .ok node.address) ∧ s' = s) s := by
  cases nodes with
  | nil => exact absurd rfl hnodes
  | cons node nodes =>
      intro connected s₁ hconnected
      rcases connect_answered (hup node List.mem_cons_self) hconnected.1 with ⟨rfl, rfl⟩
      exact ⟨⟨node, List.mem_cons_self, rfl⟩, rfl⟩

/-- The chunk is listed with replicas of it, at least one. -/
structure Shown (s : Services) (chunk : MetaChunk) : Prop where
  replicated : chunk.storageNodes ≠ []
  replicas : ∀ node ∈ chunk.storageNodes, Replica s chunk.id node.address

/-- A chunk is shown with its data. -/
theorem listChunk_shows {chunk : MetaChunk} (htidy : Tidy crc32 [] pieces s)
    (h : Shown s chunk) :
    (listChunk lib debug chunk).Ensures (RoomyStep env)
      (fun result s' => (∃ payload, result = .ok payload ∧
        payload.bytes = lib.encode (pieces chunk.id)) ∧ s' = s) s := by
  have hheld : ∀ node ∈ chunk.storageNodes,
      s.dataAt node.address chunk.id = some (pieces chunk.id) :=
    fun node hnode => htidy.held chunk.id node.address nofun (h.replicas node hnode)
  have hup : ∀ node ∈ chunk.storageNodes, node.address ∈ s.nodes := by
    intro node hnode
    rcases Services.dataAt_eq_some_iff.mp (hheld node hnode) with ⟨held, hmem, _⟩
    exact HashMap.mem_iff_exists_getElem?.mpr ⟨held, hmem⟩
  unfold listChunk
  rw [if_neg (by simp [h.replicated])]
  refine .of_bind ((connectFirst_connects h.replicated hup).mono ?_)
  rintro result s₁ ⟨⟨node, hnode, rfl⟩, rfl⟩
  intro read s₂ hread
  rcases readChunk_answered (hheld node hnode) hread.1 with ⟨rfl, rfl⟩
  exact ⟨⟨_, rfl, rfl⟩, rfl⟩

/-! ## All chunks of all objects -/

theorem listChunks_show {chunks : List MetaChunk} (htidy : Tidy crc32 [] pieces s)
    (h : ∀ chunk ∈ chunks, Shown s chunk) :
    (listChunks lib debug chunks).Ensures (RoomyStep env)
      (fun result s' => (∃ payloads, result = .ok payloads ∧
        payloads.map (·.bytes) = chunks.map fun chunk => lib.encode (pieces chunk.id)) ∧
          s' = s) s := by
  induction chunks with
  | nil => exact ⟨⟨[], rfl, rfl⟩, rfl⟩
  | cons chunk chunks ih =>
      rw [List.forall_mem_cons] at h
      refine .of_bind ((listChunk_shows htidy h.1).mono ?_)
      rintro result s₁ ⟨⟨payload, rfl, hbytes⟩, rfl⟩
      refine .of_bind ((ih h.2).mono ?_)
      rintro result s₂ ⟨⟨payloads, rfl, hpayloads⟩, rfl⟩
      refine ⟨⟨payload :: payloads, rfl, ?_⟩, rfl⟩
      rw [List.map_cons, List.map_cons, hbytes, hpayloads]

/-- The payload shows this entry: its name, and its bytes in encoded parts. -/
def ShowsEntry (lib : Library) (entry : String × Bytes) (payload : ListObjectsResponsePayload) :
    Prop :=
  payload.name = entry.1 ∧ ∃ parts : List Bytes,
    payload.chunks.map (·.bytes) = parts.map lib.encode ∧ parts.flatten = entry.2

/-- What an object is shown as. -/
def entryOf (pieces : UInt64 → Bytes) (object : MetaObject) : String × Bytes :=
  (object.name, (object.chunks.map fun chunk => pieces chunk.id).flatten)

/-- The objects are shown in the order in which they are listed. -/
theorem listEach_shows {objects : List MetaObject} (htidy : Tidy crc32 [] pieces s)
    (h : ∀ object ∈ objects, ∀ chunk ∈ object.chunks, Shown s chunk) :
    (listEach lib debug objects).Ensures (RoomyStep env)
      (fun result s' => (∃ payloads, result = .ok payloads ∧
        List.Forall₂ (ShowsEntry lib) (objects.map (entryOf pieces)) payloads) ∧ s' = s) s := by
  induction objects with
  | nil => exact ⟨⟨[], rfl, .nil⟩, rfl⟩
  | cons object objects ih =>
      rw [List.forall_mem_cons] at h
      refine .of_bind ((listChunks_show htidy h.1).mono ?_)
      rintro result s₁ ⟨⟨chunks, rfl, hchunks⟩, rfl⟩
      refine .of_bind ((ih h.2).mono ?_)
      rintro result s₂ ⟨⟨payloads, rfl, hpayloads⟩, rfl⟩
      have hbytes : chunks.map (·.bytes) =
          (object.chunks.map fun chunk => pieces chunk.id).map lib.encode := by
        rw [hchunks, List.map_map]
        rfl
      exact ⟨⟨_, rfl, .cons ⟨rfl, _, hbytes, rfl⟩ hpayloads⟩, rfl⟩

/-! ## The listing -/

/-- What `list_objects` of the metadata node replies: every object, in any order. -/
def Listed (s : Services) (objects : List MetaObject) : Prop :=
  objects.Perm s.metadata.listObjects

/-- What a listing responds when the store has these contents. -/
def Displays (lib : Library) (map : String → Option Bytes)
    (response : HttpResult (List ListObjectsResponsePayload)) : Prop :=
  ∃ entries payloads, response = .ok payloads ∧ Library.KeyValue.Lists map entries ∧
    List.Forall₂ (ShowsEntry lib) entries payloads

/-- Each stored object is listed. -/
theorem mem_listObjects {object : MetaObject} : object ∈ s.metadata.listObjects ↔
    ∃ (name : String) (stored : StorageMetadata.MetaObject),
      s.metadata.metadataStore.objects[name]? = some stored ∧
        StorageMetadata.StorageMetadataImpl.listedObject s.metadata.metadataStore stored =
          object := by
  simp only [StorageMetadata.StorageMetadataImpl.listObjects, List.mem_map,
    MetadataStore.listObjects, HashMap.mem_valueList]
  constructor
  · rintro ⟨stored, ⟨name, hname⟩, rfl⟩
    exact ⟨name, stored, hname, rfl⟩
  · rintro ⟨name, stored, hname, rfl⟩
    exact ⟨stored, ⟨name, hname⟩, rfl⟩

/-- What is listed of an object's chunks are their records. -/
theorem listedObject_chunks {object : StorageMetadata.MetaObject} {name : String}
    (htidy : Tidy crc32 [] pieces s)
    (hname : s.metadata.metadataStore.objects[name]? = some object) :
    (StorageMetadata.StorageMetadataImpl.listedObject s.metadata.metadataStore object).chunks.map
        (·.id) = object.chunks ∧
      ∀ chunk ∈ (StorageMetadata.StorageMetadataImpl.listedObject
        s.metadata.metadataStore object).chunks, Shown s chunk := by
  rcases ApiGateway.response_chunks (htidy.storedObject hname) with ⟨hids, hchunks⟩
  refine ⟨hids, fun chunk hchunk => ?_⟩
  rcases hchunks chunk hchunk with ⟨hid, hreplica⟩
  constructor
  · rcases (htidy.live hname).2 chunk.id hid with ⟨address, haddress, _⟩
    rcases (hreplica address).mp haddress with ⟨node, hnode, _⟩
    exact List.ne_nil_of_mem hnode
  · intro node hnode
    exact (hreplica node.address).mpr ⟨node, hnode, rfl⟩

/-- The entries shown are those of the store. -/
theorem lists_entries {objects : List MetaObject} (htidy : Tidy crc32 [] pieces s)
    (h : Listed s objects) :
    Library.KeyValue.Lists (contents pieces s) (objects.map (entryOf pieces)) := by
  have hentry : ∀ (name : String) (object : StorageMetadata.MetaObject),
      s.metadata.metadataStore.objects[name]? = some object →
      entryOf pieces (StorageMetadata.StorageMetadataImpl.listedObject
        s.metadata.metadataStore object) = (name, content object pieces) := by
    intro name object hname
    have hids := (listedObject_chunks htidy hname).1
    have hcontent : content object pieces = ((StorageMetadata.StorageMetadataImpl.listedObject
        s.metadata.metadataStore object).chunks.map fun chunk => pieces chunk.id).flatten := by
      rw [content, ← hids, List.map_map]
      rfl
    rw [hcontent]
    exact Prod.ext (htidy.catalogued.named name object hname) rfl
  constructor
  · have hnames : ((s.metadata.listObjects.map (entryOf pieces)).map Prod.fst).Nodup := by
      have hnodup : (s.metadata.metadataStore.objects.valueList.map (·.name)).Nodup :=
        HashMap.nodup_map_valueList _ htidy.catalogued.named
      rw [StorageMetadata.StorageMetadataImpl.listObjects, List.map_map, List.map_map]
      exact hnodup
    exact ((h.map _).map _).nodup_iff.mpr hnames
  · intro key value
    rw [(h.map _).mem_iff, List.mem_map]
    constructor
    · rintro ⟨object, hobject, heq⟩
      rcases mem_listObjects.mp hobject with ⟨name, stored, hname, rfl⟩
      rw [hentry name stored hname] at heq
      cases heq
      simp [contents, hname]
    · intro hvalue
      rcases Option.map_eq_some_iff.mp hvalue with ⟨stored, hname, rfl⟩
      exact ⟨_, mem_listObjects.mpr ⟨key, stored, hname, rfl⟩, hentry key stored hname⟩

/-- A listing shows the contents, and changes nothing. -/
theorem handleListObjects_displays {objects : List MetaObject} (h : Represents crc32 s map)
    (hlisted : Listed s objects) :
    (handleListObjects lib debug (.ok objects)).Ensures (RoomyStep env)
      (fun response s' => Displays lib map response ∧ s' = s) s := by
  rcases h with ⟨pieces, htidy, rfl⟩
  have hshown : ∀ object ∈ objects, ∀ chunk ∈ object.chunks, Shown s chunk := by
    intro object hobject
    rcases mem_listObjects.mp (hlisted.mem_iff.mp hobject) with ⟨name, stored, hname, rfl⟩
    exact (listedObject_chunks htidy hname).2
  refine (listEach_shows htidy hshown).mono ?_
  rintro response s' ⟨⟨payloads, rfl, hpayloads⟩, rfl⟩
  exact ⟨⟨_, payloads, rfl, lists_entries htidy hlisted, hpayloads⟩, rfl⟩

end System
end ObjectStore
