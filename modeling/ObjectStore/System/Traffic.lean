import ObjectStore.ReplicationService.Concurrency
import ObjectStore.System.InFlight

/-!
# System - What programs in flight are answered

Every call that the rule allows is answered with one of the expected replies, and the store
stays afloat.  This is the protocol that uploads and replication cycles follow.

Main definitions:

- `InFlight`: a store that is afloat.
- `traffic`: the protocol.

Main results:

- Theorem `InFlight.step`: every call that keeps to the rule keeps the store afloat.
- Theorem `InFlight.represents`: when all hands are empty, the store is at rest.
-/

namespace ObjectStore
namespace System

open ApiGateway (content)
open Deployment (Call Environment SameServices Services Step)
open Library (Owned Separate)
open StorageMetadata (MetaChunk)
open StorageMetadata.Proto (AllocateChunkResponse UnderReplicatedChunk)

variable {crc32 : Bytes → UInt32} {base : String → Option Bytes} {pieces : UInt64 → Bytes}
  {t s s' : Services} {hands : Nat → Hand} {i : Nat} {name address : String} {id : UInt64}
  {bytes : Bytes} {env : Environment}

/-- The store is afloat. -/
def InFlight (crc32 : Bytes → UInt32) (base : String → Option Bytes) (s : Services)
    (hands : Nat → Hand) : Prop :=
  ∃ pieces t, Afloat crc32 base pieces t s hands

/-- The reply was to be expected, and the store is afloat with the hand after it. -/
def Continues (crc32 : Bytes → UInt32) (base : String → Option Bytes) (s : Services)
    (hands : Nat → Hand) (i : Nat) (after : Hand → Prop) : Prop :=
  ∃ hand, after hand ∧ InFlight crc32 base s (Function.update hands i hand)

/-- A node that holds data is there. -/
theorem mem_nodes_of_data (hbytes : s.dataAt address id = some bytes) : address ∈ s.nodes := by
  rcases Services.dataAt_eq_some_iff.mp hbytes with ⟨node, hnode, _⟩
  exact HashMap.mem_iff_exists_getElem?.mpr ⟨node, hnode⟩

namespace Afloat

variable (h : Afloat crc32 base pieces t s hands)

include h

theorem chunksKeyed : ReplicationService.ChunksKeyed s := by
  intro id chunk hchunk
  rcases h.pending id chunk hchunk with hsettled | ⟨j, node, hj⟩
  · exact (h.tidy.catalogued.placed id chunk hsettled).key
  · rcases ((h.backed j).reserved id node hj).2.2 with ⟨name, _, _, hrecord⟩
    cases hchunk.symm.trans hrecord
    rfl

/-- Only records that are settled are confirmed. -/
theorem settled_of_confirmed {chunk : MetaChunk}
    (hchunk : s.metadata.metadataStore.chunks[id]? = some chunk)
    (hstatus : chunk.status = .confirmed) :
    t.metadata.metadataStore.chunks[id]? = some chunk := by
  rcases h.pending id chunk hchunk with hsettled | ⟨j, node, hj⟩
  · exact hsettled
  · rcases ((h.backed j).reserved id node hj).2.2 with ⟨name, _, _, hrecord⟩
    cases hchunk.symm.trans hrecord
    cases hstatus

theorem registered_ne : s.metadata.metadataStore.storageNodes.valueList ≠ [] := by
  rw [h.registry]
  exact h.tidy.registered

theorem node_reachable {node : StorageMetadata.Proto.MetaStorageNode}
    (hnode : node ∈ (hands i).nodes) : node.address ∈ s.nodes := by
  have hregistered := (h.backed i).nodes node hnode
  rw [← h.registry] at hregistered
  exact h.reachable _ (HashMap.mem_valueList.mpr ⟨node.id, hregistered⟩)

/-- Data of a recorded chunk is the same everywhere, recorded or not. -/
theorem data_eq (hid : id ∈ t.metadata.metadataStore.chunks)
    (hbytes : s.dataAt address id = some bytes) : bytes = pieces id := by
  rcases h.extra address id bytes hbytes with hsettled | ⟨j, found, hj⟩
  · have hreplica := (h.tidy.owned id address bytes hsettled).2
    rw [h.tidy.held id address nofun hreplica] at hsettled
    exact (Option.some.inj hsettled).symm
  · rcases (h.backed j).written address id found hj with
      ⟨hfound, _, ⟨node, howner, _⟩ | ⟨_, _, hcopy⟩⟩
    · rcases HashMap.mem_iff_exists_getElem?.mp hid with ⟨chunk, hchunk⟩
      cases hchunk.symm.trans ((h.backed j).reserved id node howner).2.1
    · rw [← hcopy]
      exact Option.some.inj (hbytes.symm.trans hfound)

/-- A name without bytes was free from the start. -/
theorem base_eq_none (hnone : contents pieces t name = none) : base name = none := by
  rcases h.frame name with hbase | ⟨j, bytes, hj⟩
  · exact hbase.symm.trans hnone
  · cases hnone.symm.trans ((h.backed j).object name bytes hj).2

/-! ## The calls -/

/-- Nothing has changed, and nothing has been learnt. -/
theorem stays (hsame : SameServices s s') :
    InFlight crc32 base s' (Function.update hands i (hands i)) := by
  rw [Function.update_eq_self]
  exact ⟨pieces, t, h.same hsame⟩

/-- The nodes that have been listed are registered. -/
theorem listStorageNodes
    {reply : Except Status (List StorageMetadata.Proto.MetaStorageNode)}
    (hstep : Step env .none s (.metadata .listStorageNodes) reply s') :
    Continues crc32 base s' hands i fun after => ∃ nodes, reply = .ok nodes ∧ nodes ≠ [] ∧
      after = { hands i with nodes := nodes ++ (hands i).nodes } := by
  rcases listStorageNodes_answered hstep with ⟨nodes, rfl, hperm, hsame⟩
  have hnonempty : nodes ≠ [] := by
    intro hnil
    rw [hnil] at hperm
    have hlength := hperm.length_eq
    simp only [StorageMetadata.StorageMetadataImpl.listStorageNodes,
      StorageMetadata.MetadataStore.listStorageNodes, List.length_nil, List.length_map] at hlength
    exact h.registered_ne (List.length_eq_zero_iff.mp hlength.symm)
  have hlisted : ∀ node ∈ nodes,
      t.metadata.metadataStore.storageNodes[node.id]? = some ⟨node.id, node.address⟩ := by
    intro node hnode
    rcases List.mem_map.mp (hperm.mem_iff.mp hnode) with ⟨registered, hregistered, rfl⟩
    rcases HashMap.mem_valueList.mp hregistered with ⟨key, hkey⟩
    rw [h.registry] at hkey
    have hid : registered.id = key := h.tidy.catalogued.keyed key registered hkey
    rw [← hid] at hkey
    exact hkey
  have hi := (h.same hsame).backed i
  refine ⟨_, ⟨nodes, rfl, hnonempty, rfl⟩, pieces, t, (h.same hsame).learn ?_ rfl rfl rfl⟩
  refine { hi with nodes := fun node hnode => ?_, reserved := fun id node hid => ?_ }
  · exact (List.mem_append.mp hnode).elim (hlisted node) (hi.nodes node)
  · exact ⟨List.mem_append_right _ (hi.reserved id node hid).1, (hi.reserved id node hid).2⟩

/-- The chunks that have been listed are stored. -/
theorem listUnderReplicatedChunks {maxReplicas : UInt32}
    {reply : Except Status (List UnderReplicatedChunk)}
    (hstep : Step env .none s (.metadata (.listUnderReplicatedChunks maxReplicas)) reply s') :
    Continues crc32 base s' hands i fun after =>
      (∃ status, reply = .error status) ∧ after = hands i ∨ ∃ chunks, reply = .ok chunks ∧
        after = { hands i with chunks := chunks.map (·.chunkId) ++ (hands i).chunks } := by
  have hsame := hstep.reads trivial
  cases reply with
  | error status => exact ⟨hands i, .inl ⟨⟨status, rfl⟩, rfl⟩, h.stays hsame⟩
  | ok chunks =>
      have hlisted : ∀ id ∈ chunks.map (·.chunkId), id ∈ t.metadata.metadataStore.chunks := by
        intro id hid
        rcases List.mem_map.mp hid with ⟨chunk, hchunk, rfl⟩
        rcases ReplicationService.Step.under_replicated h.chunksKeyed hstep chunk hchunk with
          ⟨record, hrecord⟩
        exact HashMap.mem_iff_exists_getElem?.mpr
          ⟨record, h.settled_of_confirmed hrecord.stored hrecord.confirmed⟩
      have hi := (h.same hsame).backed i
      refine ⟨_, .inr ⟨chunks, rfl, rfl⟩, pieces, t, (h.same hsame).learn ?_ rfl rfl rfl⟩
      refine { hi with chunks := fun id hid => ?_ }
      exact (List.mem_append.mp hid).elim (hlisted id) (hi.chunks id)

/-- What is read of a listed chunk is its data. -/
theorem readChunk {reply : Except Status StorageNode.ReadChunkResponse}
    (hid : id ∈ (hands i).chunks)
    (hstep : Step env .none s (.storageNode address (.readChunk id)) reply s') :
    Continues crc32 base s' hands i fun after =>
      (∃ status, reply = .error status) ∧ after = hands i ∨ ∃ response, reply = .ok response ∧
        after = { hands i with copies := (id, response.chunkBytes) :: (hands i).copies } := by
  have hsame := hstep.reads trivial
  cases reply with
  | error status => exact ⟨hands i, .inl ⟨⟨status, rfl⟩, rfl⟩, h.stays hsame⟩
  | ok response =>
      have hbytes : s.dataAt address id = some response.chunkBytes := by
        have heffect := (hstep.storageNode_effect (by decide)).2.2
        generalize s'.nodes = nodes at heffect
        cases heffect with
        | readChunk hnode hlive => exact Services.dataAt_eq_some_iff.mpr ⟨_, hnode, hlive⟩
      have hmem := (h.backed i).chunks id hid
      have hi := (h.same hsame).backed i
      refine ⟨_, .inr ⟨response, rfl, rfl⟩, pieces, t, (h.same hsame).learn ?_ rfl rfl rfl⟩
      refine { hi with copies := fun copy hcopy => ?_ }
      rcases List.mem_cons.mp hcopy with rfl | hcopy
      · exact ⟨hmem, h.data_eq hmem hbytes⟩
      · exact hi.copies copy hcopy

/-- A name is created by one upload, and refused to the others. -/
theorem putObject {checksum : UInt32} {reply : Except Status Unit}
    (hobject : (hands i).object = none)
    (hstep : Step env .none s (.metadata (.putObject checksum name)) reply s') :
    Continues crc32 base s' hands i fun after =>
      reply = .ok () ∧ after = { hands i with object := some (name, []) } ∨
        (∃ status, reply = .error status) ∧ after = { hands i with refused := some name } := by
  cases hfound : s.metadata.metadataStore.objects[name]? with
  | none =>
      rcases putObject_answered hfound hstep with ⟨rfl, hnodes, hmemory⟩
      have hfree : t.metadata.metadataStore.objects[name]? = none := by
        rw [← h.objects]
        exact hfound
      have hnone : contents pieces t name = none := contents_eq_none_iff.mpr hfree
      have hcatalogued : Catalogued (t.metadata.metadataStore.withObject name
          (.new name checksum)) := by
        refine h.tidy.catalogued.insertObject nofun (fun found hother => ?_) .nil rfl
        cases hfree.symm.trans hother
      rcases h.insertObject hcatalogued rfl (h.base_eq_none hnone)
        (fun j w hj => absurd ((h.backed j).object name w hj).2 (by simp [hnone]))
        (fun other w hother => by cases hobject.symm.trans hother) hnodes hmemory with ⟨t', ht'⟩
      exact ⟨_, .inl ⟨rfl, rfl⟩, pieces, t', ht'⟩
  | some object =>
      rcases putObject_refused hfound hstep with ⟨hstatus, hsame⟩
      have htaken : contents pieces t name ≠ none := by
        rw [h.objects] at hfound
        simp [contents, hfound]
      have hi := (h.same hsame).backed i
      refine ⟨_, .inr ⟨hstatus, rfl⟩, pieces, t, (h.same hsame).learn ?_ rfl rfl rfl⟩
      refine { hi with refused := fun other hother => ?_ }
      cases hother
      exact htaken

/-- The reserved id is new. -/
theorem allocateChunk {checksum : UInt32} {reply : Except Status AllocateChunkResponse}
    (hobject : (hands i).object = some (name, bytes)) (hreserved : (hands i).reserved = none)
    (hwritten : (hands i).written = none)
    (hstep : Step env .none s (.metadata (.allocateChunk name checksum)) reply s') :
    Continues crc32 base s' hands i fun after =>
      ∃ id address nodeId, reply = .ok ⟨id, address, nodeId⟩ ∧ after = { hands i with
        nodes := ⟨nodeId, address⟩ :: (hands i).nodes,
        reserved := some (id, ⟨nodeId, address⟩) } := by
  rcases allocateChunk_answered h.registered_ne hstep with
    ⟨id, node, rfl, hnodes, hnew, hnode, hmemory⟩
  exact ⟨_, ⟨id, node.address, node.id, rfl, rfl⟩, pieces, t,
    h.reserve hobject hreserved hwritten hnew hnode hnodes hmemory⟩

/-- The data goes where nobody else writes. -/
theorem writeChunk {node : StorageMetadata.Proto.MetaStorageNode} {piece : Bytes}
    {reply : Except Status UInt64} (hreserved : (hands i).reserved = some (id, node))
    (hwritten : (hands i).written = none) (hpiece : piece ≠ [])
    (hstep : RoomyStep env s (.storageNode node.address (.writeChunk id piece)) reply s') :
    Continues crc32 base s' hands i fun after => (∃ value, reply = .ok value) ∧
      after = { hands i with written := some ((node.address, id), piece) } := by
  have haddress := h.node_reachable ((h.backed i).reserved id node hreserved).1
  have hfree := h.unwritten hreserved hwritten node.address
  rcases writeChunk_answered haddress hfree hstep with ⟨rfl, hmetadata, hnodes, hdata⟩
  exact ⟨_, ⟨⟨id, rfl⟩, rfl⟩, pieces, t, h.write hwritten hfree hmetadata hnodes hdata
    (.inl ⟨node, hreserved, rfl, hpiece⟩)⟩

/-- The record of an object that is being uploaded. -/
theorem uploading (hobject : (hands i).object = some (name, bytes)) :
    ∃ object, s.metadata.metadataStore.objects[name]? = some object ∧
      t.metadata.metadataStore.objects[name]? = some object ∧ content object pieces = bytes := by
  rcases Option.map_eq_some_iff.mp ((h.backed i).object name bytes hobject).2 with
    ⟨object, hfound, hcontent⟩
  rw [h.objects]
  exact ⟨object, hfound, hfound, hcontent⟩

/-- The object gets the chunk that has been written. -/
theorem confirmChunk {node : StorageMetadata.Proto.MetaStorageNode} {piece : Bytes}
    {reply : Except Status Unit} (hobject : (hands i).object = some (name, bytes))
    (hreserved : (hands i).reserved = some (id, node))
    (hwritten : (hands i).written = some ((node.address, id), piece))
    (hstep : Step env .none s (.metadata (.confirmChunk id name (crc32 piece) node.id)) reply s') :
    Continues crc32 base s' hands i fun after => reply = .ok () ∧ after =
      { hands i with
        object := some (name, bytes ++ piece), reserved := none, written := none } := by
  rcases h.uploading hobject with ⟨object, hfound, _, _⟩
  rcases (h.backed i).reserved id node hreserved with ⟨hnode, _, owner, w, howner, hpending⟩
  cases hobject.symm.trans howner
  have hregistered : node.id ∈ s.metadata.metadataStore.storageNodes := by
    rw [h.registry]
    exact HashMap.mem_iff_exists_getElem?.mpr ⟨_, (h.backed i).nodes node hnode⟩
  rcases confirmChunk_answered hfound hregistered hpending hstep with ⟨rfl, hnodes, hmemory⟩
  rcases h.attach hobject hreserved hwritten hfound hnodes hmemory with ⟨pieces', t', ht'⟩
  exact ⟨_, ⟨rfl, rfl⟩, pieces', t', ht'⟩

/-- The checksum of the upload's own object is set. -/
theorem updateObjectChecksum {checksum : UInt32} {totalSize : UInt64}
    {reply : Except Status Unit} (hobject : (hands i).object = some (name, bytes))
    (hstep :
      Step env .none s (.metadata (.updateObjectChecksum name checksum totalSize)) reply s') :
    Continues crc32 base s' hands i fun after => reply = .ok () ∧ after = hands i := by
  rcases h.uploading hobject with ⟨object, hfound, hsettled, hcontent⟩
  rcases updateObjectChecksum_answered hfound hstep with ⟨rfl, hnodes, hmemory⟩
  have hcatalogued : Catalogued (t.metadata.metadataStore.withObject name
      { object with checksum := checksum, totalSize := totalSize }) := by
    apply h.tidy.catalogued.insertObject
    · exact fun id hid => ⟨object, hsettled, hid⟩
    · intro found hother
      cases hsettled.symm.trans hother
      exact List.Subset.refl _
    · exact h.tidy.catalogued.nodup name object hsettled
    · exact h.tidy.catalogued.named name object hsettled
  rcases h.insertObject hcatalogued hcontent ((h.backed i).object name bytes hobject).1
    (fun j w hj => h.names j i name w bytes hj hobject)
    (fun other w hother => by cases hobject.symm.trans hother; rfl) hnodes hmemory with ⟨t', ht'⟩
  have hhand : { hands i with object := some (name, bytes) } = hands i := by
    rw [← hobject]
  rw [hhand] at ht'
  exact ⟨hands i, ⟨rfl, rfl⟩, pieces, t', ht'⟩

/-- A copy goes where no data is, or is refused. -/
theorem copyChunk {reply : Except Status UInt64} (hcopy : (id, bytes) ∈ (hands i).copies)
    (hreserved : (hands i).reserved = none) (hwritten : (hands i).written = none)
    (hstep : Step env .none s (.storageNode address (.writeChunk id bytes)) reply s') :
    Continues crc32 base s' hands i fun after =>
      (∃ status, reply = .error status) ∧ after = hands i ∨ (∃ value, reply = .ok value) ∧
        after = { hands i with written := some ((address, id), bytes) } := by
  cases reply with
  | error status =>
      exact ⟨hands i, .inl ⟨⟨status, rfl⟩, rfl⟩,
        h.stays (ReplicationService.storageNode_refused hstep.of_none)⟩
  | ok value =>
      have hother : ∀ request, Call.storageNode address (.writeChunk id bytes) ≠
          .metadata request := by
        simp
      rcases hstep.written with ⟨hfree, hdata⟩
      exact ⟨_, .inr ⟨⟨value, rfl⟩, rfl⟩, pieces, t, h.write hwritten hfree
        (hstep.metadata_eq hother) (mem_nodes_of_step hstep) hdata
        (.inr ⟨hreserved, (h.backed i).copies _ hcopy⟩)⟩

/-- The copy that has been written is recorded. -/
theorem addChunkReplica {node : StorageMetadata.Proto.MetaStorageNode}
    {reply : Except Status Unit} (hnode : node ∈ (hands i).nodes)
    (hreserved : (hands i).reserved = none)
    (hwritten : (hands i).written = some ((node.address, id), bytes))
    (hstep : Step env .none s (.metadata (.addChunkReplica id node.id)) reply s') :
    Continues crc32 base s' hands i fun after =>
      (∃ status, reply = .error status) ∧ after = hands i ∨
        reply = .ok () ∧ after = { hands i with written := none } := by
  rcases hstep.metadata_effect (by decide) with ⟨hnodes, _, m, heffect, hmemory⟩
  cases heffect with
  | refused status => exact ⟨hands i, .inl ⟨⟨status, rfl⟩, rfl⟩, h.stays ⟨hmemory, hnodes⟩⟩
  | addChunkReplica hchunk _ hnew _ =>
      rcases h.replicate hnode hreserved hwritten hchunk hnew hnodes hmemory with ⟨t', ht'⟩
      have hhand : { hands i with reserved := none, written := none } =
          { hands i with written := none } := by
        rw [← hreserved]
      rw [hhand] at ht'
      exact ⟨_, .inr ⟨rfl, rfl⟩, pieces, t', ht'⟩

/-- The copy that has been written is deleted again. -/
theorem deleteChunk {reply : Except Status UInt64} (hreserved : (hands i).reserved = none)
    (hwritten : (hands i).written = some ((address, id), bytes))
    (hstep : Step env .none s (.storageNode address (.deleteChunk id)) reply s') :
    Continues crc32 base s' hands i fun after => after = { hands i with written := none } := by
  have haddress := mem_nodes_of_data ((h.backed i).written address id bytes hwritten).1
  rcases deleteChunk_answered haddress hstep with ⟨_, hmetadata, hnodes, hdata⟩
  exact ⟨_, rfl, pieces, t, h.drop hreserved hwritten hmetadata hnodes hdata⟩

end Afloat

/-! ## The protocol -/

/-- Every call that keeps to the rule keeps the store afloat. -/
theorem InFlight.step (h : InFlight crc32 base s hands) {call : Call} {reply : call.Reply}
    {after : call.Reply → Hand → Prop} (hrule : Rule crc32 (hands i) call after)
    (hstep : RoomyStep env s call reply s') :
    Continues crc32 base s' hands i (after reply) := by
  rcases h with ⟨pieces, t, h⟩
  cases hrule with
  | read hreads => exact ⟨hands i, rfl, h.stays (hstep.1.reads hreads)⟩
  | connect hnode =>
      rcases connect_answered (h.node_reachable hnode) hstep.1 with ⟨hok, rfl⟩
      exact ⟨hands i, ⟨hok, rfl⟩, h.stays (.refl _)⟩
  | connectCached hnode =>
      rcases connectCached_answered (h.node_reachable hnode) hstep.1 with ⟨hok, hsame⟩
      exact ⟨hands i, ⟨hok, rfl⟩, h.stays hsame⟩
  | getChunkSize hnode =>
      rcases getChunkSize_answered (h.node_reachable hnode) hstep.1 with ⟨hok, hsame⟩
      exact ⟨hands i, ⟨⟨_, hok⟩, rfl⟩, h.stays hsame⟩
  | listStorageNodes => exact h.listStorageNodes hstep.1
  | listUnderReplicatedChunks maxReplicas => exact h.listUnderReplicatedChunks hstep.1
  | readChunk address hid => exact h.readChunk hid hstep.1
  | putObject checksum hobject => exact h.putObject hobject hstep.1
  | allocateChunk checksum hobject hreserved hwritten =>
      exact h.allocateChunk hobject hreserved hwritten hstep.1
  | writeChunk hreserved hwritten hpiece => exact h.writeChunk hreserved hwritten hpiece hstep
  | confirmChunk hobject hreserved hwritten =>
      exact h.confirmChunk hobject hreserved hwritten hstep.1
  | updateObjectChecksum checksum totalSize hobject => exact h.updateObjectChecksum hobject hstep.1
  | copyChunk address hcopy hreserved hwritten =>
      exact h.copyChunk hcopy hreserved hwritten hstep.1
  | addChunkReplica hnode hreserved hwritten =>
      exact h.addChunkReplica hnode hreserved hwritten hstep.1
  | deleteChunk hreserved hwritten => exact h.deleteChunk hreserved hwritten hstep.1

/-- The protocol that programs in flight follow. -/
def traffic (env : Environment) (crc32 : Bytes → UInt32) (base : String → Option Bytes) :
    Library.Protocol (RoomyStep env) Hand where
  rule := Rule crc32
  inv := InFlight crc32 base
  preserved h hrule hstep := h.step hrule hstep

/-- Nothing is in flight at first. -/
theorem Represents.inFlight (h : Represents crc32 s base) :
    InFlight crc32 base s fun _ => .empty := by
  rcases h with ⟨pieces, htidy, rfl⟩
  refine ⟨pieces, s, ?_⟩
  constructor
  · exact htidy
  · rfl
  · rfl
  · exact htidy.reachable
  · exact fun _ _ hchunk => hchunk
  · exact fun _ _ hchunk => .inl hchunk
  · exact fun _ _ _ hbytes => hbytes
  · exact fun _ _ _ hbytes => .inl hbytes
  · intro i
    constructor <;> simp [Hand.empty]
  · intro i j key v w hi
    cases hi
  · intro i j key v w hi
    cases hi
  · intro i j key v w hi
    cases hi
  · exact fun name => .inl rfl

/-- When nobody holds anything any more, the store is at rest, with the objects that have been
uploaded meanwhile. -/
theorem InFlight.represents (h : InFlight crc32 base s hands)
    (hreserved : ∀ i, (hands i).reserved = none) (hwritten : ∀ i, (hands i).written = none) :
    ∃ map, Represents crc32 s map ∧ Separate Hand.object hands ∧
      (∀ name, map name = base name ∨ Owned Hand.object hands name) ∧
      ∀ i, (∀ name bytes, (hands i).object = some (name, bytes) →
        base name = none ∧ map name = some bytes) ∧
        ∀ name, (hands i).refused = some name → map name ≠ none := by
  rcases h with ⟨pieces, t, h⟩
  have hchunks : s.metadata.metadataStore.chunks = t.metadata.metadataStore.chunks := by
    apply Std.ExtTreeMap.ext_getElem?
    intro id
    ext chunk
    constructor
    · intro hchunk
      rcases h.pending id chunk hchunk with hsettled | ⟨j, node, hj⟩
      · exact hsettled
      · cases (hreserved j).symm.trans hj
    · exact h.records id chunk
  have hdata : ∀ address id, s.dataAt address id = t.dataAt address id := by
    intro address id
    ext bytes
    constructor
    · intro hbytes
      rcases h.extra address id bytes hbytes with hsettled | ⟨j, found, hj⟩
      · exact hsettled
      · cases (hwritten j).symm.trans hj
    · exact h.data address id bytes
  have htidy : Tidy crc32 [] pieces s := by
    apply h.tidy.of_data
    · exact h.tidy.catalogued.of_memory ⟨h.objects, hchunks, h.registry⟩
    · exact hchunks
    · exact h.registry
    · exact h.reachable
    · exact hdata
  refine ⟨contents pieces t, ⟨pieces, htidy, ?_⟩, h.names, h.frame, fun i => ?_⟩
  · funext name
    simp only [contents, h.objects]
  · exact ⟨(h.backed i).object, (h.backed i).refused⟩

end System
end ObjectStore
